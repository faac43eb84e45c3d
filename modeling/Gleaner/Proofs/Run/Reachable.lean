import Gleaner.Proofs.Run.Turn

namespace Gleaner

open Session

variable {σ : Type} {env : Environment σ} {limit : Option Int}

-- The frame once its next instruction has been taken.
def Frame.advance (f : Frame) : Frame := { f with next := f.next + 1 }

-- What a turn that does not end the run makes of the frames.
inductive Moves : List Frame → List Frame → Prop
  | leave {f : Frame} {rest : List Frame} (hn : f.instructions[f.next]? = none) :
      Moves (f :: rest) rest
  | stay {f : Frame} {rest : List Frame} {i : Instruction}
      (hi : f.instructions[f.next]? = some i)
      (hc : ∀ test consequent alternative, i ≠ .condition test consequent alternative)
      (hj : ∀ name, i ≠ .jump name) : Moves (f :: rest) (f.advance :: rest)
  | branch {f : Frame} {rest : List Frame} {test : Condition} {consequent : List Instruction}
      {alternative : Option (List Instruction)} (opened : OpenEntry) {chosen : List Instruction}
      (hi : f.instructions[f.next]? = some (.condition test consequent alternative))
      (hb : chosen = consequent ∨ chosen = alternative.getD []) :
      Moves (f :: rest) (⟨chosen, 0, some opened⟩ :: f.advance :: rest)
  | jump {f : Frame} {rest left staying : List Frame} {name : String}
      (hi : f.instructions[f.next]? = some (.jump name))
      (hl : land? name (f.advance :: rest) = some (left, staying)) : Moves (f :: rest) staying

theorem chooseBranch_ok {opened : OpenEntry} {test : Condition} {consequent : List Instruction}
    {alternative : Option (List Instruction)} {chosen : List Instruction} {s t : Session σ}
    (h : chooseBranch env opened test consequent alternative s = (.ok chosen, t)) :
    chosen = consequent ∨ chosen = alternative.getD [] := by
  obtain ⟨isMet, u, -, h⟩ := Effect.bind_eq_ok h
  obtain ⟨_, v, -, h⟩ := Effect.bind_eq_ok h
  cases isMet with
  | true => exact .inl (Except.ok.inj (congrArg (·.1) h)).symm
  | false => exact .inr (Except.ok.inj (congrArg (·.1) h)).symm

-- An entry that is not kept open is closed, which leaves the frames as they are.
theorem carryOut_ok {opened : OpenEntry} {i : Instruction} {s t : Session σ}
    (h : carryOut env opened i s = (.ok (), t)) :
    ∃ keepsOpen u, dispatch env opened i s = (.ok keepsOpen, u) ∧ t.frames = u.frames := by
  obtain ⟨outcome, u, hd, h⟩ := Effect.bind_eq_ok h
  rw [Effect.attempt_apply, Prod.mk.injEq, Except.ok.injEq] at hd
  have hd' : dispatch env opened i s = (outcome, u) := Prod.ext hd.1 hd.2
  cases outcome with
  | ok keepsOpen =>
    refine ⟨keepsOpen, u, hd', ?_⟩
    cases keepsOpen with
    | true =>
      cases h
      rfl
    | false => exact (confined_close env opened).frames_eq h
  | error e =>
    obtain ⟨_, _, -, h⟩ := Effect.bind_eq_ok h
    cases h

theorem dispatch_moves {opened : OpenEntry} {f : Frame} {rest : List Frame} {i : Instruction}
    {keepsOpen : Bool} {s t : Session σ} (hi : f.instructions[f.next]? = some i)
    (hf : s.frames = f.advance :: rest) (h : dispatch env opened i s = (.ok keepsOpen, t)) :
    Moves (f :: rest) t.frames := by
  have hact : (∀ test consequent alternative, i ≠ .condition test consequent alternative) →
      (∀ name, i ≠ .jump name) →
      (do act env opened i; return false : Effect (Session σ) Bool) s = (.ok keepsOpen, t) →
      Moves (f :: rest) t.frames := by
    intro hc hj h
    obtain ⟨_, u, ha, h⟩ := Effect.bind_eq_ok h
    cases h
    rw [(confined_act env opened i).frames_eq ha, hf]
    exact .stay hi hc hj
  cases i with
  | condition test consequent alternative =>
    rw [dispatch] at h
    obtain ⟨chosen, u, hb, h⟩ := Effect.bind_eq_ok h
    have hu := (confined_chooseBranch env opened test consequent alternative).frames_eq hb
    cases h
    change Moves (f :: rest) (⟨chosen, 0, some opened⟩ :: u.frames)
    rw [hu, hf]
    exact .branch opened hi (chooseBranch_ok hb)
  | jump name =>
    rw [dispatch, Effect.bind_apply, Effect.get_apply] at h
    dsimp only at h
    rw [hf] at h
    cases hl : land? name (f.advance :: rest) with
    | none =>
      rw [hl] at h
      cases h
    | some landing =>
      obtain ⟨left, staying⟩ := landing
      rw [hl] at h
      obtain ⟨_, u, hset, h⟩ := Effect.bind_eq_ok h
      obtain ⟨_, v, hclose, h⟩ := Effect.bind_eq_ok h
      cases h
      rw [setFrames_apply] at hset
      cases hset
      rw [(confined_closeAll env _).frames_eq hclose]
      exact .jump hi hl
  | _ => exact hact (by intros; simp) (by intros; simp) h

theorem turn_moves {s t : Session σ} (h : turn env limit s = (.ok none, t)) :
    Moves s.frames t.frames := by
  cases hf : s.frames with
  | nil =>
    rw [turn_nil env limit s hf] at h
    cases h
  | cons f rest =>
    obtain ⟨goesOn, u, hc⟩ := checkpoint_ok env s
    cases goesOn with
    | false =>
      rw [turn_cancelled env limit hf hc] at h
      cases h
    | true =>
      cases hi : f.instructions[f.next]? with
      | none =>
        rw [turn_leave env limit hf hc hi] at h
        obtain ⟨_, v, hclose, h⟩ := Effect.bind_eq_ok h
        cases h
        rw [(confined_closeAll env _).frames_eq hclose]
        exact .leave hi
      | some i =>
        rw [turn_run env limit hf hc hi] at h
        obtain ⟨_, v, hcount, h⟩ := Effect.bind_eq_ok h
        obtain ⟨_, w, hrun, h⟩ := Effect.bind_eq_ok h
        cases h
        obtain ⟨opened, x, hopen, hcarry⟩ := Effect.bind_eq_ok hrun
        obtain ⟨keepsOpen, y, hd, hy⟩ := carryOut_ok hcarry
        rw [hy]
        have hv : v.frames = f.advance :: rest := countStep_frames hcount
        exact dispatch_moves hi ((confined_openEntry env i).frames_eq hopen |>.trans hv) hd

-- The states of the runs of a script between two turns.
inductive Reachable (env : Environment σ) (limit : Option Int) (script : List Instruction) :
    Session σ → Prop
  | start (world : σ) (entries : Array Entry) :
      Reachable env limit script ⟨world, entries, [⟨script, 0, none⟩], 0⟩
  | turn {s t : Session σ} (hs : Reachable env limit script s)
      (ht : Gleaner.turn env limit s = (.ok none, t)) : Reachable env limit script t

-- A loop that fails does so in a turn of its own, if it was not cut short.
theorem loop_error {script : List Instruction} {fuel : Nat} {s t : Session σ} {e : Failure}
    (hs : Reachable env limit script s) (h : loop env limit fuel s = (.error e, t)) :
    e = .unfinished ∨ ∃ u, Reachable env limit script u ∧ turn env limit u = (.error e, t) := by
  induction fuel generalizing s with
  | zero =>
    cases h
    exact .inl rfl
  | succ fuel ih =>
    rw [loop_succ] at h
    rcases ht : turn env limit s with ⟨e' | ending, u⟩
    · rw [ht] at h
      cases h
      exact .inr ⟨s, hs, ht⟩
    · rw [ht] at h
      cases ending with
      | none => exact ih (hs.turn ht) h
      | some ending => cases h

end Gleaner
