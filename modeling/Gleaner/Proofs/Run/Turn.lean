import Gleaner.Proofs.Run.Confined

namespace Gleaner

open Session

-- A jump lands if and only if one of the lists has its marker.
theorem land?_isSome (name : String) (frames : List Frame) :
    (land? name frames).isSome =
      (frames.map (·.instructions)).any fun is => (markerIndex? name is).isSome := by
  induction frames with
  | nil => rfl
  | cons f rest ih =>
    cases hm : markerIndex? name f.instructions with
    | some place => simp [land?, hm]
    | none =>
      simp only [land?, hm, List.map_cons, List.any_cons, ← ih]
      cases land? name rest <;> rfl

-- The frames that are left and those that stay are all there are.
theorem land?_length {name : String} {frames left staying : List Frame}
    (h : land? name frames = some (left, staying)) :
    left.length + staying.length = frames.length := by
  induction frames generalizing left staying with
  | nil => cases h
  | cons f rest ih =>
    cases hm : markerIndex? name f.instructions with
    | some place =>
      simp only [land?, hm, Option.some.injEq, Prod.mk.injEq] at h
      obtain ⟨rfl, rfl⟩ := h
      simp
    | none =>
      simp only [land?, hm, Option.map_eq_some_iff, Prod.mk.injEq] at h
      obtain ⟨⟨left', staying'⟩, hl, rfl, rfl⟩ := h
      have := ih hl
      simp only [List.length_cons]
      omega

variable {σ : Type} (env : Environment σ) (limit : Option Int)

theorem loop_succ (fuel : Nat) (s : Session σ) :
    loop env limit (fuel + 1) s = match turn env limit s with
      | (.ok (some ending), t) => (.ok ending, t)
      | (.ok none, t) => loop env limit fuel t
      | (.error e, t) => (.error e, t) := by
  rw [loop, Effect.bind_apply]
  rcases turn env limit s with ⟨⟨e⟩ | ⟨ending | ending⟩, t⟩ <;> rfl

theorem checkpoint_ok (s : Session σ) : ∃ goesOn t, checkpoint env s = (.ok goesOn, t) := by
  unfold checkpoint
  rw [Effect.bind_apply, observe_apply]
  dsimp only
  split
  · exact ⟨_, _, rfl⟩
  · exact ⟨_, _, rfl⟩

-- What counting a step makes of a run.
theorem countStep_apply (most : Int) (s : Session σ) :
    countStep (some most) s = if most < s.steps + 1
      then (.error (.stepLimit most), { s with steps := s.steps + 1 })
      else (.ok (), { s with steps := s.steps + 1 }) := by
  unfold countStep
  rw [Effect.bind_apply, Effect.modify_apply]
  dsimp only
  rw [Effect.bind_apply, Effect.get_apply]
  dsimp only
  push_cast
  split <;> rfl

-- The lists being run have no part in it.
theorem countStep_under (limit : Option Int) (s : Session σ) (frames : List Frame) :
    countStep limit { s with frames } =
      ((countStep limit s).1, { s with frames, steps := s.steps + 1 }) := by
  cases limit with
  | none => rfl
  | some most =>
    rw [countStep_apply, countStep_apply]
    split <;> rfl

theorem countStep_frames {limit : Option Int} {s t : Session σ} {outcome : Except Failure Unit}
    (h : countStep limit s = (outcome, t)) : t.frames = s.frames := by
  cases limit with
  | none =>
    cases h
    rfl
  | some most =>
    rw [countStep_apply] at h
    split at h <;> (cases h; rfl)

theorem countStep_error {limit : Option Int} {s t : Session σ} {e : Failure}
    (h : countStep limit s = (.error e, t)) : ∃ most, limit = some most ∧ e = .stepLimit most := by
  cases limit with
  | none => cases h
  | some most =>
    rw [countStep_apply] at h
    split at h
    · cases h
      exact ⟨most, rfl, rfl⟩
    · cases h

theorem turn_nil (s : Session σ) (h : s.frames = []) :
    turn env limit s = (.ok (some .completed), s) := by
  rw [turn, Effect.bind_apply, Effect.get_apply]
  simp [h]

-- The turn of a run that is cancelled while it waits.
theorem turn_cancelled {s t : Session σ} {f : Frame} {rest : List Frame}
    (hf : s.frames = f :: rest) (hc : checkpoint env s = (.ok false, t)) :
    turn env limit s = (.ok (some .cancelled), t) := by
  rw [turn, Effect.bind_apply, Effect.get_apply]
  simp [hf, Effect.bind_apply, hc]

-- The turn that leaves a list that is used up.
theorem turn_leave {s t : Session σ} {f : Frame} {rest : List Frame}
    (hf : s.frames = f :: rest) (hc : checkpoint env s = (.ok true, t))
    (hn : f.instructions[f.next]? = none) :
    turn env limit s =
      (do closeAll env f.owner.toList; return none) { t with frames := rest } := by
  rw [turn, Effect.bind_apply, Effect.get_apply]
  simp only [hf]
  rw [Effect.bind_apply, hc]
  simp only [Bool.not_true, Bool.false_eq_true, ite_false, hn]
  exact Effect.bind_ok rfl _

-- The turn that runs an instruction.
theorem turn_run {s t : Session σ} {f : Frame} {rest : List Frame} {i : Instruction}
    (hf : s.frames = f :: rest) (hc : checkpoint env s = (.ok true, t))
    (hi : f.instructions[f.next]? = some i) :
    turn env limit s = (do countStep limit; execute env i; return none)
      { t with frames := { f with next := f.next + 1 } :: rest } := by
  rw [turn, Effect.bind_apply, Effect.get_apply]
  simp only [hf]
  rw [Effect.bind_apply, hc]
  simp only [Bool.not_true, Bool.false_eq_true, ite_false, hi]
  exact Effect.bind_ok rfl _

-- A run is over when there is no list left, or when a checkpoint says so.
theorem turn_ends {s t : Session σ} {ending : Ending}
    (h : turn env limit s = (.ok (some ending), t)) :
    ending = .completed ∧ s.frames = [] ∧ t = s ∨
      ending = .cancelled ∧ checkpoint env s = (.ok false, t) := by
  cases hf : s.frames with
  | nil =>
    rw [turn_nil env limit s hf] at h
    cases h
    exact .inl ⟨rfl, rfl, rfl⟩
  | cons f rest =>
    obtain ⟨goesOn, u, hc⟩ := checkpoint_ok env s
    cases goesOn with
    | false =>
      rw [turn_cancelled env limit hf hc] at h
      cases h
      exact .inr ⟨rfl, hc⟩
    | true =>
      cases hi : f.instructions[f.next]? with
      | none =>
        rw [turn_leave env limit hf hc hi] at h
        obtain ⟨_, _, _, h⟩ := Effect.bind_eq_ok h
        cases h
      | some i =>
        rw [turn_run env limit hf hc hi] at h
        obtain ⟨_, _, _, h⟩ := Effect.bind_eq_ok h
        obtain ⟨_, _, _, h⟩ := Effect.bind_eq_ok h
        cases h

theorem loop_ends {n : Nat} {s t : Session σ} {ending : Ending}
    (h : loop env limit n s = (.ok ending, t)) :
    ending = .completed ∧ t.frames = [] ∨
      ending = .cancelled ∧ ∃ u, checkpoint env u = (.ok false, t) := by
  induction n generalizing s with
  | zero => cases h
  | succ n ih =>
    rw [loop_succ] at h
    rcases ht : turn env limit s with ⟨e | _ | last, u⟩ <;> rw [ht] at h
    · cases h
    · exact ih h
    · cases h
      rcases turn_ends env limit ht with ⟨hlast, hnil, rfl⟩ | ⟨hlast, hc⟩
      · exact .inl ⟨hlast, hnil⟩
      · exact .inr ⟨hlast, s, hc⟩

-- What can be said of a loop whose end is not known.
theorem loop_outcome {n : Nat} {s t : Session σ} {outcome : Except Failure Ending}
    (h : loop env limit n s = (outcome, t)) : ∀ ending, outcome = .ok ending →
      ending = .completed ∧ t.frames = [] ∨
        ending = .cancelled ∧ ∃ u, checkpoint env u = (.ok false, t) := by
  rintro ending rfl
  exact loop_ends env limit h

theorem loop_nil (fuel : Nat) (s : Session σ) (h : s.frames = []) :
    loop env limit (fuel + 1) s = (.ok .completed, s) := by
  rw [loop_succ, turn_nil env limit s h]

theorem loop_cancelled (fuel : Nat) {s t : Session σ} {f : Frame} {rest : List Frame}
    (hf : s.frames = f :: rest) (hc : checkpoint env s = (.ok false, t)) :
    loop env limit (fuel + 1) s = (.ok .cancelled, t) := by
  rw [loop_succ, turn_cancelled env limit hf hc]

theorem loop_leave (fuel : Nat) {s t : Session σ} {f : Frame} {rest : List Frame}
    (hf : s.frames = f :: rest) (hc : checkpoint env s = (.ok true, t))
    (hn : f.instructions[f.next]? = none) :
    loop env limit (fuel + 1) s =
      (do closeAll env f.owner.toList; loop env limit fuel) { t with frames := rest } := by
  rw [loop_succ, turn_leave env limit hf hc hn]
  simp only [Effect.bind_apply]
  rcases closeAll env f.owner.toList { t with frames := rest } with ⟨e | _, u⟩ <;> rfl

theorem loop_run (fuel : Nat) {s t : Session σ} {f : Frame} {rest : List Frame}
    {i : Instruction} (hf : s.frames = f :: rest) (hc : checkpoint env s = (.ok true, t))
    (hi : f.instructions[f.next]? = some i) :
    loop env limit (fuel + 1) s = (do countStep limit; execute env i; loop env limit fuel)
      { t with frames := { f with next := f.next + 1 } :: rest } := by
  rw [loop_succ, turn_run env limit hf hc hi]
  simp only [Effect.bind_apply]
  rcases countStep limit { t with frames := { f with next := f.next + 1 } :: rest } with
    ⟨e | _, u⟩
  · rfl
  · dsimp only
    rcases execute env i u with ⟨e | _, v⟩ <;> rfl

-- A run forgets that an earlier one was cancelled.
def restart : StateM σ Unit := do env.setControl (← env.control).restart

-- A run when its first turn comes.
def begun (script : List Instruction) (entries : Array Entry) (world : σ) : Session σ :=
  ⟨(env.timer (restart env world).2).2, entries, [⟨script, 0, none⟩], 0⟩

-- A run as it is when it is over: whether it has come to an end, and all that is left of it.
def wholeRun (fuel : Nat) (script : List Instruction) (entries : Array Entry) (world : σ) :
    Except Failure Unit × Session σ :=
  let stopped := loop env limit (turnLimit limit fuel) (begun env script entries world)
  conclude env (env.timer (restart env world).2).1 (openEntries stopped.2.frames) stopped.1 stopped.2

theorem wholeRun_of_loop {fuel : Nat} {script : List Instruction} {entries : Array Entry} {world : σ}
    {t : Session σ} {outcome : Except Failure Ending}
    (h : loop env limit (turnLimit limit fuel) (begun env script entries world) = (outcome, t)) :
    wholeRun env limit fuel script entries world =
      conclude env (env.timer (restart env world).2).1 (openEntries t.frames) outcome t := by
  rw [wholeRun]
  simp only [h]

theorem run_eq_wholeRun (fuel : Nat) (script : List Instruction) (entries : Array Entry)
    (world : σ) :
    run env limit fuel script entries world =
      let whole := wholeRun env limit fuel script entries world
      (whole.1.map fun _ => whole.2.entries, whole.2.world) := rfl

end Gleaner
