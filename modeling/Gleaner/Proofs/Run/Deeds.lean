import Gleaner.Proofs.Run.Leaves
import Gleaner.Proofs.Run.Reachable
import Gleaner.Proofs.Run.Record

namespace Gleaner

section

open Session

variable {σ : Type} {env : Environment σ}

theorem Moves.length_le {fs gs : List Frame} (h : Moves fs gs) : gs.length ≤ fs.length + 1 := by
  cases h with
  | leave hn => simp only [List.length_cons]; omega
  | stay hi hc hj => simp
  | branch opened hi hb => simp
  | jump hi hl =>
    have := land?_length hl
    simp only [List.length_cons] at this ⊢
    omega

theorem Confined.leaves_steps {α : Type} {work : Effect (Session σ) α} (h : Confined work) :
    Leaves steps work := fun _ => h.steps_eq rfl

theorem leaves_steps_setFrames (frames : List Frame) : Leaves (@steps σ) (setFrames frames) :=
  fun _ => rfl

theorem leaves_steps_dispatch (env : Environment σ) (opened : OpenEntry) (i : Instruction) :
    Leaves steps (dispatch env opened i) := by
  cases i with
  | condition test consequent alternative =>
    refine leaves_bind (confined_chooseBranch env opened _ _ _).leaves_steps fun branch => ?_
    exact leaves_bind leaves_get fun _ =>
      leaves_bind (leaves_steps_setFrames _) fun _ => leaves_pure _
  | jump name =>
    refine leaves_bind leaves_get fun s => ?_
    cases land? name s.frames with
    | none => exact leaves_throw _
    | some landing =>
      exact leaves_bind (leaves_steps_setFrames _) fun _ =>
        leaves_bind (confined_closeAll env _).leaves_steps fun _ => leaves_pure _
  | _ => exact leaves_bind (confined_act env opened _).leaves_steps fun _ => leaves_pure _

-- An instruction is counted before it is run.
theorem leaves_steps_execute (env : Environment σ) (i : Instruction) :
    Leaves steps (execute env i) := by
  refine leaves_bind (confined_openEntry env i).leaves_steps fun opened => ?_
  refine leaves_bind (leaves_attempt (leaves_steps_dispatch env opened i)) fun outcome => ?_
  cases outcome with
  | ok keepsOpen =>
    cases keepsOpen with
    | true => exact leaves_pure _
    | false => exact (confined_close env opened).leaves_steps
  | error e =>
    exact leaves_bind (confined_close env opened).leaves_steps fun _ => leaves_throw _

-- A turn leaves a list, or it counts an instruction and enters one list at most.
theorem turn_spends {most : Int} {s t : Session σ} (h : turn env (some most) s = (.ok none, t)) :
    t.steps = s.steps ∧ t.frames.length < s.frames.length ∨
      t.steps = s.steps + 1 ∧ t.steps ≤ most ∧ t.frames.length ≤ s.frames.length + 1 := by
  have hmoves := (turn_moves h).length_le
  cases hf : s.frames with
  | nil =>
    rw [turn_nil env _ s hf] at h
    cases h
  | cons f rest =>
    obtain ⟨goesOn, u, hc⟩ := checkpoint_ok env s
    have hu := (confined_checkpoint env).steps_eq hc
    cases goesOn with
    | false =>
      rw [turn_cancelled env _ hf hc] at h
      cases h
    | true =>
      cases hi : f.instructions[f.next]? with
      | none =>
        rw [turn_leave env _ hf hc hi] at h
        obtain ⟨_, v, hclose, h⟩ := Effect.bind_eq_ok h
        cases h
        refine .inl ⟨?_, ?_⟩
        · rw [(confined_closeAll env _).steps_eq hclose, hu]
        · rw [(confined_closeAll env _).frames_eq hclose]
          simp
      | some i =>
        rw [turn_run env _ hf hc hi] at h
        obtain ⟨_, v, hcount, h⟩ := Effect.bind_eq_ok h
        obtain ⟨_, w, hrun, h⟩ := Effect.bind_eq_ok h
        cases h
        rw [countStep_apply] at hcount
        split at hcount
        · cases hcount
        · next hmost =>
          cases hcount
          have ht := leaves_steps_execute env i { u with
            frames := { f with next := f.next + 1 } :: rest
            steps := u.steps + 1 }
          rw [hrun] at ht
          refine .inr ⟨?_, ?_, hf ▸ hmoves⟩
          · simp only at ht
            omega
          · simp only at ht hmost
            omega

-- A number of turns that do not end a run.
inductive Turns (env : Environment σ) (limit : Option Int) : Nat → Session σ → Session σ → Prop
  | zero (s : Session σ) : Turns env limit 0 s s
  | next {n : Nat} {s t u : Session σ} (ht : turn env limit s = (.ok none, t))
      (hn : Turns env limit n t u) : Turns env limit (n + 1) s u

theorem Turns.loop_eq {limit : Option Int} {n : Nat} {s t : Session σ}
    (h : Turns env limit n s t) (m : Nat) :
    loop env limit (m + n) s = loop env limit m t := by
  induction h with
  | zero s => rfl
  | @next n s t u ht hn ih =>
    rw [← Nat.add_assoc, loop_succ, ht]
    exact ih

-- The turns that are left to a run with a limit.
def turnsLeft (most : Int) (s : Session σ) : Nat :=
  2 * (most.toNat + 1 - s.steps) + s.frames.length

theorem Turns.le_turnsLeft {most : Int} {n : Nat} {s t : Session σ}
    (h : Turns env (some most) n s t) : turnsLeft most t + n ≤ turnsLeft most s := by
  induction h with
  | zero s => exact Nat.le_refl _
  | next ht hn ih =>
    have := turn_spends ht
    simp only [turnsLeft] at ih ⊢
    omega

theorem turnsLeft_begun_lt (env : Environment σ) (most : Int) (fuel : Nat)
    (script : List Instruction) (entries : Array Entry) (world : σ) :
    turnsLeft most (begun env script entries world) < turnLimit (some most) fuel := by
  simp only [turnsLeft, begun, turnLimit, List.length_singleton]
  omega

-- How a loop can have failed: in one of its turns, or because no turns were left.
theorem loop_failed {limit : Option Int} {fuel : Nat} {s t : Session σ} {e : Failure}
    (h : loop env limit fuel s = (.error e, t)) :
    e = .unfinished ∧ Turns env limit fuel s t ∨
      ∃ n u, Turns env limit n s u ∧ turn env limit u = (.error e, t) := by
  induction fuel generalizing s with
  | zero =>
    cases h
    exact .inl ⟨rfl, .zero _⟩
  | succ fuel ih =>
    rw [loop_succ] at h
    rcases ht : turn env limit s with ⟨e' | _ | ending, u⟩ <;> rw [ht] at h
    · cases h
      exact .inr ⟨0, s, .zero _, ht⟩
    · rcases ih h with ⟨he, hturns⟩ | ⟨n, v, hturns, hv⟩
      · exact .inl ⟨he, .next ht hturns⟩
      · exact .inr ⟨n + 1, v, .next ht hturns, hv⟩
    · cases h

-- The turns that a run with a limit is given are enough: it only fails in one of them.
theorem loop_failed_of_limit {most : Int} {fuel : Nat} {s t : Session σ} {e : Failure}
    (hfuel : turnsLeft most s < fuel) (h : loop env (some most) fuel s = (.error e, t)) :
    ∃ n u, Turns env (some most) n s u ∧ turn env (some most) u = (.error e, t) := by
  rcases loop_failed h with ⟨-, hturns⟩ | hfailed
  · have := hturns.le_turnsLeft
    omega
  · exact hfailed

end

open Session

-- An instruction that was executed, and the calls of the data store it made.
structure Deed where
  instruction : Instruction
  calls : List StoreCall

-- What is recorded of it, apart from what has come of the instruction.
def Deed.entries (d : Deed) : List Entry :=
  .instruction (.ofInstruction d.instruction) none Binary64.zero :: d.calls.map StoreCall.entry

-- None of these entries ends a run.
theorem isTerminal_deeds (ds : List Deed) :
    ∀ e ∈ ds.flatMap Deed.entries, e.isTerminal = false := by
  intro e he
  obtain ⟨d, -, he⟩ := List.mem_flatMap.mp he
  rcases List.mem_cons.mp he with rfl | he
  · rfl
  · obtain ⟨call, -, rfl⟩ := List.mem_map.mp he
    rfl

variable {σ : Type}

section

variable (env : Environment σ) (limit : Option Int)

-- What comes of an instruction that is taken, if the limit allows it.
def deedOf? (s : Session σ) (i : Instruction) : Option Deed :=
  match (countStep limit s).1 with
  | .ok () => some ⟨i, i.calls env (openEntry env i s).2.world⟩
  | .error _ => none

-- What the next turn executes: the next instruction of the innermost list, if the run goes on.
def deed? (s : Session σ) : Option Deed :=
  match s.frames, checkpoint env s with
  | f :: _, (.ok true, t) => f.instructions[f.next]?.bind (deedOf? env limit t)
  | _, _ => none

-- What a number of turns execute, in order.
def deeds : Nat → Session σ → List Deed
  | 0, _ => []
  | n + 1, s =>
    (deed? env limit s).toList ++
      match turn env limit s with
      | (.ok none, t) => deeds n t
      | _ => []

end

variable {env : Environment σ} {limit : Option Int}

theorem checkpoint_entries {s t : Session σ} {outcome : Except Failure Bool}
    (h : checkpoint env s = (outcome, t)) : t.entries = s.entries := by
  unfold checkpoint at h
  rw [Effect.bind_apply, observe_apply] at h
  dsimp only at h
  split at h <;> (cases h; rfl)

-- An instruction that is taken while some lists are being run.
theorem taken_advances {i : Instruction} {frames : List Frame} {s t : Session σ}
    {outcome : Except Failure (Option Ending)}
    (h : (do countStep limit; execute env i; return none : Effect (Session σ) (Option Ending))
      { s with frames } = (outcome, t)) :
    ∃ told added, Recounts env outcome ((deedOf? env limit s i).toList.flatMap Deed.entries) told ∧
      Advances s.entries.size told added { s with frames } t ∧
      (added = [] ∨ ∃ opened, added = [opened] ∧ outcome = .ok none ∧
        opened.index = s.entries.size ∧ IsOpen t.entries opened) := by
  have hcount := countStep_under limit s frames
  rcases hfirst : (countStep limit s).1 with e | _ <;> rw [hfirst] at hcount
  · have hdeed : deedOf? env limit s i = none := by simp only [deedOf?, hfirst]
    rw [Effect.bind_error hcount] at h
    cases h
    rw [hdeed]
    exact ⟨[], [], .inl rfl, ⟨[], openEntries frames, rfl, rfl, .refl _ _ _⟩, .inl rfl⟩
  · have hdeed : deedOf? env limit s i = some ⟨i, i.calls env (openEntry env i s).2.world⟩ := by
      simp only [deedOf?, hfirst]
    have hopen := confined_openEntry env i s frames (s.steps + 1)
    rw [Effect.bind_ok hcount] at h
    rcases hrun : execute env i { s with frames, steps := s.steps + 1 } with ⟨result, u⟩
    obtain ⟨told, added, htells, ⟨closed, kept, hbefore, hafter, hrecord⟩, hadded⟩ :=
      execute_advances hrun
    rw [hopen] at htells
    have hstory : Advances s.entries.size told added { s with frames } u :=
      ⟨closed, kept, hbefore, hafter, hrecord⟩
    have hfull : (deedOf? env limit s i).toList.flatMap Deed.entries =
        .instruction (.ofInstruction i) none Binary64.zero ::
          i.told env (openEntry env i s).2.world := by
      rw [hdeed]
      simp [Deed.entries, Instruction.told]
    rw [hfull]
    cases result with
    | error e =>
      rw [Effect.bind_error hrun] at h
      cases h
      refine ⟨told, added, ?_, hstory, .inl ?_⟩
      · exact htells.imp id fun ⟨hnone, hr, _⟩ => ⟨hnone, hr, e, rfl⟩
      · rcases hadded with hnone | ⟨_, _, hok, _⟩
        · exact hnone
        · cases hok
    | ok _ =>
      rw [Effect.bind_ok hrun] at h
      cases h
      refine ⟨told, added, .inl htells.eq_of_ok, hstory, ?_⟩
      rcases hadded with hnone | ⟨opened, hone, -, hindex, hisOpen⟩
      · exact .inl hnone
      · exact .inr ⟨opened, hone, rfl, hindex, hisOpen⟩

-- One turn records what it executes.
theorem turn_advances {s t : Session σ} {outcome : Except Failure (Option Ending)}
    (h : turn env limit s = (outcome, t)) :
    ∃ told added, Recounts env outcome ((deed? env limit s).toList.flatMap Deed.entries) told ∧
      Advances s.entries.size told added s t ∧
      (added = [] ∨ ∃ opened, added = [opened] ∧ outcome = .ok none ∧
        opened.index = s.entries.size ∧ IsOpen t.entries opened) := by
  cases hf : s.frames with
  | nil =>
    rw [turn_nil env limit s hf] at h
    cases h
    have hdeed : deed? env limit s = none := by simp only [deed?, hf]
    rw [hdeed]
    exact ⟨[], [], .inl rfl, ⟨[], openEntries s.frames, rfl, rfl, .refl _ _ _⟩, .inl rfl⟩
  | cons f rest =>
    obtain ⟨goesOn, u, hc⟩ := checkpoint_ok env s
    have hframes := (confined_checkpoint env).frames_eq hc
    have hentries := checkpoint_entries hc
    cases goesOn with
    | false =>
      rw [turn_cancelled env limit hf hc] at h
      cases h
      have hdeed : deed? env limit s = none := by simp only [deed?, hf, hc]
      rw [hdeed]
      refine ⟨[], [], .inl rfl, ⟨[], openEntries s.frames, rfl, by rw [hframes]; rfl, ?_⟩, .inl rfl⟩
      rw [hentries]
      exact .refl _ _ _
    | true =>
      cases hi : f.instructions[f.next]? with
      | none =>
        rw [turn_leave env limit hf hc hi] at h
        have hdeed : deed? env limit s = none := by simp only [deed?, hf, hc, hi, Option.bind_none]
        rcases hclose : closeAll env f.owner.toList { u with frames := rest } with ⟨closed, v⟩
        have hv := closeAll_records s.entries.size hclose
        have hrest := (confined_closeAll env _).frames_eq hclose
        have ht := Effect.bind_pure_snd (closeAll env f.owner.toList) (none : Option Ending)
          { u with frames := rest }
        rw [h, hclose] at ht
        obtain rfl : t = v := ht
        rw [hdeed]
        refine ⟨[], [], .inl rfl, ⟨f.owner.toList, openEntries rest, ?_, ?_, ?_⟩, .inl rfl⟩
        · rw [hf]
          cases ho : f.owner <;> simp [openEntries, ho]
        · rw [hrest]
          rfl
        · rwa [hentries] at hv
      | some i =>
        rw [turn_run env limit hf hc hi] at h
        have hdeed : deed? env limit s = deedOf? env limit u i := by
          simp only [deed?, hf, hc, hi, Option.bind_some]
        obtain ⟨told, added, htells, ⟨closed, kept, hbefore, hafter, hrecord⟩, hadded⟩ :=
          taken_advances h
        rw [hentries] at hrecord hadded
        rw [hdeed]
        refine ⟨told, added, htells, ⟨closed, kept, ?_, hafter, hrecord⟩, hadded⟩
        rw [hf]
        exact hbefore

-- An entry that is open when a turn is over was open before, or belongs to the turn.
theorem turn_records {s t : Session σ} {outcome : Except Failure (Option Ending)}
    (h : turn env limit s = (outcome, t)) :
    ∃ told, Recounts env outcome ((deed? env limit s).toList.flatMap Deed.entries) told ∧
      Records s.entries.size (openEntries s.frames) told s.entries t.entries ∧
      ∀ o ∈ openEntries t.frames, o ∈ openEntries s.frames ∨ s.entries.size ≤ o.index := by
  obtain ⟨told, added, htells, ⟨closed, kept, hbefore, hafter, hrecord⟩, hadded⟩ :=
    turn_advances h
  refine ⟨told, htells, hrecord.mono fun o ho _ => ?_, fun o ho => ?_⟩
  · rw [hbefore]
    exact List.mem_append_left _ ho
  · rw [hafter, List.mem_append] at ho
    rcases ho with ho | ho
    · rcases hadded with rfl | ⟨opened, rfl, -, hindex, -⟩
      · cases ho
      · rw [List.mem_singleton.mp ho, hindex]
        exact .inr (Nat.le_refl _)
    · rw [hbefore]
      exact .inl (List.mem_append_right _ ho)

-- What is recorded by one piece of a run after another.
theorem Records.onward {told more : List Entry} {s t u : Session σ}
    (hfirst : Records s.entries.size (openEntries s.frames) told s.entries t.entries)
    (hinside : ∀ o ∈ openEntries t.frames, o ∈ openEntries s.frames ∨ s.entries.size ≤ o.index)
    (hrest : Records t.entries.size (openEntries t.frames) more t.entries u.entries)
    (hinside' : ∀ o ∈ openEntries u.frames, o ∈ openEntries t.frames ∨ t.entries.size ≤ o.index) :
    Records s.entries.size (openEntries s.frames) (told ++ more) s.entries u.entries ∧
      ∀ o ∈ openEntries u.frames, o ∈ openEntries s.frames ∨ s.entries.size ≤ o.index := by
  have hsize := hfirst.size_le
  refine ⟨(hfirst.trans (hrest.before hsize)).mono fun o ho hlt => ?_, fun o ho => ?_⟩
  · rcases List.mem_append.mp ho with ho | ho
    · exact ho
    · exact (hinside o ho).resolve_right (by omega)
  · rcases hinside' o ho with ho | ho
    · exact hinside o ho
    · exact .inr (by omega)

-- So do any number of turns. Where the address of a page cannot be read, what was executed may be
-- missing from the record.
theorem loop_advances {n : Nat} {s t : Session σ} {outcome : Except Failure Ending}
    (h : loop env limit n s = (outcome, t)) :
    ∃ told, (told.Sublist ((deeds env limit n s).flatMap Deed.entries) ∧
        (env.ReadsAddresses → told = (deeds env limit n s).flatMap Deed.entries)) ∧
      Records s.entries.size (openEntries s.frames) told s.entries t.entries ∧
      ∀ o ∈ openEntries t.frames, o ∈ openEntries s.frames ∨ s.entries.size ≤ o.index := by
  induction n generalizing s with
  | zero =>
    cases h
    exact ⟨[], ⟨.slnil, fun _ => rfl⟩, .refl _ _ _, fun o ho => .inl ho⟩
  | succ n ih =>
    rw [loop_succ] at h
    rcases ht : turn env limit s with ⟨e | _ | ending, u⟩ <;> rw [ht] at h <;>
      obtain ⟨told, htells, hfirst, hinside⟩ := turn_records ht <;>
      rw [deeds, ht, List.flatMap_append]
    · cases h
      rw [List.flatMap_nil, List.append_nil]
      exact ⟨told, ⟨htells.sublist, htells.eq⟩, hfirst, hinside⟩
    · obtain ⟨more, ⟨hpart, hmore⟩, hrest, hinside'⟩ := ih h
      refine ⟨told ++ more, ⟨htells.sublist.append hpart, fun hr => ?_⟩,
        hfirst.onward hinside hrest hinside'⟩
      rw [htells.eq hr, hmore hr]
    · cases h
      rw [List.flatMap_nil, List.append_nil]
      exact ⟨told, ⟨htells.sublist, htells.eq⟩, hfirst, hinside⟩

theorem loop_records (hr : env.ReadsAddresses) {n : Nat} {s t : Session σ}
    {outcome : Except Failure Ending} (h : loop env limit n s = (outcome, t)) :
    Records s.entries.size (openEntries s.frames) ((deeds env limit n s).flatMap Deed.entries)
        s.entries t.entries ∧
      ∀ o ∈ openEntries t.frames, o ∈ openEntries s.frames ∨ s.entries.size ≤ o.index := by
  obtain ⟨told, htold, hrecord, hinside⟩ := loop_advances h
  exact ⟨hrecord.of_eq (htold.2 hr), hinside⟩

-- The entries there were before a run stay as they are when no open one is among them.
theorem Records.split {told : List Entry} {closed : List OpenEntry} {a b : Array Entry}
    (h : Records a.size closed told a b) (ho : ∀ o ∈ closed, a.size ≤ o.index) :
    ∃ added, b.toList = a.toList ++ added ∧ added.map Entry.bare = told := by
  have hsize := h.size_le
  have htake : b.toList.take a.size = a.toList := by
    refine List.ext_getElem? fun j => ?_
    rw [List.getElem?_take]
    split
    · next hj =>
      have hkept := h.kept j hj fun o hm he => by
        have := ho o hm
        omega
      rwa [Array.getElem?_toList, Array.getElem?_toList]
    · next hj => exact (List.getElem?_eq_none (by simpa using hj)).symm
  refine ⟨b.toList.drop a.size, ?_, ?_⟩
  · rw [← htake, List.take_append_drop]
  · have hbare := h.bare
    rw [← List.take_append_drop a.size b.toList, htake, List.map_append] at hbare
    exact List.append_cancel_left hbare

-- The entry a run ends with: what has become of it, or none if it was cancelled.
inductive LastEntry (env : Environment σ) : Except Failure Ending → Session σ → List Entry → Prop
  | success {t : Session σ} (duration : Binary64) (h : t.frames = []) :
      LastEntry env (.ok .completed) t [.success duration]
  | none {s t : Session σ} (h : checkpoint env s = (.ok false, t)) :
      LastEntry env (.ok .cancelled) t []
  | error {t : Session σ} {e : Failure} (duration : Binary64) (h : e ≠ .unfinished) :
      LastEntry env (.error e) t [.error e.message duration]

theorem conclude_error (env : Environment σ) (started : Seconds) (inside : List OpenEntry)
    {e : Failure} (he : e ≠ .unfinished) :
    conclude env started inside (.error e) = (do
      settle env inside
      record (.error e.message (elapsed started (← observe env.timer)))) := by
  cases e <;> first | rfl | exact absurd rfl he

-- What is done when the lists have ended changes nothing but the entries that are open, and adds
-- the last one.
theorem conclude_records (place : Nat) {started : Seconds} {inside : List OpenEntry}
    {s t : Session σ} {outcome : Except Failure Ending} {result : Except Failure Unit}
    (hs : ∀ ending, outcome = .ok ending → ending = .completed ∧ s.frames = [] ∨
      ending = .cancelled ∧ ∃ u, checkpoint env u = (.ok false, s))
    (h : conclude env started inside outcome s = (result, t)) :
    outcome = .error .unfinished ∧ result = .error .unfinished ∧ t = s ∨
      ∃ u last, result = .ok () ∧ LastEntry env outcome s last ∧
        Records place inside [] s.entries u ∧ t.entries = u ++ last.toArray := by
  cases outcome with
  | ok ending =>
    rcases hs ending rfl with ⟨rfl, hframes⟩ | ⟨rfl, u, hc⟩
    · cases h
      exact .inr ⟨s.entries, _, rfl, .success _ hframes, .refl _ _ _, rfl⟩
    · obtain ⟨rfl, hrecord⟩ := settle_records place h
      exact .inr ⟨t.entries, [], rfl, .none hc, hrecord, by simp⟩
  | error e =>
    by_cases he : e = .unfinished
    · subst he
      cases h
      exact .inl ⟨rfl, rfl, rfl⟩
    · rw [conclude_error env started inside he] at h
      rcases hsettle : settle env inside s with ⟨outcome', u⟩
      obtain ⟨rfl, hrecord⟩ := settle_records place hsettle
      rw [Effect.bind_ok hsettle] at h
      cases h
      exact .inr ⟨u.entries, _, rfl, .error _ he, hrecord, rfl⟩

-- What a whole run makes of the record is what its turns make of it, and the last entry.
theorem wholeRun_records {fuel : Nat} {script : List Instruction} {entries : Array Entry} {world : σ}
    {t : Session σ} {outcome : Except Failure Ending} {told : List Entry}
    (hloop : loop env limit (turnLimit limit fuel) (begun env script entries world) = (outcome, t))
    (hrecord : Records entries.size [] told entries t.entries)
    (hinside : ∀ o ∈ openEntries t.frames, entries.size ≤ o.index) :
    wholeRun env limit fuel script entries world = (.error .unfinished, t) ∨
      ∃ final added last, wholeRun env limit fuel script entries world = (.ok (), final) ∧
        LastEntry env outcome t last ∧ added.map Entry.bare = told ∧
        final.entries.toList = entries.toList ++ added ++ last := by
  rw [wholeRun_of_loop env limit hloop]
  rcases hconclude : conclude env (env.timer (restart env world).2).1 (openEntries t.frames)
    outcome t with ⟨result, final⟩
  rcases conclude_records entries.size (loop_outcome env limit hloop) hconclude with
    ⟨-, rfl, rfl⟩ | ⟨u, last, rfl, hlast, hsettled, hfinal⟩
  · exact .inl rfl
  · obtain ⟨added, hu, hadded⟩ := (hrecord.trans hsettled).split hinside
    rw [List.append_nil] at hadded
    refine .inr ⟨final, added, last, rfl, hlast, hadded, ?_⟩
    rw [hfinal, Array.toList_append, hu]

-- Looks a value up, copies it and throws everything away.
def copyAndClear : List Instruction :=
  let value : Source := .externalData "s.a" none
  [.condition (.textEquals value (.exactly "x")) [.saveData "s.b" value] none, .deleteData "s"]

-- A world whose data cannot be thrown away.
def locked : Rehearsal.World where
  values := [("s.a", .text "x")]
  storeFaults := [("delete", "locked")]

end Gleaner
