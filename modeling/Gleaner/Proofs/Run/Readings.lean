import Gleaner.Proofs.Run.Chronicle
import Gleaner.Proofs.Run.Nesting

namespace Gleaner

open Session

variable {σ : Type} {env : Environment σ} {limit : Option Int} {s t u : Session (Chronicle σ)}

theorem chronicled_readsAddresses (hr : env.ReadsAddresses) : env.chronicled.ReadsAddresses :=
  fun page w => hr page w.world

theorem chronicled_address (hr : env.ReadsAddresses) (page : Nat) (w : Chronicle σ) :
    ∃ address, env.chronicled.pages.address page w =
      (.ok address, { w with world := (env.pages.address page w.world).2 }) := by
  obtain ⟨address, ha⟩ := hr page w.world
  exact ⟨address, Prod.ext ha rfl⟩

-- A timer is a clock, which reading does not move; and here no time passes while the address of a
-- page is read.
structure Environment.Steady (env : Environment σ) : Prop where
  timer : ∀ world, (env.timer (env.timer world).2).1 = (env.timer world).1
  address : ∀ page world, (env.timer (env.pages.address page world).2).1 = (env.timer world).1

-- What the timer would show next.
def timerNow (env : Environment σ) (s : Session (Chronicle σ)) : Seconds :=
  (env.timer s.world.world).1

-- An open entry, and what the timer shows when it is closed.
structure Closing where
  opened : OpenEntry
  reading : Seconds

-- The entry of a condition that has got its duration.
def ClosedAt (entries : Array Entry) (c : Closing) : Prop :=
  ∃ test isMet url, entries[c.opened.index]? =
    some (.instruction (.condition test isMet) url (elapsed c.opened.started c.reading))

theorem ClosedAt.of_eq {a b : Array Entry} {c : Closing} (h : ClosedAt a c)
    (hb : b[c.opened.index]? = a[c.opened.index]?) : ClosedAt b c := by
  unfold ClosedAt
  rwa [hb]

theorem IsOpen.of_eq {a b : Array Entry} {o : OpenEntry} (h : IsOpen a o)
    (hb : b[o.index]? = a[o.index]?) : IsOpen b o := by
  unfold IsOpen
  rwa [hb]

-- Nothing but opening and closing entries reads the timer.
theorem readings_of_world (w : Chronicle σ) (world : σ) :
    Chronicle.readings { w with world } = w.readings := rfl

theorem leaves_readings_act (env : Environment σ) (opened : OpenEntry) (i : Instruction) :
    Leaves (Chronicle.readings ∘ Session.world) (act env.chronicled opened i) :=
  leaves_act (chronicled_leavesReading readings_of_world env)
    (chronicled_store_leaves readings_of_world env) opened fun _ _ _ _ _ _ _ => rfl

theorem leaves_readings_chooseBranch (env : Environment σ) (opened : OpenEntry) (test : Condition)
    (consequent : List Instruction) (alternative : Option (List Instruction)) :
    Leaves (Chronicle.readings ∘ Session.world)
      (chooseBranch env.chronicled opened test consequent alternative) :=
  leaves_chooseBranch (chronicled_leavesReading readings_of_world env) opened _ _ _

-- One entry is closed: it gets the time from when it was opened to a reading of the timer.
structure ClosesOne (env : Environment σ) (c : Closing) (s t : Session (Chronicle σ)) : Prop where
  frames : t.frames = s.frames
  readings : t.world.readings = s.world.readings ++ [c.reading]
  timed : ∀ info url duration,
    s.entries[c.opened.index]? = some (.instruction info url duration) →
    ∃ after, t.entries[c.opened.index]? =
      some (.instruction info after (elapsed c.opened.started c.reading))
  others : ∀ j, c.opened.index ≠ j → t.entries[j]? = s.entries[j]?
  still : env.Steady → c.reading = timerNow env s ∧ timerNow env t = timerNow env s

theorem close_closes (hr : env.ReadsAddresses) (o : OpenEntry) (s : Session (Chronicle σ)) :
    ∃ c t, c.opened = o ∧ close env.chronicled o s = (.ok (), t) ∧ ClosesOne env c s t := by
  obtain ⟨address, hread⟩ := chronicled_address hr o.page s.world
  refine ⟨⟨o, (env.timer (env.pages.address o.page s.world.world).2).1⟩, _, rfl,
    close_apply hread, rfl, rfl, fun info url duration he => ?_, fun j hj => ?_,
    fun hsteady => ⟨?_, ?_⟩⟩
  · refine ⟨if address = o.address then url else some (.changed o.address address), ?_⟩
    dsimp only at he ⊢
    rw [Array.getElem?_modify, if_pos rfl, he]
    rfl
  · dsimp only
    rw [Array.getElem?_modify, if_neg hj]
  · exact hsteady.address o.page s.world.world
  · exact (hsteady.timer _).trans (hsteady.address o.page s.world.world)

-- The entries of conditions are closed, one after the other.
structure ClosesAll (env : Environment σ) (cs : List Closing) (s t : Session (Chronicle σ)) :
    Prop where
  frames : t.frames = s.frames
  readings : t.world.readings = s.world.readings ++ cs.map Closing.reading
  closed : ∀ c ∈ cs, ClosedAt t.entries c
  others : ∀ j, (∀ c ∈ cs, c.opened.index ≠ j) → t.entries[j]? = s.entries[j]?
  still : env.Steady → (∀ c ∈ cs, c.reading = timerNow env s) ∧ timerNow env t = timerNow env s

theorem closeAll_closes (hr : env.ReadsAddresses) {inside : List OpenEntry}
    {s : Session (Chronicle σ)} (hopen : ∀ o ∈ inside, IsOpen s.entries o)
    (hnested : inside.Pairwise fun inner outer => outer.index < inner.index) :
    ∃ cs t, cs.map Closing.opened = inside ∧
      closeAll env.chronicled inside s = (.ok (), t) ∧ ClosesAll env cs s t := by
  induction inside generalizing s with
  | nil =>
    exact ⟨[], s, rfl, rfl, rfl, (List.append_nil _).symm, nofun, fun _ _ => rfl,
      fun _ => ⟨nofun, rfl⟩⟩
  | cons o rest ih =>
    obtain ⟨houter, hrest⟩ := List.pairwise_cons.mp hnested
    obtain ⟨c, u, rfl, hclose, hone⟩ := close_closes hr o s
    have hopen' : ∀ o ∈ rest, IsOpen u.entries o := fun o ho => by
      have := houter o ho
      exact (hopen o (List.mem_cons_of_mem _ ho)).of_eq (hone.others _ (by omega))
    obtain ⟨cs, t, rfl, hall, hmany⟩ := ih hopen' hrest
    refine ⟨c :: cs, t, rfl, ?_, hmany.frames.trans hone.frames, ?_, ?_, fun j hj => ?_,
      fun hsteady => ⟨?_, ?_⟩⟩
    · rw [closeAll, Effect.bind_ok hclose, hall]
    · rw [hmany.readings, hone.readings, List.append_assoc]
      rfl
    · rw [List.forall_mem_cons]
      refine ⟨?_, hmany.closed⟩
      obtain ⟨test, isMet, he⟩ := hopen c.opened List.mem_cons_self
      obtain ⟨url, htimed⟩ := hone.timed _ _ _ he
      have hstays := hmany.others c.opened.index fun d hd => by
        have := houter d.opened (List.mem_map_of_mem hd)
        omega
      exact ⟨test, isMet, url, hstays.trans htimed⟩
    · obtain ⟨hfirst, hlater⟩ := List.forall_mem_cons.mp hj
      exact (hmany.others j hlater).trans (hone.others j hfirst)
    · have hstill := (hone.still hsteady).2
      rw [List.forall_mem_cons]
      exact ⟨(hone.still hsteady).1, fun d hd => ((hmany.still hsteady).1 d hd).trans hstill⟩
    · exact (hmany.still hsteady).2.trans (hone.still hsteady).2

-- Some branches are left, the innermost ones, and their conditions are closed.
structure Departs (env : Environment σ) (cs : List Closing) (s t : Session (Chronicle σ)) :
    Prop where
  stack : openEntries s.frames = cs.map Closing.opened ++ openEntries t.frames
  readings : t.world.readings = s.world.readings ++ cs.map Closing.reading
  closed : ∀ c ∈ cs, ClosedAt t.entries c
  still : env.Steady → ∀ c ∈ cs, c.reading = timerNow env t

theorem Departs.none (hstack : openEntries t.frames = openEntries s.frames)
    (hreadings : t.world.readings = s.world.readings) : Departs env [] s t :=
  ⟨hstack.symm, hreadings.trans (List.append_nil _).symm, nofun, fun _ => nofun⟩

theorem ClosesAll.departs {cs : List Closing} {frames : List Frame}
    (h : ClosesAll env cs { s with frames } t)
    (hs : openEntries s.frames = cs.map Closing.opened ++ openEntries frames) :
    Departs env cs s t where
  stack := by
    rw [hs, h.frames]
  readings := h.readings
  closed := h.closed
  still hsteady c hc := ((h.still hsteady).1 c hc).trans (h.still hsteady).2.symm

-- The entries at the top of those that are open are open, and one is inside of the other.
theorem OpenInside.top (hs : OpenInside s) {left staying : List OpenEntry}
    (h : openEntries s.frames = left ++ staying) :
    (∀ o ∈ left, IsOpen s.entries o) ∧
      left.Pairwise fun inner outer => outer.index < inner.index := by
  refine ⟨fun o ho => hs.isOpen o (h ▸ List.mem_append_left _ ho), ?_⟩
  have hnested := hs.nested
  rw [h] at hnested
  exact (List.pairwise_append.mp hnested).1

theorem OpenInside.of_eq (hs : OpenInside s) (hstack : openEntries t.frames = openEntries s.frames)
    (hentries : ∀ j, j < s.entries.size → t.entries[j]? = s.entries[j]?) : OpenInside t := by
  refine ⟨fun o ho => ?_, hstack ▸ hs.nested⟩
  have ho := hs.isOpen o (hstack ▸ ho)
  exact ho.of_eq (hentries _ ho.index_lt)

-- A branch is entered, or some are left.
theorem dispatch_departs (hr : env.ReadsAddresses) (hs : OpenInside s) {opened : OpenEntry}
    {i : Instruction} {outcome : Except Failure Bool}
    (h : dispatch env.chronicled opened i s = (outcome, t)) :
    (outcome = .ok true ∧ openEntries t.frames = opened :: openEntries s.frames ∧
      t.world.readings = s.world.readings) ∨
    outcome ≠ .ok true ∧ ∃ cs, Departs env cs s t := by
  have hact : (do act env.chronicled opened i; return false : Effect (Session (Chronicle σ)) Bool)
      s = (outcome, t) → outcome ≠ .ok true ∧ ∃ cs, Departs env cs s t := by
    intro h
    rcases ha : act env.chronicled opened i s with ⟨acted, u⟩
    have ht := Effect.bind_pure_snd (act env.chronicled opened i) false s
    rw [h, ha] at ht
    obtain rfl : t = u := ht
    refine ⟨?_, [], .none ?_ ((leaves_readings_act env opened i).view_eq ha)⟩
    · rintro rfl
      obtain ⟨_, _, _, h⟩ := Effect.bind_eq_ok h
      cases h
    · rw [(confined_act env.chronicled opened i).frames_eq ha]
  cases i with
  | condition test consequent alternative =>
    rcases hb : chooseBranch env.chronicled opened test consequent alternative s with
      ⟨e | chosen, u⟩ <;>
      have hreadings := (leaves_readings_chooseBranch env opened _ _ _).view_eq hb <;>
      have hframes := (confined_chooseBranch env.chronicled opened _ _ _).frames_eq hb <;>
      rw [dispatch] at h
    · rw [Effect.bind_error hb] at h
      cases h
      exact .inr ⟨by rintro ⟨⟩, [], .none (congrArg openEntries hframes) hreadings⟩
    · rw [Effect.bind_ok hb] at h
      cases h
      exact .inl ⟨rfl, congrArg (opened :: openEntries ·) hframes, hreadings⟩
  | jump name =>
    rw [dispatch, Effect.bind_apply, Effect.get_apply] at h
    dsimp only at h
    cases hl : land? name s.frames with
    | none =>
      rw [hl] at h
      cases h
      exact .inr ⟨by rintro ⟨⟩, [], .none rfl rfl⟩
    | some landing =>
      obtain ⟨left, staying⟩ := landing
      have hstack := land?_openEntries hl
      obtain ⟨hopen, hnested⟩ := hs.top hstack
      obtain ⟨cs, u, hcs, hclose, hall⟩ := closeAll_closes hr
        (s := { s with frames := staying }) hopen hnested
      rw [hl] at h
      dsimp only at h
      rw [Effect.bind_ok (setFrames_apply staying s), Effect.bind_ok hclose] at h
      cases h
      exact .inr ⟨by rintro ⟨⟩, cs, hall.departs (hcs ▸ hstack)⟩
  | _ => exact .inr (hact h)

-- An instruction that has started a branch.
structure Enters (s t : Session (Chronicle σ)) (o : OpenEntry) : Prop where
  stack : openEntries t.frames = o :: openEntries s.frames
  index : o.index = s.entries.size
  readings : t.world.readings = s.world.readings ++ [o.started]

-- An instruction that is over. The timer is read when it starts, for each branch that it leaves,
-- and when it ends.
structure Runs (env : Environment σ) (own : Closing) (cs : List Closing)
    (s t : Session (Chronicle σ)) : Prop where
  stack : openEntries s.frames = cs.map Closing.opened ++ openEntries t.frames
  index : own.opened.index = s.entries.size
  readings : t.world.readings =
    s.world.readings ++ own.opened.started :: cs.map Closing.reading ++ [own.reading]
  closed : ∀ c ∈ cs, ClosedAt t.entries c
  timed : ∃ info url, t.entries[s.entries.size]? =
    some (.instruction info url (elapsed own.opened.started own.reading))
  still : env.Steady → ∀ c ∈ cs, c.reading = own.reading

-- What is recorded of an instruction stays that of an instruction.
theorem Records.instruction {place : Nat} {closed : List OpenEntry} {told : List Entry}
    {a b : Array Entry} (h : Records place closed told a b) {j : Nat} {info : InstructionInfo}
    {url : Option PageUrl} {duration : Binary64}
    (ha : a[j]? = some (.instruction info url duration)) :
    ∃ info url duration, b[j]? = some (.instruction info url duration) := by
  have hlt := (Array.getElem?_eq_some_iff.mp ha).1
  have hbare := congrArg (·[j]?) h.bare
  rw [List.getElem?_append_left (by simpa using hlt), List.getElem?_map, List.getElem?_map,
    Array.getElem?_toList, Array.getElem?_toList, ha] at hbare
  cases hb : b[j]? with
  | none =>
    rw [hb] at hbare
    cases hbare
  | some e =>
    rw [hb] at hbare
    cases e with
    | instruction info url duration => exact ⟨info, url, duration, rfl⟩
    | _ => cases hbare

-- An instruction that has been started enters a branch, or it is over and its entry is closed.
theorem carryOut_closes (hr : env.ReadsAddresses) (hs : OpenInside s) {opened : OpenEntry}
    {i : Instruction} {outcome : Except Failure Unit}
    (hi : s.entries[opened.index]? =
      some (.instruction (.ofInstruction i) (opened.address.map .same) Binary64.zero))
    (h : carryOut env.chronicled opened i s = (outcome, t)) :
    (openEntries t.frames = opened :: openEntries s.frames ∧
      t.world.readings = s.world.readings) ∨
    ∃ cs own u, own.opened = opened ∧ Departs env cs s u ∧ ClosesOne env own u t ∧
      ∃ info url duration, u.entries[opened.index]? = some (.instruction info url duration) := by
  have hsize := (Array.getElem?_eq_some_iff.mp hi).1
  rcases hd : dispatch env.chronicled opened i s with ⟨result, u⟩
  have hattempt : (dispatch env.chronicled opened i).attempt s = (.ok result, u) := by
    rw [Effect.attempt_apply, hd]
  rw [carryOut, Effect.bind_ok hattempt] at h
  rcases dispatch_departs hr hs hd with ⟨rfl, hstack, hreadings⟩ | ⟨hnot, cs, hdeparts⟩
  · cases h
    exact .inl ⟨hstack, hreadings⟩
  · obtain ⟨added, ⟨closed, kept, -, -, hrecord⟩, -⟩ :=
      dispatch_advances (Nat.le_of_lt hsize) (Nat.le_refl _) hi hd
    obtain ⟨own, v, rfl, hclose, hone⟩ := close_closes hr opened u
    have ht : t = v := by
      cases result with
      | ok keepsOpen =>
        cases keepsOpen with
        | true => exact absurd rfl hnot
        | false =>
          dsimp only at h
          rw [hclose] at h
          cases h
          rfl
      | error e =>
        dsimp only at h
        rw [Effect.bind_ok hclose] at h
        cases h
        rfl
    subst ht
    exact .inr ⟨cs, own, u, rfl, hdeparts, hone, hrecord.instruction hi⟩

theorem execute_runs (hr : env.ReadsAddresses) (hs : OpenInside s) {i : Instruction}
    {outcome : Except Failure Unit} (h : execute env.chronicled i s = (outcome, t)) :
    (∃ o, Enters s t o) ∨ ∃ own cs, Runs env own cs s t := by
  obtain ⟨address, hread⟩ := chronicled_address hr i.page s.world
  have hopen := openEntry_apply (i := i) (s := s) hread
  rw [execute, Effect.bind_ok hopen] at h
  have hstart := hs.of_eq (t := (openEntry env.chronicled i s).2) (by rw [hopen])
    fun j hj => by rw [hopen, Array.getElem?_push_lt hj, Array.getElem?_eq_getElem hj]
  rw [hopen] at hstart
  rcases carryOut_closes hr hstart (by simp) h with
    ⟨hstack, hreadings⟩ | ⟨cs, own, u, hown, hdeparts, hone, info, url, duration, he⟩
  · exact .inl ⟨_, hstack, rfl, hreadings⟩
  · have hindex : own.opened.index = s.entries.size := congrArg OpenEntry.index hown
    obtain ⟨after, htimed⟩ := hone.timed info url duration (hown ▸ he)
    refine .inr ⟨own, cs, ?_, hindex, ?_, fun c hc => ?_, ⟨info, after, hindex ▸ htimed⟩,
      fun hsteady c hc => ?_⟩
    · rw [hone.frames]
      exact hdeparts.stack
    · rw [hone.readings, hdeparts.readings, hown]
      change s.world.readings ++ [_] ++ _ ++ _ = _
      rw [List.append_assoc s.world.readings]
      rfl
    · have hbefore := hs.isOpen c.opened (by
        have hstack : openEntries s.frames = _ := hdeparts.stack
        rw [hstack]
        exact List.mem_append_left _ (List.mem_map_of_mem hc))
      have := hbefore.index_lt
      exact (hdeparts.closed c hc).of_eq (hone.others _ (by omega))
    · exact (hdeparts.still hsteady c hc).trans (hone.still hsteady).1.symm

-- Neither has the timer been read between two states, nor has anything become of the record or of
-- the branches.
structure Untouched (s t : Session (Chronicle σ)) : Prop where
  stack : openEntries t.frames = openEntries s.frames
  entries : t.entries = s.entries
  readings : t.world.readings = s.world.readings

namespace Untouched

variable (hu : Untouched s u)
include hu

theorem openInside (hs : OpenInside s) : OpenInside u :=
  hs.of_eq hu.stack fun _ _ => by rw [hu.entries]

theorem departs {cs : List Closing} (h : Departs env cs u t) : Departs env cs s t where
  stack := hu.stack ▸ h.stack
  readings := hu.readings ▸ h.readings
  closed := h.closed
  still := h.still

theorem runs {own : Closing} {cs : List Closing} (h : Runs env own cs u t) :
    Runs env own cs s t where
  stack := hu.stack ▸ h.stack
  index := hu.entries ▸ h.index
  readings := hu.readings ▸ h.readings
  closed := h.closed
  timed := hu.entries ▸ h.timed
  still := h.still

theorem enters {o : OpenEntry} (h : Enters u t o) : Enters s t o where
  stack := hu.stack ▸ h.stack
  index := hu.entries ▸ h.index
  readings := hu.readings ▸ h.readings

end Untouched

-- The instruction that a turn comes to.
def Session.upcoming? {σ : Type} (s : Session σ) : Option Instruction :=
  s.frames.head?.bind fun f => f.instructions[f.next]?

-- What a turn does to the conditions whose branches are being run: those that it enters, and those
-- that it closes.
inductive Passage (env : Environment σ) (s t : Session (Chronicle σ)) :
    List OpenEntry → List Closing → Prop
  | idle (h : Untouched s t) : Passage env s t [] []
  | leaves {cs : List Closing} (hn : s.upcoming? = none) (h : Departs env cs s t)
      (size : t.entries.size ≤ s.entries.size) : Passage env s t [] cs
  | runs {own : Closing} {cs : List Closing} {i : Instruction} (hi : s.upcoming? = some i)
      (h : Runs env own cs s t) : Passage env s t [] cs
  | enters {o : OpenEntry} {i : Instruction} (hi : s.upcoming? = some i) (h : Enters s t o) :
      Passage env s t [o] []

theorem turn_passage (hr : env.ReadsAddresses) (hs : OpenInside s)
    {outcome : Except Failure (Option Ending)}
    (h : turn env.chronicled limit s = (outcome, t)) :
    ∃ entered cs, Passage env s t entered cs := by
  cases hf : s.frames with
  | nil =>
    rw [turn_nil env.chronicled limit s hf] at h
    cases h
    exact ⟨[], [], .idle ⟨rfl, rfl, rfl⟩⟩
  | cons f rest =>
    obtain ⟨goesOn, u, hc⟩ := checkpoint_ok env.chronicled s
    have hframes := (confined_checkpoint env.chronicled).frames_eq hc
    have hchecked : Untouched s u := ⟨congrArg openEntries hframes, checkpoint_entries hc,
      (chronicled_checkpoint_leaves readings_of_world env).view_eq hc⟩
    have hupcoming : s.upcoming? = f.instructions[f.next]? := by
      rw [Session.upcoming?, hf]
      rfl
    cases goesOn with
    | false =>
      rw [turn_cancelled env.chronicled limit hf hc] at h
      cases h
      exact ⟨[], [], .idle hchecked⟩
    | true =>
      cases hi : f.instructions[f.next]? with
      | none =>
        rw [turn_leave env.chronicled limit hf hc hi] at h
        have hstack : openEntries u.frames = f.owner.toList ++ openEntries rest := by
          rw [hframes, hf]
          cases ho : f.owner <;> simp [openEntries, ho]
        obtain ⟨hopen, hnested⟩ := (hchecked.openInside hs).top hstack
        obtain ⟨cs, v, hcs, hclose, hall⟩ :=
          closeAll_closes hr (s := { u with frames := rest }) hopen hnested
        rw [Effect.bind_ok hclose] at h
        cases h
        refine ⟨[], cs, .leaves (hupcoming.trans hi)
          (hchecked.departs (hall.departs (hcs ▸ hstack))) ?_⟩
        have hnone := hall.others u.entries.size fun c hc => by
          have := (hopen c.opened (hcs ▸ List.mem_map_of_mem hc)).index_lt
          omega
        rw [Array.getElem?_size, Array.getElem?_eq_none_iff] at hnone
        rwa [← hchecked.entries]
      | some i =>
        rw [turn_run env.chronicled limit hf hc hi] at h
        have hcount := countStep_under limit u (f.advance :: rest)
        have htaken : Untouched s { u with frames := f.advance :: rest, steps := u.steps + 1 } :=
          ⟨by rw [hf]; rfl, hchecked.entries, hchecked.readings⟩
        rcases hfirst : (countStep limit u).1 with e | _ <;> rw [hfirst] at hcount
        · cases (Effect.bind_error hcount _).symm.trans h
          exact ⟨[], [], .idle htaken⟩
        · have h := (Effect.bind_ok hcount _).symm.trans h
          rcases hrun : execute env.chronicled i
            { u with frames := f.advance :: rest, steps := u.steps + 1 } with ⟨result, v⟩
          have ht := Effect.bind_pure_snd (execute env.chronicled i) (none : Option Ending)
            { u with frames := f.advance :: rest, steps := u.steps + 1 }
          rw [h, hrun] at ht
          obtain rfl : t = v := ht
          rcases execute_runs hr (htaken.openInside hs) hrun with ⟨o, henters⟩ | ⟨own, cs, hruns⟩
          · exact ⟨[o], [], .enters (hupcoming.trans hi) (htaken.enters henters)⟩
          · exact ⟨[], cs, .runs (hupcoming.trans hi) (htaken.runs hruns)⟩

end Gleaner
