import Gleaner.Proofs.Number.Order
import Gleaner.Proofs.Run.Readings

namespace Gleaner

open Session

section

-- One time is not after another one if its number is not above.
instance : Preorder Seconds where
  le a b := a.number.AtMost b.number
  le_refl a := (Binary64.atMost_iff a.finite a.finite).mpr le_rfl
  le_trans a b c hab hbc := by
    rw [Binary64.atMost_iff a.finite b.finite] at hab
    rw [Binary64.atMost_iff b.finite c.finite] at hbc
    exact (Binary64.atMost_iff a.finite c.finite).mpr (hab.trans hbc)

instance (a b : Seconds) : Decidable (a ≤ b) :=
  inferInstanceAs (Decidable (a.number.AtMost b.number))

theorem Seconds.le_iff {a b : Seconds} : a ≤ b ↔ a.number.value ≤ b.number.value :=
  Binary64.atMost_iff a.finite b.finite

open Binary64

-- If no time has gone by, none is shown.
theorem elapsed_of_le {started now : Seconds} (h : now ≤ started) :
    (elapsed started now).isFinite = true ∧ (elapsed started now).value = 0 := by
  rw [elapsed]
  rcases minus_cases now.finite started.finite with
    ⟨-, negative, hminus⟩ | ⟨-, p, -, hminus⟩ | ⟨hlt, -⟩
  · rw [hminus, scaledBy_zero, compareInt?_zero]
    exact ⟨rfl, value_zero negative⟩
  · have hsign : ((ofQuotient true p.1 p.2).scaledBy 1000).isNegative = true := by
      rw [isNegative_scaledBy, isNegative_ofQuotient]
    rw [hminus]
    split_ifs with hbelow
    · exact ⟨rfl, value_zero false⟩
    · exact value_of_compareInt? hsign hbelow
  · exact absurd (Seconds.le_iff.mp h) (not_le.mpr hlt)

theorem elapsed_of_lt {started now : Seconds} (h : ¬now ≤ started) :
    ∃ p : Nat × Nat, 0 < p.2 ∧ ratio p = now.number.value - started.number.value ∧
      elapsed started now = (ofQuotient false p.1 p.2).scaledBy 1000 := by
  rw [Seconds.le_iff, not_le] at h
  rcases minus_cases now.finite started.finite with ⟨heq, -⟩ | ⟨hlt, -⟩ | ⟨-, p, hp, hratio, hminus⟩
  · exact absurd heq h.ne'
  · exact absurd hlt h.asymm
  · refine ⟨p, hp, hratio, ?_⟩
    have hsign : ((ofQuotient false p.1 p.2).scaledBy 1000).isNegative = false := by
      rw [isNegative_scaledBy, isNegative_ofQuotient]
    rw [elapsed, hminus]
    exact if_neg (compareInt?_of_isNegative hsign)

-- What has begun earlier and ended later has taken no less time.
theorem elapsed_atMost {started now started' now' : Seconds} (hs : started' ≤ started)
    (hn : now ≤ now') : (elapsed started now).AtMost (elapsed started' now') := by
  have hs' := Seconds.le_iff.mp hs
  have hn' := Seconds.le_iff.mp hn
  by_cases h : now ≤ started
  · obtain ⟨hfinite, hvalue⟩ := elapsed_of_le h
    by_cases h' : now' ≤ started'
    · obtain ⟨hfinite', hvalue'⟩ := elapsed_of_le h'
      rw [atMost_iff hfinite hfinite', hvalue, hvalue']
    · obtain ⟨p, hp, -, htime⟩ := elapsed_of_lt h'
      have hleast : ratio (0, 1) ≤ ratio p := (ratio_le_iff Nat.one_pos hp).mpr (by simp)
      have hzero : Binary64.zero.AtMost (elapsed started' now') := by
        rw [htime, Binary64.zero, ← scaledBy_zero false 1000]
        exact scaledBy_atMost rfl (isNegative_ofQuotient _ _ _)
          (ofQuotient_atMost Nat.one_pos hp hleast) 1000
      exact hzero.of_value rfl hfinite (hvalue.trans (value_zero false).symm)
  · have h' : ¬now' ≤ started' := fun h' => h ((hn.trans h').trans hs)
    obtain ⟨p, hp, hratio, htime⟩ := elapsed_of_lt h
    obtain ⟨p', hp', hratio', htime'⟩ := elapsed_of_lt h'
    rw [htime, htime']
    refine scaledBy_atMost (isNegative_ofQuotient _ _ _) (isNegative_ofQuotient _ _ _)
      (ofQuotient_atMost hp hp' ?_) 1000
    rw [hratio, hratio']
    linarith

end

-- The conditions whose branches are run in one state and not in another.
def branchesLeft {σ : Type} (s t : Session σ) : List OpenEntry :=
  (openEntries s.frames).filter fun o => o ∉ openEntries t.frames

def branchesEntered {σ : Type} (s t : Session σ) : List OpenEntry := branchesLeft t s

variable {σ : Type}

-- What the timer shows from one state to another.
def shown (s t : Session (Chronicle σ)) : List Seconds :=
  t.world.readings.drop s.world.readings.length

-- What a turn closes, and what the timer shows then. If the turn comes to an instruction, that is
-- what the timer is read for first.
def closingsOf (s t : Session (Chronicle σ)) : List Closing :=
  List.zipWith Closing.mk (branchesLeft s t) ((shown s t).drop s.upcoming?.toList.length)

-- A run that stops closes what is open, the outermost first.
def closingsAtStop (s final : Session (Chronicle σ)) : List Closing :=
  List.zipWith Closing.mk (openEntries s.frames).reverse (shown s final)

section

variable (env : Environment σ) (limit : Option Int)

-- What a number of turns close.
def closings : Nat → Session (Chronicle σ) → List Closing
  | 0, _ => []
  | n + 1, s =>
    closingsOf s (turn env.chronicled limit s).2 ++
      match turn env.chronicled limit s with
      | (.ok none, t) => closings n t
      | _ => []

-- The conditions whose branches a number of turns enter.
def conditionsEntered : Nat → Session (Chronicle σ) → List OpenEntry
  | 0, _ => []
  | n + 1, s =>
    branchesEntered s (turn env.chronicled limit s).2 ++
      match turn env.chronicled limit s with
      | (.ok none, t) => conditionsEntered n t
      | _ => []

end

variable {env : Environment σ} {limit : Option Int} {s t final : Session (Chronicle σ)}
  {entered es : List OpenEntry} {closed cs : List Closing}

theorem zipWith_closing (cs : List Closing) (more : List Seconds) :
    List.zipWith Closing.mk (cs.map Closing.opened) (cs.map Closing.reading ++ more) = cs := by
  induction cs with
  | nil => rfl
  | cons c rest ih => exact congrArg (c :: ·) ih

theorem filter_apart {left added kept : List OpenEntry} (hnodup : (left ++ kept).Nodup)
    (h : left = [] ∨ added = []) :
    (left ++ kept).filter (fun o => o ∉ added ++ kept) = left := by
  have hdisjoint := (List.nodup_append.mp hnodup).2.2
  rw [List.filter_append, List.filter_eq_self.mpr, List.filter_eq_nil_iff.mpr, List.append_nil]
  · intro o ho
    simp [ho]
  · intro o ho
    rcases h with rfl | rfl
    · cases ho
    · simpa using fun hk => hdisjoint o ho o hk rfl

namespace Passage

-- A turn enters one branch, or it leaves some.
theorem enters_or_leaves (h : Passage env s t entered closed) :
    (∃ o, entered = [o] ∧ closed = [] ∧ Enters s t o) ∨
      entered = [] ∧ openEntries s.frames = closed.map Closing.opened ++ openEntries t.frames ∧
        (∀ c ∈ closed, ClosedAt t.entries c) ∧ ∃ first last, t.world.readings =
          s.world.readings ++ (first ++ closed.map Closing.reading ++ last) := by
  cases h with
  | idle h =>
    exact .inr ⟨rfl, h.stack.symm, nofun, [], [], h.readings.trans (List.append_nil _).symm⟩
  | leaves hn h size =>
    exact .inr ⟨rfl, h.stack, h.closed, [], [], h.readings.trans (by simp)⟩
  | @runs own cs i hi h =>
    exact .inr ⟨rfl, h.stack, h.closed, [own.opened.started], [own.reading],
      h.readings.trans (by simp)⟩
  | enters hi h => exact .inl ⟨_, rfl, rfl, h⟩

theorem stack_eq (h : Passage env s t entered closed) :
    ∃ kept, openEntries s.frames = closed.map Closing.opened ++ kept ∧
      openEntries t.frames = entered ++ kept ∧ (closed = [] ∨ entered = []) := by
  rcases h.enters_or_leaves with ⟨o, rfl, rfl, he⟩ | ⟨rfl, hstack, -⟩
  · exact ⟨openEntries s.frames, rfl, he.stack, .inl rfl⟩
  · exact ⟨openEntries t.frames, hstack, rfl, .inr rfl⟩

theorem branchesLeft_eq (h : Passage env s t entered closed) (hs : OpenInside s) :
    branchesLeft s t = closed.map Closing.opened := by
  obtain ⟨kept, hbefore, hafter, hone⟩ := h.stack_eq
  have hnodup := hs.nodup
  rw [branchesLeft, hafter, hbefore] at *
  exact filter_apart hnodup (hone.imp (congrArg (List.map Closing.opened)) id)

theorem branchesEntered_eq (h : Passage env s t entered closed) (ht : OpenInside t) :
    branchesEntered s t = entered := by
  obtain ⟨kept, hbefore, hafter, hone⟩ := h.stack_eq
  have hnodup := ht.nodup
  rw [branchesEntered, branchesLeft, hbefore, hafter] at *
  exact filter_apart hnodup (hone.symm.imp id (congrArg (List.map Closing.opened)))

theorem closingsOf_eq (h : Passage env s t entered closed) (hs : OpenInside s) :
    closingsOf s t = closed := by
  rw [closingsOf, h.branchesLeft_eq hs]
  cases h with
  | idle h => rfl
  | leaves hn h size =>
    rw [shown, h.readings, List.drop_left, hn]
    have hall := zipWith_closing closed []
    rwa [List.append_nil] at hall
  | runs hi h =>
    rw [shown, h.readings, hi, List.append_assoc, List.drop_left]
    exact zipWith_closing closed _
  | enters hi h => rfl

theorem readings_prefix (h : Passage env s t entered closed) :
    s.world.readings <+: t.world.readings := by
  rcases h.enters_or_leaves with ⟨o, -, -, he⟩ | ⟨-, -, -, first, last, hreadings⟩
  · exact ⟨_, he.readings.symm⟩
  · exact ⟨_, hreadings.symm⟩

theorem entered_index (h : Passage env s t entered closed) :
    ∀ o ∈ entered, o.index = s.entries.size := by
  rcases h.enters_or_leaves with ⟨o, rfl, -, he⟩ | ⟨rfl, -⟩
  · intro o' ho
    rw [List.mem_singleton.mp ho, he.index]
  · nofun

theorem nodup_entered (h : Passage env s t entered closed) :
    (entered.map OpenEntry.index).Nodup := by
  rcases h.enters_or_leaves with ⟨o, rfl, -⟩ | ⟨rfl, -⟩
  · exact List.nodup_singleton _
  · exact List.nodup_nil

-- What a turn closes is inside of what stays open, and nothing is entered in its place.
theorem index_lt (h : Passage env s t entered closed) (hs : OpenInside s) {c : Closing}
    (hc : c ∈ closed) {o : OpenEntry} (ho : o ∈ openEntries t.frames) :
    o.index < c.opened.index := by
  rcases h.enters_or_leaves with ⟨_, -, rfl, -⟩ | ⟨-, hstack, -⟩
  · cases hc
  · have hnested := hs.nested
    rw [hstack] at hnested
    exact (List.pairwise_append.mp hnested).2.2 _ (List.mem_map_of_mem hc) _ ho

theorem index_le (h : Passage env s t entered closed) (hs : OpenInside s) {o : OpenEntry}
    (ho : o ∈ openEntries t.frames) : o.index ≤ s.entries.size := by
  have hinside : o ∈ openEntries s.frames → o.index ≤ s.entries.size :=
    fun ho => (hs.isOpen o ho).index_lt.le
  rcases h.enters_or_leaves with ⟨o', -, -, he⟩ | ⟨-, hstack, -⟩
  · rw [he.stack] at ho
    rcases List.mem_cons.mp ho with rfl | ho
    · exact he.index.le
    · exact hinside ho
  · rw [hstack] at hinside
    exact hinside (List.mem_append_right _ ho)

end Passage

-- How what is open in a state is closed, the innermost first: each after what is inside of it and
-- after all that the timer has shown.
structure InOrder (s : Session (Chronicle σ)) (cs inside : List Closing) : Prop where
  mem : ∀ c ∈ inside, c ∈ cs
  opened : inside.map Closing.opened = openEntries s.frames
  nested : inside.Pairwise fun inner outer => inner.reading ≤ outer.reading
  after : ∀ c ∈ inside, ∀ now ∈ s.world.readings, now ≤ c.reading

-- What is left of a run from a state on. It closes what it enters and what is open by then, and
-- does not touch what is closed.
structure Rest (env : Environment σ) (es : List OpenEntry) (cs : List Closing)
    (s final : Session (Chronicle σ)) : Prop where
  once : (cs.map Closing.opened).Perm (es ++ openEntries s.frames)
  distinct : (es.map OpenEntry.index).Nodup
  later : ∀ o ∈ es, s.entries.size ≤ o.index
  closed : ∀ c ∈ cs, ClosedAt final.entries c
  kept : ∀ j, j < s.entries.size → (∀ o ∈ openEntries s.frames, o.index ≠ j) →
    final.entries[j]? = s.entries[j]?
  readings : s.world.readings <+: final.world.readings
  ordered : env.Steady → final.world.readings.Pairwise (· ≤ ·) → ∃ inside, InOrder s cs inside

theorem ClosedAt.index_lt {entries : Array Entry} {c : Closing} (h : ClosedAt entries c) :
    c.opened.index < entries.size := by
  obtain ⟨test, isMet, url, he⟩ := h
  exact (Array.getElem?_eq_some_iff.mp he).1

-- What a turn closes stays as it is.
theorem Rest.closed_before (h : Rest env es cs t final) (hs : OpenInside s)
    (hp : Passage env s t entered closed) {c : Closing} (hc : c ∈ closed) :
    ClosedAt t.entries c ∧ final.entries[c.opened.index]? = t.entries[c.opened.index]? := by
  have hclosed : ClosedAt t.entries c := by
    rcases hp.enters_or_leaves with ⟨_, -, rfl, -⟩ | ⟨-, -, hall, -⟩
    · cases hc
    · exact hall c hc
  refine ⟨hclosed, h.kept _ hclosed.index_lt fun o ho => ?_⟩
  exact (hp.index_lt hs hc ho).ne

-- The conditions that a turn closes come before those that are closed later.
theorem Rest.ordered_before (h : Rest env es cs t final) (hp : Passage env s t entered closed)
    (hsteady : env.Steady) (hsorted : final.world.readings.Pairwise (· ≤ ·)) :
    ∃ inside, InOrder s (closed ++ cs) inside := by
  obtain ⟨inside, hmem, hinside, hnested, hafter⟩ := h.ordered hsteady hsorted
  have hearlier := hp.readings_prefix.subset
  rcases hp.enters_or_leaves with ⟨o, -, -, he⟩ | ⟨-, hstack, -, first, last, hreadings⟩
  · rw [he.stack] at hinside
    obtain ⟨c, outer, rfl, -, houter⟩ := List.map_eq_cons_iff.mp hinside
    refine ⟨outer, fun d hd => ?_, houter, (List.pairwise_cons.mp hnested).2,
      fun d hd now hnow => ?_⟩
    · exact List.mem_append_right _ (hmem d (List.mem_cons_of_mem _ hd))
    · exact hafter d (List.mem_cons_of_mem _ hd) now (hearlier hnow)
  · have hnow := hsorted.sublist h.readings.sublist
    rw [hreadings] at hnow
    obtain ⟨-, hturn, hlast⟩ := List.pairwise_append.mp hnow
    have hclosed := (List.pairwise_append.mp (List.pairwise_append.mp hturn).1).2.1
    have hread : ∀ c ∈ closed, c.reading ∈ first ++ closed.map Closing.reading ++ last :=
      fun c hc => List.mem_append_left _ (List.mem_append_right _ (List.mem_map_of_mem hc))
    refine ⟨closed ++ inside, fun c hc => ?_, ?_, ?_, fun c hc now hnow => ?_⟩
    · exact (List.mem_append.mp hc).elim (List.mem_append_left _)
        fun hc => List.mem_append_right _ (hmem c hc)
    · rw [List.map_append, hinside, hstack]
    · refine List.pairwise_append.mpr ⟨List.pairwise_map.mp hclosed, hnested, fun c hc d hd => ?_⟩
      refine hafter d hd c.reading ?_
      rw [hreadings]
      exact List.mem_append_right _ (hread c hc)
    · rcases List.mem_append.mp hc with hc | hc
      · exact hlast now hnow _ (hread c hc)
      · exact hafter c hc now (hearlier hnow)

-- What is left before a turn, from what is left after it.
theorem Rest.turn (h : Rest env es cs t final) (hs : OpenInside s) (ht : OpenInside t)
    (hp : Passage env s t entered closed) {told : List Entry}
    (hrecord : Records s.entries.size (openEntries s.frames) told s.entries t.entries) :
    Rest env (entered ++ es) (closed ++ cs) s final := by
  have hsize := hrecord.size_le
  obtain ⟨kept, hbefore, hafter, -⟩ := hp.stack_eq
  have hlt : ∀ o ∈ entered, o.index < t.entries.size := fun o ho =>
    (ht.isOpen o (hafter ▸ List.mem_append_left _ ho)).index_lt
  refine ⟨?_, ?_, ?_, ?_, fun j hj ho => ?_, hp.readings_prefix.trans h.readings,
    fun hsteady hsorted => ?_⟩
  · have honce := h.once
    rw [hafter] at honce
    rw [hbefore, List.map_append]
    refine List.perm_iff_count.mpr fun a => ?_
    have := List.perm_iff_count.mp honce a
    simp only [List.count_append] at this ⊢
    omega
  · rw [List.map_append]
    refine List.nodup_append.mpr ⟨hp.nodup_entered, h.distinct, fun i hi j hj => ?_⟩
    obtain ⟨o, ho, rfl⟩ := List.mem_map.mp hi
    obtain ⟨o', ho', rfl⟩ := List.mem_map.mp hj
    exact ((hlt o ho).trans_le (h.later o' ho')).ne
  · intro o ho
    rcases List.mem_append.mp ho with ho | ho
    · exact (hp.entered_index o ho).ge
    · exact hsize.trans (h.later o ho)
  · intro c hc
    rcases List.mem_append.mp hc with hc | hc
    · obtain ⟨hclosed, hstays⟩ := h.closed_before hs hp hc
      exact hclosed.of_eq hstays
    · exact h.closed c hc
  · rw [h.kept j (by omega), hrecord.kept j hj ho]
    intro o hmem
    rw [hafter] at hmem
    rcases List.mem_append.mp hmem with hmem | hmem
    · have := hp.entered_index o hmem
      omega
    · exact ho o (hbefore ▸ List.mem_append_right _ hmem)
  · exact h.ordered_before hp hsteady hsorted

-- The entries that are still open when a run stops are closed, the outermost first. Nothing comes
-- in between but readings of the timer.
theorem settle_closes {inside : List OpenEntry} {s : Session (Chronicle σ)}
    (hopen : ∀ o ∈ inside, IsOpen s.entries o)
    (hnested : inside.Pairwise fun inner outer => outer.index < inner.index) :
    ∃ cs t, cs.map Closing.opened = inside.reverse ∧
      settle env.chronicled inside s = (.ok (), t) ∧ ClosesAll env cs s t := by
  induction inside with
  | nil =>
    exact ⟨[], s, rfl, rfl, rfl, (List.append_nil _).symm, nofun, fun _ _ => rfl,
      fun _ => ⟨nofun, rfl⟩⟩
  | cons o rest ih =>
    obtain ⟨houter, hrest⟩ := List.pairwise_cons.mp hnested
    obtain ⟨cs, u, hcs, hsettle, hall⟩ := ih (fun o ho => hopen o (List.mem_cons_of_mem _ ho)) hrest
    have hapart : ∀ c ∈ cs, c.opened.index < o.index := fun c hc => by
      refine houter c.opened ?_
      rw [← List.mem_reverse, ← hcs]
      exact List.mem_map_of_mem hc
    have hfinal := Effect.bind_ok hsettle (fun _ => do
      let now ← observe env.chronicled.timer
      amend o.index fun e => e.withDuration (elapsed o.started now))
    refine ⟨cs ++ [⟨o, timerNow env u⟩], _, ?_, hfinal, hall.frames, ?_, ?_, fun j hj => ?_,
      fun hsteady => ⟨?_, ?_⟩⟩
    · rw [List.map_append, hcs, List.reverse_cons]
      rfl
    · change u.world.readings ++ [timerNow env u] = _
      rw [hall.readings, List.map_append, List.append_assoc]
      rfl
    · rw [List.forall_mem_append]
      refine ⟨fun c hc => (hall.closed c hc).of_eq ?_, ?_⟩
      · have := hapart c hc
        dsimp only
        rw [Array.getElem?_modify, if_neg (by omega)]
      · intro c hc
        obtain rfl := List.mem_singleton.mp hc
        obtain ⟨test, isMet, he⟩ := (hopen o List.mem_cons_self).of_eq
          (hall.others o.index fun c hc => (hapart c hc).ne)
        refine ⟨test, isMet, o.address.map .same, ?_⟩
        dsimp only
        rw [Array.getElem?_modify, if_pos rfl, he]
        rfl
    · obtain ⟨hcs, ho⟩ := List.forall_mem_append.mp hj
      dsimp only
      rw [Array.getElem?_modify, if_neg (ho ⟨o, _⟩ (List.mem_singleton_self _)), hall.others j hcs]
    · obtain ⟨hreadings, hstill⟩ := hall.still hsteady
      rw [List.forall_mem_append]
      refine ⟨hreadings, fun c hc => ?_⟩
      rw [List.mem_singleton.mp hc]
      exact hstill
    · exact (hsteady.timer _).trans (hall.still hsteady).2

-- What is done when a run stops, and what is recorded then.
theorem conclude_settles {started : Seconds} {inside : List OpenEntry}
    {outcome : Except Failure Ending} (hinside : outcome = .ok .completed → inside = [])
    (h : conclude env.chronicled started inside outcome s = (.ok (), final)) :
    ∃ t, settle env.chronicled inside s = (.ok (), t) ∧
      (∃ more, final.world.readings = t.world.readings ++ more) ∧
      ∀ j, j < t.entries.size → final.entries[j]? = t.entries[j]? := by
  have hrecord : ∀ e : Seconds → Entry, (do
      settle env.chronicled inside
      record (e (← observe env.chronicled.timer)) : Effect (Session (Chronicle σ)) Unit) s =
        (.ok (), final) → ∃ t, settle env.chronicled inside s = (.ok (), t) ∧
      (∃ more, final.world.readings = t.world.readings ++ more) ∧
      ∀ j, j < t.entries.size → final.entries[j]? = t.entries[j]? := by
    intro e h
    obtain ⟨_, t, ht, h⟩ := Effect.bind_eq_ok h
    cases h
    refine ⟨t, ht, ⟨_, rfl⟩, fun j hj => ?_⟩
    dsimp only
    rw [Array.getElem?_push_lt hj, Array.getElem?_eq_getElem hj]
  cases outcome with
  | ok ending =>
    cases ending with
    | completed =>
      rw [hinside rfl] at hrecord ⊢
      exact hrecord (fun now => .success (elapsed started now)) h
    | cancelled => exact ⟨final, h, ⟨[], (List.append_nil _).symm⟩, fun _ _ => rfl⟩
  | error e =>
    by_cases he : e = .unfinished
    · subst he
      cases h
    · rw [conclude_error env.chronicled started inside he] at h
      exact hrecord (fun now => .error e.message (elapsed started now)) h

-- Nothing is left to do when a run has stopped but to close what is open.
theorem conclude_rest (hs : OpenInside s) {started : Seconds} {outcome : Except Failure Ending}
    (hframes : outcome = .ok .completed → s.frames = [])
    (h : conclude env.chronicled started (openEntries s.frames) outcome s = (.ok (), final)) :
    Rest env [] (closingsAtStop s final) s final := by
  obtain ⟨t, hsettle, ⟨more, hmore⟩, hentries⟩ :=
    conclude_settles (fun hcompleted => congrArg openEntries (hframes hcompleted)) h
  obtain ⟨cs, u, hcs, hsettle', hall⟩ := settle_closes hs.isOpen hs.nested
  cases hsettle.symm.trans hsettle'
  have hreadings : final.world.readings =
      s.world.readings ++ (cs.map Closing.reading ++ more) := by
    rw [hmore, hall.readings, List.append_assoc]
  have hstop : closingsAtStop s final = cs := by
    rw [closingsAtStop, shown, hreadings, List.drop_left, ← hcs]
    exact zipWith_closing cs more
  have hperm : (cs.map Closing.opened).Perm (openEntries s.frames) :=
    hcs ▸ List.reverse_perm _
  have hsize := (settle_records 0 hsettle).2.size_eq
  rw [hstop]
  refine ⟨hperm, List.nodup_nil, nofun, fun c hc => ?_, fun j hj ho => ?_, ⟨_, hreadings.symm⟩,
    fun hsteady hsorted => ⟨cs.reverse, fun c => List.mem_reverse.mp, ?_, ?_, ?_⟩⟩
  · have hclosed := hall.closed c hc
    exact hclosed.of_eq (hentries _ hclosed.index_lt)
  · rw [hentries j (by omega), hall.others j]
    exact fun c hc => ho c.opened (hperm.mem_iff.mp (List.mem_map_of_mem hc))
  · rw [List.map_reverse, hcs, List.reverse_reverse]
  · have hread := (hall.still hsteady).1
    refine List.pairwise_of_forall_mem_list fun c hc d hd => ?_
    rw [hread c (List.mem_reverse.mp hc), hread d (List.mem_reverse.mp hd)]
  · intro c hc now hnow
    rw [hreadings] at hsorted
    exact (List.pairwise_append.mp hsorted).2.2 now hnow _
      (List.mem_append_left _ (List.mem_map_of_mem (List.mem_reverse.mp hc)))

-- A turn is followed by others, or the run stops with it.
theorem loop_succ_cases {n : Nat} {stopped : Session (Chronicle σ)}
    {outcome : Except Failure Ending} {result : Except Failure (Option Ending)}
    (h : loop env.chronicled limit (n + 1) s = (outcome, stopped))
    (ht : turn env.chronicled limit s = (result, t)) :
    result = .ok none ∧ loop env.chronicled limit n t = (outcome, stopped) ∨
      result ≠ .ok none ∧ stopped = t ∧ (outcome = .ok .completed → t.frames = []) := by
  rw [loop_succ, ht] at h
  rcases result with e | _ | ending
  · cases h
    exact .inr ⟨nofun, rfl, nofun⟩
  · exact .inl ⟨rfl, h⟩
  · cases h
    refine .inr ⟨nofun, rfl, fun hcompleted => ?_⟩
    rcases turn_ends env.chronicled limit ht with ⟨-, hf, rfl⟩ | ⟨rfl, -⟩
    · exact hf
    · cases hcompleted

section

variable (hr : env.ReadsAddresses) {n : Nat} {stopped : Session (Chronicle σ)} {started : Seconds}
  {outcome : Except Failure Ending} (hs : OpenInside s)
  (hloop : loop env.chronicled limit n s = (outcome, stopped))
  (hstop : conclude env.chronicled started (openEntries stopped.frames) outcome stopped =
    (.ok (), final))
include hr hs hloop hstop

-- A run closes what it enters, turn by turn and when it stops. The induction is on the turns that
-- are left, from the end of the run back to its start.
theorem loop_rest :
    Rest env (conditionsEntered env limit n s)
      (closings env limit n s ++ closingsAtStop stopped final) s final := by
  induction n generalizing s with
  | zero =>
    cases hloop
    cases hstop
  | succ n ih =>
    rcases ht : turn env.chronicled limit s with ⟨result, t⟩
    have hopen := turn_openInside hs ht
    obtain ⟨entered, closed, hp⟩ := turn_passage hr hs ht
    obtain ⟨told, -, hrecord, -⟩ := turn_records ht
    rw [conditionsEntered, closings, ht, hp.branchesEntered_eq hopen, hp.closingsOf_eq hs]
    rcases loop_succ_cases hloop ht with ⟨rfl, hloop⟩ | ⟨hlast, rfl, hframes⟩
    · rw [List.append_assoc]
      exact (ih hopen hloop).turn hs hopen hp hrecord
    · have hrest := (conclude_rest hopen hframes hstop).turn hs hopen hp hrecord
      rcases result with e | _ | ending
      · simpa using hrest
      · exact absurd rfl hlast
      · simpa using hrest

-- So it does after each of its turns.
theorem turn_rest {k : Nat} {u : Session (Chronicle σ)} {result : Except Failure (Option Ending)}
    (hturns : Turns env.chronicled limit k s u)
    (ht : turn env.chronicled limit u = (result, t)) :
    ∃ es cs, Rest env es cs t final := by
  induction n generalizing s k with
  | zero =>
    cases hloop
    cases hstop
  | succ n ih =>
    cases hturns with
    | zero =>
      have hopen := turn_openInside hs ht
      rcases loop_succ_cases hloop ht with ⟨-, hloop⟩ | ⟨-, rfl, hframes⟩
      · exact ⟨_, _, loop_rest hr hopen hloop hstop⟩
      · exact ⟨_, _, conclude_rest hopen hframes hstop⟩
    | next hfirst hturns =>
      rcases loop_succ_cases hloop hfirst with ⟨-, hloop⟩ | ⟨hlast, -⟩
      · exact ih (turn_openInside hs hfirst) hloop hturns
      · exact absurd rfl hlast

end

-- An entry has been opened at a time that the timer has shown.
theorem Turns.started_mem (hr : env.ReadsAddresses) {n : Nat}
    (h : Turns env.chronicled limit n s t) (hs : OpenInside s)
    (hread : ∀ o ∈ openEntries s.frames, o.started ∈ s.world.readings) :
    ∀ o ∈ openEntries t.frames, o.started ∈ t.world.readings := by
  induction h with
  | zero => exact hread
  | @next n s t u ht hn ih =>
    obtain ⟨entered, closed, hp⟩ := turn_passage hr hs ht
    refine ih (turn_openInside hs ht) fun o ho => ?_
    rcases hp.enters_or_leaves with ⟨o', -, -, he⟩ | ⟨-, hstack, -⟩
    · rw [he.stack] at ho
      rw [he.readings]
      rcases List.mem_cons.mp ho with rfl | ho
      · exact List.mem_append_right _ (List.mem_singleton_self _)
      · exact List.mem_append_left _ (hread o ho)
    · refine hp.readings_prefix.subset (hread o ?_)
      rw [hstack]
      exact List.mem_append_right _ ho

-- Of what is recorded in a turn, the instruction comes first.
theorem turn_instruction_index {τ : Type} {env : Environment τ} (hr : env.ReadsAddresses)
    {s t : Session τ} {outcome : Except Failure (Option Ending)}
    (h : turn env limit s = (outcome, t)) {j : Nat} {info : InstructionInfo}
    {url : Option PageUrl} {duration : Binary64} (hj : s.entries.size ≤ j)
    (he : t.entries[j]? = some (.instruction info url duration)) : j = s.entries.size := by
  obtain ⟨told, htells, hrecord, -⟩ := turn_records h
  obtain rfl := htells.eq hr
  have hbare := congrArg (·[j]?) hrecord.bare
  rw [List.getElem?_append_right (by simpa using hj), List.getElem?_map, Array.getElem?_toList, he,
    List.length_map, Array.length_toList] at hbare
  cases hk : j - s.entries.size with
  | zero => omega
  | succ k =>
    rw [hk] at hbare
    cases hd : deed? env limit s with
    | none =>
      rw [hd] at hbare
      cases hbare
    | some d =>
      rw [hd, Option.toList_some, List.flatMap_singleton] at hbare
      have hcall : (d.calls.map StoreCall.entry)[k]? = _ := hbare.symm
      obtain ⟨call, -, hcall⟩ := List.mem_map.mp (List.mem_of_getElem? hcall)
      cases hcall

-- What is recorded while a branch is run takes no longer than the condition.
theorem Rest.outlasts (h : Rest env es cs t final) (hs : OpenInside s)
    (hp : Passage env s t entered closed) (hsteady : env.Steady)
    (hsorted : final.world.readings.Pairwise (· ≤ ·))
    (hread : ∀ o ∈ openEntries s.frames, o.started ∈ s.world.readings)
    (hsize : s.entries.size < t.entries.size) {info : InstructionInfo} {url : Option PageUrl}
    {duration : Binary64}
    (he : final.entries[s.entries.size]? = some (.instruction info url duration))
    {o : OpenEntry} (ho : o ∈ openEntries s.frames) :
    ∃ c, c.opened = o ∧ ClosedAt final.entries c ∧
      duration.AtMost (elapsed o.started c.reading) := by
  obtain ⟨inside, hmem, hinside, hnested, hafter⟩ := h.ordered hsteady hsorted
  have hnow := hsorted.sublist h.readings.sublist
  cases hp with
  | idle hidle =>
    rw [hidle.entries] at hsize
    exact absurd hsize (Nat.lt_irrefl _)
  | leaves hn hleaves hle => omega
  | @runs own cs i hi hruns =>
    have hkept : final.entries[s.entries.size]? = t.entries[s.entries.size]? :=
      h.kept _ hsize fun o ho => by
        refine (hs.isOpen o ?_).index_lt.ne
        rw [hruns.stack]
        exact List.mem_append_right _ ho
    obtain ⟨info', url', htimed⟩ := hruns.timed
    rw [hkept, htimed] at he
    cases he
    have hstarted : o.started ≤ own.opened.started := by
      rw [hruns.readings, List.append_assoc] at hnow
      exact (List.pairwise_append.mp hnow).2.2 _ (hread o ho) _ List.mem_cons_self
    have hout := ho
    rw [hruns.stack] at hout
    rcases List.mem_append.mp hout with hleft | hstays
    · obtain ⟨c, hc, rfl⟩ := List.mem_map.mp hleft
      obtain ⟨hclosed, hsame⟩ := h.closed_before hs (.runs hi hruns) hc
      have hstill := hruns.still hsteady c hc
      exact ⟨c, rfl, hclosed.of_eq hsame, elapsed_atMost hstarted hstill.ge⟩
    · rw [← hinside] at hstays
      obtain ⟨c, hc, rfl⟩ := List.mem_map.mp hstays
      have hlater := hafter c hc own.reading (by rw [hruns.readings]; simp)
      exact ⟨c, rfl, h.closed c (hmem c hc), elapsed_atMost hstarted hlater⟩
  | @enters inner i hi henters =>
    rw [henters.stack] at hinside
    obtain ⟨c', outer, rfl, rfl, houter⟩ := List.map_eq_cons_iff.mp hinside
    obtain ⟨test, isMet, url', hclosed⟩ := h.closed c' (hmem c' List.mem_cons_self)
    rw [henters.index, he] at hclosed
    cases hclosed
    rw [← houter] at ho
    obtain ⟨c, hc, rfl⟩ := List.mem_map.mp ho
    have hstarted : c.opened.started ≤ c'.opened.started := by
      rw [henters.readings] at hnow
      refine (List.pairwise_append.mp hnow).2.2 _ (hread _ ?_) _ (List.mem_singleton_self _)
      rw [← houter]
      exact List.mem_map_of_mem hc
    have hreading := (List.pairwise_cons.mp hnested).1 c hc
    exact ⟨c, rfl, h.closed c (hmem c (List.mem_cons_of_mem _ hc)),
      elapsed_atMost hstarted hreading⟩

-- How a run that returns has closed the conditions whose branches it entered.
structure ClosesOnce (env : Environment σ) (limit : Option Int)
    (start final : Session (Chronicle σ)) (es : List OpenEntry) (cs : List Closing)
    (all : Array Entry) : Prop where
  -- Each is closed once, and its duration is the time between its own two readings.
  once : (cs.map Closing.opened).Perm es
  distinct : (es.map OpenEntry.index).Nodup
  closed : ∀ c ∈ cs, ClosedAt all c
  -- It is opened by the turn that enters the branch, which reads the timer for nothing else.
  entered : ∀ n s t outcome, Turns env.chronicled limit n start s →
    turn env.chronicled limit s = (outcome, t) → ∀ o ∈ branchesEntered s t,
    o.index = s.entries.size ∧ shown s t = [o.started]
  -- It stays open until a turn leaves the branch, and then as that turn leaves it.
  left : ∀ n s t outcome, Turns env.chronicled limit n start s →
    turn env.chronicled limit s = (outcome, t) → ∀ o ∈ branchesLeft s t,
    IsOpen s.entries o ∧ all[o.index]? = t.entries[o.index]?
  -- With a timer that never goes back, nothing that is recorded meanwhile takes longer.
  longest : env.Steady → final.world.readings.Pairwise (· ≤ ·) →
    ∀ n s t outcome, Turns env.chronicled limit n start s →
    turn env.chronicled limit s = (outcome, t) → ∀ o ∈ openEntries s.frames,
    ∀ j info url duration, s.entries.size ≤ j → j < t.entries.size →
    all[j]? = some (.instruction info url duration) →
    ∃ test isMet after whole, all[o.index]? =
      some (.instruction (.condition test isMet) after whole) ∧ duration.AtMost whole

theorem run_closesOnce (hr : env.ReadsAddresses) {fuel : Nat} {script : List Instruction}
    {entries all : Array Entry} {world : σ}
    (h : (run env limit fuel script entries world).1 = .ok all) :
    let start := begun env.chronicled script entries (.blank world)
    let turns := turnLimit limit fuel
    let stopped := (loop env.chronicled limit turns start).2
    let final := (wholeRun env.chronicled limit fuel script entries (.blank world)).2
    ClosesOnce env limit start final (conditionsEntered env limit turns start)
      (closings env limit turns start ++ closingsAtStop stopped final) all := by
  intro start turns stopped final
  rcases hloop : loop env.chronicled limit turns start with ⟨outcome, last⟩
  have hlast : stopped = last := congrArg Prod.snd hloop
  have hwhole := wholeRun_of_loop env.chronicled limit hloop
  rw [run_chronicled] at h
  rcases hresult : wholeRun env.chronicled limit fuel script entries (.blank world) with
    ⟨e | _, final'⟩ <;> rw [hresult] at h
  · cases h
  cases h
  have hfinal : final = final' := congrArg Prod.snd hresult
  have hstop := hwhole.symm.trans hresult
  rw [hfinal]
  have hopen : OpenInside start := openInside_begun script entries (Chronicle.blank world)
  have hrest := loop_rest hr hopen hloop hstop
  rw [hlast]
  refine ⟨?_, hrest.distinct, hrest.closed, fun n s t result hturns ht o ho => ?_,
    fun n s t result hturns ht o ho => ?_,
    fun hsteady hsorted n s t result hturns ht o ho j info url duration hj hlt he => ?_⟩
  · have honce := hrest.once
    rwa [show openEntries start.frames = [] from rfl, List.append_nil] at honce
  · have hs := hturns.openInside hopen
    obtain ⟨es, cs, hp⟩ := turn_passage hr hs ht
    rw [hp.branchesEntered_eq (turn_openInside hs ht)] at ho
    rcases hp.enters_or_leaves with ⟨o', rfl, -, henters⟩ | ⟨rfl, -⟩
    · rw [List.mem_singleton.mp ho, shown, henters.readings, List.drop_left]
      exact ⟨henters.index, rfl⟩
    · cases ho
  · have hs := hturns.openInside hopen
    obtain ⟨es, cs, hp⟩ := turn_passage hr hs ht
    obtain ⟨es', cs', hafter⟩ := turn_rest hr hopen hloop hstop hturns ht
    rw [hp.branchesLeft_eq hs] at ho
    obtain ⟨c, hc, rfl⟩ := List.mem_map.mp ho
    refine ⟨hs.isOpen _ ?_, (hafter.closed_before hs hp hc).2⟩
    obtain ⟨kept, hstack, -⟩ := hp.stack_eq
    rw [hstack]
    exact List.mem_append_left _ ho
  · have hs := hturns.openInside hopen
    obtain ⟨es, cs, hp⟩ := turn_passage hr hs ht
    obtain ⟨es', cs', hafter⟩ := turn_rest hr hopen hloop hstop hturns ht
    obtain rfl : j = s.entries.size := by
      by_contra hne
      rw [hafter.kept j hlt fun o ho => ((hp.index_le hs ho).trans_lt (by omega)).ne] at he
      exact hne (turn_instruction_index (chronicled_readsAddresses hr) ht hj he)
    have hread := hturns.started_mem hr hopen nofun
    obtain ⟨c, rfl, ⟨test, isMet, after, hclosed⟩, hmost⟩ :=
      hafter.outlasts hs hp hsteady hsorted hread hlt he ho
    exact ⟨test, isMet, after, _, hclosed, hmost⟩

-- The jump closes both conditions, the inner one first, and a third one is closed at the end of its
-- branch.
theorem run_closesOnce_whileVisible :
    let env := Rehearsal.environment Rehearsal.scriptedPages (Rehearsal.KeyedStore.store none)
    let start := begun env.chronicled whileVisible #[] (.blank twoLooks)
    let turns := turnLimit (some 5) 0
    let stopped := (loop env.chronicled (some 5) turns start).2
    let final := (wholeRun env.chronicled (some 5) 0 whileVisible #[] (.blank twoLooks)).2
    let closed := closings env (some 5) turns start ++ closingsAtStop stopped final
    let moment := Rehearsal.World.wholeSeconds
    env.ReadsAddresses ∧ env.Steady ∧ final.world.readings.Pairwise (· ≤ ·) ∧
    closed.map (fun c => (c.opened.index, c.opened.started, c.reading)) =
      [(2, moment 1, moment 2), (1, moment 0, moment 2), (4, moment 2, moment 3)] ∧
    ∃ all, (run env (some 5) 0 whileVisible #[] twoLooks).1 = .ok all ∧
      ClosesOnce env (some 5) start final (conditionsEntered env (some 5) turns start) closed
        all := by
  intro env start turns stopped final closed moment
  have hr : env.ReadsAddresses := fun _ _ => ⟨_, rfl⟩
  have hok : (run env (some 5) 0 whileVisible #[] twoLooks).1.isOk = true := by decide +kernel
  refine ⟨hr, ⟨fun _ => rfl, fun _ _ => rfl⟩, by decide +kernel, by decide +kernel, ?_⟩
  cases h : (run env (some 5) 0 whileVisible #[] twoLooks).1 with
  | ok all => exact ⟨all, rfl, run_closesOnce hr h⟩
  | error e =>
    rw [h] at hok
    cases hok

end Gleaner
