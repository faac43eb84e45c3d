import Gleaner.Proofs.Validation.Valid
import Gleaner.Routine.NextRun
import Mathlib.Order.Bounds.Basic

namespace Gleaner

open Validation

theorem Schedule.interval_pos {v : Value} {s : Schedule} (h : Schedule.check v = .valid s) :
    0 < s.interval := by
  unfold Schedule.check at h
  obtain ⟨fields, -, h⟩ := model_eq_valid h
  obtain ⟨_, endAt, hthree, -, rfl⟩ := Checked.ap_eq_valid h
  obtain ⟨_, startAt, htwo, -, rfl⟩ := Checked.ap_eq_valid hthree
  obtain ⟨_, interval, hone, hinterval, rfl⟩ := Checked.ap_eq_valid htwo
  obtain ⟨kind, -, rfl⟩ := Checked.map_eq_valid hone
  obtain ⟨n, hn, rfl⟩ := Checked.map_eq_valid hinterval
  obtain ⟨w, hw⟩ := required_eq_valid hn
  have hleast := atLeast_eq_valid hw
  change 0 < n.toNat
  omega

namespace Schedule

variable {s : Schedule} {now : Int}

-- A point of a schedule: so many intervals after the start, and up to the end where there is one.
structure IsPoint (s : Schedule) (p : Int) : Prop where
  regular : ∃ k : Nat, p = s.startAt + k * s.interval
  inTime : ∀ e ∈ s.endAt, p ≤ e

-- The first point after some time if there were no end.
def upcoming (s : Schedule) (now : Int) : Int :=
  if now < s.startAt then s.startAt
  else s.startAt + (Int.fdiv (now - s.startAt) s.interval + 1) * s.interval

theorem lt_upcoming (hs : 0 < s.interval) (now : Int) : now < s.upcoming now := by
  unfold upcoming
  split
  · assumption
  · have hpos : (0 : Int) < s.interval := by omega
    have hlast := Int.lt_fdiv_add_one_mul_self (now - s.startAt) hpos
    omega

theorem upcoming_regular (s : Schedule) (now : Int) :
    ∃ k : Nat, s.upcoming now = s.startAt + k * s.interval := by
  unfold upcoming
  by_cases hstart : now < s.startAt
  · exact ⟨0, by simp [hstart]⟩
  · have hpast : 0 ≤ Int.fdiv (now - s.startAt) s.interval :=
      Int.fdiv_nonneg (by omega) (by omega)
    obtain ⟨k, hk⟩ := Int.eq_ofNat_of_zero_le hpast
    refine ⟨k + 1, ?_⟩
    rw [if_neg hstart, hk]
    rfl

-- There is nothing between some time and the first point after it.
theorem upcoming_le (hs : 0 < s.interval) {k : Nat} (h : now < s.startAt + k * s.interval) :
    s.upcoming now ≤ s.startAt + k * s.interval := by
  have hpos : (0 : Int) < s.interval := by omega
  unfold upcoming
  split
  · have hk : (0 : Int) ≤ k * s.interval := Int.mul_nonneg (by omega) (by omega)
    omega
  · have hfloor : Int.fdiv (now - s.startAt) s.interval < k := by
      rw [Int.fdiv_eq_ediv_of_nonneg _ (by omega), Int.ediv_lt_iff_lt_mul hpos]
      omega
    have hmul : (Int.fdiv (now - s.startAt) s.interval + 1) * s.interval ≤ k * s.interval :=
      Int.mul_le_mul_of_nonneg_right (by omega) (by omega)
    omega

-- A schedule has come to its end if that is before the next point.
theorem next?_eq (hs : 0 < s.interval) (now : Int) :
    s.next? now = if ∀ e ∈ s.endAt, s.upcoming now ≤ e then some (s.upcoming now) else none := by
  have hlater := lt_upcoming hs now
  have hnext : s.next? now =
      if (s.endAt.map fun e => decide ((e : Int) ≤ now)).getD false then none
      else if (s.endAt.map fun e => decide ((e : Int) < s.upcoming now)).getD false then none
      else some (s.upcoming now) := by
    unfold next? upcoming
    by_cases hstart : now < s.startAt <;> simp only [hstart, if_true, if_false]
  rw [hnext]
  cases s.endAt with
  | none => simp
  | some e =>
    by_cases hend : s.upcoming now ≤ e
    · have hopen : ¬(e : Int) ≤ now := by omega
      have htime : ¬(e : Int) < s.upcoming now := by omega
      simp [hend, hopen, htime]
    · have hover : (e : Int) < s.upcoming now := by omega
      simp [hend, hover]

-- The first time after `now` that is regular, the end apart.
theorem upcoming_isLeast (hs : 0 < s.interval) (now : Int) :
    IsLeast {p | now < p ∧ ∃ k : Nat, p = s.startAt + k * s.interval} (s.upcoming now) := by
  refine ⟨⟨lt_upcoming hs now, s.upcoming_regular now⟩, ?_⟩
  rintro p ⟨hlater, k, rfl⟩
  exact upcoming_le hs hlater

-- The next run is the first point to come: one comes in some time exactly if the next run does.
theorem next?_le_iff (hs : 0 < s.interval) (now later : Int) :
    (∃ next, s.next? now = some next ∧ next ≤ later) ↔
      ∃ p, s.IsPoint p ∧ now < p ∧ p ≤ later := by
  rw [next?_eq hs]
  constructor
  · rintro ⟨next, hnext, hle⟩
    split at hnext
    · next hend =>
      cases hnext
      exact ⟨_, ⟨s.upcoming_regular now, hend⟩, lt_upcoming hs now, hle⟩
    · cases hnext
  · rintro ⟨p, ⟨⟨k, rfl⟩, hend⟩, hlater, hle⟩
    have hfirst := upcoming_le hs hlater
    refine ⟨s.upcoming now, if_pos fun e he => ?_, by omega⟩
    have := hend e he
    omega

theorem lt_of_next? (hs : 0 < s.interval) {next : Int} (h : s.next? now = some next) :
    now < next := by
  have hlater := lt_upcoming hs now
  rw [next?_eq hs] at h
  split at h
  · cases h
    exact hlater
  · cases h

end Schedule

-- The next run of an active routine, however its schedule is given, is the first regular time
-- after `now`; only its end can prevent it.
theorem nextRun_iff_isLeast {s : Schedule} (hs : 0 < s.interval) (now : Int) :
    (∀ schedule, Schedule.check schedule = .valid s →
      nextRunOf (.text Status.active.name) schedule now = .ok (s.nextFor? .active now)) ∧
    ∀ t, s.nextFor? .active now = some t ↔
      IsLeast {p : Int | now < p ∧ ∃ k : Nat, p = s.startAt + k * s.interval} t ∧
        ∀ e ∈ s.endAt, t ≤ e := by
  constructor
  · intro schedule hschedule
    have hstatus : (Value.text Status.active.name).text?.bind Status.ofName? = some .active := by
      decide
    rw [nextRunOf, hstatus]
    dsimp only
    rw [hschedule]
    rfl
  · intro t
    have hleast := Schedule.upcoming_isLeast hs now
    change s.next? now = some t ↔ _
    rw [Schedule.next?_eq hs]
    constructor
    · intro h
      split at h
      · next hend =>
        cases h
        exact ⟨hleast, hend⟩
      · cases h
    · rintro ⟨ht, hend⟩
      obtain rfl := hleast.unique ht
      exact if_pos hend

-- A run that falls on the end still takes place.
theorem nextRun_at_end : (∀ schedule, Schedule.check schedule = .valid ⟨10, 5, some 25⟩ →
      nextRunOf (.text Status.active.name) schedule 15 = .ok (some 25)) ∧
    ∀ t, Schedule.nextFor? .active ⟨10, 5, some 25⟩ 15 = some t ↔
      IsLeast {p : Int | 15 < p ∧ ∃ k : Nat, p = (5 : Nat) + k * (10 : Nat)} t ∧
        ∀ e ∈ some 25, t ≤ (e : Nat) :=
  nextRun_iff_isLeast (s := ⟨10, 5, some 25⟩) (by decide) 15

-- A routine that has a next run is active, and the next run comes after the time it was reckoned
-- from.
theorem nextRunOf_eq_some {status schedule : Value} {now next : Int}
    (h : nextRunOf status schedule now = .ok (some next)) :
    status = .text Status.active.name ∧ now < next := by
  unfold nextRunOf at h
  cases hstatus : status.text?.bind Status.ofName? with
  | none =>
    rw [hstatus] at h
    cases h
  | some known =>
    rw [hstatus] at h
    cases known with
    | active =>
      dsimp only at h
      cases hs : Schedule.check schedule with
      | invalid issues =>
        rw [hs] at h
        cases h
      | valid s =>
        rw [hs] at h
        refine ⟨?_, Schedule.lt_of_next? (Schedule.interval_pos hs) (Except.ok.inj h)⟩
        obtain ⟨name, htext, hname⟩ := Option.bind_eq_some_iff.mp hstatus
        have hfound : Status.active.name = name := by simpa using List.find?_some hname
        cases status with
        | text s =>
          cases htext
          rw [hfound]
        | _ => cases htext
    | _ => cases h

-- A written schedule is checked field by field; its times always pass.
theorem Schedule.check_document_eq (s : Schedule) :
    Schedule.check (s.document.toValue .full) =
      (fun n : Int => { s with interval := n.toNat }) <$>
        (atLeast 1 (.int s.interval)).under (.key "interval") := by
  obtain ⟨interval, startAt, endAt⟩ := s
  have htime : ∀ n : Nat, checkTimestamp (.int n) = .valid n := by
    intro n
    rw [checkTimestamp, atLeast_int (Int.natCast_nonneg n)]
    rfl
  have hread : Schedule.check ((⟨interval, startAt, endAt⟩ : Schedule).document.toValue .full) =
      ((fun (_ : String) n m e => (⟨n, m, e⟩ : Schedule)) <$> Checked.valid "interval"
        <*> (Int.toNat <$> (atLeast 1 (.int interval)).under (.key "interval"))
        <*> (checkTimestamp (.int startAt)).under (.key "startAt")
        <*> (endAt.elim (.valid none) fun e =>
          (some <$> checkTimestamp (.int e)).under (.key "endAt"))) := by
    cases endAt <;> rfl
  rw [hread, htime]
  cases endAt with
  | none => cases atLeast 1 (.int interval) <;> rfl
  | some e =>
    dsimp only [Option.elim]
    rw [htime]
    cases atLeast 1 (.int interval) <;> rfl

-- A schedule is read as it is written, unless it has no interval.
theorem Schedule.check_document {s : Schedule} (hs : 0 < s.interval) :
    Schedule.check (s.document.toValue .full) = .valid s := by
  rw [check_document_eq, atLeast_int (by omega)]
  rfl

theorem Schedule.eq_of_check_document {s t : Schedule}
    (h : Schedule.check (s.document.toValue .full) = .valid t) : t = s := by
  by_cases hs : 0 < s.interval
  · rw [check_document hs] at h
    exact (Checked.valid.inj h).symm
  · have hleast : atLeast 1 (.int s.interval) = .fault (.below 1) := if_pos (by omega)
    rw [check_document_eq, hleast] at h
    cases h

-- The next run of an active routine is the next point of its schedule.
theorem nextRunOf_document {s : Schedule} {now : Int} {next : Option Int}
    (h : nextRunOf (.text Status.active.name) (s.document.toValue .full) now = .ok next) :
    0 < s.interval ∧ next = s.next? now := by
  have hstatus : (Value.text Status.active.name).text?.bind Status.ofName? = some .active := by
    decide
  unfold nextRunOf at h
  rw [hstatus] at h
  dsimp only at h
  cases hs : Schedule.check (s.document.toValue .full) with
  | invalid issues =>
    rw [hs] at h
    cases h
  | valid t =>
    obtain rfl := Schedule.eq_of_check_document hs
    rw [hs] at h
    cases h
    exact ⟨Schedule.interval_pos hs, rfl⟩

end Gleaner
