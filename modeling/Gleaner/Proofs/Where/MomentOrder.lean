import Gleaner.Proofs.Time.Order
import Gleaner.Proofs.Where.Truth
import Gleaner.Rehearsal.Tables

namespace Gleaner

open Sql Text

-- A moment whose UTC year is written with four digits.
def DateTime.HasFullYear (t : DateTime) : Prop := ∃ u, t.toUtc? = some u ∧ 1000 ≤ u.date.year

-- How a comparison of two numbers comes out.
def Sql.Comparator.holds : Comparator → Int → Int → Bool
  | .equal, m, n => m = n
  | .unequal, m, n => m ≠ n
  | .less, m, n => m < n
  | .lessEqual, m, n => m ≤ n
  | .greater, m, n => n < m
  | .greaterEqual, m, n => n ≤ m

theorem Sql.compareTruth_holds {a b : Cell} {m n : Int}
    (h : Cell.compare? a b = some (compare m n)) (op : Comparator) :
    compareTruth op a b = some (op.holds m n) := by
  rw [compareTruth, h, Option.map_some]
  congr 1
  rcases Int.lt_trichotomy m n with hlt | heq | hgt
  · rw [compare_lt_iff_lt.mpr hlt]
    cases op <;> simp [Comparator.holds, bne] <;> omega
  · rw [compare_eq_iff_eq.mpr heq]
    cases op <;> simp [Comparator.holds, bne] <;> omega
  · rw [compare_gt_iff_gt.mpr hgt]
    cases op <;> simp [Comparator.holds, bne] <;> omega

namespace Where

theorem toDigits_of_fullYear {year : Nat} (h : 1000 ≤ year) :
    Nat.toDigits 10 year = paddedChars 4 year := by
  have hlength : 4 ≤ (Nat.toDigits 10 year).length := by
    by_contra hshort
    have hsmall : year < 10 ^ 3 :=
      (Nat.length_toDigits_le_iff (by decide) (by decide)).mp (by omega)
    omega
  unfold paddedChars
  dsimp only
  rw [Nat.sub_eq_zero_of_le hlength]
  rfl

def momentChars (t : DateTime) : List Char := t.date.chars ++ 'T' :: t.thousandthChars ++ ['Z']

theorem toList_momentText {t : DateTime} (h : 1000 ≤ t.date.year) :
    (momentText t).toList = momentChars t := by
  simp [momentText, momentChars, Date.chars, DateTime.thousandthChars, DateTime.clockText,
    DateTime.clockChars, padded, toDigits_of_fullYear h]

-- No quote stands in a written moment, so that nothing in it is written twice.
theorem escapedQuotes_momentChars {t : DateTime} (ht : t.IsShown) :
    escapedQuotes (momentChars t) = momentChars t := by
  have hdate : ∀ c ∈ t.date.chars, c ≠ '\'' :=
    Date.forall_mem_chars (by decide) (by decide) ht.date
  have hclock : ∀ c ∈ t.clockChars, c ≠ '\'' :=
    DateTime.forall_mem_clockChars (by decide) (by decide) ht
  have hmicro := ht.microsecond
  have hcut : ∀ c ∈ paddedChars 3 (t.microsecond / 1000), c ≠ '\'' :=
    forall_mem_paddedChars (by decide) (by decide) (by omega)
  have hplain : ∀ c ∈ momentChars t, c ≠ '\'' := by
    simp only [momentChars, DateTime.thousandthChars, List.forall_mem_append,
      List.forall_mem_cons]
    exact ⟨⟨hdate, by decide, hclock, by decide, hcut⟩, by decide, List.forall_mem_nil _⟩
  exact (List.flatMap_congr fun c hc => if_neg (hplain c hc)).trans (List.flatMap_singleton' _)

-- The text that stands for a moment, shown by a UTC clock.
theorem utc_of_hasFullYear {t : DateTime} (h : t.HasFullYear) :
    ∃ u, t.toUtc? = some u ∧ u.IsShown ∧ u.offset = some 0 ∧
      u.milliseconds = t.milliseconds ∧ (momentText u).toList = momentChars u := by
  obtain ⟨u, hu, hyear⟩ := h
  obtain ⟨hshown, hutc, hinstant, -⟩ := DateTime.toUtc?_eq_some hu
  refine ⟨u, hu, hshown, hutc, ?_, toList_momentText hyear⟩
  rw [DateTime.milliseconds, hinstant, DateTime.milliseconds]

section

variable {t u : DateTime}

-- Written moments stand in the order of their milliseconds, whatever surrounds them.
theorem momentChars_order (front tail : List Char) (ht : t.IsShown) (htutc : t.offset = some 0)
    (hu : u.IsShown) (huutc : u.offset = some 0) :
    (front ++ momentChars t ++ tail < front ++ momentChars u ++ tail ↔
      t.milliseconds < u.milliseconds) ∧
    (front ++ momentChars t ++ tail = front ++ momentChars u ++ tail ↔
      t.milliseconds = u.milliseconds) := by
  obtain ⟨-, hmillis⟩ := DateTime.milliseconds_eq ht htutc
  obtain ⟨-, hmillis'⟩ := DateTime.milliseconds_eq hu huutc
  have hranked := (DateTime.ranked ht htutc hu huutc).append_right ['Z']
  have hback := (DateTime.ranked hu huutc ht htutc).append_right ['Z']
  obtain ⟨hlt, heq⟩ := ((hranked.append_left front).append_right tail).iff
    ((hback.append_left front).append_right tail)
  exact ⟨hlt.trans (by omega), heq.trans (by omega)⟩

theorem compare?_moments (ht : t.HasFullYear) (hu : u.HasFullYear) :
    Cell.compare? (Scalar.moment t).cell (Scalar.moment u).cell =
      some (compare t.milliseconds u.milliseconds) := by
  obtain ⟨v, hv, hshown, hutc, hmillis, hchars⟩ := utc_of_hasFullYear ht
  obtain ⟨w, hw, hshown', hutc', hmillis', hchars'⟩ := utc_of_hasFullYear hu
  obtain ⟨hlt, heq⟩ := momentChars_order [] [] hshown hutc hshown' hutc'
  rw [hmillis, hmillis', List.nil_append, List.nil_append, List.append_nil, List.append_nil]
    at hlt heq
  have htexts : momentText v < momentText w ↔ t.milliseconds < u.milliseconds := by
    rw [String.lt_iff, hchars, hchars', hlt]
  have hsame : momentText v = momentText w ↔ t.milliseconds = u.milliseconds := by
    rw [← String.toList_inj, hchars, hchars', heq]
  simp only [Scalar.cell, hv, hw, Option.getD_some, Cell.compare?, htexts, hsame]
  rfl

-- A text column that holds a written moment is compared with another as the moments are.
theorem columnTruth_moments (ht : t.HasFullYear) (hu : u.HasFullYear) {table : Table}
    {row : Int × List Cell} {column : String} (hcolumn : columnAffinity table column = .text)
    (hcell : columnCell table row column = (Scalar.moment t).cell) (op : Comparator) :
    columnTruth table row column op (Scalar.moment u).cell =
      some (op.holds t.milliseconds u.milliseconds) := by
  have hsides : Cell.aligned .text .none (Scalar.moment t).cell (Scalar.moment u).cell =
      ((Scalar.moment t).cell, (Scalar.moment u).cell) := rfl
  rw [columnTruth, hcolumn, hcell, hsides]
  exact compareTruth_holds (compare?_moments ht hu) op

theorem literal_moment (hu : t.toUtc? = some u) (hshown : u.IsShown)
    (hchars : (momentText u).toList = momentChars u) :
    literal (.moment t) = .ok (String.ofList ('\'' :: momentChars u ++ ['\''])) := by
  rw [literal, hu]
  dsimp only
  rw [stringLiteral, hchars, escapedQuotes_momentChars hshown]

-- The literals of two moments with full UTC years stand in the order of their instants, and are the
-- same if the instants agree to the millisecond and only then. A text column that holds such a
-- moment is therefore compared with another, and found between two others, as their milliseconds
-- are.
theorem literal_followsTime (ht : t.HasFullYear) (hu : u.HasFullYear) :
    (∃ a b, literal (.moment t) = .ok a ∧ literal (.moment u) = .ok b ∧
      (t.instant ≤ u.instant → a ≤ b) ∧ (a = b ↔ t.milliseconds = u.milliseconds)) ∧
    ∀ (table : Table) (row : Int × List Cell) (column : String),
      columnAffinity table column = .text →
      columnCell table row column = (Scalar.moment t).cell →
      (∀ op, columnTruth table row column op (Scalar.moment u).cell =
        some (op.holds t.milliseconds u.milliseconds)) ∧
      ∀ last : DateTime, last.HasFullYear →
        (Filter.range column false (.moment u) (.moment last)).truth table row =
          some (decide (u.milliseconds ≤ t.milliseconds ∧ t.milliseconds ≤ last.milliseconds)) := by
  constructor
  · obtain ⟨v, hv, hshown, hutc, hmillis, hchars⟩ := utc_of_hasFullYear ht
    obtain ⟨w, hw, hshown', hutc', hmillis', hchars'⟩ := utc_of_hasFullYear hu
    obtain ⟨-, heq⟩ := momentChars_order ['\''] ['\''] hshown hutc hshown' hutc'
    obtain ⟨hgt, -⟩ := momentChars_order ['\''] ['\''] hshown' hutc' hshown hutc
    rw [hmillis, hmillis'] at heq hgt
    refine ⟨_, _, literal_moment hv hshown hchars, literal_moment hw hshown' hchars',
      fun hle => ?_, ?_⟩
    · rw [← String.not_lt, String.lt_iff, String.toList_ofList, String.toList_ofList]
      refine fun hless => absurd (hgt.mp hless) ?_
      unfold DateTime.milliseconds
      omega
    · rw [String.ofList_inj]
      exact heq
  · intro table row column hcolumn hcell
    refine ⟨columnTruth_moments ht hu hcolumn hcell, fun last hlast => ?_⟩
    rw [Filter.truth, columnTruth_moments ht hu hcolumn hcell,
      columnTruth_moments ht hlast hcolumn hcell]
    rw [Truth.negateIf, if_neg Bool.false_ne_true, Truth.and_some, Bool.decide_and]
    rfl

end

-- The first moment of a year, on a clock that is ahead of UTC, and later ones of the year before.
def newYearEast : DateTime := ⟨⟨2024, 1, 1⟩, 0, 0, 0, 999, some 50400000000⟩

def newYearsEve : DateTime := ⟨⟨2023, 12, 31⟩, 10, 0, 0, 1000, none⟩

def newYearWest : DateTime := ⟨⟨2023, 12, 31⟩, 21, 0, 0, 0, some (-18000000000)⟩

def visitTable : Table :=
  Rehearsal.tableOf "visits" [("at", "TEXT")] [[.text "2023-12-31T10:00:00.001Z"]]

theorem literal_followsTime_newYear :
    newYearsEve.HasFullYear ∧ newYearEast.HasFullYear ∧ newYearWest.HasFullYear ∧
    (∃ a b, literal (.moment newYearEast) = .ok a ∧ literal (.moment newYearsEve) = .ok b ∧
      a ≤ b ∧ a ≠ b) ∧
    (Filter.range "at" false (.moment newYearEast) (.moment newYearWest)).truth visitTable
      (1, [.text "2023-12-31T10:00:00.001Z"]) = some true := by
  have heve : newYearsEve.HasFullYear := ⟨_, rfl, by decide +kernel⟩
  have heast : newYearEast.HasFullYear := ⟨_, rfl, by decide +kernel⟩
  have hwest : newYearWest.HasFullYear := ⟨_, rfl, by decide +kernel⟩
  obtain ⟨⟨a, b, ha, hb, hle, heq⟩, -⟩ := literal_followsTime heast heve
  obtain ⟨-, hcolumn⟩ := literal_followsTime heve heast
  obtain ⟨-, hbetween⟩ := hcolumn visitTable (1, [.text "2023-12-31T10:00:00.001Z"]) "at"
    (by decide +kernel) (by decide +kernel)
  refine ⟨heve, heast, hwest, ⟨a, b, ha, hb, hle (by decide), fun h => ?_⟩, ?_⟩
  · exact absurd (heq.mp h) (by decide)
  · rw [hbetween newYearWest hwest]
    decide

end Where

end Gleaner
