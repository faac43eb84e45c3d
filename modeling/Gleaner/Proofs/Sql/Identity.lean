import Gleaner.Proofs.Sql.Effects

namespace Gleaner

namespace Binary64

theorem ofQuotient_ne_nan (negative : Bool) (numerator denominator : Nat) :
    ofQuotient negative numerator denominator ≠ .nan := by
  unfold ofQuotient
  split <;> nofun

theorem ofDecimal_ne_nan (negative : Bool) (digits : Nat) (exponent : Int) :
    ofDecimal negative digits exponent ≠ .nan := by
  unfold ofDecimal
  split
  · nofun
  · split
    · nofun
    · split
      · nofun
      · split <;> exact ofQuotient_ne_nan _ _ _

theorem compare?_self {x : Binary64} (h : x ≠ .nan) : x.compare? x = some .eq := by
  cases x with
  | nan => exact absurd rfl h
  | infinite a => simp [compare?]
  | finite a e f => simp [compare?]

end Binary64

namespace Sql

namespace Cell

-- What a database can hold: integers of 64 bits, and no real that is not a number.
def isHeld : Cell → Bool
  | int n => fitsInteger n
  | real x => x ≠ .nan
  | _ => true

-- What is held can be read and handed back.
theorem ofValue_value {c : Cell} (h : c.isHeld = true) : ofValue 1 c.value = .ok c := by
  cases c with
  | int n => exact if_pos h
  | real x =>
    cases x with
    | nan => cases h
    | _ => rfl
  | _ => rfl

theorem number?_ne_nan {s : String} {c : Cell} (h : number? s = some c) : c ≠ real .nan := by
  obtain ⟨n, rfl⟩ | ⟨negative, l, rfl⟩ := number?_eq_some h
  · nofun
  · exact fun hnan => Binary64.ofDecimal_ne_nan negative _ _ (real.inj hnan)

theorem compareTruth_self {c : Cell} (hnull : c ≠ null) (hnan : c ≠ real .nan) :
    compareTruth .equal c c = some true := by
  have hself : compare? c c = some .eq := by
    cases c with
    | null => exact absurd rfl hnull
    | int n => rw [compare?, Std.compare_self]
    | real x => exact Binary64.compare?_self fun hx => hnan (congrArg real hx)
    | text s => rw [compare?, if_neg (String.lt_irrefl s), if_pos rfl]
  rw [compareTruth, hself]
  rfl

theorem asNumber_proper {c : Cell} (hnull : c ≠ null) (hnan : c ≠ real .nan) :
    asNumber c ≠ null ∧ asNumber c ≠ real .nan := by
  cases c with
  | text s =>
    rw [asNumber]
    cases hs : number? s with
    | none => exact ⟨nofun, nofun⟩
    | some c =>
      refine ⟨?_, number?_ne_nan hs⟩
      obtain ⟨n, rfl⟩ | ⟨negative, l, rfl⟩ := number?_eq_some hs <;> nofun
  | _ => exact ⟨hnull, hnan⟩

theorem asText_proper {c : Cell} (hnull : c ≠ null) (hnan : c ≠ real .nan) :
    asText c ≠ null ∧ asText c ≠ real .nan := by
  cases c with
  | int n => exact ⟨nofun, nofun⟩
  | real x => exact ⟨nofun, nofun⟩
  | _ => exact ⟨hnull, hnan⟩

-- What is held equals itself, whatever it is taken for.
theorem aligned_self {c : Cell} (hnull : c ≠ null) (hheld : c.isHeld = true) (a b : Affinity) :
    compareTruth .equal (aligned a b c c).1 (aligned a b c c).2 = some true := by
  have hnan : c ≠ real .nan := by
    rintro rfl
    cases hheld
  obtain ⟨hnumber, hnumber'⟩ := asNumber_proper hnull hnan
  obtain ⟨htext, htext'⟩ := asText_proper hnull hnan
  unfold aligned
  split
  · exact compareTruth_self hnumber hnumber'
  · split
    · exact compareTruth_self htext htext'
    · exact compareTruth_self hnull hnan

-- A value that prefers nothing is compared with a column the way the column is with itself.
theorem aligned_none (a : Affinity) (b c : Cell) : aligned a .none b c = aligned a a b c := by
  cases a <;> rfl

end Cell

-- Whether two rows have the same in a column, the way the column is compared.
def Table.agree (t : Table) (column : String) (r s : Int × List Cell) : Truth :=
  compareIn t .equal (nameExpr column) (nameExpr column) ((nameExpr column).value t r)
    ((nameExpr column).value t s)

-- Rows that a column tells apart.
structure Table.Identified (t : Table) (column : String) : Prop where
  named : column ∈ t.columns.map (·.name)
  names : t.columns.Pairwise fun a b => sameName a.name b.name = false
  held : ∀ r ∈ t.rows, (nameExpr column).value t r ≠ .null ∧
    ((nameExpr column).value t r).isHeld = true
  apart : ∀ r ∈ t.rows, ∀ s ∈ t.rows, r ≠ s → t.agree column r s ≠ some true

section

variable {t : Table} {m : Match} {r s : Int × List Cell} {column : String}

-- A match on what a row has in a column holds for the rows that have the same there.
theorem holds_iff_agree
    (hown : Cell.ofValue 1 m.value = .ok ((nameExpr m.column).value t s)) :
    m.holds t r = true ↔ t.agree m.column r s = some true := by
  have haffinity : ∀ c, (Expr.cell c).affinity t = .none := fun _ => rfl
  simp only [Match.holds, hown, matchExpr, Expr.truth, Expr.value, Truth.truth?_cell,
    decide_eq_true_eq, Table.agree, compareIn, haffinity, Cell.aligned_none]

-- The first column that goes by the name of a column is the column itself.
theorem columnIndex?_of_named
    (hnames : t.columns.Pairwise fun a b => sameName a.name b.name = false)
    (hcolumn : column ∈ t.columns.map (·.name)) :
    ∃ i, ∃ hi : i < t.columns.length, t.columns[i].name = column ∧
      t.columnIndex? column = some i := by
  obtain ⟨c, hc, hname⟩ := List.mem_map.mp hcolumn
  obtain ⟨i, hi, rfl⟩ := List.getElem_of_mem hc
  refine ⟨i, hi, hname, List.findIdx?_eq_some_iff_getElem.mpr
    ⟨hi, by rw [hname, sameName_iff], fun j hj => ?_⟩⟩
  rw [← hname, List.pairwise_iff_getElem.mp hnames j i (by omega) hi hj]
  nofun

-- The cell that a row shows under the name of a column.
theorem exists_place (hnames : t.columns.Pairwise fun a b => sameName a.name b.name = false)
    (hcolumn : column ∈ t.columns.map (·.name)) :
    ∃ p, t.place? column = some p ∧
      ∀ row, Fields.get? (t.row row) column = some (Table.read row p).value := by
  obtain ⟨i, hi, hname, hindex⟩ := columnIndex?_of_named hnames hcolumn
  obtain ⟨_, -, hothers⟩ := List.findIdx?_eq_some_iff_getElem.mp hindex
  have hplace : t.place? column =
      some (if t.columns[i].isKey then .number else .column i) := by
    simp only [Table.place?, hindex, List.getElem?_eq_getElem hi, Option.any_some]
    split <;> rfl
  refine ⟨_, hplace, fun row => ?_⟩
  have hlength : i < (t.row row).length := by
    simpa [Table.row, Table.shown] using hi
  have hshown : (t.row row)[i] =
      (column, (Table.read row (if t.columns[i].isKey then .number else .column i)).value) := by
    simp only [Table.row, Table.shown, List.getElem_zip, List.getElem_map, List.getElem_mapIdx,
      hname]
    split <;> rfl
  have hfound : (t.row row).find? (·.1 == column) = some (t.row row)[i] := by
    refine List.find?_eq_some_iff_getElem.mpr
      ⟨by rw [hshown]; simp, i, hlength, rfl, fun j hj => ?_⟩
    simp only [Table.row, List.getElem_zip, List.getElem_map, Bool.not_eq_true',
      beq_eq_false_iff_ne]
    rintro rfl
    exact hothers j hj ((sameName_iff _ _).mpr rfl)
  rw [Fields.get?, hfound, hshown]
  rfl

-- Two names of one column are the same name, unless it is the one that holds the row numbers.
theorem sameName_of_place {i : Nat} {name : String} (h : t.place? column = some (.column i))
    (h' : t.place? name = some (.column i)) : sameName name column = true := by
  obtain ⟨hi, hsame, -⟩ := List.findIdx?_eq_some_iff_getElem.mp (columnIndex?_of_place h)
  obtain ⟨_, hsame', -⟩ := List.findIdx?_eq_some_iff_getElem.mp (columnIndex?_of_place h')
  rw [sameName_iff] at hsame hsame' ⊢
  rw [← hsame, hsame']

-- Rows that have the same number are the same.
theorem agree_number (h : t.place? column = some .number) (hsame : t.agree column r s = some true) :
    r.1 = s.1 := by
  have haffinity : (nameExpr column).affinity t = .integer := by
    rw [nameExpr, Expr.affinity, placeOf, h]
    rfl
  rw [Table.agree, value_nameExpr h, value_nameExpr h, compareIn, haffinity] at hsame
  simpa [Cell.aligned, Cell.asNumber, Affinity.isNumeric, compareTruth, Table.read,
    Cell.compare?] using hsame

-- A match that holds for one row only.
theorem matching_eq_singleton (ho : Ordered t.rows) : t.matching m = [r] ↔
    r ∈ t.rows ∧ m.holds t r = true ∧ ∀ s ∈ t.rows, m.holds t s = true → s = r := by
  constructor
  · intro h
    obtain ⟨hr, hholds⟩ := List.mem_filter.mp (h ▸ List.mem_singleton_self r : r ∈ t.matching m)
    refine ⟨hr, hholds, fun s hs hsholds => ?_⟩
    have hmem : s ∈ t.matching m := List.mem_filter.mpr ⟨hs, hsholds⟩
    rwa [h, List.mem_singleton] at hmem
  · rintro ⟨hr, hholds, hall⟩
    have honly : ∀ s ∈ t.matching m, s = r := fun s hs =>
      hall s (List.mem_filter.mp hs).1 (List.mem_filter.mp hs).2
    have hsome : r ∈ t.matching m := List.mem_filter.mpr ⟨hr, hholds⟩
    have horder : Ordered (t.matching m) := ho.filter _
    match t.matching m, honly, hsome, horder with
    | [s], honly, _, _ => rw [honly s List.mem_cons_self]
    | s :: s' :: rest, honly, _, horder =>
      have hless := (List.pairwise_cons.mp horder).1 s' List.mem_cons_self
      rw [honly s List.mem_cons_self, honly s' (.tail _ List.mem_cons_self)] at hless
      exact absurd hless (Int.lt_irrefl _)

-- What a column tells apart, a match on what one row has there tells apart.
theorem Table.Identified.matching (h : t.Identified m.column) (ho : Ordered t.rows)
    (hr : r ∈ t.rows)
    (hown : Cell.ofValue 1 m.value = .ok ((nameExpr m.column).value t r)) :
    t.matching m = [r] := by
  obtain ⟨hnull, hheld⟩ := h.held r hr
  refine (matching_eq_singleton ho).mpr
    ⟨hr, (holds_iff_agree hown).mpr (Cell.aligned_self hnull hheld _ _), fun s hs hholds => ?_⟩
  by_contra hne
  exact h.apart s hs r hr hne ((holds_iff_agree hown).mp hholds)

end

section

variable {d d' : Database} {table : String} {t t' : Table} {m m' : Match}
  {r : Int × List Cell} {values : List (String × Value)} {rows : List Row}

theorem Database.Rewrites.lawful (h : d.Rewrites d' table t t') (hd : d.Lawful)
    (ho : Ordered t'.rows) : d'.Lawful := by
  have hmem := (find_eq_ok h.found).1
  have hname : ∀ u ∈ d.tables, (if sameName u.name t'.name then t' else u).name = u.name := by
    intro u hu
    split
    · next hsame =>
      rw [h.name] at hsame ⊢
      rw [hd.eq_of_sameName hu hmem hsame]
    · rfl
  rw [h.replaced]
  refine ⟨?_, fun u hu => ?_⟩
  · rw [Database.replace, List.pairwise_map]
    refine hd.names.imp_of_mem fun hu hv hapart => ?_
    rwa [hname _ hu, hname _ hv]
  · obtain ⟨v, hv, rfl⟩ := List.mem_map.mp hu
    split
    · exact ho
    · exact hd.ordered v hv

-- A row that is told apart by a match stays the only one it holds for when other rows are written
-- to, as long as the column of the match keeps what it holds.
theorem Table.Updated.matching_other {pairs : List (Table.Place × Cell)} (h : t.Updated t' m' pairs)
    (hcolumns : t'.columns = t.columns) (ho : Ordered t.rows) (hone : t.matching m = [r])
    (hother : m'.holds t r = false) (hkept : ∀ a ∈ pairs, t.place? m.column ≠ some a.1) :
    t'.matching m = [r] := by
  obtain ⟨hr, hholds, honly⟩ := (matching_eq_singleton ho).mp hone
  have hcongr := holds_congr m hcolumns
  refine (matching_eq_singleton h.ordered).mpr ⟨?_, by rw [hcongr, hholds], fun s hs hsholds => ?_⟩
  · have hmem : r ∈ t'.others m' := by
      rw [h.others]
      exact List.mem_filter.mpr ⟨hr, by rw [hother]; rfl⟩
    exact (List.mem_filter.mp hmem).1
  · rw [hcongr] at hsholds
    by_cases htouched : m'.holds t' s = true
    · have hmem : s ∈ t'.matching m' := List.mem_filter.mpr ⟨hs, htouched⟩
      rw [h.matching] at hmem
      obtain ⟨old, hold, rfl⟩ := List.mem_map.mp hmem
      obtain ⟨hrow, holdholds⟩ := List.mem_filter.mp hold
      rw [holds_moved hkept] at hsholds
      rw [honly old hrow hsholds, hother] at holdholds
      cases holdholds
    · have hmem : s ∈ t'.others m' := List.mem_filter.mpr ⟨hs, by simpa using htouched⟩
      rw [h.others] at hmem
      exact honly s (List.mem_filter.mp hmem).1 hsholds

-- A row that is told apart by its number is so still when other rows get other numbers.
theorem update_matching_number {pairs : List (Table.Place × Cell)} (ho : Ordered t.rows)
    (hone : t.matching m = [r]) (hother : m'.holds t r = false)
    (hown : Cell.ofValue 1 m.value = .ok ((nameExpr m.column).value t r))
    (hplace : t.place? m.column = some .number)
    (h : Table.update pairs (t.matching m') t = .ok t') :
    (t'.name = t.name ∧ t'.columns = t.columns) ∧ Ordered t'.rows ∧ t'.matching m = [r] := by
  obtain ⟨hr, hholds, -⟩ := (matching_eq_singleton ho).mp hone
  have hchosen : ∀ s ∈ t.matching m', s ∈ t.rows ∧ m'.holds t s = true :=
    fun s => List.mem_filter.mp
  have hdistinct : (t.matching m').Pairwise fun a b => a.1 ≠ b.1 :=
    (ho.filter _).imp fun hlt => Int.ne_of_lt hlt
  obtain ⟨hname, hcolumns, hordered, hconfined, -⟩ := update_confined ho hchosen hdistinct h
  have hcongr := holds_congr m hcolumns
  have hmem : r ∈ t'.rows :=
    hconfined.untouched.subset (List.mem_filter.mpr ⟨hr, by rw [hother]; rfl⟩)
  refine ⟨⟨hname, hcolumns⟩, hordered,
    (matching_eq_singleton hordered).mpr ⟨hmem, by rw [hcongr, hholds], fun s hs hsholds => ?_⟩⟩
  rw [hcongr, holds_iff_agree hown] at hsholds
  exact hordered.eq_of_number hs hmem (agree_number hplace hsholds)

-- So a row that its identifier tells apart is not touched by writing to others under a name that is
-- not the identifier's.
theorem execute_update_other (hd : d.Lawful) (hfind : d.find table = .ok t)
    (hone : t.matching m = [r]) (hcolumn : m'.column = m.column) (hother : m'.holds t r = false)
    (hown : Cell.ofValue 1 m.value = .ok ((nameExpr m.column).value t r))
    {p : Table.Place} (hplace : t.place? m.column = some p)
    (hnames : ∀ v ∈ values, sameName v.1 m.column = false)
    (h : d.execute (.update table values m') = .ok (d', rows)) :
    ∃ t', d.Rewrites d' table t t' ∧ Ordered t'.rows ∧ t'.matching m = [r] := by
  have ho := hd.ordered t (find_eq_ok hfind).1
  by_cases hkept : t.place? m'.column ∈ values.map fun v => t.place? v.1
  · -- only the numbers of the rows have more than one name
    obtain ⟨v, hv, hsame⟩ := List.mem_map.mp hkept
    rw [hcolumn, hplace] at hsame
    have hnumber : p = .number := by
      cases p with
      | number => rfl
      | column i =>
        have hname := hnames v hv
        rw [sameName_of_place hplace hsame] at hname
        cases hname
    obtain ⟨-, pairs, t', -, hupdate, rfl⟩ := execute_update_eq_ok hfind h
    obtain ⟨⟨hname, hcolumns⟩, hordered, hmatching⟩ :=
      update_matching_number ho hone hother hown (hnumber ▸ hplace) hupdate
    exact ⟨t', ⟨hfind, hname, hcolumns, rfl⟩, hordered, hmatching⟩
  · obtain ⟨-, pairs, t', hassigns, hrewrites, hupdated⟩ := execute_update hd hfind hkept h
    exact ⟨t', hrewrites, hupdated.ordered, hupdated.matching_other hrewrites.columns ho hone hother
      (hcolumn ▸ hassigns.not_at hkept)⟩

-- The same when other rows are thrown away.
theorem execute_delete_other (hd : d.Lawful) (hfind : d.find table = .ok t)
    (hone : t.matching m = [r]) (hother : m'.holds t r = false)
    (h : d.execute (.delete table (some m')) = .ok (d', rows)) :
    ∃ t', d.Rewrites d' table t t' ∧ Ordered t'.rows ∧ t'.matching m = [r] := by
  refine ⟨_, execute_delete hd hfind h, (hd.ordered t (find_eq_ok hfind).1).filter _, ?_⟩
  change (t.others m').filter (m.holds t) = [r]
  rw [Table.others, List.filter_comm]
  change (t.matching m).filter _ = [r]
  rw [hone, List.filter_cons_of_pos (by rw [hother]; rfl), List.filter_nil]

end

end Sql

end Gleaner
