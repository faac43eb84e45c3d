import Gleaner.Proofs.Sql.Confinement
import Gleaner.Proofs.Sql.Naming

namespace Gleaner.Sql

open Table

-- The rows of a table that a match holds for, and the others.
def Table.matching (t : Table) (m : Match) : List (Int × List Cell) := t.rows.filter (m.holds t)

def Table.others (t : Table) (m : Match) : List (Int × List Cell) :=
  t.rows.filter fun r => !m.holds t r

-- A row after some places have been given new cells, under the number it has then.
def Table.moved (t : Table) (values : List (Place × Cell)) (row : Int × List Cell) :
    Int × List Cell :=
  ((rowNumber? (t.assigned row values).2).getD row.1, (t.assigned row values).1)

theorem holds_congr {t u : Table} (m : Match) (h : t.columns = u.columns) :
    m.holds t = m.holds u := by
  obtain ⟨name, columns, rows⟩ := t
  obtain ⟨name', columns', rows'⟩ := u
  cases h
  rfl

-- Rows in order are known by what they are.
theorem Ordered.eq_of_perm {rows rows' : List (Int × List Cell)} (h : Ordered rows)
    (h' : Ordered rows') (hp : rows.Perm rows') : rows = rows' :=
  hp.eq_of_pairwise (fun a b _ _ hab hba => absurd hba (by omega)) h h'

-- The number of a row tells whether it is among those that were chosen.
theorem Ordered.contains_number {rows : List (Int × List Cell)} (ho : Ordered rows)
    {holds : Int × List Cell → Bool} {r : Int × List Cell} (hr : r ∈ rows) :
    ((rows.filter holds).map (·.1)).contains r.1 = holds r := by
  rw [Bool.eq_iff_iff, List.contains_iff_mem, List.mem_map]
  constructor
  · rintro ⟨g, hg, he⟩
    obtain ⟨hmem, hholds⟩ := List.mem_filter.mp hg
    rwa [ho.eq_of_number hmem hr he] at hholds
  · exact fun hholds => ⟨r, List.mem_filter.mpr ⟨hr, hholds⟩, rfl⟩

section

variable {t t' : Table} {values : List (Place × Cell)} {row : Int × List Cell}

-- The rows that an update changes, and those that it does not look at.
theorem update_perm {rows : List (Int × List Cell)} (hrows : ∀ r ∈ rows, r ∈ t.rows)
    (hd : rows.Pairwise fun a b => a.1 ≠ b.1) (h : Table.update values rows t = .ok t') :
    t'.rows.Perm (rows.map (t.moved values) ++
      t.rows.filter fun r => !(rows.map (·.1)).contains r.1) := by
  induction rows generalizing t with
  | nil =>
    cases h
    simp
  | cons row rest ih =>
    obtain ⟨n, u, hn, hput, h⟩ := update_cons_eq_ok h
    obtain ⟨hapart, hrest⟩ := List.pairwise_cons.mp hd
    obtain ⟨hfree, rfl⟩ := put_eq_ok hput
    let left := t.rows.filter (·.1 != row.1)
    let new := (n, (t.assigned row values).1)
    have hmoved : t.moved values row = new := by rw [Table.moved, hn]; rfl
    have hleft : ∀ r ∈ rest, r ∈ left := fun r hr =>
      List.mem_filter.mpr ⟨hrows r (.tail _ hr), by simpa using (hapart r hr).symm⟩
    have hnew : (rest.map (·.1)).contains new.1 = false := by
      rw [List.contains_eq_mem, decide_eq_false_iff_not]
      intro hmem
      obtain ⟨r, hr, he⟩ := List.mem_map.mp hmem
      exact hfree r (hleft r hr) he
    have hstay := ih (t := { t with rows := insertRow new left })
      (fun r hr => (insertRow_perm new left).mem_iff.mpr (.tail _ (hleft r hr))) hrest h
    have hothers := (insertRow_perm new left).filter fun r => !(rest.map (·.1)).contains r.1
    rw [List.filter_cons_of_pos (by simpa using hnew), List.filter_filter] at hothers
    rw [List.map_cons, hmoved, List.cons_append]
    refine hstay.trans ((hothers.append_left _).trans (List.perm_middle.trans ?_))
    refine .cons _ (.append_left _ (.of_eq (List.filter_congr fun r _ => ?_)))
    simp [Bool.and_comm, bne]

theorem assigned_eq_of_number {u : Table} {row row' : Int × List Cell}
    (h : ∃ v ∈ values, v.1 = .number) : (t.assigned row values).2 = (u.assigned row' values).2 := by
  obtain ⟨v, hv, hnumber⟩ := h
  obtain ⟨w, hw⟩ : ∃ w, values.reverse.find? (·.1 == Place.number) = some w :=
    Option.isSome_iff_exists.mp <|
      List.find?_isSome.mpr ⟨v, List.mem_reverse.mpr hv, by simpa using hnumber⟩
  have hplace : w.1 = .number := by simpa using List.find?_some hw
  unfold Table.assigned
  simp only [hw]
  rfl

-- No two rows can be given the same number.
theorem update_number {rows : List (Int × List Cell)} (hnumber : ∃ v ∈ values, v.1 = .number)
    (hrows : ∀ r ∈ rows, r ∈ t.rows) (hd : rows.Pairwise fun a b => a.1 ≠ b.1)
    (h : Table.update values rows t = .ok t') : rows.length ≤ 1 := by
  match rows with
  | [] | [_] => simp
  | first :: second :: rest =>
    obtain ⟨n, u, hn, hput, h⟩ := update_cons_eq_ok h
    obtain ⟨hfree, rfl⟩ := put_eq_ok hput
    obtain ⟨m, v, hm, hput', -⟩ := update_cons_eq_ok h
    obtain ⟨hfree', -⟩ := put_eq_ok hput'
    rw [(assigned_eq_of_number hnumber : _ = (t.assigned first values).2), hn] at hm
    cases hm
    have hapart := (List.pairwise_cons.mp hd).1 second List.mem_cons_self
    have hsecond : second.1 ≠ n := hfree second <| List.mem_filter.mpr
      ⟨hrows second (.tail _ List.mem_cons_self), by simpa using hapart.symm⟩
    refine absurd rfl (hfree' (n, (t.assigned first values).1) (List.mem_filter.mpr ⟨?_, ?_⟩))
    · exact (insertRow_perm _ _).mem_iff.mpr List.mem_cons_self
    · simpa using hsecond.symm

-- Every row that is changed has a number afterwards.
theorem update_numbered {rows : List (Int × List Cell)} (h : Table.update values rows t = .ok t') :
    ∀ r ∈ rows, (rowNumber? (t.assigned r values).2).isSome = true := by
  induction rows generalizing t with
  | nil => exact List.forall_mem_nil _
  | cons row rest ih =>
    obtain ⟨n, u, hn, hput, h⟩ := update_cons_eq_ok h
    obtain ⟨-, rfl⟩ := put_eq_ok hput
    have hrest := ih h
    exact List.forall_mem_cons.mpr ⟨by rw [hn]; rfl, hrest⟩

-- What an update makes of the rows that were chosen, if they would be chosen again, and of the
-- others.
theorem update_chosen {holds : Int × List Cell → Bool} (ho : Ordered t.rows)
    (hagain : ∀ r ∈ t.rows, holds r = true → holds (t.moved values r) = true)
    (h : Table.update values (t.rows.filter holds) t = .ok t') :
    t'.name = t.name ∧ t'.columns = t.columns ∧ Ordered t'.rows ∧
      t'.rows.filter holds = (t.rows.filter holds).map (t.moved values) ∧
      (t'.rows.filter fun r => !holds r) = t.rows.filter fun r => !holds r := by
  have hchosen : ∀ r ∈ t.rows.filter holds, r ∈ t.rows ∧ holds r = true :=
    fun r => List.mem_filter.mp
  have hdistinct : (t.rows.filter holds).Pairwise fun a b => a.1 ≠ b.1 :=
    (ho.filter _).imp fun hlt => Int.ne_of_lt hlt
  obtain ⟨hname, hcolumns, hordered, -⟩ := update_confined ho hchosen hdistinct h
  have hperm := update_perm (fun r hr => (hchosen r hr).1) hdistinct h
  have hrest : (t.rows.filter fun r => !((t.rows.filter holds).map (·.1)).contains r.1) =
      t.rows.filter fun r => !holds r :=
    List.filter_congr fun r hr => congrArg (!·) (ho.contains_number hr)
  rw [hrest] at hperm
  have hmoved : ∀ r ∈ (t.rows.filter holds).map (t.moved values), holds r = true := by
    rw [List.forall_mem_map]
    exact fun r hr => hagain r (hchosen r hr).1 (hchosen r hr).2
  have hmovedOrdered : Ordered ((t.rows.filter holds).map (t.moved values)) := by
    by_cases hnumber : ∃ v ∈ values, v.1 = .number
    · have hone := update_number hnumber (fun r hr => (hchosen r hr).1) hdistinct h
      match t.rows.filter holds, hone with
      | [], _ => exact .nil
      | [_], _ => exact List.pairwise_singleton _ _
    · push Not at hnumber
      rw [Ordered, List.pairwise_map]
      refine (ho.filter holds).imp fun {a b} hlt => ?_
      rw [Table.moved, Table.moved, assigned_number hnumber, assigned_number hnumber]
      exact hlt
  refine ⟨hname, hcolumns, hordered, ?_, ?_⟩
  · refine Ordered.eq_of_perm (hordered.filter _) hmovedOrdered ((hperm.filter _).trans ?_)
    rw [List.filter_append, List.filter_eq_self.mpr hmoved, List.filter_filter]
    simp
  · refine Ordered.eq_of_perm (hordered.filter _) (ho.filter _) ((hperm.filter _).trans ?_)
    rw [List.filter_append, List.filter_eq_nil_iff.mpr (by simpa using hmoved),
      List.filter_filter]
    simp

-- A text is written for an integer, or for the number that a literal stands for.
theorem number?_eq_some {s : String} {c : Cell} (h : Cell.number? s = some c) :
    (∃ n, c = .int n) ∨ ∃ negative, ∃ l : Binary64.Literal, c = .real (l.toBinary64 negative) := by
  have hlarge : ∀ (n : Int) (x : Binary64),
      (∃ m, (if fitsInteger n then Cell.int n else .real x) = .int m) ∨
        (if fitsInteger n then Cell.int n else .real x) = .real x := by
    intro n x
    split
    · exact .inl ⟨n, rfl⟩
    · exact .inr rfl
  unfold Cell.number? at h
  dsimp only at h
  split at h
  · cases h
  · split at h
    · cases h
      exact (hlarge _ _).imp_right fun hreal => ⟨_, _, hreal⟩
    · cases h
      exact .inr ⟨_, _, rfl⟩

-- What is stored as an integer is stored so again.
theorem stored_integer (c : Cell) :
    Cell.stored .integer (Cell.stored .integer c) = Cell.stored .integer c := by
  have hintegral : ∀ x, Cell.stored .integer (Cell.integral x) = Cell.integral x := by
    intro x
    have hcases : (∃ n, Cell.integral x = .int n) ∨ Cell.integral x = .real x := by
      unfold Cell.integral
      split
      · split
        · exact .inl ⟨_, rfl⟩
        · exact .inr rfl
      · exact .inr rfl
    obtain ⟨n, hn⟩ | hreal := hcases
    · rw [hn]
      rfl
    · rw [hreal]
      exact hreal
  cases c with
  | null => rfl
  | int n => rfl
  | real x => exact hintegral x
  | text s =>
    cases hs : Cell.number? s with
    | none =>
      have htext : Cell.stored .integer (.text s) = .text s := by
        unfold Cell.stored
        dsimp only
        rw [hs]
      rw [htext, htext]
    | some c =>
      obtain ⟨n, rfl⟩ | ⟨negative, l, rfl⟩ := number?_eq_some hs
      · have htext : Cell.stored .integer (.text s) = .int n := by
          unfold Cell.stored
          dsimp only
          rw [hs]
        rw [htext]
        rfl
      · have htext : Cell.stored .integer (.text s) = Cell.integral (l.toBinary64 negative) := by
          unfold Cell.stored
          dsimp only
          rw [hs]
        rw [htext]
        exact hintegral _

-- A place that is not written to keeps what it holds.
theorem read_moved {p : Place} (h : ∀ v ∈ values, v.1 ≠ p) :
    Table.read (t.moved values row) p = Table.read row p := by
  cases p with
  | number =>
    rw [Table.moved, assigned_number h]
    rfl
  | column i =>
    have hnone : values.reverse.find? (·.1 == Place.column i) = none := by
      rw [List.find?_eq_none]
      intro v hv
      simpa using h v (List.mem_reverse.mp hv)
    simp only [Table.read, Table.moved, Table.assigned, List.getElem?_mapIdx, hnone, Option.map_none,
      Option.getD_none]
    cases row.2[i]? <;> rfl

-- A place that is written to holds what has become of the cell there.
theorem read_moved_of_mem {v : Place × Cell} (hnodup : (values.map (·.1)).Nodup) (hv : v ∈ values)
    (hwidth : row.2.length = t.columns.length)
    (hplace : ∀ i, v.1 = .column i → i < t.columns.length)
    (hnumber : (rowNumber? (t.assigned row values).2).isSome = true) :
    Table.read (t.moved values row) v.1 = Cell.stored (t.affinity v.1) v.2 := by
  have hfound : values.reverse.find? (·.1 == v.1) = some v := by
    obtain ⟨w, hw⟩ : ∃ w, values.reverse.find? (·.1 == v.1) = some w :=
      Option.isSome_iff_exists.mp <|
        List.find?_isSome.mpr ⟨v, List.mem_reverse.mpr hv, by simp⟩
    have hmem := List.mem_reverse.mp (List.mem_of_find?_eq_some hw)
    have hsame : w.1 = v.1 := by simpa using List.find?_some hw
    rw [hw, List.inj_on_of_nodup_map hnodup hmem hv hsame]
  obtain ⟨p, c⟩ := v
  cases p with
  | number =>
    have hcell : (t.assigned row values).2 = Cell.stored .integer c := by
      simp only [Table.assigned, hfound]
      rfl
    rw [hcell, rowNumber?, stored_integer] at hnumber
    rw [Table.moved, hcell, rowNumber?, stored_integer]
    change Cell.int _ = Cell.stored .integer c
    cases hs : Cell.stored .integer c with
    | int n => rfl
    | _ =>
      rw [hs] at hnumber
      cases hnumber
  | column i =>
    have hi := hwidth ▸ hplace i rfl
    simp only [Table.read, Table.moved, Table.assigned, List.getElem?_mapIdx, hfound,
      List.getElem?_eq_getElem hi, Option.map_some, Option.getD_some]

end

-- What a statement puts where: each value as a cell, at the place of its column.
def Assigns (t : Table) (values : List (String × Value)) (pairs : List (Place × Cell)) : Prop :=
  List.Forall₂ (fun v a => t.place? v.1 = some a.1 ∧ Cell.ofValue 1 v.2 = .ok a.2) values pairs

section

variable {t : Table} {values : List (String × Value)} {pairs : List (Place × Cell)}

theorem assigns_zip {missing : String → Error} {places : List Place} {cells : List Cell}
    {position : Nat} {more : List Value}
    (hplaces : assignmentPlaces t missing (values.map (·.1)) = .ok places)
    (hcells : cellsOf position (values.map (·.2) ++ more) = .ok cells) :
    Assigns t values (places.zip cells) := by
  induction values generalizing places cells position with
  | nil =>
    cases hplaces
    exact .nil
  | cons v rest ih =>
    rw [List.map_cons, assignmentPlaces] at hplaces
    split at hplaces
    · cases hplaces
    · next p hp =>
      obtain ⟨others, hothers, hplaces⟩ := except_bind_eq_ok hplaces
      cases hplaces
      obtain ⟨c, hc, hcells⟩ := except_bind_eq_ok hcells
      obtain ⟨left, hleft, hcells⟩ := except_bind_eq_ok hcells
      cases hcells
      exact .cons ⟨hp, ofValue_position hc 1⟩ (ih hothers hleft)

theorem Assigns.places_eq (h : Assigns t values pairs) :
    values.map (fun v => t.place? v.1) = pairs.map fun a => some a.1 := by
  induction h with
  | nil => rfl
  | cons hfirst _ ih => rw [List.map_cons, List.map_cons, hfirst.1, ih]

theorem Assigns.nodup (h : Assigns t values pairs)
    (hnodup : (values.map fun v => t.place? v.1).Nodup) : (pairs.map (·.1)).Nodup := by
  have hsome : (pairs.map fun a => some a.1) = (pairs.map (·.1)).map some :=
    List.map_map.symm
  rw [h.places_eq, hsome] at hnodup
  exact hnodup.of_map

theorem Assigns.not_at (h : Assigns t values pairs) {place : Option Place}
    (hplace : place ∉ values.map fun v => t.place? v.1) : ∀ a ∈ pairs, place ≠ some a.1 := by
  intro a ha heq
  rw [h.places_eq, heq] at hplace
  exact hplace (List.mem_map_of_mem ha)

theorem Assigns.exists_mem (h : Assigns t values pairs) {v : String × Value} (hv : v ∈ values) :
    ∃ a ∈ pairs, t.place? v.1 = some a.1 ∧ Cell.ofValue 1 v.2 = .ok a.2 := by
  induction h with
  | nil => cases hv
  | cons hfirst _ ih =>
    rcases List.mem_cons.mp hv with rfl | hv
    · exact ⟨_, List.mem_cons_self, hfirst⟩
    · obtain ⟨a, ha, hva⟩ := ih hv
      exact ⟨a, .tail _ ha, hva⟩

theorem value_nameExpr {column : String} {p : Place} (h : t.place? column = some p)
    (row : Int × List Cell) : (nameExpr column).value t row = Table.read row p := by
  rw [nameExpr, Expr.value, placeOf, h]

-- A name that is not written to stands for what it stood for.
theorem value_moved {column : String} (h : ∀ a ∈ pairs, t.place? column ≠ some a.1)
    (row : Int × List Cell) :
    (nameExpr column).value t (t.moved pairs row) = (nameExpr column).value t row := by
  cases hp : t.place? column with
  | none => rw [nameExpr, Expr.value, Expr.value, placeOf, hp]
  | some p =>
    rw [value_nameExpr hp, value_nameExpr hp]
    exact read_moved fun a ha heq => h a ha (hp.trans (congrArg some heq.symm))

theorem holds_moved {m : Match} (h : ∀ a ∈ pairs, t.place? m.column ≠ some a.1)
    (row : Int × List Cell) : m.holds t (t.moved pairs row) = m.holds t row := by
  unfold Match.holds
  cases Cell.ofValue 1 m.value with
  | error e => rfl
  | ok c => simp only [matchExpr, Expr.truth, Expr.value, value_moved h]

theorem chosen_eq_matching {m : Match} {c : Cell} (hc : Cell.ofValue 1 m.value = .ok c) :
    t.chosen (matchExpr m.column c) = t.matching m := by
  refine List.filter_congr fun r _ => ?_
  rw [Match.holds, hc]

end

-- One table of a database is replaced by another one with its name and columns, and nothing else
-- has changed.
structure Database.Rewrites (d d' : Database) (name : String) (t t' : Table) : Prop where
  found : d.find name = .ok t
  name : t'.name = t.name
  columns : t'.columns = t.columns
  replaced : d' = d.replace t'

section

variable {d d' : Database} {table : String} {t t' : Table} {m : Match}

theorem Database.Rewrites.find (h : d.Rewrites d' table t t') : d'.find table = .ok t' := by
  have hname := (find_eq_ok h.found).2
  have hfound := h.found
  unfold Database.find at hfound ⊢
  split at hfound
  · next u hu =>
    cases hfound
    have hsame : ∀ u : Table,
        sameName (if sameName u.name t'.name then t' else u).name table = sameName u.name table := by
      intro u
      split
      · next heq =>
        rw [sameName_iff] at hname heq
        rw [Bool.eq_iff_iff, sameName_iff, sameName_iff, heq]
      · rfl
    have hself : sameName t.name t'.name = true := by rw [h.name, sameName_iff]
    rw [h.replaced, Database.replace, List.find?_map]
    simp only [Function.comp_def, hsame, hu, Option.map_some, hself, if_true]
  · cases hfound

-- A table that is put back as it was.
theorem Database.replace_self (hd : d.Lawful) (h : d.find table = .ok t) : d.replace t = d := by
  have hmem := (find_eq_ok h).1
  have htables : (d.tables.map fun u => if sameName u.name t.name then t else u) = d.tables := by
    refine (List.map_congr_left fun u hu => ?_).trans (List.map_id _)
    split
    · next hsame => exact (hd.eq_of_sameName hu hmem hsame).symm
    · rfl
  rw [Database.replace, htables]

-- What a statement shows of the first row for which a match holds.
theorem execute_first_eq (d : Database) (column table : String) (m : Match) :
    d.execute (.first column table (some m)) = (do
      (Statement.first column table (some m)).check
      let t ← d.find table
      (nameExpr column).check t
      (nameExpr m.column).check t
      let _ ← Cell.ofValue 1 m.value
      .ok (d, ((t.matching m).take 1).map fun row =>
        [(column, ((nameExpr column).value t row).value)])) := by
  have hcells : cellsOf 1 (Statement.first column table (some m)).parameters =
      (Cell.ofValue 1 m.value).map fun c => [c] := by
    change cellsOf 1 [m.value] = _
    rw [cellsOf]
    cases Cell.ofValue 1 m.value <;> rfl
  unfold Database.execute
  dsimp only [checkMatch]
  rw [hcells]
  cases hc : Cell.ofValue 1 m.value with
  | error e => rfl
  | ok c =>
    simp only [← chosen_eq_matching hc]
    rfl

theorem execute_first {column : String} {p : Place} {c : Cell}
    (hcheck : (Statement.first column table (some m)).check = .ok ()) (hfind : d.find table = .ok t)
    (hplace : t.place? column = some p) (hmatch : (nameExpr m.column).check t = .ok ())
    (hc : Cell.ofValue 1 m.value = .ok c) :
    d.execute (.first column table (some m)) =
      .ok (d, ((t.matching m).take 1).map fun row => [(column, (Table.read row p).value)]) := by
  have hcolumn : (nameExpr column).check t = .ok () := by
    rw [Expr.check, nameExpr, Expr.walk, placeOf, hplace]
    rfl
  rw [execute_first_eq, hcheck, hfind]
  simp only [bind, Except.bind, hcolumn, hmatch, hc, value_nameExpr hplace]

theorem check_nameExpr {u : Table} (h : t.columns = u.columns) (column : String) :
    (nameExpr column).check t = (nameExpr column).check u := by
  rw [Expr.check, Expr.check, nameExpr, Expr.walk, Expr.walk, placeOf, placeOf, place?_congr h]

theorem value_congr {u : Table} (h : t.columns = u.columns) (column : String)
    (row : Int × List Cell) : (nameExpr column).value t row = (nameExpr column).value u row := by
  rw [nameExpr, Expr.value, Expr.value, placeOf, placeOf, place?_congr h]

-- What an update makes of a table: the rows that are chosen are changed and would be chosen again,
-- as long as the column of the match is not written to.
structure Table.Updated (t t' : Table) (m : Match) (pairs : List (Place × Cell)) : Prop where
  ordered : Ordered t'.rows
  matching : t'.matching m = (t.matching m).map (t.moved pairs)
  others : t'.others m = t.others m
  numbered : ∀ r ∈ t.matching m, (rowNumber? (t.assigned r pairs).2).isSome = true

variable {values : List (String × Value)} {rows : List Row}

theorem execute_update_eq_ok (hfind : d.find table = .ok t)
    (h : d.execute (.update table values m) = .ok (d', rows)) :
    ((Statement.update table values m).check = .ok () ∧ (nameExpr m.column).check t = .ok () ∧
      ∃ c, Cell.ofValue 1 m.value = .ok c) ∧
    ∃ pairs t', Assigns t values pairs ∧ Table.update pairs (t.matching m) t = .ok t' ∧
      d' = d.replace t' := by
  obtain ⟨_, hcheck, h⟩ := except_bind_eq_ok h
  obtain ⟨_, hfound, h⟩ := except_bind_eq_ok h
  cases hfind.symm.trans hfound
  obtain ⟨places, hplaces, h⟩ := except_bind_eq_ok h
  obtain ⟨_, hmatch, h⟩ := except_bind_eq_ok h
  obtain ⟨cells, hcells, h⟩ := except_bind_eq_ok h
  obtain ⟨t', hupdate, h⟩ := except_bind_eq_ok h
  cases h
  obtain ⟨c, hdrop, hc⟩ := cellsOf_append _ hcells
  rw [List.length_map] at hdrop
  rw [hdrop] at hupdate
  change Table.update _ (t.chosen (matchExpr m.column c)) t = .ok t' at hupdate
  rw [chosen_eq_matching hc] at hupdate
  exact ⟨⟨hcheck, hmatch, c, hc⟩, _, t', assigns_zip hplaces hcells, hupdate, rfl⟩

theorem execute_update (hd : d.Lawful) (hfind : d.find table = .ok t)
    (hplace : t.place? m.column ∉ values.map fun v => t.place? v.1)
    (h : d.execute (.update table values m) = .ok (d', rows)) :
    ((Statement.update table values m).check = .ok () ∧ (nameExpr m.column).check t = .ok () ∧
      ∃ c, Cell.ofValue 1 m.value = .ok c) ∧
    ∃ pairs t', Assigns t values pairs ∧ d.Rewrites d' table t t' ∧ t.Updated t' m pairs := by
  obtain ⟨hchecks, pairs, t', hassigns, hupdate, rfl⟩ := execute_update_eq_ok hfind h
  have hagain : ∀ r ∈ t.rows, m.holds t r = true → m.holds t (t.moved pairs r) = true :=
    fun r _ hr => (holds_moved (hassigns.not_at hplace) r).trans hr
  obtain ⟨hname, hcolumns, hordered, hmatching, hothers⟩ :=
    update_chosen (hd.ordered t (find_eq_ok hfind).1) hagain hupdate
  refine ⟨hchecks, pairs, t', hassigns, ⟨hfind, hname, hcolumns, rfl⟩,
    hordered, ?_, ?_, update_numbered hupdate⟩
  · rw [Table.matching, holds_congr m hcolumns]
    exact hmatching
  · rw [Table.others, holds_congr m hcolumns]
    exact hothers

-- What a column that is not written to shows of the row of a match stays the same.
theorem execute_first_kept {column : String} {pairs : List (Place × Cell)}
    (hd : d.Rewrites d' table t t') (ht : t.Updated t' m pairs)
    (hcolumn : ∀ a ∈ pairs, t.place? column ≠ some a.1) :
    (d'.execute (.first column table (some m))).map (·.2) =
      (d.execute (.first column table (some m))).map (·.2) := by
  have hname := check_nameExpr hd.columns
  have hvalue : ∀ r, (nameExpr column).value t' (t.moved pairs r) = (nameExpr column).value t r :=
    fun r => (value_congr hd.columns column _).trans (value_moved hcolumn r)
  rw [execute_first_eq, execute_first_eq, hd.found, hd.find]
  simp only [bind, Except.bind, hname, ht.matching, ← List.map_take, List.map_map,
    Function.comp_def, hvalue]
  cases (Statement.first column table (some m)).check with
  | error e => rfl
  | ok _ =>
    cases (nameExpr column).check t with
    | error e => rfl
    | ok _ =>
      cases (nameExpr m.column).check t with
      | error e => rfl
      | ok _ => cases Cell.ofValue 1 m.value <;> rfl

theorem columnIndex?_of_place {column : String} {i : Nat}
    (h : t.place? column = some (.column i)) : t.columnIndex? column = some i := by
  unfold Table.place? at h
  split at h
  · next j hj =>
    split at h
    · cases h
    · cases h
      exact hj
  · split at h <;> cases h

theorem place?_lt {column : String} {i : Nat} (h : t.place? column = some (.column i)) :
    i < t.columns.length := by
  obtain ⟨hlt, -⟩ := List.findIdx?_eq_some_iff_getElem.mp (columnIndex?_of_place h)
  exact hlt

-- Every row has a cell for each column.
def Table.Full (t : Table) : Prop := ∀ r ∈ t.rows, r.2.length = t.columns.length

instance (t : Table) : Decidable t.Full := inferInstanceAs (Decidable (∀ r ∈ t.rows, _))

-- A column that is written to shows what has become of the value there.
theorem execute_first_written {v : String × Value} {pairs : List (Place × Cell)} {c : Cell}
    (hcheck : (Statement.update table values m).check = .ok ())
    (hmatch : (nameExpr m.column).check t = .ok ()) (hc : Cell.ofValue 1 m.value = .ok c)
    (hassigns : Assigns t values pairs) (hd : d.Rewrites d' table t t')
    (ht : t.Updated t' m pairs) (hfull : t.Full)
    (hnodup : (values.map fun v => t.place? v.1).Nodup) (hv : v ∈ values)
    (hsome : t.matching m ≠ []) :
    ∃ p cell, t.place? v.1 = some p ∧ Cell.ofValue 1 v.2 = .ok cell ∧
      d'.execute (.first v.1 table (some m)) =
        .ok (d', [[(v.1, (Cell.stored (t.affinity p) cell).value)]]) := by
  obtain ⟨⟨p, cell⟩, ha, hplace, hcell⟩ := hassigns.exists_mem hv
  obtain ⟨htable, hvalues, hcolumn⟩ := Statement.check_update_iff.mp hcheck
  have hfirst := Statement.check_first_iff.mpr ⟨hvalues v hv, htable, hcolumn⟩
  obtain ⟨row, rest, hrows⟩ := List.exists_cons_of_ne_nil hsome
  have hrow : row ∈ t.matching m := hrows ▸ List.mem_cons_self
  have hread := read_moved_of_mem (hassigns.nodup hnodup) ha
    (hfull row (List.mem_filter.mp hrow).1) (fun i hi => place?_lt (hi ▸ hplace))
    (ht.numbered row hrow)
  refine ⟨p, cell, hplace, hcell, ?_⟩
  rw [execute_first hfirst hd.find ((place?_congr hd.columns v.1).trans hplace)
    ((check_nameExpr hd.columns m.column).trans hmatch) hc, ht.matching, hrows]
  simp only [List.map_cons, List.take_succ_cons, List.take_zero, List.map_nil, hread]

-- A row that a match chooses is thrown away, the others are kept.
theorem execute_delete (hd : d.Lawful) (hfind : d.find table = .ok t)
    (h : d.execute (.delete table (some m)) = .ok (d', rows)) :
    d.Rewrites d' table t { t with rows := t.others m } := by
  obtain ⟨_, -, h⟩ := except_bind_eq_ok h
  obtain ⟨_, hfound, h⟩ := except_bind_eq_ok h
  cases hfind.symm.trans hfound
  obtain ⟨_, -, h⟩ := except_bind_eq_ok h
  obtain ⟨cells, hcells, h⟩ := except_bind_eq_ok h
  cases h
  obtain ⟨c, hdrop, hc⟩ := cellsOf_append [] hcells
  rw [show cells = [c] from hdrop]
  have ho := hd.ordered t (find_eq_ok hfind).1
  have hleft : (t.rows.filter fun r =>
      !((t.chosen (matchExpr m.column c)).map (·.1)).contains r.1) = t.others m := by
    refine List.filter_congr fun r hr => ?_
    rw [chosen_eq_matching hc, Bool.not_inj_iff]
    exact ho.contains_number hr
  exact ⟨hfind, rfl, rfl, congrArg (fun rows => d.replace { t with rows }) hleft⟩

theorem execute_clear (h : d.execute (.delete table none) = .ok (d', rows)) :
    ∃ t, d.Rewrites d' table t { t with rows := [] } := by
  obtain ⟨_, -, h⟩ := except_bind_eq_ok h
  obtain ⟨t, hfind, h⟩ := except_bind_eq_ok h
  obtain ⟨_, -, h⟩ := except_bind_eq_ok h
  obtain ⟨cells, -, h⟩ := except_bind_eq_ok h
  cases h
  have hleft : (t.rows.filter fun r => !(t.rows.map (·.1)).contains r.1) = [] := by
    rw [List.filter_eq_nil_iff]
    intro r hr
    simpa using ⟨r.2, hr⟩
  exact ⟨t, hfind, rfl, rfl, congrArg (fun rows => d.replace { t with rows }) hleft⟩

-- A row that is put into a table comes under a number that no other row has.
theorem execute_insert {values : List (String × Value)}
    (h : d.execute (.insert table values) = .ok (d', rows)) :
    ∃ t n cells, (∀ r ∈ t.rows, r.1 ≠ n) ∧
      d.Rewrites d' table t { t with rows := insertRow (n, cells) t.rows } := by
  obtain ⟨_, -, h⟩ := except_bind_eq_ok h
  obtain ⟨t, hfind, h⟩ := except_bind_eq_ok h
  obtain ⟨places, -, h⟩ := except_bind_eq_ok h
  obtain ⟨cells, -, h⟩ := except_bind_eq_ok h
  obtain ⟨t', hinsert, h⟩ := except_bind_eq_ok h
  cases h
  have hput : ∃ n cells, t.put t.rows n cells = .ok t' := by
    unfold Table.insert at hinsert
    split at hinsert
    next cells' key hkey =>
      split at hinsert
      · exact ⟨_, _, hinsert⟩
      · split at hinsert
        · cases hinsert
        · exact ⟨_, _, hinsert⟩
  obtain ⟨n, new, hput⟩ := hput
  obtain ⟨hfree, rfl⟩ := put_eq_ok hput
  exact ⟨t, n, new, hfree, hfind, rfl, rfl, rfl⟩

end

end Gleaner.Sql
