import Gleaner.Proofs.Sql.Rows

namespace Gleaner.Sql

open Table

variable {touched : Int × List Cell → Bool}

theorem Ordered.sublist {rows rows' : List (Int × List Cell)} (h : Ordered rows)
    (hs : rows'.Sublist rows) : Ordered rows' := List.Pairwise.sublist hs h

-- A row keeps its number unless it is given another one.
theorem assigned_number {t : Table} {row : Int × List Cell} {values : List (Place × Cell)}
    (h : ∀ v ∈ values, v.1 ≠ .number) : (t.assigned row values).2 = .int row.1 := by
  have hnone : values.reverse.find? (·.1 == Place.number) = none := by
    rw [List.find?_eq_none]
    intro v hv
    simpa using h v (List.mem_reverse.mp hv)
  unfold Table.assigned
  simp only [hnone, Option.map_none, Option.getD_none]

theorem rowNumber?_int (n : Int) : rowNumber? (.int n) = some n := rfl

theorem update_cons_eq_ok {t t' : Table} {values : List (Place × Cell)} {row : Int × List Cell}
    {rest : List (Int × List Cell)} (h : Table.update values (row :: rest) t = .ok t') :
    ∃ n u, rowNumber? (t.assigned row values).2 = some n ∧
      t.put (t.rows.filter (·.1 != row.1)) n (t.assigned row values).1 = .ok u ∧
      Table.update values rest u = .ok t' := by
  rw [Table.update] at h
  dsimp only at h
  split at h
  · cases h
  · next n hn =>
    cases hput : t.put (t.rows.filter (·.1 != row.1)) n (t.assigned row values).1 with
    | error e =>
      rw [hput] at h
      cases h
    | ok u =>
      rw [hput] at h
      exact ⟨n, u, hn, hput, h⟩

-- What an update makes of a table when all the rows it changes are touched.
theorem update_confined {values : List (Place × Cell)} {rows : List (Int × List Cell)}
    {t t' : Table} (ho : Ordered t.rows) (hrows : ∀ r ∈ rows, r ∈ t.rows ∧ touched r = true)
    (hd : rows.Pairwise fun a b => a.1 ≠ b.1) (h : Table.update values rows t = .ok t') :
    t'.name = t.name ∧ t'.columns = t.columns ∧ Ordered t'.rows ∧
      RowsConfined touched t.rows t'.rows ∧
      ((∀ v ∈ values, v.1 ≠ .number) → InPlace touched t.rows t'.rows) := by
  induction rows generalizing t with
  | nil =>
    cases h
    exact ⟨rfl, rfl, ho, .refl _ _, fun _ => (List.Sublist.refl _).sublistForall₂⟩
  | cons row rest ih =>
    obtain ⟨n, u, hn, hput, h⟩ := update_cons_eq_ok h
    obtain ⟨hrow, ht⟩ := hrows row List.mem_cons_self
    obtain ⟨hapart, hrest⟩ := List.pairwise_cons.mp hd
    obtain ⟨first, last, hsplit⟩ := List.append_of_mem hrow
    rw [hsplit] at ho
    have hfilter := filter_middle ho
    obtain ⟨hfree, rfl⟩ := put_eq_ok hput
    rw [hsplit, hfilter] at hfree h
    have hothers : Ordered (first ++ last) :=
      ho.sublist (List.Sublist.append (List.Sublist.refl _) (List.sublist_cons_self _ _))
    have hstay : ∀ r ∈ rest,
        r ∈ insertRow (n, (t.assigned row values).1) (first ++ last) ∧ touched r = true := by
      intro r hr
      obtain ⟨hmem, hr'⟩ := hrows r (.tail _ hr)
      refine ⟨(insertRow_perm _ _).mem_iff.mpr (.tail _ ?_), hr'⟩
      rw [← hfilter, ← hsplit]
      exact List.mem_filter.mpr ⟨hmem, by simpa using (hapart r hr).symm⟩
    obtain ⟨hname, hcolumns, hordered, hconfined, hplace⟩ :=
      ih (hothers.insertRow hfree) hstay hrest h
    refine ⟨hname, hcolumns, hordered, ?_, fun hv => ?_⟩
    · rw [hsplit]
      exact (rowsConfined_replace ht _).trans hconfined
    · rw [hsplit]
      rw [assigned_number hv, rowNumber?_int, Option.some.injEq] at hn
      subst hn
      exact (inPlace_replace ho ht _).trans (hplace hv)

-- What is left when some rows are thrown away, all of which are touched.
theorem delete_confined {rows gone : List (Int × List Cell)} (ho : Ordered rows)
    (hgone : ∀ r ∈ gone, r ∈ rows ∧ touched r = true) :
    let left := rows.filter fun r => !(gone.map (·.1)).contains r.1
    Ordered left ∧ RowsConfined touched rows left ∧ InPlace touched rows left := by
  intro left
  have hsub : left.Sublist rows := List.filter_sublist
  refine ⟨ho.sublist hsub, ⟨?_, left, .refl _, hsub.sublistForall₂⟩, hsub.sublistForall₂⟩
  have hleft : (rows.filter fun r => !touched r) = left.filter fun r => !touched r := by
    rw [List.filter_filter]
    refine List.filter_congr fun r hr => ?_
    cases ht : touched r with
    | true => rfl
    | false =>
      have hnot : r.1 ∉ gone.map (·.1) := by
        intro hmem
        obtain ⟨g, hg, he⟩ := List.mem_map.mp hmem
        obtain ⟨hgrows, hgt⟩ := hgone g hg
        rw [ho.eq_of_number hgrows hr he, ht] at hgt
        cases hgt
      simp [hnot]
  rw [hleft]
  exact List.filter_sublist

theorem Truth.truth?_cell (t : Truth) : t.cell.truth? = t := by
  cases t with
  | none => rfl
  | some b => cases b <;> rfl

-- Whether the column of a match holds its value in a row.
def Match.holds (m : Match) (t : Table) (row : Int × List Cell) : Bool :=
  match Cell.ofValue 1 m.value with
  | .ok c => (matchExpr m.column c).truth t row = some true
  | .error _ => false

-- Whether one of some matches holds.
def touches (ms : List Match) (t : Table) (row : Int × List Cell) : Bool :=
  ms.any fun m => m.holds t row

theorem touches_congr {ms : List Match} {t u : Table} (h : t.columns = u.columns) :
    touches ms t = touches ms u := by
  obtain ⟨name, columns, rows⟩ := t
  obtain ⟨name', columns', rows'⟩ := u
  cases h
  rfl

theorem place?_congr {t u : Table} (h : t.columns = u.columns) (name : String) :
    t.place? name = u.place? name := by
  obtain ⟨name', columns, rows⟩ := t
  obtain ⟨name'', columns', rows'⟩ := u
  cases h
  rfl

-- What may become of a table when statements change only rows for which one of some matches holds,
-- and write to certain columns.
structure TableConfined (ms : List Match) (written : String → Prop) (t t' : Table) : Prop where
  name : t'.name = t.name
  columns : t'.columns = t.columns
  ordered : Ordered t.rows → Ordered t'.rows
  rows : RowsConfined (touches ms t) t.rows t'.rows
  inPlace : (∀ c, written c → t.place? c ≠ some .number) → InPlace (touches ms t) t.rows t'.rows

theorem TableConfined.refl (ms : List Match) (written : String → Prop) (t : Table) :
    TableConfined ms written t t :=
  ⟨rfl, rfl, id, .refl _ _, fun _ => (List.Sublist.refl _).sublistForall₂⟩

theorem TableConfined.trans {ms : List Match} {written : String → Prop} {t u v : Table}
    (h : TableConfined ms written t u) (h' : TableConfined ms written u v) :
    TableConfined ms written t v := by
  have htouches : touches ms u = touches ms t := touches_congr h.columns
  refine ⟨h'.name.trans h.name, h'.columns.trans h.columns, h'.ordered ∘ h.ordered,
    h.rows.trans (htouches ▸ h'.rows), fun hw => (h.inPlace hw).trans ?_⟩
  rw [← htouches]
  exact h'.inPlace fun c hc => place?_congr h.columns c ▸ hw c hc

theorem sameName_iff (a b : String) :
    sameName a b = true ↔ a.toList.map Char.toLower = b.toList.map Char.toLower := by
  rw [sameName, beq_iff_eq]

theorem sameName_comm (a b : String) : sameName a b = sameName b a := by
  rw [Bool.eq_iff_iff, sameName_iff, sameName_iff, eq_comm]

-- Tables can be told apart by their names, and their rows stand in order.
structure Database.Lawful (d : Database) : Prop where
  names : d.tables.Pairwise fun t u => sameName t.name u.name = false
  ordered : ∀ t ∈ d.tables, Ordered t.rows

theorem Database.Lawful.eq_of_sameName {d : Database} (hd : d.Lawful) {t u : Table}
    (ht : t ∈ d.tables) (hu : u ∈ d.tables) (h : sameName t.name u.name = true) : t = u := by
  by_contra hne
  have : Std.Symm fun t u : Table => sameName t.name u.name = false :=
    ⟨fun a b h => by rwa [sameName_comm]⟩
  rw [hd.names.forall ht hu hne] at h
  cases h

-- What may become of a database when only the table of a name is written to, if there is such a
-- name.
def DatabaseConfined (ms : List Match) (written : String → Prop) (target : Option String)
    (d d' : Database) : Prop :=
  List.Forall₂ (fun t t' => if target.any (sameName t.name) then TableConfined ms written t t'
    else t' = t) d.tables d'.tables

section

variable {ms : List Match} {written : String → Prop} {target : Option String} {d d' e : Database}

theorem DatabaseConfined.refl (ms : List Match) (written : String → Prop)
    (target : Option String) (d : Database) : DatabaseConfined ms written target d d := by
  refine List.forall₂_same.mpr fun t _ => ?_
  split
  · exact .refl _ _ _
  · rfl

theorem forall₂_trans {α β γ : Type} {R : α → β → Prop} {S : β → γ → Prop} {T : α → γ → Prop}
    (hT : ∀ a b c, R a b → S b c → T a c) {as : List α} {bs : List β} {cs : List γ}
    (h : List.Forall₂ R as bs) (h' : List.Forall₂ S bs cs) : List.Forall₂ T as cs := by
  induction h generalizing cs with
  | nil =>
    cases h'
    exact .nil
  | cons hab _ ih =>
    cases h' with
    | cons hbc hrest => exact .cons (hT _ _ _ hab hbc) (ih hrest)

theorem forall_of_forall₂ {α β : Type} {R : α → β → Prop} {P : α → Prop} {Q : β → Prop}
    {as : List α} {bs : List β} (h : List.Forall₂ R as bs) (hR : ∀ a b, R a b → P a → Q b)
    (hP : ∀ a ∈ as, P a) : ∀ b ∈ bs, Q b := by
  induction h with
  | nil => exact fun _ hb => nomatch hb
  | cons hab _ ih =>
    obtain ⟨hfirst, hrest⟩ := List.forall_mem_cons.mp hP
    exact List.forall_mem_cons.mpr ⟨hR _ _ hab hfirst, ih hrest⟩

theorem DatabaseConfined.trans (h : DatabaseConfined ms written target d d')
    (h' : DatabaseConfined ms written target d' e) : DatabaseConfined ms written target d e := by
  refine forall₂_trans (fun t u v htu huv => ?_) h h'
  by_cases ht : target.any (sameName t.name) = true
  · rw [if_pos ht] at htu ⊢
    rw [htu.name, if_pos ht] at huv
    exact htu.trans huv
  · rw [if_neg ht] at htu ⊢
    subst htu
    rwa [if_neg ht] at huv

theorem DatabaseConfined.lawful (h : DatabaseConfined ms written target d d') (hd : d.Lawful) :
    d'.Lawful := by
  have htables : List.Forall₂ (fun t t' => t'.name = t.name ∧ (Ordered t.rows → Ordered t'.rows))
      d.tables d'.tables := by
    refine h.imp fun t t' ht => ?_
    split at ht
    · exact ⟨ht.name, ht.ordered⟩
    · subst ht
      exact ⟨rfl, id⟩
  have hsame : d.tables.map Table.name = d'.tables.map Table.name := by
    rw [← List.forall₂_eq_eq_eq, List.forall₂_map_left_iff, List.forall₂_map_right_iff]
    exact htables.imp fun t t' ht => ht.1.symm
  refine ⟨?_, forall_of_forall₂ htables (fun t t' ht => ht.2) hd.ordered⟩
  have hnames := hd.names
  rw [← List.pairwise_map (R := fun a b => sameName a b = false)] at hnames ⊢
  rwa [← hsame]

theorem find_eq_ok {name : String} {t : Table} (h : d.find name = .ok t) :
    t ∈ d.tables ∧ sameName t.name name = true := by
  unfold Database.find at h
  split at h
  · next u hu =>
    cases h
    exact ⟨List.mem_of_find?_eq_some hu, by simpa using List.find?_some hu⟩
  · cases h

-- A table that is found and put back is the only one that changes.
theorem databaseConfined_replace (hd : d.Lawful) {name : String} {t t' : Table}
    (hfind : d.find name = .ok t) (ht : TableConfined ms written t t') :
    DatabaseConfined ms written (some name) d (d.replace t') := by
  obtain ⟨hmem, hname⟩ := find_eq_ok hfind
  rw [DatabaseConfined, Database.replace, List.forall₂_map_right_iff]
  refine List.forall₂_same.mpr fun u hu => ?_
  rw [ht.name, Option.any_some]
  by_cases hsame : sameName u.name t.name = true
  · obtain rfl := hd.eq_of_sameName hu hmem hsame
    rw [if_pos hname, if_pos hsame]
    exact ht
  · have hother : ¬sameName u.name name = true := by
      rw [sameName_iff] at hsame hname ⊢
      rwa [← hname]
    rw [if_neg hother, if_neg hsame]

theorem except_bind_eq_ok {ε α β : Type} {x : Except ε α} {f : α → Except ε β} {b : β}
    (h : (x >>= f) = .ok b) : ∃ a, x = .ok a ∧ f a = .ok b := by
  cases x with
  | error e => cases h
  | ok a => exact ⟨a, rfl, h⟩

-- The position of a value matters for the error only.
theorem ofValue_position {position : Nat} {v : Value} {c : Cell}
    (h : Cell.ofValue position v = .ok c) (other : Nat) : Cell.ofValue other v = .ok c := by
  unfold Cell.ofValue at h ⊢
  split at h <;> first | exact h | cases h

theorem cellsOf_append {position : Nat} (vs : List Value) {v : Value} {cells : List Cell}
    (h : cellsOf position (vs ++ [v]) = .ok cells) :
    ∃ c, cells.drop vs.length = [c] ∧ Cell.ofValue 1 v = .ok c := by
  induction vs generalizing position cells with
  | nil =>
    obtain ⟨c, hc, h⟩ := except_bind_eq_ok h
    cases h
    exact ⟨c, rfl, ofValue_position hc 1⟩
  | cons w rest ih =>
    obtain ⟨_, -, h⟩ := except_bind_eq_ok h
    obtain ⟨more, hmore, h⟩ := except_bind_eq_ok h
    cases h
    exact ih hmore

theorem assignmentPlaces_eq_ok {t : Table} {missing : String → Error} {names : List String}
    {places : List Place} (h : assignmentPlaces t missing names = .ok places) :
    ∀ p ∈ places, ∃ name ∈ names, t.place? name = some p := by
  induction names generalizing places with
  | nil =>
    cases h
    exact fun _ hp => nomatch hp
  | cons name rest ih =>
    rw [assignmentPlaces] at h
    split at h
    · cases h
    · next place hplace =>
      obtain ⟨others, hothers, h⟩ := except_bind_eq_ok h
      cases h
      intro p hp
      rcases List.mem_cons.mp hp with rfl | hp
      · exact ⟨name, List.mem_cons_self, hplace⟩
      · obtain ⟨n, hn, hnp⟩ := ih hothers p hp
        exact ⟨n, .tail _ hn, hnp⟩

-- The rows a match chooses are those for which it holds.
theorem mem_chosen_iff {t : Table} {m : Match} {c : Cell} (hc : Cell.ofValue 1 m.value = .ok c)
    (row : Int × List Cell) :
    row ∈ t.chosen (matchExpr m.column c) ↔ row ∈ t.rows ∧ m.holds t row = true := by
  rw [Table.chosen, List.mem_filter, Match.holds, hc]

-- The statements that change no other rows than those for which one of some matches holds.
def Statement.Confined (ms : List Match) (written : String → Prop) (target : Option String) :
    Statement → Prop
  | .first .. => True
  | .all .. => True
  | .insert .. => False
  | .update table values m => target = some table ∧ m ∈ ms ∧ ∀ v ∈ values, written v.1
  | .delete table filter => target = some table ∧ ∃ m ∈ ms, filter = some m

theorem execute_update_confined (hd : d.Lawful) {table : String} {values : List (String × Value)}
    {m : Match} {rows : List Row} (hm : m ∈ ms) (hv : ∀ v ∈ values, written v.1)
    (h : d.execute (.update table values m) = .ok (d', rows)) :
    DatabaseConfined ms written (some table) d d' := by
  obtain ⟨_, -, h⟩ := except_bind_eq_ok h
  obtain ⟨t, hfind, h⟩ := except_bind_eq_ok h
  obtain ⟨places, hplaces, h⟩ := except_bind_eq_ok h
  obtain ⟨_, -, h⟩ := except_bind_eq_ok h
  obtain ⟨cells, hcells, h⟩ := except_bind_eq_ok h
  obtain ⟨t', hupdate, h⟩ := except_bind_eq_ok h
  cases h
  obtain ⟨c, hdrop, hc⟩ := cellsOf_append _ hcells
  rw [List.length_map] at hdrop
  rw [hdrop] at hupdate
  have ho := hd.ordered t (find_eq_ok hfind).1
  have hchosen : ∀ r ∈ t.chosen (matchExpr m.column c), r ∈ t.rows ∧ touches ms t r = true := by
    intro r hr
    obtain ⟨hrows, hholds⟩ := (mem_chosen_iff hc r).mp hr
    exact ⟨hrows, List.any_eq_true.mpr ⟨m, hm, hholds⟩⟩
  have hdistinct : (t.chosen (matchExpr m.column c)).Pairwise fun a b => a.1 ≠ b.1 :=
    (ho.sublist List.filter_sublist).imp fun hlt => Int.ne_of_lt hlt
  obtain ⟨hname, hcolumns, hordered, hconfined, hplace⟩ :=
    update_confined ho hchosen hdistinct hupdate
  refine databaseConfined_replace hd hfind ⟨hname, hcolumns, fun _ => hordered, hconfined,
    fun hw => hplace fun v hv' => ?_⟩
  obtain ⟨name, hname, hp⟩ := assignmentPlaces_eq_ok hplaces v.1 (List.of_mem_zip hv').1
  obtain ⟨w, hw', rfl⟩ := List.mem_map.mp hname
  intro hnumber
  exact hw w.1 (hv w hw') (hnumber ▸ hp)

theorem execute_delete_confined (hd : d.Lawful) {table : String} {m : Match} {rows : List Row}
    (hm : m ∈ ms) (h : d.execute (.delete table (some m)) = .ok (d', rows)) :
    DatabaseConfined ms written (some table) d d' := by
  obtain ⟨_, -, h⟩ := except_bind_eq_ok h
  obtain ⟨t, hfind, h⟩ := except_bind_eq_ok h
  obtain ⟨_, -, h⟩ := except_bind_eq_ok h
  obtain ⟨cells, hcells, h⟩ := except_bind_eq_ok h
  cases h
  obtain ⟨c, hdrop, hc⟩ := cellsOf_append [] hcells
  rw [show cells = [c] from hdrop]
  have ho := hd.ordered t (find_eq_ok hfind).1
  have hchosen : ∀ r ∈ t.chosen (matchExpr m.column c), r ∈ t.rows ∧ touches ms t r = true := by
    intro r hr
    obtain ⟨hrows, hholds⟩ := (mem_chosen_iff hc r).mp hr
    exact ⟨hrows, List.any_eq_true.mpr ⟨m, hm, hholds⟩⟩
  obtain ⟨hordered, hconfined, hplace⟩ := delete_confined ho hchosen
  exact databaseConfined_replace hd hfind
    ⟨rfl, rfl, fun _ => hordered, hconfined, fun _ => hplace⟩

theorem execute_first_same {column table : String} {filter : Option Match} {rows : List Row}
    (h : d.execute (.first column table filter) = .ok (d', rows)) : d' = d := by
  obtain ⟨_, -, h⟩ := except_bind_eq_ok h
  obtain ⟨t, -, h⟩ := except_bind_eq_ok h
  obtain ⟨_, -, h⟩ := except_bind_eq_ok h
  obtain ⟨_, -, h⟩ := except_bind_eq_ok h
  obtain ⟨_, -, h⟩ := except_bind_eq_ok h
  cases h
  rfl

-- A listing shows rows of a table in their order.
theorem execute_all_eq_ok {table : String} {filter : Option String} {rows : List Row}
    (h : d.execute (.all table filter) = .ok (d', rows)) :
    d' = d ∧ (Statement.all table filter).check = .ok () ∧
      ∃ t, ∃ chosen : List (Int × List Cell), d.find table = .ok t ∧ chosen.Sublist t.rows ∧
        rows = chosen.map t.row := by
  obtain ⟨_, hcheck, h⟩ := except_bind_eq_ok h
  cases filter with
  | none =>
    obtain ⟨_, ⟨⟩, h⟩ := except_bind_eq_ok h
    obtain ⟨t, hfind, h⟩ := except_bind_eq_ok h
    cases h
    exact ⟨rfl, hcheck, t, t.rows, hfind, .refl _, rfl⟩
  | some text =>
    obtain ⟨e, -, h⟩ := except_bind_eq_ok h
    obtain ⟨t, hfind, h⟩ := except_bind_eq_ok h
    cases e with
    | none =>
      cases h
      exact ⟨rfl, hcheck, t, t.rows, hfind, .refl _, rfl⟩
    | some e =>
      obtain ⟨_, -, h⟩ := except_bind_eq_ok h
      cases h
      exact ⟨rfl, hcheck, t, t.chosen e, hfind, List.filter_sublist, rfl⟩

-- A statement of that kind changes nothing else.
theorem execute_confined (hd : d.Lawful) {s : Statement} {rows : List Row}
    (hs : s.Confined ms written target) (h : d.execute s = .ok (d', rows)) :
    DatabaseConfined ms written target d d' := by
  cases s with
  | first column table filter =>
    rw [execute_first_same h]
    exact .refl _ _ _ _
  | all table filter =>
    rw [(execute_all_eq_ok h).1]
    exact .refl _ _ _ _
  | insert table values => exact absurd hs id
  | update table values m =>
    obtain ⟨rfl, hm, hv⟩ := hs
    exact execute_update_confined hd hm hv h
  | delete table filter =>
    obtain ⟨rfl, m, hm, rfl⟩ := hs
    exact execute_delete_confined hd hm h

end

end Gleaner.Sql
