import Gleaner.Proofs.Sql.Identity
import Gleaner.Proofs.Store.Theorems

namespace Gleaner

open Sql TableStore

variable {σ : Type} {view : σ → Database} {execute : Statement → Effect σ (List Row)}
  {sources : List (String × String)} {identifierColumn : String}

-- What a run is bound to when it is to work on a row of a set.
def ExecutionIterator.contextOf (it : ExecutionIterator) (identifierColumn : String) (t : Table)
    (i : Nat) (r : Int × List Cell) : IterationContext :=
  ⟨i + 1, it.source, identifierColumn,
    (Fields.get? (t.row r) identifierColumn).getD .null, some (t.row r)⟩

-- The contexts of a set are those of rows of its table, no two of the same row.
theorem contexts_rows (h : CarriesOut view execute) {it : ExecutionIterator} {table : String}
    {t : Table} {w w' : σ} {contexts : List IterationContext}
    (htable : tableOf? sources it.source = some table) (hfind : (view w).find table = .ok t)
    (hplan : it.contexts (tableStore execute sources identifierColumn) w = (.ok contexts, w'))
    {c : IterationContext} (hc : c ∈ contexts) (hrow : c.row ≠ none) :
    view w' = view w ∧ IsWritable table ∧ ∃ rows : List (Int × List Cell), rows.Sublist t.rows ∧
      contexts = rows.mapIdx (it.contextOf identifierColumn t) := by
  have hset : it.setContexts (tableStore execute sources identifierColumn) w =
      (.ok contexts, w') := by
    cases it with
    | range source identifier span =>
      cases hplan
      obtain ⟨_, _, rfl⟩ := List.mem_mapIdx.mp hc
      exact absurd rfl hrow
    | entireSet source => exact hplan
    | filteredSet source filter => exact hplan
  obtain ⟨sql, u, hsql, hrest⟩ := Effect.bind_eq_ok hset
  obtain ⟨shown, v, hrows, hrest⟩ := Effect.bind_eq_ok hrest
  cases hrest
  have hread : Leaves id (Effect.ofExcept (σ := σ) Failure.filter it.filterSql?) :=
    leaves_ofExcept _ _
  obtain rfl : u = w := hread.view_eq hsql
  obtain ⟨name, u, hname, hrun⟩ := Effect.bind_eq_ok hrows
  obtain ⟨hfound, rfl⟩ := table_eq_ok hname
  cases htable.symm.trans hfound
  obtain ⟨hview, hcheck, _, rows, hfound, hchosen, rfl⟩ := execute_all_eq_ok (h.of_ok hrun)
  cases hfind.symm.trans hfound
  refine ⟨hview, (Statement.check_all_iff.mp hcheck).1, rows, hchosen,
    List.ext_getElem? fun i => ?_⟩
  change ((rows.map t.row).mapIdx fun i row => IterationContext.mk (i + 1) it.source
    identifierColumn ((Fields.get? row identifierColumn).getD .null) (some row))[i]? = _
  simp only [List.getElem?_mapIdx, List.getElem?_map, Option.map_map]
  rfl

-- What may have happened since some contexts were planned, as far as one of them is concerned:
-- rows of the source are written to and thrown away through stores that are bound to the others,
-- the identifier apart; what else is done leaves the database alone.
inductive Meanwhile (view : σ → Database) (execute : Statement → Effect σ (List Row))
    (sources : List (String × String)) (contexts : List IterationContext) (c : IterationContext) :
    σ → σ → Prop
  | refl (w : σ) : Meanwhile view execute sources contexts c w w
  | leave {w u v : σ} : Meanwhile view execute sources contexts c w u → view v = view u →
      Meanwhile view execute sources contexts c w v
  | set {w u v : σ} {other : IterationContext} {key column : String} {value : Value}
      {outcome : Except Failure Unit} : Meanwhile view execute sources contexts c w u →
      other ∈ contexts → other ≠ c → DataKey.read? key = some ⟨c.source, column⟩ →
      sameName column c.identifier = false →
      (store execute sources (some other)).set key value u = (outcome, v) →
      Meanwhile view execute sources contexts c w v
  | setMany {w u v : σ} {other : IterationContext} {values : List (String × Value)}
      {outcome : Except Failure Unit} : Meanwhile view execute sources contexts c w u →
      other ∈ contexts → other ≠ c → (∀ v ∈ values, sameName v.1 c.identifier = false) →
      (store execute sources (some other)).setMany c.source values u = (outcome, v) →
      Meanwhile view execute sources contexts c w v
  | delete {w u v : σ} {other : IterationContext} {outcome : Except Failure Unit} :
      Meanwhile view execute sources contexts c w u → other ∈ contexts → other ≠ c →
      (store execute sources (some other)).delete c.source u = (outcome, v) →
      Meanwhile view execute sources contexts c w v

-- A table stands in a database with its columns, and a match tells one row of it apart.
structure Sql.Database.Shows (d : Database) (table : String) (t : Table) (m : Match)
    (r : Int × List Cell) : Prop where
  lawful : d.Lawful
  found : ∃ t', d.find table = .ok t' ∧ t'.columns = t.columns ∧ t'.matching m = [r]

-- Writing by a key is writing to a source.
theorem store_set {bound : Option IterationContext} {key : String} {k : DataKey} {value : Value}
    (hk : DataKey.read? key = some k) : (store execute sources bound).set key value =
      (store execute sources bound).setMany k.source [(k.column, value)] := by
  change (splitKey key >>= _) = _
  rw [splitKey, hk]
  rfl

section

variable {t : Table} {table : String} {r : Int × List Cell} {c other : IterationContext}
  {u v : σ} {outcome : Except Failure Unit}

theorem shows_setMany (h : CarriesOut view execute)
    (htable : tableOf? sources c.source = some table) (hsource : other.source = c.source)
    (hcolumn : other.identifier = c.identifier) (hother : other.rowMatch.holds t r = false)
    (hown : Cell.ofValue 1 c.value = .ok ((nameExpr c.identifier).value t r))
    {p : Table.Place} (hplace : t.place? c.identifier = some p) {values : List (String × Value)}
    (hnames : ∀ v ∈ values, sameName v.1 c.identifier = false)
    (hdone : (store execute sources (some other)).setMany c.source values u = (outcome, v))
    (hu : (view u).Shows table t c.rowMatch r) : (view v).Shows table t c.rowMatch r := by
  cases outcome with
  | error e => rwa [Atomic.setMany h _ _ _ _ _ hdone]
  | ok done =>
    by_cases hsome : values = []
    · subst hsome
      cases hdone
      exact hu
    · obtain ⟨name, rows, hname, hrun⟩ := setMany_eq_ok hsome hdone
      cases htable.symm.trans hname
      rw [← hsource, boundRow?_self] at hrun
      obtain ⟨t', hfind, hcolumns, hone⟩ := hu.found
      obtain ⟨t'', hrewrites, ho, hmatching⟩ := execute_update_other hu.lawful hfind hone hcolumn
        ((congrFun (holds_congr _ hcolumns) r).trans hother)
        (hown.trans (congrArg _ (value_congr hcolumns _ r).symm))
        ((place?_congr hcolumns _).trans hplace) hnames (h.of_ok hrun)
      exact ⟨hrewrites.lawful hu.lawful ho, t'', hrewrites.find,
        hrewrites.columns.trans hcolumns, hmatching⟩

theorem shows_delete (h : CarriesOut view execute)
    (htable : tableOf? sources c.source = some table) (hsource : other.source = c.source)
    (hother : other.rowMatch.holds t r = false)
    (hdone : (store execute sources (some other)).delete c.source u = (outcome, v))
    (hu : (view u).Shows table t c.rowMatch r) : (view v).Shows table t c.rowMatch r := by
  cases outcome with
  | error e => rwa [Atomic.delete h _ _ _ _ hdone]
  | ok done =>
    obtain ⟨name, rows, hname, hrun⟩ := delete_eq_ok hdone
    cases htable.symm.trans hname
    rw [← hsource, boundRow?_self] at hrun
    obtain ⟨t', hfind, hcolumns, hone⟩ := hu.found
    obtain ⟨t'', hrewrites, ho, hmatching⟩ := execute_delete_other hu.lawful hfind hone
      ((congrFun (holds_congr _ hcolumns) r).trans hother) (h.of_ok hrun)
    exact ⟨hrewrites.lawful hu.lawful ho, t'', hrewrites.find,
      hrewrites.columns.trans hcolumns, hmatching⟩

theorem meanwhile_shows (h : CarriesOut view execute) {contexts : List IterationContext}
    (htable : tableOf? sources c.source = some table)
    (hown : Cell.ofValue 1 c.value = .ok ((nameExpr c.identifier).value t r))
    {p : Table.Place} (hplace : t.place? c.identifier = some p)
    (hothers : ∀ other ∈ contexts, other ≠ c → other.source = c.source ∧
      other.identifier = c.identifier ∧ other.rowMatch.holds t r = false)
    (hlater : Meanwhile view execute sources contexts c u v)
    (hu : (view u).Shows table t c.rowMatch r) : (view v).Shows table t c.rowMatch r := by
  induction hlater with
  | refl => exact hu
  | leave _ hview ih => rwa [hview]
  | set _ hmem hne hkey hname hdone ih =>
    obtain ⟨hsource, hcolumn, hother⟩ := hothers _ hmem hne
    rw [store_set hkey] at hdone
    exact shows_setMany h htable hsource hcolumn hother hown hplace
      (List.forall_mem_singleton.mpr hname) hdone ih
  | setMany _ hmem hne hnames hdone ih =>
    obtain ⟨hsource, hcolumn, hother⟩ := hothers _ hmem hne
    exact shows_setMany h htable hsource hcolumn hother hown hplace hnames hdone ih
  | delete _ hmem hne hdone ih =>
    obtain ⟨hsource, -, hother⟩ := hothers _ hmem hne
    exact shows_delete h htable hsource hother hdone ih

-- What is read of a row that is told apart, if the names can be written.
theorem get_of_shows (h : CarriesOut view execute)
    (htable : tableOf? sources c.source = some table) (hwritable : IsWritable table)
    (hown : Cell.ofValue 1 c.value = .ok ((nameExpr c.identifier).value t r))
    {p q : Table.Place} (hplace : t.place? c.identifier = some p) {key column : String}
    (hkey : DataKey.read? key = some ⟨c.source, column⟩) (hcolumn : t.place? column = some q)
    (hu : (view u).Shows table t c.rowMatch r) :
    ((store execute sources (some c)).get key u).1 = .ok (Table.read r q).value ↔
      IsWritable column ∧ IsWritable c.identifier := by
  obtain ⟨t', hfind, hcolumns, hone⟩ := hu.found
  rw [store_get h hkey htable, boundRow?_self]
  by_cases hcheck : (Statement.first column table (some c.rowMatch)).check = .ok ()
  · obtain ⟨hwritten, -, hidentifier⟩ := Statement.check_first_iff.mp hcheck
    have hmatch : (nameExpr c.identifier).check t' = .ok () := by
      rw [Expr.check, nameExpr, Expr.walk, placeOf, place?_congr hcolumns, hplace]
      rfl
    rw [execute_first hcheck hfind ((place?_congr hcolumns _).trans hcolumn) hmatch hown, hone]
    exact ⟨fun _ => ⟨hwritten, hidentifier⟩, fun _ => rfl⟩
  · refine ⟨fun hread => ?_, fun hboth => absurd ?_ hcheck⟩
    · rw [execute_first_eq] at hread
      cases hfailed : (Statement.first column table (some c.rowMatch)).check with
      | ok done => exact absurd hfailed hcheck
      | error e =>
        rw [hfailed] at hread
        cases hread
    · exact Statement.check_first_iff.mpr ⟨hboth.1, hwritable, hboth.2⟩

end

section

variable {t : Table} {r s : Int × List Cell}

theorem contextOf_own (it : ExecutionIterator) (hid : t.Identified identifierColumn)
    (hr : r ∈ t.rows) (i : Nat) :
    Cell.ofValue 1 (it.contextOf identifierColumn t i r).value =
      .ok ((nameExpr identifierColumn).value t r) := by
  obtain ⟨p, hplace, hget⟩ := exists_place hid.names hid.named
  have hheld := (hid.held r hr).2
  rw [value_nameExpr hplace] at hheld ⊢
  rw [ExecutionIterator.contextOf, hget, Option.getD_some]
  exact Cell.ofValue_value hheld

theorem contextOf_other (it : ExecutionIterator) (hid : t.Identified identifierColumn)
    (hr : r ∈ t.rows) (hs : s ∈ t.rows) (hne : r ≠ s) (i : Nat) :
    (it.contextOf identifierColumn t i s).rowMatch.holds t r = false := by
  rw [Bool.eq_false_iff]
  intro hholds
  let m := (it.contextOf identifierColumn t i s).rowMatch
  have hown : Cell.ofValue 1 m.value = .ok ((nameExpr m.column).value t s) :=
    contextOf_own it hid hs i
  exact hid.apart r hr s hs hne ((holds_iff_agree hown).mp hholds)

end

-- What a context shows of its row is what is read when a run is bound to it, as long as the rest of
-- the plan leaves its row alone; but a name that is a keyword and is written without quotes, the
-- database does not take for a column.
theorem get_snapshot (h : CarriesOut view execute) {it : ExecutionIterator} {table : String}
    {t : Table} {w w' w'' : σ} {contexts : List IterationContext} (hd : (view w).Lawful)
    (htable : tableOf? sources it.source = some table) (hfind : (view w).find table = .ok t)
    (hid : t.Identified identifierColumn)
    (hplan : it.contexts (tableStore execute sources identifierColumn) w = (.ok contexts, w'))
    {c : IterationContext} (hc : c ∈ contexts) {row : Row} (hrow : c.row = some row)
    (hlater : Meanwhile view execute sources contexts c w' w'')
    {key column : String} (hkey : DataKey.read? key = some ⟨it.source, column⟩)
    (hcolumn : column ∈ t.columns.map (·.name)) :
    (∃ value, Fields.get? row column = some value ∧
      (((tableStore execute sources identifierColumn).boundTo (some c)).get key w'').1 =
        .ok value) ↔ IsWritable column ∧ IsWritable identifierColumn := by
  obtain ⟨hview, hwritable, rows, hrows, rfl⟩ := contexts_rows h htable hfind hplan hc
    (by rw [hrow]; nofun)
  have ho := hd.ordered t (find_eq_ok hfind).1
  have hnodup : rows.Nodup := (ho.sublist hrows).imp fun hless heq =>
    absurd (heq ▸ hless) (Int.lt_irrefl _)
  obtain ⟨i, hi, rfl⟩ := List.mem_mapIdx.mp hc
  cases hrow
  have hr := hrows.subset (List.getElem_mem hi)
  obtain ⟨p, hplace, -⟩ := exists_place hid.names hid.named
  obtain ⟨q, hplace', hget⟩ := exists_place hid.names hcolumn
  have hown := contextOf_own it hid hr i
  have hstart :
      (view w').Shows table t (it.contextOf identifierColumn t i rows[i]).rowMatch rows[i] := by
    rw [hview]
    exact ⟨hd, t, hfind, rfl, Table.Identified.matching hid ho hr hown⟩
  have hothers : ∀ other ∈ rows.mapIdx (it.contextOf identifierColumn t),
      other ≠ it.contextOf identifierColumn t i rows[i] → other.source = it.source ∧
        other.identifier = identifierColumn ∧ other.rowMatch.holds t rows[i] = false := by
    intro other hmem hne
    obtain ⟨j, hj, rfl⟩ := List.mem_mapIdx.mp hmem
    refine ⟨rfl, rfl, contextOf_other it hid hr (hrows.subset (List.getElem_mem hj)) ?_ j⟩
    intro hsame
    obtain rfl := (hnodup.getElem_inj_iff).mp hsame
    exact hne rfl
  have hend := meanwhile_shows h htable hown hplace hothers hlater hstart
  refine Iff.trans ?_ (get_of_shows h htable hwritable hown hplace hkey hplace' hend)
  rw [hget]
  exact ⟨fun ⟨_, hvalue, hread⟩ => Option.some.inj hvalue ▸ hread, fun hread => ⟨_, rfl, hread⟩⟩

-- Two shops, with a column whose name is a keyword of the database.
def keywordTable : Table :=
  Rehearsal.tableOf "shop" [("id", "INTEGER"), ("name", "TEXT"), ("returning", "TEXT")]
    [[.int 1, .text "a", .text "x"], [.int 2, .text "b", .text "y"]]

def twoShops : Rehearsal.World where
  database := ⟨[keywordTable]⟩

def shopStore : Warehouse Rehearsal.World := tableStore Rehearsal.execute [("shop", "shop")] "id"

def shopRow (number : Nat) (name back : String) : IterationContext where
  iteration := number
  source := "shop"
  identifier := "id"
  value := .int number
  row := some [("id", .int number), ("name", .text name), ("returning", .text back)]

theorem get_snapshot_twoShops :
    let planned := (ExecutionIterator.entireSet "shop").contexts shopStore twoShops
    let other := shopStore.boundTo (some (shopRow 2 "b" "y"))
    let later := other.setMany "shop" [("name", .text "z")] planned.2
    planned.1 = .ok [shopRow 1 "a" "x", shopRow 2 "b" "y"] ∧ later.1 = .ok () ∧
    ((shopStore.boundTo (some (shopRow 1 "a" "x"))).get "shop.name" later.2).1 = .ok (.text "a") := by
  intro planned other later
  have hlawful : twoShops.database.Lawful :=
    ⟨List.pairwise_singleton _ _, by decide +kernel⟩
  have hid : keywordTable.Identified "id" :=
    ⟨by decide +kernel, by decide +kernel, by decide +kernel, by decide +kernel⟩
  have hplan : (ExecutionIterator.entireSet "shop").contexts shopStore twoShops =
      (.ok [shopRow 1 "a" "x", shopRow 2 "b" "y"], planned.2) := Prod.ext rfl rfl
  have hdone : other.setMany "shop" [("name", .text "z")] planned.2 = (.ok (), later.2) :=
    Prod.ext rfl rfl
  have hapart : shopRow 2 "b" "y" ≠ shopRow 1 "a" "x" := fun h =>
    absurd (congrArg IterationContext.iteration h) (by decide)
  have hkey : DataKey.read? "shop.name" = some ⟨"shop", "name"⟩ := by decide
  obtain ⟨value, hvalue, hread⟩ := (get_snapshot Rehearsal.execute_carriesOut hlawful rfl rfl hid
    hplan List.mem_cons_self rfl
    (.setMany (.refl _) (.tail _ List.mem_cons_self) hapart (by decide) hdone)
    hkey (by decide)).mpr (by decide)
  cases hvalue
  exact ⟨rfl, rfl, hread⟩

-- The column that is a keyword is shown, but cannot be read.
theorem not_get_snapshot_returning :
    let planned := (ExecutionIterator.entireSet "shop").contexts shopStore twoShops
    planned.1 = .ok [shopRow 1 "a" "x", shopRow 2 "b" "y"] ∧
    Fields.get? ((shopRow 1 "a" "x").row.getD []) "returning" = some (.text "x") ∧
    ((shopStore.boundTo (some (shopRow 1 "a" "x"))).get "shop.returning" planned.2).1 =
      .error (.sql (.near "returning")) :=
  ⟨rfl, rfl, rfl⟩

end Gleaner
