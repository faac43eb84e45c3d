import Gleaner.Proofs.Rehearsal.Tables
import Gleaner.Proofs.Sql.Effects
import Gleaner.Proofs.Store.Confinement

namespace Gleaner

section

open Instruction TableStore

variable {σ : Type} {view : σ → Sql.Database} {sources : List (String × String)}

-- What a scraper that writes to one source only makes of the database when it is run for rows of
-- that source, whatever the pages do and however the runs end: only the table of the source
-- changes, and of it only rows for which the identifier has the value of one of those the runs
-- were bound to. No row is new. The rows that are left stand in their order as long as the columns
-- that are written do not give a row another number.
theorem hostExecute_confined {host : Host σ} (h : host.OverTables view sources)
    {script : List Instruction} {it : ExecutionIterator} (hscript : WritesOnly it.source script)
    {w : σ} (hd : (view w).Lawful) (limit : Option Int) :
    Sql.DatabaseConfined (it.plan host.warehouse w) (· ∈ writtenColumns script)
      (tableOf? sources it.source) (view w)
      (view (host.execute limit script (some it) w).2) := by
  obtain ⟨execute, identifierColumn, hexecute, hwarehouse⟩ := h.warehouse
  have hplans : Keeps (Sql.DatabaseConfined (it.plan host.warehouse w)
      (· ∈ writtenColumns script) (tableOf? sources it.source) (view w) ∘ view)
      (it.contexts host.warehouse) := by
    rw [hwarehouse]
    exact keeps_contexts hexecute hd it identifierColumn
  have hplanned := hplans w (.refl _ _ _ _)
  have hexpand : host.execute limit script (some it) w = (do
      let contexts ← it.contexts host.warehouse
      host.runAll limit script 1 (contexts.map some)) w := by
    unfold Host.execute
    simp only [map_eq_pure_bind, bind_assoc, pure_bind]
  rw [hexpand]
  rcases hplan : it.contexts host.warehouse w with ⟨e | contexts, u⟩ <;> rw [hplan] at hplanned
  · rwa [Effect.bind_error hplan]
  · rw [Effect.bind_ok hplan]
    have hparts : ∀ i ∈ partsOfList script, ∀ writes ∈ i.writes?,
        writes.1 = it.source ∧ ∀ column ∈ writes.2, column ∈ writtenColumns script :=
      fun i hi writes hw =>
        ⟨hscript i hi writes hw, fun column hc => mem_writtenColumns hi hw hc⟩
    refine keeps_runAll h.apart hparts (fun context hcontext => ?_) limit 1 u hplanned
    obtain ⟨c, hc, rfl⟩ := List.mem_map.mp hcontext
    have hplace : c.rowMatch ∈ it.plan host.warehouse w := by
      rw [ExecutionIterator.plan, hplan]
      exact List.mem_map_of_mem hc
    have hbound : host.warehouse.boundTo (some c) = store execute sources (some c) :=
      congrArg (·.boundTo (some c)) hwarehouse
    rw [hbound, ← contexts_source hplan c hc]
    exact boundTo_alike hexecute hd hplace

-- Two people, of whom the first is looked up by number.
def twoPeople : Rehearsal.World where
  database := ⟨[Rehearsal.tableOf "people" [("id", "INTEGER PRIMARY KEY"), ("name", "TEXT")]
    [[.int 1, .text "a"], [.int 2, .text "b"]]]⟩

theorem twoPeople_lawful : twoPeople.database.Lawful where
  names := List.pairwise_singleton _ _
  ordered := by decide +kernel

-- Gives the row it is bound to another name, and then fails.
def renameAndFail : List Instruction :=
  [.saveData "people.name" (.literal "x"), .jump "gone"]

theorem hostExecute_confined_renameAndFail :
    let host := Rehearsal.tableHost [("people", "people")] "id"
    let it : ExecutionIterator := .range "people" "id" (.upTo 1)
    host.OverTables Rehearsal.World.database [("people", "people")] ∧
    WritesOnly it.source renameAndFail ∧ twoPeople.database.Lawful ∧
    Sql.DatabaseConfined (it.plan host.warehouse twoPeople) (· ∈ writtenColumns renameAndFail)
      (some "people") twoPeople.database
      (host.execute (some 5) renameAndFail (some it) twoPeople).2.database ∧
    (host.execute (some 5) renameAndFail (some it) twoPeople).2.database.tables.map (·.rows) =
      [[(1, [.null, .text "x"]), (2, [.null, .text "b"])]] := by
  have hhost := Rehearsal.tableHost_overTables [("people", "people")] "id"
  have hscript : WritesOnly (ExecutionIterator.range "people" "id" (.upTo 1)).source
      renameAndFail := by decide
  exact ⟨hhost, hscript, twoPeople_lawful,
    hostExecute_confined hhost hscript twoPeople_lawful (some 5),
    by decide +kernel⟩

-- Gives the row it is bound to another number.
def renumber : List Instruction := [.saveData "people.id" (.literal "5")]

-- The row then stands behind the one it stood before.
theorem not_inOrder_renumber :
    let host := Rehearsal.tableHost [("people", "people")] "id"
    let it : ExecutionIterator := .range "people" "id" (.upTo 1)
    WritesOnly it.source renumber ∧ twoPeople.database.Lawful ∧
    ∃ t ∈ twoPeople.database.tables,
      ∃ t' ∈ (host.execute (some 5) renumber (some it) twoPeople).2.database.tables,
        ¬Sql.InOrder (Sql.touches (it.plan host.warehouse twoPeople) t) t.rows t'.rows := by
  exact ⟨by decide, twoPeople_lawful, by decide +kernel⟩

end

section

open Sql TableStore

variable {σ α : Type} {view : σ → Database} {execute : Statement → Effect σ (List Row)}
  {sources : List (String × String)} {bound : Option IterationContext}

namespace CarriesOut

variable (h : CarriesOut view execute) {s : Statement} {w w' : σ}
include h

theorem of_ok {rows : List Row} (hrun : execute s w = (.ok rows, w')) :
    (view w).execute s = .ok (view w', rows) := by
  have hcarried := h s w
  rw [hrun] at hcarried
  split at hcarried
  · next d others hok =>
    obtain ⟨⟨⟩, rfl⟩ := hcarried
    exact hok
  · cases hcarried.1

theorem of_error {e : Failure} (hrun : execute s w = (.error e, w')) : view w' = view w := by
  have hcarried := h s w
  rw [hrun] at hcarried
  split at hcarried
  · cases hcarried.1
  · exact hcarried.2

-- What a statement gives depends on the database only.
theorem fst_eq : (execute s w).1 =
    (((view w).execute s).map (·.2)).mapError Failure.sql := by
  have hcarried := h s w
  split at hcarried
  · next hok => rw [hcarried.1, hok]; rfl
  · next herror => rw [hcarried.1, herror]; rfl

theorem leaves (hs : ∀ (d : Database) d' rows, d.execute s = .ok (d', rows) → d' = d) :
    Leaves view (execute s) := by
  intro w
  rcases hrun : execute s w with ⟨e | rows, w'⟩
  · exact h.of_error hrun
  · exact hs _ _ _ (h.of_ok hrun)

end CarriesOut

-- Work that leaves the database alone when it fails.
def Atomic (view : σ → Database) (work : Effect σ α) : Prop :=
  ∀ w e w', work w = (.error e, w') → view w' = view w

namespace Atomic

theorem pure (a : α) : Atomic view (Pure.pure a : Effect σ α) := fun _ _ _ h => nomatch h

theorem throw (e : Failure) : Atomic view (MonadExcept.throw e : Effect σ α) := by
  rintro w e' w' ⟨⟩
  rfl

theorem carriedOut (h : CarriesOut view execute) (s : Statement) (next : List Row → α) :
    Atomic view (execute s >>= fun rows => Pure.pure (next rows)) := by
  intro w e w' hrun
  rcases hs : execute s w with ⟨e' | rows, u⟩
  · rw [Effect.bind_error hs] at hrun
    cases hrun
    exact h.of_error hs
  · rw [Effect.bind_ok hs] at hrun
    cases hrun

theorem table {source : String} {next : String → Effect σ α}
    (hn : ∀ name, Atomic view (next name)) : Atomic view (table sources source >>= next) := by
  rw [table_eq]
  cases tableOf? sources source with
  | none => exact throw _
  | some name => exact hn name

theorem splitKey {key : String} {next : DataKey → Effect σ α}
    (hn : ∀ k, Atomic view (next k)) : Atomic view (splitKey key >>= next) := by
  unfold TableStore.splitKey
  cases DataKey.read? key with
  | none => exact throw _
  | some k => exact hn k

variable (h : CarriesOut view execute)
include h

theorem setMany (source : String) (values : List (String × Value)) :
    Atomic view ((store execute sources bound).setMany source values) := by
  change Atomic view (TableStore.setMany execute sources bound source values)
  unfold TableStore.setMany
  split
  · exact pure _
  · refine table fun name => ?_
    cases boundRow? bound source <;> exact carriedOut h _ _

theorem set (key : String) (value : Value) :
    Atomic view ((store execute sources bound).set key value) :=
  splitKey fun k => setMany h k.source [(k.column, value)]

theorem delete (source : String) : Atomic view ((store execute sources bound).delete source) :=
  table fun _ => carriedOut h _ _

end Atomic

-- The value that is read of some rows: the first one of the first row.
def TableStore.valueOf (rows : List Row) : Value :=
  ((rows.head?.bind List.head?).map (·.2)).getD .null

-- What is read by a key depends on the database only.
theorem store_get (h : CarriesOut view execute) {key : String} {k : DataKey} {table : String}
    (hk : DataKey.read? key = some k) (ht : tableOf? sources k.source = some table) (w : σ) :
    ((store execute sources bound).get key w).1 =
      ((((view w).execute (.first k.column table (boundRow? bound k.source))).map (·.2)).mapError
        Failure.sql).map valueOf := by
  change ((splitKey key >>= fun k => TableStore.table sources k.source >>= fun name =>
    execute (.first k.column name (boundRow? bound k.source)) >>= fun rows =>
      pure (valueOf rows)) w).1 = _
  rw [splitKey, hk, ← h.fst_eq]
  change ((TableStore.table sources k.source >>= fun name =>
    execute (.first k.column name (boundRow? bound k.source)) >>= fun rows =>
      pure (valueOf rows)) w).1 = _
  rw [table_eq, ht]
  change ((execute (.first k.column table (boundRow? bound k.source)) >>= fun rows =>
    pure (valueOf rows)) w).1 = _
  rcases hs : execute (.first k.column table (boundRow? bound k.source)) w with ⟨e | rows, u⟩
  · rw [Effect.bind_error hs]
    rfl
  · rw [Effect.bind_ok hs]
    rfl

-- What becomes of the tables when something is done through a store that may be bound to a row.
-- `rowid` and a key column that holds the numbers of the rows are one place, so columns are told
-- apart by their places and not by their names.
structure TableStore.Frames (view : σ → Database) (execute : Statement → Effect σ (List Row))
    (sources : List (String × String)) (bound : Option IterationContext) (w : σ) : Prop where
  -- Writing to the source it is bound to changes the columns that are written, in the rows it is
  -- bound to.
  updated {c : IterationContext} {table : String} {t : Table} {values : List (String × Value)}
    {w' : σ} (hbound : bound = some c) (htable : tableOf? sources c.source = some table)
    (hfind : (view w).find table = .ok t) (hrow : t.matching c.rowMatch ≠ [])
    (hapart : (t.place? c.identifier :: values.map (fun v => t.place? v.1)).Nodup)
    (hdone : (store execute sources bound).setMany c.source values w = (.ok (), w')) :
    (∃ t', (view w).Rewrites (view w') table t t' ∧ t'.others c.rowMatch = t.others c.rowMatch) ∧
    ∀ key column, DataKey.read? key = some ⟨c.source, column⟩ →
      (∀ value, (column, value) ∈ values → ∃ place cell, t.place? column = some place ∧
        Cell.ofValue 1 value = .ok cell ∧ ((store execute sources bound).get key w').1 =
          .ok (Cell.stored (t.affinity place) cell).value) ∧
      (t.place? column ∉ values.map (fun v => t.place? v.1) →
        ((store execute sources bound).get key w').1 = ((store execute sources bound).get key w).1)
  -- Deleting there removes these rows.
  removed {c : IterationContext} {table : String} {t : Table} {w' : σ} (hbound : bound = some c)
    (htable : tableOf? sources c.source = some table) (hfind : (view w).find table = .ok t)
    (hdone : (store execute sources bound).delete c.source w = (.ok (), w')) :
    (view w).Rewrites (view w') table t { t with rows := t.others c.rowMatch }
  -- Writing to another source adds a row to its table.
  inserted {source : String} {values : List (String × Value)} {w' : σ}
    (hapart : boundRow? bound source = none) (hsome : values ≠ [])
    (hdone : (store execute sources bound).setMany source values w = (.ok (), w')) :
    ∃ table t n cells, tableOf? sources source = some table ∧ (∀ r ∈ t.rows, r.1 ≠ n) ∧
      (view w).Rewrites (view w') table t { t with rows := Table.insertRow (n, cells) t.rows }
  -- Deleting there empties the table.
  cleared {source : String} {w' : σ} (hapart : boundRow? bound source = none)
    (hdone : (store execute sources bound).delete source w = (.ok (), w')) :
    ∃ table t, tableOf? sources source = some table ∧
      (view w).Rewrites (view w') table t { t with rows := [] }
  -- Reading changes nothing, and neither does anything that fails.
  got (key : String) : view ((store execute sources bound).get key w).2 = view w
  fetched (source : String) (filter : Option String) :
    view (TableStore.rows execute sources source filter w).2 = view w
  failed {w' : σ} {e : Failure} :
    (∀ key value, (store execute sources bound).set key value w = (.error e, w') →
      view w' = view w) ∧
    (∀ source values, (store execute sources bound).setMany source values w = (.error e, w') →
      view w' = view w) ∧
    ∀ source, (store execute sources bound).delete source w = (.error e, w') → view w' = view w

section

variable {source : String} {values : List (String × Value)} {w w' : σ}

theorem table_eq_ok {name : String} (h : table sources source w = (.ok name, w')) :
    tableOf? sources source = some name ∧ w' = w := by
  rw [table_eq] at h
  cases ht : tableOf? sources source with
  | none =>
    rw [ht] at h
    cases h
  | some found =>
    rw [ht] at h
    cases h
    exact ⟨rfl, rfl⟩

theorem discard_eq_ok {work : Effect σ α} (h : discard work w = (.ok (), w')) :
    ∃ a, work w = (.ok a, w') := by
  obtain ⟨a, u, hwork, h⟩ := Effect.bind_eq_ok ((congrFun (map_eq_pure_bind _ work) w).symm.trans h)
  cases h
  exact ⟨a, hwork⟩

theorem setMany_eq_ok (hsome : values ≠ [])
    (h : TableStore.setMany execute sources bound source values w = (.ok (), w')) :
    ∃ table rows, tableOf? sources source = some table ∧
      execute ((boundRow? bound source).elim (.insert table values) (.update table values)) w =
        (.ok rows, w') := by
  obtain ⟨first, rest, rfl⟩ := List.exists_cons_of_ne_nil hsome
  obtain ⟨name, u, ht, hrest⟩ := Effect.bind_eq_ok h
  obtain ⟨htable, rfl⟩ := table_eq_ok ht
  cases hb : boundRow? bound source <;> rw [hb] at hrest <;>
    obtain ⟨rows, hrun⟩ := discard_eq_ok hrest <;> exact ⟨name, rows, htable, hrun⟩

theorem delete_eq_ok (h : (store execute sources bound).delete source w = (.ok (), w')) :
    ∃ table rows, tableOf? sources source = some table ∧
      execute (.delete table (boundRow? bound source)) w = (.ok rows, w') := by
  obtain ⟨name, u, ht, hrest⟩ := Effect.bind_eq_ok h
  obtain ⟨htable, rfl⟩ := table_eq_ok ht
  obtain ⟨rows, hrun⟩ := discard_eq_ok hrest
  exact ⟨name, rows, htable, hrun⟩

end

theorem boundRow?_self (c : IterationContext) : boundRow? (some c) c.source = some c.rowMatch := by
  rw [boundRow?, Option.bind_some, if_pos rfl]
  rfl

-- Writing to the source that a store is bound to.
theorem setMany_updates (h : CarriesOut view execute) {c : IterationContext} {table : String}
    {t : Table} {values : List (String × Value)} {w w' : σ} (hd : (view w).Lawful)
    (hfull : ∀ t ∈ (view w).tables, t.Full) (htable : tableOf? sources c.source = some table)
    (hfind : (view w).find table = .ok t) (hrow : t.matching c.rowMatch ≠ [])
    (hapart : (t.place? c.identifier :: values.map (fun v => t.place? v.1)).Nodup)
    (hdone : (store execute sources (some c)).setMany c.source values w = (.ok (), w')) :
    (∃ t', (view w).Rewrites (view w') table t t' ∧ t'.others c.rowMatch = t.others c.rowMatch) ∧
    ∀ key column, DataKey.read? key = some ⟨c.source, column⟩ →
      (∀ value, (column, value) ∈ values → ∃ place cell, t.place? column = some place ∧
        Cell.ofValue 1 value = .ok cell ∧ ((store execute sources (some c)).get key w').1 =
          .ok (Cell.stored (t.affinity place) cell).value) ∧
      (t.place? column ∉ values.map (fun v => t.place? v.1) →
        ((store execute sources (some c)).get key w').1 =
          ((store execute sources (some c)).get key w).1) := by
  by_cases hsome : values = []
  · subst hsome
    cases hdone
    exact ⟨⟨t, ⟨hfind, rfl, rfl, (Database.replace_self hd hfind).symm⟩, rfl⟩,
      fun key column _ => ⟨fun _ hv => absurd hv List.not_mem_nil, fun _ => rfl⟩⟩
  obtain ⟨name, rows, hname, hrun⟩ := setMany_eq_ok hsome hdone
  cases htable.symm.trans hname
  rw [boundRow?_self] at hrun
  have hidentifier : t.place? c.rowMatch.column ∉ values.map fun v => t.place? v.1 :=
    (List.nodup_cons.mp hapart).1
  have hnodup := (List.nodup_cons.mp hapart).2
  obtain ⟨⟨hcheck, hmatch, cell, hcell⟩, pairs, t', hassigns, hrewrites, hupdated⟩ :=
    execute_update hd hfind hidentifier (h.of_ok hrun)
  refine ⟨⟨t', hrewrites, hupdated.others⟩,
    fun key column hk => ⟨fun value hv => ?_, fun hkept => ?_⟩⟩
  · obtain ⟨place, cell, hplace, hvalue, hread⟩ := execute_first_written hcheck hmatch hcell
      hassigns hrewrites hupdated (hfull t (find_eq_ok hfind).1) hnodup hv hrow
    refine ⟨place, cell, hplace, hvalue, ?_⟩
    rw [store_get h hk htable, boundRow?_self, hread]
    rfl
  · rw [store_get h hk htable, store_get h hk htable, boundRow?_self,
      execute_first_kept hrewrites hupdated (hassigns.not_at hkept)]

theorem store_frames (h : CarriesOut view execute) {w : σ} (hd : (view w).Lawful)
    (hfull : ∀ t ∈ (view w).tables, t.Full) : Frames view execute sources bound w where
  updated hbound htable hfind hrow hapart hdone := by
    subst hbound
    exact setMany_updates h hd hfull htable hfind hrow hapart hdone
  removed hbound htable hfind hdone := by
    subst hbound
    obtain ⟨name, rows, hname, hrun⟩ := delete_eq_ok hdone
    cases htable.symm.trans hname
    rw [boundRow?_self] at hrun
    exact execute_delete hd hfind (h.of_ok hrun)
  inserted hapart hsome hdone := by
    obtain ⟨name, rows, hname, hrun⟩ := setMany_eq_ok hsome hdone
    rw [hapart] at hrun
    obtain ⟨t, n, cells, hfree, hrewrites⟩ := execute_insert (h.of_ok hrun)
    exact ⟨name, t, n, cells, hname, hfree, hrewrites⟩
  cleared hapart hdone := by
    obtain ⟨name, rows, hname, hrun⟩ := delete_eq_ok hdone
    rw [hapart] at hrun
    obtain ⟨t, hrewrites⟩ := execute_clear (h.of_ok hrun)
    exact ⟨name, t, hname, hrewrites⟩
  got key := leaves_bind (leaves_splitKey key) (fun k => leaves_bind (leaves_table k.source)
    fun _ => leaves_bind (h.leaves fun _ _ _ => execute_first_same) fun _ => leaves_pure _) w
  fetched source filter := leaves_bind (leaves_table source)
    (fun _ => h.leaves fun _ _ _ hrun => (execute_all_eq_ok hrun).1) w
  failed := ⟨fun key value => Atomic.set h key value w _ _,
    fun source values => Atomic.setMany h source values w _ _,
    fun source => Atomic.delete h source w _ _⟩

-- Bound to one of two people, as long as the identifier tells them apart.
def boundToFirst (identifier : String) : DataStore Rehearsal.World :=
  store Rehearsal.execute [("people", "people")] (some ⟨1, "people", identifier, .int 1, none⟩)

theorem store_frames_twoPeople :
    let written := (boundToFirst "id").setMany "people" [("name", .int 7)] twoPeople
    let deleted := (boundToFirst "id").delete "people" twoPeople
    (twoPeople.database.Lawful ∧ ∀ t ∈ twoPeople.database.tables, t.Full) ∧
    (written.1 = .ok () ∧ ((boundToFirst "id").get "people.name" written.2).1 = .ok (.text "7") ∧
      ((boundToFirst "id").get "people.id" written.2).1 = .ok (.int 1)) ∧
    deleted.1 = .ok () ∧ deleted.2.database.tables.map (·.rows) = [[(2, [.null, .text "b"])]] := by
  have hfull : ∀ t ∈ twoPeople.database.tables, t.Full := by decide +kernel
  have hframes : Frames Rehearsal.World.database Rehearsal.execute [("people", "people")]
      (some ⟨1, "people", "id", .int 1, none⟩) twoPeople :=
    store_frames Rehearsal.execute_carriesOut twoPeople_lawful hfull
  have hwritten :
      ((boundToFirst "id").setMany "people" [("name", .int 7)] twoPeople).1 = .ok () := by rfl
  have hdeleted : ((boundToFirst "id").delete "people" twoPeople).1 = .ok () := by rfl
  obtain ⟨-, hreads⟩ := hframes.updated rfl rfl rfl (by decide +kernel) (by decide +kernel)
    (Prod.ext hwritten rfl)
  refine ⟨⟨twoPeople_lawful, hfull⟩, ⟨hwritten, ?_, ?_⟩, hdeleted, ?_⟩
  · obtain ⟨place, cell, hplace, hcell, hread⟩ :=
      (hreads "people.name" "name" (by decide)).1 (.int 7) List.mem_cons_self
    cases hplace
    cases hcell
    exact hread
  · exact (hreads "people.id" "id" (by decide)).2 (by decide +kernel)
  · have hremoved := hframes.removed rfl rfl rfl (Prod.ext hdeleted rfl)
    exact (congrArg (fun d : Database => d.tables.map Table.rows) hremoved.replaced).trans
      (by decide +kernel)

-- The number of a row has more than one name: what is written by one of them moves the row away
-- from a store that is bound to it by another.
theorem not_updated_rowid :
    let written := (boundToFirst "rowid").setMany "people" [("id", .int 5)] twoPeople
    sameName "id" "rowid" = false ∧
    (∃ t ∈ twoPeople.database.tables, ∃ r ∈ t.rows, Match.holds ⟨"rowid", .int 1⟩ t r = true) ∧
    written.1 = .ok () ∧ Cell.stored .integer (.int 5) = .int 5 ∧
    ((boundToFirst "rowid").get "people.id" written.2).1 = .ok .null :=
  ⟨by decide, by decide +kernel, rfl, rfl, rfl⟩

end

end Gleaner
