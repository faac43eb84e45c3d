import Gleaner.Proofs.Run.Keeps
import Gleaner.Proofs.Sql.Confinement
import Gleaner.Store.Tables

namespace Gleaner

open Instruction TableStore

variable {σ : Type} {view : σ → Sql.Database} {execute : Sql.Statement → Effect σ (List Row)}
  {sources : List (String × String)}

-- Statements are carried out on the database that is seen of a state.
def CarriesOut (view : σ → Sql.Database) (execute : Sql.Statement → Effect σ (List Row)) : Prop :=
  ∀ s w, match (view w).execute s with
    | .ok (d, rows) => (execute s w).1 = .ok rows ∧ view (execute s w).2 = d
    | .error e => (execute s w).1 = .error (.sql e) ∧ view (execute s w).2 = view w

theorem CarriesOut.ok (h : CarriesOut view execute) {s : Sql.Statement} {w : σ}
    {d : Sql.Database} {rows : List Row} (hdone : (view w).execute s = .ok (d, rows)) :
    (execute s w).1 = .ok rows ∧ view (execute s w).2 = d := by
  have hcarried := h s w
  rw [hdone] at hcarried
  exact hcarried

-- The table a data source stands for.
def tableOf? (sources : List (String × String)) (source : String) : Option String :=
  (sources.find? (·.1 == source)).map (·.2)

-- The row that a run is bound to.
def IterationContext.rowMatch (c : IterationContext) : Sql.Match := ⟨c.identifier, c.value⟩

theorem table_eq (source : String) : table (σ := σ) sources source =
    (tableOf? sources source).elim (throw (.unknownSource source)) pure := by
  unfold table tableOf?
  cases sources.find? (·.1 == source) <;> rfl

-- The rows of a source are listed with the filter behind backslashes in front of its colons.
theorem rows_eq {source table text : String} (hsource : tableOf? sources source = some table)
    (htext : text ≠ "") : TableStore.rows execute sources source (some text) =
      execute (.all table (some (Sql.Markup.escape text))) := by
  have hfilter : (some text).filter (fun text => decide (text ≠ "")) = some text := by
    simp [htext]
  rw [TableStore.rows, hfilter, table_eq, hsource]
  rfl

section

variable {d : Sql.Database} {ms : List Sql.Match} {written : String → Prop}

theorem keeps_execute (h : CarriesOut view execute) (hd : d.Lawful) {target : Option String}
    {s : Sql.Statement} (hs : s.Confined ms written target) :
    Keeps (Sql.DatabaseConfined ms written target d ∘ view) (execute s) := by
  intro w hw
  have hcarried := h s w
  split at hcarried
  · next d' rows hok =>
    rw [Function.comp_apply, hcarried.2]
    exact hw.trans (Sql.execute_confined (hw.lawful hd) hs hok)
  · rwa [Function.comp_apply, hcarried.2]

theorem keeps_table {I : σ → Prop} {α : Type} {source : String} {next : String → Effect σ α}
    (hn : ∀ name, tableOf? sources source = some name → Keeps I (next name)) :
    Keeps I (table sources source >>= next) := by
  rw [table_eq]
  cases ht : tableOf? sources source with
  | none => exact keeps_throw _
  | some name => exact hn name ht

variable (h : CarriesOut view execute) (hd : d.Lawful) {c : IterationContext}
  (hc : c.rowMatch ∈ ms)
include h hd hc

theorem keeps_setMany {values : List (String × Value)} (hv : ∀ v ∈ values, written v.1) :
    Keeps (Sql.DatabaseConfined ms written (tableOf? sources c.source) d ∘ view)
      (TableStore.setMany execute sources (some c) c.source values) := by
  unfold TableStore.setMany
  split
  · exact keeps_pure _
  · refine keeps_table fun name ht => ?_
    rw [boundRow?, Option.bind_some, if_pos rfl]
    exact keeps_map _ (keeps_execute h hd ⟨ht, hc, hv⟩)

-- What a store that is bound to a row does for the instructions that write to its source.
theorem boundTo_alike :
    (TableStore.store execute sources (some c)).Alike
      (Same (Sql.DatabaseConfined ms written (tableOf? sources c.source) d ∘ view))
      (fun i => ∀ w ∈ i.writes?, w.1 = c.source ∧ ∀ column ∈ w.2, written column)
      (TableStore.store execute sources (some c)) where
  get key := by
    refine alike_same_iff.mpr ?_
    change Keeps _ (splitKey key >>= _)
    unfold splitKey
    cases DataKey.read? key with
    | none => exact keeps_throw _
    | some k =>
      exact keeps_table fun name _ => keeps_bind (keeps_execute h hd trivial) fun _ =>
        keeps_pure _
  set key source value hi := by
    refine alike_same_iff.mpr ?_
    change Keeps _ (splitKey key >>= _)
    unfold splitKey
    cases hk : DataKey.read? key with
    | none => exact keeps_throw _
    | some k =>
      obtain ⟨hsource, hcolumn⟩ := hi (k.source, [k.column]) (by rw [writes?, hk]; rfl)
      change Keeps _ (TableStore.setMany execute sources (some c) k.source [(k.column, value)])
      rw [show k.source = c.source from hsource]
      refine keeps_setMany h hd hc fun v hv => ?_
      rw [List.mem_singleton.mp hv]
      exact hcolumn k.column List.mem_cons_self
  setMany source items values hi hcolumns := by
    obtain ⟨hsource, hcolumn⟩ := hi (source, items.map BatchItem.column) rfl
    subst hsource
    refine alike_same_iff.mpr (keeps_setMany h hd hc fun v hv => hcolumn v.1 ?_)
    rw [← hcolumns]
    exact List.mem_map_of_mem hv
  delete source hi := by
    obtain ⟨hsource, -⟩ := hi (source, []) rfl
    subst hsource
    refine alike_same_iff.mpr (keeps_table fun name ht => ?_)
    rw [boundRow?, Option.bind_some, if_pos rfl]
    exact keeps_map _ (keeps_execute h hd ⟨ht, c.rowMatch, hc, rfl⟩)

end

-- A host that keeps its data in the tables of a database, which nothing else has to do with.
structure Host.OverTables (host : Host σ) (view : σ → Sql.Database)
    (sources : List (String × String)) : Prop where
  apart : host.Apart view
  warehouse : ∃ execute identifierColumn, CarriesOut view execute ∧
    host.warehouse = tableStore execute sources identifierColumn

theorem contexts_source {warehouse : Warehouse σ} {it : ExecutionIterator}
    {contexts : List IterationContext} {w w' : σ}
    (h : it.contexts warehouse w = (.ok contexts, w')) : ∀ c ∈ contexts, c.source = it.source := by
  have hset : it.setContexts warehouse w = (.ok contexts, w') →
      ∀ c ∈ contexts, c.source = it.source := by
    intro h c hc
    obtain ⟨_, _, -, h⟩ := Effect.bind_eq_ok h
    obtain ⟨_, _, -, h⟩ := Effect.bind_eq_ok h
    cases h
    obtain ⟨_, _, rfl⟩ := List.mem_mapIdx.mp hc
    rfl
  cases it with
  | range source identifier span =>
    cases h
    intro c hc
    obtain ⟨_, _, rfl⟩ := List.mem_mapIdx.mp hc
    rfl
  | entireSet source => exact hset h
  | filteredSet source filter => exact hset h

-- The rows that the runs of a scraper will be bound to.
def ExecutionIterator.plan (it : ExecutionIterator) (warehouse : Warehouse σ) (w : σ) :
    List Sql.Match :=
  ((it.contexts warehouse w).1.toOption.getD []).map IterationContext.rowMatch

theorem keeps_contexts {d : Sql.Database} {ms : List Sql.Match} {written : String → Prop}
    {target : Option String} (h : CarriesOut view execute) (hd : d.Lawful)
    (it : ExecutionIterator) (identifierColumn : String) :
    Keeps (Sql.DatabaseConfined ms written target d ∘ view)
      (it.contexts (tableStore execute sources identifierColumn)) := by
  have hset : Keeps (Sql.DatabaseConfined ms written target d ∘ view)
      (it.setContexts (tableStore execute sources identifierColumn)) := by
    refine keeps_bind (leaves_ofExcept _ _).keeps fun _ => keeps_bind ?_ fun _ => keeps_pure _
    exact keeps_table fun name _ => keeps_execute h hd trivial
  cases it with
  | range source identifier span => exact keeps_pure _
  | entireSet source => exact hset
  | filteredSet source filter => exact hset

end Gleaner
