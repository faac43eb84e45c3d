import Gleaner.Proofs.Service.Moves
import Gleaner.Proofs.Store.Confinement
import Gleaner.Rehearsal.ScriptedPages
import Gleaner.Rehearsal.Service

namespace Gleaner

section

variable {σ τ : Type} {view : σ → τ} {execute : Sql.Statement → Effect σ (List Row)}
  (h : ∀ s, Leaves view (execute s)) {sources : List (String × String)}

namespace TableStore

theorem leaves_table (source : String) : Leaves view (table (σ := σ) sources source) := by
  unfold table
  split
  · exact leaves_pure _
  · exact leaves_throw _

theorem leaves_splitKey (key : String) : Leaves view (splitKey (σ := σ) key) := by
  unfold splitKey
  split
  · exact leaves_pure _
  · exact leaves_throw _

include h

theorem leaves_setMany (bound : Option IterationContext) (source : String)
    (values : List (String × Value)) :
    Leaves view (setMany execute sources bound source values) := by
  unfold setMany
  split
  · exact leaves_pure _
  · refine leaves_bind (leaves_table source) fun table => ?_
    cases boundRow? bound source with
    | some m => exact leaves_map _ (h _)
    | none => exact leaves_map _ (h _)

end TableStore

open TableStore

include h

-- What is kept in tables leaves alone what the statements leave alone.
theorem tableStore_leaves (identifierColumn : String) :
    (tableStore execute sources identifierColumn).Leaves view where
  rows source _ := leaves_bind (leaves_table source) fun _ => h _
  boundTo context := {
    get := fun key => leaves_bind (leaves_splitKey key) fun k =>
      leaves_bind (leaves_table k.source) fun _ => leaves_bind (h _) fun _ => leaves_pure _
    set := fun key _ => leaves_bind (leaves_splitKey key) fun k =>
      leaves_setMany h context k.source _
    setMany := leaves_setMany h context
    delete := fun source => leaves_bind (leaves_table source) fun _ => leaves_map _ (h _) }

end

namespace Rehearsal

open World

theorem leaves_execute (s : Sql.Statement) : Leaves catalog (execute s) := by
  refine leaves_bind (fun _ => rfl) fun _ => leaves_bind leaves_get fun w => ?_
  split
  · exact leaves_bind (fun _ => rfl) fun _ => leaves_pure _
  · exact leaves_throw _

variable {τ : Type} {view : World → τ}

theorem leaves_faultOf (faults : List (String × String)) (kind : String) :
    Leaves view (faultOf faults kind) := by
  unfold faultOf
  split
  · exact leaves_throw _
  · exact leaves_pure _

namespace Browser

theorem leaves_tell (kind : String) (call : List Value) : Leaves catalog (tell kind call) :=
  leaves_bind (fun _ => rfl) fun _ => leaves_bind leaves_get fun _ => leaves_faultOf _ _

theorem passes_changeTab (browser page : Nat) (f : Tab → Tab) :
    Passes catalog (changeTab browser page f) := fun _ => rfl

theorem elementOf_leaves (browser page i : Nat) (e : Element) :
    (elementOf browser page i e).Leaves catalog where
  click := by
    refine leaves_bind (leaves_tell _ _) fun _ => ?_
    cases e.target with
    | none => exact leaves_pure _
    | some target => exact leaves_lift (passes_changeTab _ _ _)
  fill _ := leaves_tell _ _
  type _ := leaves_tell _ _
  press _ := leaves_tell _ _
  scrollIntoView := leaves_tell _ _
  text := leaves_bind (leaves_tell _ _) fun _ => leaves_bind leaves_get fun _ => fun _ => rfl
  attributeOf _ := leaves_bind (leaves_tell _ _) fun _ => leaves_pure _

theorem leaves_find (selectors : Value) (page : Nat) : Leaves view (find selectors page) := by
  refine leaves_bind leaves_get fun w => ?_
  split
  · exact leaves_pure _
  · split
    · exact leaves_throw _
    · exact leaves_pure _

theorem leaves_locate (browser page : Nat) (selectors : Selectors) :
    Leaves catalog (locate browser page selectors) := by
  refine leaves_bind (leaves_tell _ _) fun _ => leaves_bind (leaves_find _ _) fun found => ?_
  cases found with
  | none => exact leaves_pure _
  | some found =>
    refine leaves_bind (fun _ => rfl) fun visible => ?_
    cases visible <;> exact leaves_pure _

theorem locate_located {browser page : Nat} {selectors : Selectors} {s t : World}
    {element : Gleaner.Browser.FoundElement World}
    (hs : locate browser page selectors s = (.ok (some element), t)) :
    element.Leaves catalog := by
  obtain ⟨_, u, -, hs⟩ := Effect.bind_eq_ok hs
  obtain ⟨found, v, -, hs⟩ := Effect.bind_eq_ok hs
  cases found with
  | none => cases hs
  | some found =>
    obtain ⟨visible, w, -, hs⟩ := Effect.bind_eq_ok hs
    cases visible with
    | false => cases hs
    | true =>
      cases hs
      exact elementOf_leaves browser page found.1 found.2

theorem context_leaves (browser : Nat) : (context browser).Leaves catalog where
  openPages := fun _ => rfl
  address _ := fun _ => rfl
  isClosed _ := fun _ => rfl
  openPage := leaves_bind (leaves_tell _ _) fun _ => fun _ => rfl
  limitNavigation _ _ := leaves_tell _ _
  navigate _ _ _ := leaves_bind (leaves_tell _ _) fun _ => leaves_lift (passes_changeTab _ _ _)
  evaluate _ script := by cases script <;> exact leaves_tell _ _
  locate := leaves_locate browser
  located _ _ _ _ _ hs := locate_located hs
  dispose _ := leaves_tell _ _
  wait _ _ := leaves_tell _ _
  waitUntilIdle _ _ := leaves_tell _ _
  closePage _ := leaves_bind (leaves_tell _ _) fun _ => leaves_lift (passes_changeTab _ _ _)
  assigned := fun _ => rfl
  assign _ := fun _ => rfl

theorem launcher_leaves : launcher.Leaves catalog where
  start := leaves_bind leaves_get fun _ => leaves_bind (fun _ => rfl) fun _ =>
    leaves_bind (leaves_tell _ _) fun _ => leaves_pure _
  launch _ _ := leaves_tell _ _
  openContext _ := leaves_bind (leaves_tell _ _) fun _ => fun _ => rfl
  closeBrowser _ := leaves_tell _ _
  stop _ := leaves_tell _ _
  sessions := fun _ => rfl
  keep _ := fun _ => rfl

end Browser

theorem environment_leaves {pages : Pages World} {store : DataStore World}
    (hp : pages.Leaves catalog) (hs : store.Leaves catalog) :
    (environment pages store).Leaves catalog where
  pages := hp
  store := hs
  now := fun _ => rfl
  timer := fun _ => rfl
  draw := fun _ => rfl
  warn _ := fun _ => rfl
  control := fun _ => rfl
  setControl _ := fun _ => rfl
  await _ := fun _ => rfl

-- In a rehearsal the catalog is apart from everything else.
theorem resources_lawful (settings : Settings) : (resources settings).Lawful catalog where
  keeper := ⟨fun _ => rfl, fun _ => rfl, fun _ _ => rfl⟩
  launcher := Browser.launcher_leaves
  pages browser := Gleaner.Browser.pages_leaves (Browser.context_leaves browser) fun _ => fun _ => rfl
  warehouse _ := tableStore_leaves leaves_execute _
  environment := environment_leaves
  now := fun _ => rfl

end Rehearsal

end Gleaner

namespace Gleaner.Rehearsal

open World

theorem execute_carriesOut : CarriesOut database execute := by
  intro s w
  unfold execute
  rw [Effect.bind_apply, Effect.modify_apply]
  dsimp only
  rw [Effect.bind_apply, Effect.get_apply]
  dsimp only
  cases w.database.execute s with
  | error e => exact ⟨rfl, rfl⟩
  | ok after => exact ⟨rfl, rfl⟩

theorem passes_signal (s : Signal) : Passes database (signal s) := by
  intro w
  cases s <;> rfl

theorem passes_signals (n : Nat) (signals : List (Nat × Signal)) :
    Passes database (do for (m, s) in signals do if m = n then signal s) := by
  induction signals with
  | nil => exact passes_pure _
  | cons first rest ih =>
    simp only [List.forIn_cons]
    split
    · simp only [bind_assoc, pure_bind]
      exact passes_bind (passes_signal _) fun _ => ih
    · simp only [pure_bind]
      exact ih

theorem passes_signalAll : Passes database ScriptedPages.signalAll := by
  refine passes_bind (fun _ => rfl) fun _ => passes_bind (fun _ => rfl) fun _ => ?_
  exact passes_bind (fun _ => rfl) fun w => passes_signals _ _

theorem scriptedPages_leaves : scriptedPages.Leaves database where
  perform page action value arguments := by
    refine leaves_bind (fun _ => rfl) fun _ => ?_
    refine leaves_bind (leaves_lift passes_signalAll) fun _ => ?_
    refine leaves_bind leaves_get fun w => leaves_bind (leaves_faultOf _ _) fun _ => ?_
    cases action with
    | navigate url => exact fun _ => rfl
    | click selectors waits =>
      refine leaves_bind (Browser.leaves_find _ _) fun found => ?_
      cases found with
      | none => exact leaves_pure _
      | some found =>
        obtain ⟨i, e⟩ := found
        cases ht : e.target with
        | none => simp only [ht]; exact leaves_pure _
        | some target => simp only [ht]; exact fun _ => rfl
    | _ => exact leaves_pure _
  isVisible page selectors := by
    refine leaves_bind (fun _ => rfl) fun _ => leaves_bind (Browser.leaves_find _ _) fun found => ?_
    cases found with
    | none => exact leaves_pure _
    | some found => exact fun _ => rfl
  textOf page selectors := by
    refine leaves_bind (fun _ => rfl) fun _ => leaves_bind (Browser.leaves_find _ _) fun found => ?_
    cases found with
    | none => exact leaves_throw _
    | some found => exact fun _ => rfl
  attributeOf page selectors name := by
    refine leaves_bind (fun _ => rfl) fun _ => leaves_bind (Browser.leaves_find _ _) fun found => ?_
    cases found with
    | none => exact leaves_throw _
    | some found => exact fun _ => rfl
  address page := fun _ => rfl

-- A store that holds nothing.
def emptyStore : DataStore World where
  get _ := pure .null
  set _ _ := pure ()
  setMany _ _ := pure ()
  delete _ := pure ()

theorem emptyStore_leaves : emptyStore.Leaves database where
  get _ := leaves_pure _
  set _ _ := leaves_pure _
  setMany _ _ := leaves_pure _
  delete _ := leaves_pure _

-- A host whose runs write to the tables of a rehearsal.
def tableHost (sources : List (String × String)) (identifierColumn : String) : Host World where
  warehouse := tableStore sources identifierColumn
  environment := environment scriptedPages

theorem tableHost_overTables (sources : List (String × String)) (identifierColumn : String) :
    (tableHost sources identifierColumn).OverTables database sources where
  apart store := by
    refine ⟨environment scriptedPages emptyStore, ?_, rfl⟩
    exact {
      pages := scriptedPages_leaves
      store := emptyStore_leaves
      now := fun _ => rfl
      timer := fun _ => rfl
      draw := fun _ => rfl
      warn := fun _ _ => rfl
      control := fun _ => rfl
      setControl := fun _ _ => rfl
      await := fun _ _ => rfl }
  warehouse := ⟨execute, identifierColumn, execute_carriesOut, rfl⟩

end Gleaner.Rehearsal
