import Gleaner.Proofs.Run.Confined

namespace Gleaner

open Session

-- A call of the data store, and how it ended.
inductive StoreCall
  | get (key : String) (outcome : Except Failure Value)
  | set (key : String) (value : Value) (outcome : Except Failure Unit)
  | setMany (source : String) (items : List (String × Value)) (outcome : Except Failure Unit)
  | delete (source : String) (outcome : Except Failure Unit)

namespace StoreCall

def error? {α : Type} : Except Failure α → Option String
  | .ok _ => none
  | .error e => some e.text

-- What is recorded of a call. A reading that failed gives nothing.
def operation : StoreCall → Operation
  | get key outcome => .get key (outcome.toOption.getD .null) (error? outcome)
  | set key value outcome => .set key value (error? outcome)
  | setMany source items outcome => .setMany source items (error? outcome)
  | delete source outcome => .delete source (error? outcome)

end StoreCall

variable {σ α β : Type}

-- The calls of what comes after some work, if it comes to that.
def Effect.onward (work : Effect σ α) (calls : α → σ → List StoreCall) (world : σ) :
    List StoreCall :=
  match work world with
  | (.ok a, after) => calls a after
  | (.error _, _) => []

-- What some work of a run does when nothing has been recorded yet.
def Session.alone (work : Effect (Session σ) α) : Effect σ α := fun world =>
  let (outcome, s) := work ⟨world, #[], [], 0⟩
  (outcome, s.world)

section

variable (env : Environment σ)

-- The calls of the data store that are made to find the value of a source. Those that expand the
-- tokens of a text are not among them.
def Source.calls : Source → σ → List StoreCall
  | .externalData key _, world => [.get key (env.store.get key world).1]
  | _, _ => []

-- One source after the other, up to the first that fails.
def sourceCalls : List Source → σ → List StoreCall
  | [], _ => []
  | source :: rest, world =>
    source.calls env world ++
      (alone (source.resolve env)).onward (fun _ => sourceCalls rest) world

def Action.calls : Action → σ → List StoreCall
  | .type _ value .. => value.calls env
  | .evaluate _ arguments => sourceCalls env arguments
  | _ => fun _ => []

-- The calls of the data store that an instruction makes for the values of its sources and to write
-- what it says.
def Instruction.calls : Instruction → σ → List StoreCall
  | .pageAction _ action => (action.expand env).onward (Action.calls env)
  | .condition (.textEquals source _) .. => source.calls env
  | .saveData key source => fun world =>
    source.calls env world ++ (alone (source.resolve env)).onward (fun text after =>
      [.set key (.ofText? text) (env.store.set key (.ofText? text) after).1]) world
  | .saveDataBatch source items => fun world =>
    sourceCalls env (items.map BatchItem.value) world ++
      (alone (resolveItems env items)).onward (fun values after =>
        [.setMany source values (env.store.setMany source values after).1]) world
  | .deleteData source => fun world => [.delete source (env.store.delete source world).1]
  | _ => fun _ => []

end

def StoreCall.entry (call : StoreCall) : Entry := .operation call.operation

-- Work that depends on the world only and records some calls behind what there is.
def Reports (work : Effect (Session σ) α) (calls : σ → List StoreCall) : Prop :=
  ∀ s, work s = ((alone work s.world).1, { s with
    world := (alone work s.world).2
    entries := s.entries ++ ((calls s.world).map StoreCall.entry).toArray })

theorem Reports.of_eq {work : Effect (Session σ) α} {calls others : σ → List StoreCall}
    (h : Reports work calls) (he : ∀ world, calls world = others world) : Reports work others := by
  rwa [show others = calls from (funext he).symm]

theorem reports_pure (a : α) : Reports (pure a : Effect (Session σ) α) fun _ => [] := fun s => by
  simp [alone]

theorem reports_throw (e : Failure) : Reports (throw e : Effect (Session σ) α) fun _ => [] :=
  fun s => by simp [alone]

theorem alone_inWorld (work : Effect σ α) : alone (inWorld work) = work := rfl

theorem reports_inWorld (work : Effect σ α) : Reports (inWorld work) fun _ => [] := fun s => by
  simp [alone_inWorld]

theorem reports_observe (work : StateM σ α) : Reports (observe work) fun _ => [] := reports_inWorld _

theorem reports_recordOperation (call : StoreCall) :
    Reports (σ := σ) (recordOperation call.operation) fun _ => [call] := fun s => by
  simp [alone, recordOperation, StoreCall.entry]

theorem reports_bind {work : Effect (Session σ) α} {next : α → Effect (Session σ) β}
    {calls : σ → List StoreCall} {others : α → σ → List StoreCall} (hw : Reports work calls)
    (hn : ∀ a, Reports (next a) (others a)) :
    Reports (work >>= next) fun world => calls world ++ (alone work).onward others world := by
  have halone : ∀ world, alone (work >>= next) world = match alone work world with
      | (.ok a, after) => alone (next a) after
      | (.error e, after) => (.error e, after) := by
    intro world
    have hs := hw ⟨world, #[], [], 0⟩
    rw [alone, Effect.bind_apply, hs]
    rcases alone work world with ⟨e | a, after⟩
    · rfl
    · dsimp only
      rw [hn a]
      rfl
  intro s
  rw [halone, Effect.bind_apply, hw s]
  simp only [Effect.onward]
  rcases alone work s.world with ⟨e | a, after⟩
  · simp
  · dsimp only
    rw [hn a]
    simp [Array.append_assoc]

-- The same where the first piece of work records nothing, or nothing is recorded after it.
theorem reports_bind_onward {work : Effect (Session σ) α} {next : α → Effect (Session σ) β}
    {others : α → σ → List StoreCall} (hw : Reports work fun _ => [])
    (hn : ∀ a, Reports (next a) (others a)) :
    Reports (work >>= next) ((alone work).onward others) :=
  (reports_bind hw hn).of_eq fun _ => List.nil_append _

theorem onward_nil (work : Effect σ α) (world : σ) : work.onward (fun _ _ => []) world = [] := by
  unfold Effect.onward
  split <;> rfl

theorem reports_bind_first {work : Effect (Session σ) α} {next : α → Effect (Session σ) β}
    {calls : σ → List StoreCall} (hw : Reports work calls)
    (hn : ∀ a, Reports (next a) fun _ => []) : Reports (work >>= next) calls :=
  (reports_bind hw hn).of_eq fun _ => by rw [onward_nil, List.append_nil]

-- A call that is recorded next, however it ends.
theorem reports_attempted {work : Effect σ α} {next : Except Failure α → Effect (Session σ) β}
    (call : Except Failure α → StoreCall)
    (hn : ∀ outcome, Reports (next outcome) fun _ => [call outcome]) :
    Reports (inWorld work.attempt >>= next) fun world => [call (work world).1] :=
  reports_bind_onward (reports_inWorld _) hn

section

variable (env : Environment σ)

theorem reports_resolveDatum (key : String) (default : Option String) :
    Reports (resolveDatum env key default) ((Source.externalData key default).calls env) := by
  have hrest : ∀ outcome : Except Failure Value, Reports (do
      recordOperation (.get key (outcome.toOption.getD .null) (StoreCall.error? outcome))
      if !(outcome.toOption.getD .null).isNull then
        return some (outcome.toOption.getD .null).display
      if default.isSome then return default
      observe (env.warn (missingDatum key))
      return none) fun _ => [.get key outcome] := by
    intro outcome
    refine reports_bind_first (reports_recordOperation (.get key outcome)) fun _ => ?_
    split
    · exact reports_pure _
    · split
      · exact reports_pure _
      · exact reports_bind_first (reports_observe _) fun _ => reports_pure _
  refine reports_attempted (.get key) fun outcome => ?_
  cases outcome with
  | ok v => exact hrest (.ok v)
  | error e => exact hrest (.error e)

theorem reports_readElement (kind : String) (page : Nat) (read : Effect σ (Option String)) :
    Reports (readElement env kind page read) fun _ => [] := by
  refine reports_bind_first (reports_inWorld _) fun outcome => ?_
  cases outcome with
  | ok text => exact reports_pure _
  | error e =>
    cases e with
    | noElement _ => exact reports_bind_first (reports_observe _) fun _ => reports_pure _
    | _ => exact reports_throw _

theorem reports_resolve (source : Source) : Reports (source.resolve env) (source.calls env) := by
  cases source with
  | literal text => exact reports_pure _
  | null => exact reports_pure _
  | currentTimestamp => exact reports_bind_first (reports_observe _) fun _ => reports_pure _
  | externalData key default => exact reports_resolveDatum env key default
  | elementText selectors page =>
    exact reports_bind_first (reports_inWorld _) fun _ => reports_readElement env _ _ _
  | elementAttribute selectors name page =>
    exact reports_bind_first (reports_inWorld _) fun _ => reports_readElement env _ _ _

theorem reports_resolveAll (sources : List Source) :
    Reports (resolveAll env sources) (sourceCalls env sources) := by
  induction sources with
  | nil => exact reports_pure _
  | cons source rest ih =>
    exact reports_bind (reports_resolve env source) fun _ => reports_bind_first ih fun _ => reports_pure _

theorem reports_resolveItems (items : List BatchItem) :
    Reports (resolveItems env items) (sourceCalls env (items.map BatchItem.value)) := by
  induction items with
  | nil => exact reports_pure _
  | cons item rest ih =>
    exact reports_bind (reports_resolve env item.value) fun _ =>
      reports_bind_first ih fun _ => reports_pure _

theorem reports_inputs (action : Action) : Reports (action.inputs env) (action.calls env) := by
  cases action with
  | type selectors value clears enters waits =>
    exact reports_bind_first (reports_resolve env value) fun _ => reports_pure _
  | evaluate code arguments =>
    exact reports_bind_first (reports_resolveAll env arguments) fun _ => reports_pure _
  | _ => exact reports_pure _

theorem reports_perform (action : Action) (page : Nat) :
    Reports (action.perform env page) ((action.expand env).onward (Action.calls env)) := by
  refine reports_bind_onward (reports_inWorld _) fun expanded => ?_
  refine reports_bind_first (reports_inputs env expanded) fun inputs => ?_
  refine reports_bind_first (reports_inWorld _) fun outcome => ?_
  cases outcome <;> exact reports_pure _

theorem reports_evaluate (test : Condition) (consequent : List Instruction)
    (alternative : Option (List Instruction)) :
    Reports (test.evaluate env) ((Instruction.condition test consequent alternative).calls env) := by
  cases test with
  | isVisible selectors page => exact reports_bind_first (reports_inWorld _) fun _ => reports_inWorld _
  | textEquals source matcher =>
    exact reports_bind_first (reports_resolve env source) fun _ => reports_inWorld _

theorem reports_saveData (opened : OpenEntry) (key : String) (source : Source) :
    Reports (act env opened (.saveData key source))
      ((Instruction.saveData key source).calls env) := by
  refine reports_bind (reports_resolve env source) fun text => ?_
  refine reports_attempted (.set key (.ofText? text)) fun outcome => ?_
  cases outcome with
  | ok _ => exact reports_recordOperation (.set key (.ofText? text) (.ok ()))
  | error e => exact reports_recordOperation (.set key (.ofText? text) (.error e))

theorem reports_saveDataBatch (opened : OpenEntry) (source : String) (items : List BatchItem) :
    Reports (act env opened (.saveDataBatch source items))
      ((Instruction.saveDataBatch source items).calls env) := by
  refine reports_bind (reports_resolveItems env items) fun values => ?_
  refine reports_attempted (.setMany source values) fun outcome => ?_
  cases outcome with
  | ok _ => exact reports_recordOperation (.setMany source values (.ok ()))
  | error e => exact reports_recordOperation (.setMany source values (.error e))

theorem reports_deleteData (opened : OpenEntry) (source : String) :
    Reports (act env opened (.deleteData source)) ((Instruction.deleteData source).calls env) := by
  refine reports_attempted (.delete source) fun outcome => ?_
  cases outcome with
  | ok _ => exact reports_recordOperation (.delete source (.ok ()))
  | error e => exact reports_recordOperation (.delete source (.error e))

end

end Gleaner
