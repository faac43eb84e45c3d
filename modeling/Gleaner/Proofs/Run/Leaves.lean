import Gleaner.Proofs.Run.Effects
import Gleaner.Run.Execution

namespace Gleaner

open Session

variable {σ τ α β : Type} {view : σ → τ}

-- Work that leaves what is seen of a state as it was, however it ends.
def Leaves (view : σ → τ) (work : Effect σ α) : Prop := ∀ s, view (work s).2 = view s

-- The same of work that cannot fail.
def Passes (view : σ → τ) (work : StateM σ α) : Prop := ∀ s, view (work s).2 = view s

theorem Leaves.view_eq {work : Effect σ α} (h : Leaves view work) {s t : σ}
    {outcome : Except Failure α} (hw : work s = (outcome, t)) : view t = view s := by
  rw [← h s, hw]

theorem passes_bind {work : StateM σ α} {next : α → StateM σ β} (hw : Passes view work)
    (hn : ∀ a, Passes view (next a)) : Passes view (work >>= next) := by
  intro s
  exact (hn (work s).1 (work s).2).trans (hw s)

theorem passes_pure (a : α) : Passes view (pure a : StateM σ α) := fun _ => rfl

theorem leaves_pure (a : α) : Leaves view (pure a : Effect σ α) := fun _ => rfl

theorem leaves_throw (e : Failure) : Leaves view (throw e : Effect σ α) := fun _ => rfl

theorem leaves_get : Leaves view (get : Effect σ σ) := fun _ => rfl

-- What follows may count on what the results of the first piece of work have in common.
theorem leaves_bind_of {work : Effect σ α} {next : α → Effect σ β} {Q : α → Prop}
    (hw : Leaves view work) (hq : ∀ s a t, work s = (.ok a, t) → Q a)
    (hn : ∀ a, Q a → Leaves view (next a)) : Leaves view (work >>= next) := by
  intro s
  have hs := hw s
  rw [Effect.bind_apply]
  rcases hr : work s with ⟨e | a, t⟩
  · rwa [hr] at hs
  · rw [hr] at hs
    exact (hn a (hq s a t hr) t).trans hs

theorem leaves_bind {work : Effect σ α} {next : α → Effect σ β} (hw : Leaves view work)
    (hn : ∀ a, Leaves view (next a)) : Leaves view (work >>= next) :=
  leaves_bind_of hw (fun _ _ _ _ => trivial) fun a _ => hn a

theorem leaves_attempt {work : Effect σ α} (h : Leaves view work) : Leaves view work.attempt := h

theorem leaves_lift {work : StateM σ α} (h : Passes view work) :
    Leaves view (monadLift work : Effect σ α) := h

theorem leaves_map {work : Effect σ α} (f : α → β) (h : Leaves view work) :
    Leaves view (f <$> work) := leaves_bind h fun _ => leaves_pure _

theorem leaves_ofExcept {ε : Type} (cause : ε → Failure) (outcome : Except ε α) :
    Leaves view (Effect.ofExcept cause outcome) := by
  cases outcome with
  | ok a => exact leaves_pure a
  | error e => exact leaves_throw _

theorem leaves_inWorld {work : Effect σ α} (h : Leaves view work) :
    Leaves (view ∘ world) (inWorld work) := fun s => h s.world

theorem leaves_observe {work : StateM σ α} (h : Passes view work) :
    Leaves (view ∘ world) (observe work) := fun s => h s.world

theorem leaves_record (e : Entry) : Leaves (view ∘ world) (record e) := fun _ => rfl

theorem leaves_amend (index : Nat) (change : Entry → Entry) :
    Leaves (view ∘ world) (amend index change) := fun _ => rfl

theorem leaves_setFrames (frames : List Frame) : Leaves (view ∘ world) (setFrames frames) :=
  fun _ => rfl

structure Pages.Leaves (pages : Pages σ) (view : σ → τ) : Prop where
  perform : ∀ page action value arguments,
    Gleaner.Leaves view (pages.perform page action value arguments)
  isVisible : ∀ page selectors, Gleaner.Leaves view (pages.isVisible page selectors)
  textOf : ∀ page selectors, Gleaner.Leaves view (pages.textOf page selectors)
  attributeOf : ∀ page selectors name,
    Gleaner.Leaves view (pages.attributeOf page selectors name)
  address : ∀ page, Gleaner.Leaves view (pages.address page)

structure DataStore.Leaves (store : DataStore σ) (view : σ → τ) : Prop where
  get : ∀ key, Gleaner.Leaves view (store.get key)
  set : ∀ key value, Gleaner.Leaves view (store.set key value)
  setMany : ∀ source values, Gleaner.Leaves view (store.setMany source values)
  delete : ∀ source, Gleaner.Leaves view (store.delete source)

structure Warehouse.Leaves (warehouse : Warehouse σ) (view : σ → τ) : Prop where
  rows : ∀ source filter, Gleaner.Leaves view (warehouse.rows source filter)
  boundTo : ∀ context, (warehouse.boundTo context).Leaves view

structure Environment.Leaves (env : Environment σ) (view : σ → τ) : Prop where
  pages : env.pages.Leaves view
  store : env.store.Leaves view
  now : Passes view env.now
  timer : Passes view env.timer
  draw : Passes view env.draw
  warn : ∀ message, Passes view (env.warn message)
  control : Passes view env.control
  setControl : ∀ control, Passes view (env.setControl control)
  await : ∀ entries, Passes view (env.await entries)

-- The same of what an environment is asked for to expand texts, to find the values of sources and
-- to test conditions.
structure Environment.LeavesReading (env : Environment σ) (view : σ → τ) : Prop where
  isVisible : ∀ page selectors, Gleaner.Leaves view (env.pages.isVisible page selectors)
  textOf : ∀ page selectors, Gleaner.Leaves view (env.pages.textOf page selectors)
  attributeOf : ∀ page selectors name,
    Gleaner.Leaves view (env.pages.attributeOf page selectors name)
  address : ∀ page, Gleaner.Leaves view (env.pages.address page)
  get : ∀ key, Gleaner.Leaves view (env.store.get key)
  now : Passes view env.now
  draw : Passes view env.draw
  warn : ∀ message, Passes view (env.warn message)

theorem Environment.Leaves.reading {env : Environment σ} (h : env.Leaves view) :
    env.LeavesReading view where
  isVisible := h.pages.isVisible
  textOf := h.pages.textOf
  attributeOf := h.pages.attributeOf
  address := h.pages.address
  get := h.store.get
  now := h.now
  draw := h.draw
  warn := h.warn

section

variable {env : Environment σ} (h : env.LeavesReading view)
include h

theorem passes_drawText (n : Nat) : Passes view (Template.drawText env.templates n) := by
  induction n with
  | zero => exact passes_pure _
  | succ n ih => exact passes_bind h.draw fun _ => passes_bind ih fun _ => passes_pure _

theorem leaves_addressText (property : Url.Property) (page : Nat) (address : Option String) :
    Leaves view (Template.addressText env.templates property page address) := by
  unfold Template.addressText
  split
  · exact leaves_bind (leaves_lift (h.warn _)) fun _ => leaves_pure _
  · exact leaves_bind (leaves_lift (h.warn _)) fun _ => leaves_pure _
  · exact leaves_ofExcept _ _

theorem leaves_resolve_token (token : Template.Token) :
    Leaves view (Template.resolve env.templates token) := by
  cases token with
  | datum key =>
    refine leaves_bind (h.get key) fun v => ?_
    cases v <;> exact leaves_pure _
  | random length => exact leaves_bind (leaves_lift (passes_drawText h length)) fun _ => leaves_pure _
  | address property page unreadable =>
    have hrest := leaves_bind (h.address page) (leaves_addressText h property page)
    cases unreadable with
    | none => exact hrest
    | some shown => exact leaves_bind (leaves_lift (h.warn _)) fun _ => hrest

theorem leaves_expandChars (fuel : Nat) (text : List Char) :
    Leaves view (Template.expandChars env.templates fuel text) := by
  induction fuel generalizing text with
  | zero => exact leaves_throw _
  | succ fuel ih =>
    rw [Template.expandChars]
    split
    · exact leaves_pure _
    · refine leaves_bind (leaves_ofExcept _ _) fun token => ?_
      exact leaves_bind (leaves_resolve_token h token) fun _ => ih _

theorem leaves_expand (text : String) : Leaves view (env.expand text) :=
  leaves_bind (leaves_expandChars h _ _) fun _ => leaves_pure _

theorem leaves_expandMatcher (m : TextMatcher) : Leaves view (m.expand env) := by
  cases m with
  | exactly s => exact leaves_bind (leaves_expand h s) fun _ => leaves_pure _
  | containing p => exact leaves_pure _

theorem leaves_expandMatchers (ms : List (String × TextMatcher)) :
    Leaves view (expandMatchers env ms) := by
  induction ms with
  | nil => exact leaves_pure _
  | cons m rest ih =>
    exact leaves_bind (leaves_expandMatcher h m.2) fun _ => leaves_bind ih fun _ => leaves_pure _

theorem leaves_expandSelector (selector : Selector) : Leaves view (selector.expand env) := by
  cases selector with
  | query q => exact leaves_bind (leaves_expand h q) fun _ => leaves_pure _
  | tagName name => exact leaves_pure _
  | textContent m => exact leaves_bind (leaves_expandMatcher h m) fun _ => leaves_pure _
  | attributes ms => exact leaves_bind (leaves_expandMatchers h ms) fun _ => leaves_pure _

theorem leaves_expandSelectors (selectors : Selectors) : Leaves view (selectors.expand env) := by
  induction selectors with
  | nil => exact leaves_pure _
  | cons selector rest ih =>
    exact leaves_bind (leaves_expandSelector h selector) fun _ =>
      leaves_bind ih fun _ => leaves_pure _

theorem leaves_expandAction (action : Action) : Leaves view (action.expand env) := by
  cases action with
  | navigate url => exact leaves_bind (leaves_expand h url) fun _ => leaves_pure _
  | click selectors waits =>
    exact leaves_bind (leaves_expandSelectors h selectors) fun _ => leaves_pure _
  | type selectors value clears enters waits =>
    exact leaves_bind (leaves_expandSelectors h selectors) fun _ => leaves_pure _
  | scrollToElement selectors =>
    exact leaves_bind (leaves_expandSelectors h selectors) fun _ => leaves_pure _
  | _ => exact leaves_pure _

theorem leaves_resolveDatum (key : String) (default : Option String) :
    Leaves (view ∘ world) (resolveDatum env key default) := by
  have hrest : ∀ returned error, Leaves (view ∘ world) (do
      recordOperation (.get key returned error)
      if !returned.isNull then return some returned.display
      if default.isSome then return default
      observe (env.warn (missingDatum key))
      return none) := by
    intro returned error
    refine leaves_bind (leaves_record _) fun _ => ?_
    split
    · exact leaves_pure _
    · split
      · exact leaves_pure _
      · exact leaves_bind (leaves_observe (h.warn _)) fun _ => leaves_pure _
  refine leaves_bind (leaves_inWorld (leaves_attempt (h.get key))) fun outcome => ?_
  cases outcome with
  | ok v => exact hrest v none
  | error e => exact hrest .null (some e.text)

theorem leaves_readElement (kind : String) (page : Nat) {read : Effect σ (Option String)}
    (hr : Leaves view read) : Leaves (view ∘ world) (readElement env kind page read) := by
  refine leaves_bind (leaves_inWorld (leaves_attempt hr)) fun outcome => ?_
  cases outcome with
  | ok text => exact leaves_pure _
  | error e =>
    cases e with
    | noElement _ => exact leaves_bind (leaves_observe (h.warn _)) fun _ => leaves_pure _
    | _ => exact leaves_throw _

theorem leaves_resolve (source : Source) : Leaves (view ∘ world) (source.resolve env) := by
  cases source with
  | literal text => exact leaves_pure _
  | null => exact leaves_pure _
  | currentTimestamp => exact leaves_bind (leaves_observe h.now) fun _ => leaves_pure _
  | externalData key default => exact leaves_resolveDatum h key default
  | elementText selectors page =>
    exact leaves_bind (leaves_inWorld (leaves_expandSelectors h selectors)) fun _ =>
      leaves_readElement h _ _ (h.textOf _ _)
  | elementAttribute selectors name page =>
    exact leaves_bind (leaves_inWorld (leaves_expandSelectors h selectors)) fun _ =>
      leaves_readElement h _ _ (h.attributeOf _ _ _)

theorem leaves_resolveAll (sources : List Source) :
    Leaves (view ∘ world) (resolveAll env sources) := by
  induction sources with
  | nil => exact leaves_pure _
  | cons source rest ih =>
    exact leaves_bind (leaves_resolve h source) fun _ => leaves_bind ih fun _ => leaves_pure _

theorem leaves_resolveItems (items : List BatchItem) :
    Leaves (view ∘ world) (resolveItems env items) := by
  induction items with
  | nil => exact leaves_pure _
  | cons item rest ih =>
    exact leaves_bind (leaves_resolve h item.value) fun _ => leaves_bind ih fun _ => leaves_pure _

theorem leaves_evaluate (test : Condition) : Leaves (view ∘ world) (test.evaluate env) := by
  cases test with
  | isVisible selectors page =>
    exact leaves_bind (leaves_inWorld (leaves_expandSelectors h selectors)) fun _ =>
      leaves_inWorld (h.isVisible _ _)
  | textEquals source matcher =>
    exact leaves_bind (leaves_resolve h source) fun _ => leaves_inWorld (leaves_ofExcept _ _)

theorem leaves_inputs (action : Action) : Leaves (view ∘ world) (action.inputs env) := by
  cases action with
  | type selectors value clears enters waits =>
    exact leaves_bind (leaves_resolve h value) fun _ => leaves_pure _
  | evaluate code arguments =>
    exact leaves_bind (leaves_resolveAll h arguments) fun _ => leaves_pure _
  | _ => exact leaves_pure _

theorem leaves_perform {page : Nat}
    (hp : ∀ action value arguments, Leaves view (env.pages.perform page action value arguments))
    (action : Action) : Leaves (view ∘ world) (action.perform env page) := by
  refine leaves_bind (leaves_inWorld (leaves_expandAction h action)) fun expanded => ?_
  refine leaves_bind (leaves_inputs h expanded) fun inputs => ?_
  refine leaves_bind (leaves_inWorld (leaves_attempt (hp _ _ _))) fun outcome => ?_
  cases outcome <;> exact leaves_pure _

-- An instruction leaves alone what its own action and the store leave alone.
theorem leaves_act (hs : env.store.Leaves view) (opened : OpenEntry) {i : Instruction}
    (hp : ∀ page action, i = .pageAction page action → ∀ expanded value arguments,
      Leaves view (env.pages.perform page expanded value arguments)) :
    Leaves (view ∘ world) (act env opened i) := by
  cases i with
  | pageAction page action =>
    exact leaves_bind (leaves_perform h (hp page action rfl) action) fun _ => leaves_amend _ _
  | saveData key source =>
    exact leaves_bind (leaves_resolve h source) fun _ =>
      leaves_bind (leaves_inWorld (leaves_attempt (hs.set _ _))) fun _ => leaves_record _
  | saveDataBatch source items =>
    exact leaves_bind (leaves_resolveItems h items) fun _ =>
      leaves_bind (leaves_inWorld (leaves_attempt (hs.setMany _ _))) fun _ => leaves_record _
  | deleteData source =>
    exact leaves_bind (leaves_inWorld (leaves_attempt (hs.delete _))) fun _ =>
      leaves_record _
  | _ => exact leaves_pure _

theorem leaves_chooseBranch (opened : OpenEntry) (test : Condition) (consequent : List Instruction)
    (alternative : Option (List Instruction)) :
    Leaves (view ∘ world) (chooseBranch env opened test consequent alternative) :=
  leaves_bind (leaves_evaluate h test) fun _ =>
    leaves_bind (leaves_amend _ _) fun _ => leaves_pure _

theorem leaves_close (htimer : Passes view env.timer) (opened : OpenEntry) :
    Leaves (view ∘ world) (close env opened) :=
  leaves_bind (leaves_inWorld (h.address _)) fun _ =>
    leaves_bind (leaves_observe htimer) fun _ => leaves_amend _ _

theorem leaves_closeAll (htimer : Passes view env.timer) (entries : List OpenEntry) :
    Leaves (view ∘ world) (closeAll env entries) := by
  induction entries with
  | nil => exact leaves_pure _
  | cons opened rest ih => exact leaves_bind (leaves_close h htimer opened) fun _ => ih

omit h in
theorem leaves_settle (htimer : Passes view env.timer) (entries : List OpenEntry) :
    Leaves (view ∘ world) (settle env entries) := by
  induction entries with
  | nil => exact leaves_pure _
  | cons opened rest ih =>
    exact leaves_bind ih fun _ => leaves_bind (leaves_observe htimer) fun _ => leaves_amend _ _

theorem leaves_dispatch (hs : env.store.Leaves view) (htimer : Passes view env.timer)
    (opened : OpenEntry) {i : Instruction}
    (hp : ∀ page action, i = .pageAction page action → ∀ expanded value arguments,
      Leaves view (env.pages.perform page expanded value arguments)) :
    Leaves (view ∘ world) (dispatch env opened i) := by
  cases i with
  | condition test consequent alternative =>
    refine leaves_bind (leaves_chooseBranch h opened _ _ _) fun branch => ?_
    exact leaves_bind leaves_get fun _ => leaves_bind (leaves_setFrames _) fun _ => leaves_pure _
  | jump name =>
    refine leaves_bind leaves_get fun s => ?_
    cases land? name s.frames with
    | none => exact leaves_throw _
    | some landing =>
      exact leaves_bind (leaves_setFrames _) fun _ =>
        leaves_bind (leaves_closeAll h htimer _) fun _ => leaves_pure _
  | _ => exact leaves_bind (leaves_act h hs opened hp) fun _ => leaves_pure _

theorem leaves_openEntry (htimer : Passes view env.timer) (i : Instruction) :
    Leaves (view ∘ world) (openEntry env i) := by
  refine leaves_bind (leaves_inWorld (h.address _)) fun _ => ?_
  refine leaves_bind (leaves_observe htimer) fun _ => ?_
  refine leaves_bind leaves_get fun _ => ?_
  exact leaves_bind (leaves_record _) fun _ => leaves_pure _

theorem leaves_execute (hs : env.store.Leaves view) (htimer : Passes view env.timer)
    {i : Instruction}
    (hp : ∀ page action, i = .pageAction page action → ∀ expanded value arguments,
      Leaves view (env.pages.perform page expanded value arguments)) :
    Leaves (view ∘ world) (execute env i) := by
  refine leaves_bind (leaves_openEntry h htimer i) fun opened => ?_
  refine leaves_bind (leaves_attempt (leaves_dispatch h hs htimer opened hp)) fun outcome => ?_
  cases outcome with
  | ok keepsOpen =>
    cases keepsOpen with
    | true => exact leaves_pure _
    | false => exact leaves_close h htimer opened
  | error e => exact leaves_bind (leaves_close h htimer opened) fun _ => leaves_throw _

end

section

variable {env : Environment σ} (h : env.Leaves view)
include h

omit h in
theorem leaves_checkpoint (hcontrol : Passes view env.control)
    (hawait : ∀ entries, Passes view (env.await entries)) :
    Leaves (view ∘ world) (checkpoint env) := by
  have hlast : Leaves (view ∘ world) (do return !(← observe env.control).cancelled) :=
    leaves_bind (leaves_observe hcontrol) fun _ => leaves_pure _
  refine leaves_bind (leaves_observe hcontrol) fun control => ?_
  cases control.paused with
  | false => exact hlast
  | true =>
    exact leaves_bind leaves_get fun _ =>
      leaves_bind (leaves_observe (hawait _)) fun _ => hlast

omit h in
theorem leaves_countStep (limit : Option Int) :
    Leaves (view ∘ world) (countStep (σ := σ) limit) := by
  cases limit with
  | none => exact fun _ => rfl
  | some most =>
    refine leaves_bind (fun _ => rfl) fun _ => leaves_bind leaves_get fun _ => ?_
    split
    · exact leaves_throw _
    · exact leaves_pure _

theorem leaves_turn (limit : Option Int) : Leaves (view ∘ world) (turn env limit) := by
  refine leaves_bind leaves_get fun s => ?_
  cases s.frames with
  | nil => exact leaves_pure _
  | cons f rest =>
    refine leaves_bind (leaves_checkpoint h.control h.await) fun goesOn => ?_
    cases goesOn with
    | false => exact leaves_pure _
    | true =>
      cases f.instructions[f.next]? with
      | none =>
        exact leaves_bind (leaves_setFrames _) fun _ =>
          leaves_bind (leaves_closeAll h.reading h.timer _) fun _ => leaves_pure _
      | some i =>
        have hrun : Leaves (view ∘ world) (execute env i) :=
          leaves_execute h.reading h.store h.timer fun _ _ _ => h.pages.perform _
        exact leaves_bind (leaves_setFrames _) fun _ =>
          leaves_bind (leaves_countStep limit) fun _ => leaves_bind hrun fun _ => leaves_pure _

theorem leaves_loop (limit : Option Int) (fuel : Nat) :
    Leaves (view ∘ world) (loop env limit fuel) := by
  induction fuel with
  | zero => exact leaves_throw _
  | succ fuel ih =>
    refine leaves_bind (leaves_turn h limit) fun ending => ?_
    cases ending with
    | some ending => exact leaves_pure _
    | none => exact ih

omit h in
-- Only the timer is read when the lists have ended.
theorem leaves_conclude (htimer : Passes view env.timer) (started : Seconds)
    (inside : List OpenEntry) (outcome : Except Failure Ending) :
    Leaves (view ∘ world) (conclude env started inside outcome) := by
  have hfail : ∀ e : Failure, Leaves (view ∘ world) (do
      settle env inside
      record (.error e.message (elapsed started (← observe env.timer)))) := fun e =>
    leaves_bind (leaves_settle htimer inside) fun _ =>
      leaves_bind (leaves_observe htimer) fun _ => leaves_record _
  cases outcome with
  | ok ending =>
    cases ending with
    | completed => exact leaves_bind (leaves_observe htimer) fun _ => leaves_record _
    | cancelled => exact leaves_settle htimer inside
  | error e =>
    cases e with
    | unfinished => exact leaves_throw _
    | _ => exact hfail _

-- A run leaves alone whatever its environment leaves alone.
theorem leaves_run (limit : Option Int) (fuel : Nat) (script : List Instruction)
    (entries : Array Entry) : Leaves view (run env limit fuel script entries) := by
  intro world
  have hstart : Passes view (do env.setControl (← env.control).restart) :=
    passes_bind h.control fun _ => h.setControl _
  have hwork : Leaves (view ∘ Session.world) (do
      observe (do env.setControl (← env.control).restart)
      let started ← observe env.timer
      let outcome ← (loop env limit (turnLimit limit fuel)).attempt
      conclude env started (openEntries (← get).frames) outcome) :=
    leaves_bind (leaves_observe hstart) fun _ =>
      leaves_bind (leaves_observe h.timer) fun _ =>
        leaves_bind (leaves_attempt (leaves_loop h limit _)) fun _ =>
          leaves_bind leaves_get fun _ => leaves_conclude h.timer _ _ _
  exact hwork ⟨world, entries, [⟨script, 0, none⟩], 0⟩

end

section

variable {warehouse : Warehouse σ} (h : warehouse.Leaves view)
include h

theorem leaves_setContexts (it : ExecutionIterator) : Leaves view (it.setContexts warehouse) :=
  leaves_bind (leaves_ofExcept _ _) fun _ => leaves_bind (h.rows _ _) fun _ => leaves_pure _

theorem leaves_contexts (it : ExecutionIterator) : Leaves view (it.contexts warehouse) := by
  cases it with
  | range source identifier span => exact leaves_pure _
  | _ => exact leaves_setContexts h _

theorem leaves_preview (it : ExecutionIterator) (limit : Int) :
    Leaves view (it.preview warehouse limit) := by
  unfold ExecutionIterator.preview
  split
  · exact leaves_pure _
  · cases it with
    | range source identifier span => exact leaves_pure _
    | _ => exact leaves_bind (leaves_setContexts h _) fun _ => leaves_pure _

end

structure Host.Leaves (host : Host σ) (view : σ → τ) : Prop where
  warehouse : host.warehouse.Leaves view
  environment : ∀ context, (host.environment (host.warehouse.boundTo context)).Leaves view

section

variable {host : Host σ} (h : host.Leaves view)
include h

theorem leaves_runOnce (limit : Option Int) (script : List Instruction) (number : Nat)
    (context : Option IterationContext) : Leaves view (host.runOnce limit script number context) := by
  have henv := h.environment context
  refine leaves_bind (leaves_run henv _ _ _ _) fun entries => ?_
  dsimp only
  split
  case' isTrue => refine leaves_bind (leaves_lift (henv.warn _)) fun _ => ?_
  all_goals
    refine leaves_bind (leaves_lift henv.now) fun now => ?_
    cases DateTime.ofEpochMillis? now with
    | some finishedAt => exact leaves_pure _
    | none => exact leaves_throw _

theorem leaves_runAll (limit : Option Int) (script : List Instruction) (number : Nat)
    (contexts : List (Option IterationContext)) :
    Leaves view (host.runAll limit script number contexts) := by
  induction contexts generalizing number with
  | nil => exact leaves_pure _
  | cons context rest ih =>
    exact leaves_bind (leaves_runOnce h limit script number context) fun _ =>
      leaves_bind (ih _) fun _ => leaves_pure _

theorem leaves_hostExecute (limit : Option Int) (script : List Instruction)
    (iterator : Option ExecutionIterator) : Leaves view (host.execute limit script iterator) := by
  cases iterator with
  | none => exact leaves_bind (leaves_pure _) fun _ => leaves_runAll h _ _ _ _
  | some it =>
    exact leaves_bind (leaves_map _ (leaves_contexts h.warehouse it)) fun _ =>
      leaves_runAll h _ _ _ _

end

end Gleaner
