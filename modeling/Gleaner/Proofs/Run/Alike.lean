import Gleaner.Proofs.Run.Reachable

namespace Gleaner

open Session

variable {σ τ α β : Type} {R : σ → τ → Prop}

-- Work that, begun in two states, comes to the same outcome in both and to states that are still
-- related.
def AlikeAt (R : σ → τ → Prop) (work : Effect σ α) (other : Effect τ α) (s : σ) (t : τ) : Prop :=
  (work s).1 = (other t).1 ∧ R (work s).2 (other t).2

-- The same from any two related states.
def Alike (R : σ → τ → Prop) (work : Effect σ α) (other : Effect τ α) : Prop :=
  ∀ s t, R s t → AlikeAt R work other s t

theorem alike_pure (a : α) : Alike R (pure a) (pure a) := fun _ _ h => ⟨rfl, h⟩

theorem alike_throw (e : Failure) : Alike R (throw e : Effect σ α) (throw e) :=
  fun _ _ h => ⟨rfl, h⟩

theorem AlikeAt.bind {work : Effect σ α} {other : Effect τ α} {next : α → Effect σ β}
    {after : α → Effect τ β} {s : σ} {t : τ} (hw : AlikeAt R work other s t)
    (hn : ∀ a u v, work s = (.ok a, u) → R u v → AlikeAt R (next a) (after a) u v) :
    AlikeAt R (work >>= next) (other >>= after) s t := by
  obtain ⟨houtcome, hR⟩ := hw
  rw [AlikeAt, Effect.bind_apply, Effect.bind_apply]
  rcases hs : work s with ⟨e | a, u⟩ <;> rcases ht : other t with ⟨e' | b, v⟩ <;>
    rw [hs, ht] at houtcome hR <;> cases houtcome
  · exact ⟨rfl, hR⟩
  · exact hn a u v hs hR

-- What follows may count on what the results of the first piece of work have in common.
theorem alike_bind_of {work : Effect σ α} {other : Effect τ α} {next : α → Effect σ β}
    {after : α → Effect τ β} {Q : α → Prop} (hw : Alike R work other)
    (hq : ∀ s a u, work s = (.ok a, u) → Q a) (hn : ∀ a, Q a → Alike R (next a) (after a)) :
    Alike R (work >>= next) (other >>= after) :=
  fun s t h => (hw s t h).bind fun a u v hs hR => hn a (hq s a u hs) u v hR

theorem alike_bind {work : Effect σ α} {other : Effect τ α} {next : α → Effect σ β}
    {after : α → Effect τ β} (hw : Alike R work other) (hn : ∀ a, Alike R (next a) (after a)) :
    Alike R (work >>= next) (other >>= after) :=
  alike_bind_of hw (fun _ _ _ _ => trivial) fun a _ => hn a

theorem alike_attempt {work : Effect σ α} {other : Effect τ α} (h : Alike R work other) :
    Alike R work.attempt other.attempt := fun s t hR =>
  ⟨congrArg Except.ok (h s t hR).1, (h s t hR).2⟩

theorem alike_ofExcept {ε : Type} (cause : ε → Failure) (outcome : Except ε α) :
    Alike R (Effect.ofExcept cause outcome) (Effect.ofExcept cause outcome) := by
  cases outcome with
  | ok a => exact alike_pure a
  | error e => exact alike_throw _

-- Work that cannot fail, one piece after the other.
theorem alike_lift_bind {work : StateM σ α} {other : StateM τ α} {next : α → StateM σ β}
    {after : α → StateM τ β}
    (hw : Alike R (monadLift work : Effect σ α) (monadLift other))
    (hn : ∀ a, Alike R (monadLift (next a) : Effect σ β) (monadLift (after a))) :
    Alike R (monadLift (work >>= next) : Effect σ β) (monadLift (other >>= after)) := by
  intro s t h
  obtain ⟨hresult, hR⟩ := hw s t h
  have hn := hn (work s).1 (work s).2 (other t).2 hR
  rw [AlikeAt, Effect.lift_apply, Effect.lift_apply, Except.ok.inj hresult] at hn
  rw [AlikeAt, Effect.lift_apply, Effect.lift_apply]
  change Except.ok (next (work s).1 (work s).2).1 = _ ∧ R (next (work s).1 (work s).2).2 _
  rwa [Except.ok.inj hresult]

-- Runs that are at the same point, with the same record, in related worlds.
structure Beside (R : σ → τ → Prop) (s : Session σ) (t : Session τ) : Prop where
  world : R s.world t.world
  entries : s.entries = t.entries
  frames : s.frames = t.frames
  steps : s.steps = t.steps

theorem alike_inWorld {work : Effect σ α} {other : Effect τ α} (h : Alike R work other) :
    Alike (Beside R) (inWorld work) (inWorld other) := fun s t hs =>
  ⟨(h s.world t.world hs.world).1,
    { hs with world := (h s.world t.world hs.world).2 }⟩

theorem alike_observe {work : StateM σ α} {other : StateM τ α}
    (h : Alike R (monadLift work : Effect σ α) (monadLift other)) :
    Alike (Beside R) (observe work) (observe other) := alike_inWorld h

theorem alike_record (e : Entry) : Alike (Beside R) (record e) (record e) := fun s t hs => by
  refine ⟨rfl, { hs with entries := ?_ }⟩
  rw [record_apply, record_apply, hs.entries]

theorem alike_amend (index : Nat) (change : Entry → Entry) :
    Alike (Beside R) (amend index change) (amend index change) := fun s t hs => by
  refine ⟨rfl, { hs with entries := ?_ }⟩
  rw [amend_apply, amend_apply, hs.entries]

theorem alike_setFrames (frames : List Frame) :
    Alike (Beside R) (setFrames frames) (setFrames frames) := fun _ _ hs =>
  ⟨rfl, { hs with frames := rfl }⟩

-- What is read of the states may decide what follows.
theorem alike_get {next : σ → Effect σ β} {after : τ → Effect τ β}
    (hn : ∀ s t, R s t → AlikeAt R (next s) (after t) s t) :
    Alike R (get >>= next) (get >>= after) := hn

theorem alike_countStep (limit : Option Int) :
    Alike (Beside R) (countStep limit) (countStep limit) := by
  intro s t hs
  cases limit with
  | none => exact ⟨rfl, { hs with steps := congrArg (· + 1) hs.steps }⟩
  | some most =>
    rw [AlikeAt, countStep_apply, countStep_apply, hs.steps]
    split
    · exact ⟨rfl, { hs with steps := rfl }⟩
    · exact ⟨rfl, { hs with steps := rfl }⟩

structure Pages.Alike (R : σ → τ → Prop) (pages : Pages σ) (others : Pages τ) : Prop where
  perform : ∀ page action value arguments, Gleaner.Alike R
    (pages.perform page action value arguments) (others.perform page action value arguments)
  isVisible : ∀ page selectors,
    Gleaner.Alike R (pages.isVisible page selectors) (others.isVisible page selectors)
  textOf : ∀ page selectors,
    Gleaner.Alike R (pages.textOf page selectors) (others.textOf page selectors)
  attributeOf : ∀ page selectors name, Gleaner.Alike R
    (pages.attributeOf page selectors name) (others.attributeOf page selectors name)
  address : ∀ page, Gleaner.Alike R (pages.address page) (others.address page)

-- Stores that are alike for what some instructions write.
structure DataStore.Alike (R : σ → τ → Prop) (P : Instruction → Prop) (store : DataStore σ)
    (other : DataStore τ) : Prop where
  get : ∀ key, Gleaner.Alike R (store.get key) (other.get key)
  set : ∀ key source value, P (.saveData key source) →
    Gleaner.Alike R (store.set key value) (other.set key value)
  setMany : ∀ source items values, P (.saveDataBatch source items) →
    values.map Prod.fst = items.map BatchItem.column →
    Gleaner.Alike R (store.setMany source values) (other.setMany source values)
  delete : ∀ source, P (.deleteData source) →
    Gleaner.Alike R (store.delete source) (other.delete source)

-- Environments that are alike, apart from whether the run is to stop or to wait.
structure Environment.Alike (R : σ → τ → Prop) (P : Instruction → Prop) (env : Environment σ)
    (other : Environment τ) : Prop where
  pages : env.pages.Alike R other.pages
  store : env.store.Alike R P other.store
  now : Gleaner.Alike R (monadLift env.now : Effect σ Int) (monadLift other.now)
  timer : Gleaner.Alike R (monadLift env.timer : Effect σ Seconds) (monadLift other.timer)
  draw : Gleaner.Alike R (monadLift env.draw : Effect σ Char) (monadLift other.draw)
  warn : ∀ message, Gleaner.Alike R (monadLift (env.warn message) : Effect σ Unit)
    (monadLift (other.warn message))

section

variable {P : Instruction → Prop} {env : Environment σ} {other : Environment τ}
  (h : env.Alike R P other)
include h

theorem alike_drawText (n : Nat) :
    Alike R (monadLift (Template.drawText env.templates n) : Effect σ (List Char))
      (monadLift (Template.drawText other.templates n)) := by
  induction n with
  | zero => exact alike_pure []
  | succ n ih =>
    exact alike_lift_bind h.draw fun c => alike_lift_bind ih fun cs => alike_pure (c :: cs)

theorem alike_addressText (property : Url.Property) (page : Nat) (address : Option String) :
    Alike R (Template.addressText env.templates property page address)
      (Template.addressText other.templates property page address) := by
  unfold Template.addressText
  split
  · exact alike_bind (h.warn _) fun _ => alike_pure _
  · exact alike_bind (h.warn _) fun _ => alike_pure _
  · exact alike_ofExcept _ _

theorem alike_resolve_token (token : Template.Token) :
    Alike R (Template.resolve env.templates token) (Template.resolve other.templates token) := by
  cases token with
  | datum key =>
    refine alike_bind (h.store.get key) fun v => ?_
    cases v <;> exact alike_pure _
  | random length => exact alike_bind (alike_drawText h length) fun _ => alike_pure _
  | address property page unreadable =>
    have hrest := alike_bind (h.pages.address page) (alike_addressText h property page)
    cases unreadable with
    | none => exact hrest
    | some shown => exact alike_bind (h.warn _) fun _ => hrest

theorem alike_expandChars (fuel : Nat) (text : List Char) :
    Alike R (Template.expandChars env.templates fuel text)
      (Template.expandChars other.templates fuel text) := by
  induction fuel generalizing text with
  | zero => exact alike_throw _
  | succ fuel ih =>
    rw [Template.expandChars, Template.expandChars]
    split
    · exact alike_pure _
    · refine alike_bind (alike_ofExcept _ _) fun token => ?_
      exact alike_bind (alike_resolve_token h token) fun _ => ih _

theorem alike_expand (text : String) : Alike R (env.expand text) (other.expand text) :=
  alike_bind (alike_expandChars h _ _) fun _ => alike_pure _

theorem alike_expandMatcher (m : TextMatcher) : Alike R (m.expand env) (m.expand other) := by
  cases m with
  | exactly s => exact alike_bind (alike_expand h s) fun _ => alike_pure _
  | containing p => exact alike_pure _

theorem alike_expandMatchers (ms : List (String × TextMatcher)) :
    Alike R (expandMatchers env ms) (expandMatchers other ms) := by
  induction ms with
  | nil => exact alike_pure _
  | cons m rest ih =>
    exact alike_bind (alike_expandMatcher h m.2) fun _ => alike_bind ih fun _ => alike_pure _

theorem alike_expandSelector (selector : Selector) :
    Alike R (selector.expand env) (selector.expand other) := by
  cases selector with
  | query q => exact alike_bind (alike_expand h q) fun _ => alike_pure _
  | tagName name => exact alike_pure _
  | textContent m => exact alike_bind (alike_expandMatcher h m) fun _ => alike_pure _
  | attributes ms => exact alike_bind (alike_expandMatchers h ms) fun _ => alike_pure _

theorem alike_expandSelectors (selectors : Selectors) :
    Alike R (selectors.expand env) (selectors.expand other) := by
  induction selectors with
  | nil => exact alike_pure _
  | cons selector rest ih =>
    exact alike_bind (alike_expandSelector h selector) fun _ =>
      alike_bind ih fun _ => alike_pure _

theorem alike_expandAction (action : Action) :
    Alike R (action.expand env) (action.expand other) := by
  cases action with
  | navigate url => exact alike_bind (alike_expand h url) fun _ => alike_pure _
  | click selectors waits =>
    exact alike_bind (alike_expandSelectors h selectors) fun _ => alike_pure _
  | type selectors value clears enters waits =>
    exact alike_bind (alike_expandSelectors h selectors) fun _ => alike_pure _
  | scrollToElement selectors =>
    exact alike_bind (alike_expandSelectors h selectors) fun _ => alike_pure _
  | _ => exact alike_pure _

theorem alike_resolveDatum (key : String) (default : Option String) :
    Alike (Beside R) (resolveDatum env key default) (resolveDatum other key default) := by
  have hrest : ∀ returned error, Alike (Beside R)
      (do
        recordOperation (.get key returned error)
        if !returned.isNull then return some returned.display
        if default.isSome then return default
        observe (env.warn (missingDatum key))
        return none)
      (do
        recordOperation (.get key returned error)
        if !returned.isNull then return some returned.display
        if default.isSome then return default
        observe (other.warn (missingDatum key))
        return none) := by
    intro returned error
    refine alike_bind (alike_record _) fun _ => ?_
    split
    · exact alike_pure _
    · split
      · exact alike_pure _
      · exact alike_bind (alike_observe (h.warn _)) fun _ => alike_pure _
  refine alike_bind (alike_inWorld (alike_attempt (h.store.get key))) fun outcome => ?_
  cases outcome with
  | ok v => exact hrest v none
  | error e => exact hrest .null (some e.text)

theorem alike_readElement (kind : String) (page : Nat) {read : Effect σ (Option String)}
    {reads : Effect τ (Option String)} (hr : Alike R read reads) :
    Alike (Beside R) (readElement env kind page read) (readElement other kind page reads) := by
  refine alike_bind (alike_inWorld (alike_attempt hr)) fun outcome => ?_
  cases outcome with
  | ok text => exact alike_pure _
  | error e =>
    cases e with
    | noElement _ => exact alike_bind (alike_observe (h.warn _)) fun _ => alike_pure _
    | _ => exact alike_throw _

theorem alike_resolve (source : Source) :
    Alike (Beside R) (source.resolve env) (source.resolve other) := by
  cases source with
  | literal text => exact alike_pure _
  | null => exact alike_pure _
  | currentTimestamp => exact alike_bind (alike_observe h.now) fun _ => alike_pure _
  | externalData key default => exact alike_resolveDatum h key default
  | elementText selectors page =>
    exact alike_bind (alike_inWorld (alike_expandSelectors h selectors)) fun _ =>
      alike_readElement h _ _ (h.pages.textOf _ _)
  | elementAttribute selectors name page =>
    exact alike_bind (alike_inWorld (alike_expandSelectors h selectors)) fun _ =>
      alike_readElement h _ _ (h.pages.attributeOf _ _ _)

theorem alike_resolveAll (sources : List Source) :
    Alike (Beside R) (resolveAll env sources) (resolveAll other sources) := by
  induction sources with
  | nil => exact alike_pure _
  | cons source rest ih =>
    exact alike_bind (alike_resolve h source) fun _ => alike_bind ih fun _ => alike_pure _

theorem alike_resolveItems (items : List BatchItem) :
    Alike (Beside R) (resolveItems env items) (resolveItems other items) := by
  induction items with
  | nil => exact alike_pure _
  | cons item rest ih =>
    exact alike_bind (alike_resolve h item.value) fun _ => alike_bind ih fun _ => alike_pure _

omit h in
-- The values of a batch are those of its columns, in order.
theorem resolveItems_columns {items : List BatchItem} {s t : Session σ}
    {values : List (String × Value)} (hs : resolveItems env items s = (.ok values, t)) :
    values.map Prod.fst = items.map BatchItem.column := by
  induction items generalizing s t values with
  | nil =>
    cases hs
    rfl
  | cons item rest ih =>
    obtain ⟨value, u, -, hs⟩ := Effect.bind_eq_ok hs
    obtain ⟨others, v, hrest, hs⟩ := Effect.bind_eq_ok hs
    cases hs
    rw [List.map_cons, List.map_cons, ih hrest]

theorem alike_evaluate (test : Condition) :
    Alike (Beside R) (test.evaluate env) (test.evaluate other) := by
  cases test with
  | isVisible selectors page =>
    exact alike_bind (alike_inWorld (alike_expandSelectors h selectors)) fun _ =>
      alike_inWorld (h.pages.isVisible _ _)
  | textEquals source matcher =>
    exact alike_bind (alike_resolve h source) fun _ => alike_inWorld (alike_ofExcept _ _)

theorem alike_inputs (action : Action) :
    Alike (Beside R) (action.inputs env) (action.inputs other) := by
  cases action with
  | type selectors value clears enters waits =>
    exact alike_bind (alike_resolve h value) fun _ => alike_pure _
  | evaluate code arguments =>
    exact alike_bind (alike_resolveAll h arguments) fun _ => alike_pure _
  | _ => exact alike_pure _

theorem alike_perform (action : Action) (page : Nat) :
    Alike (Beside R) (action.perform env page) (action.perform other page) := by
  refine alike_bind (alike_inWorld (alike_expandAction h action)) fun expanded => ?_
  refine alike_bind (alike_inputs h expanded) fun inputs => ?_
  refine alike_bind (alike_inWorld (alike_attempt (h.pages.perform _ _ _ _))) fun outcome => ?_
  cases outcome <;> exact alike_pure _

theorem alike_act (opened : OpenEntry) {i : Instruction} (hi : P i) :
    Alike (Beside R) (act env opened i) (act other opened i) := by
  cases i with
  | pageAction page action =>
    exact alike_bind (alike_perform h action page) fun _ => alike_amend _ _
  | saveData key source =>
    exact alike_bind (alike_resolve h source) fun _ =>
      alike_bind (alike_inWorld (alike_attempt (h.store.set _ _ _ hi))) fun _ => alike_record _
  | saveDataBatch source items =>
    refine alike_bind_of (alike_resolveItems h items) (fun _ _ _ => resolveItems_columns)
      fun values hv => ?_
    exact alike_bind (alike_inWorld (alike_attempt (h.store.setMany _ _ _ hi hv))) fun _ =>
      alike_record _
  | deleteData source =>
    exact alike_bind (alike_inWorld (alike_attempt (h.store.delete _ hi))) fun _ =>
      alike_record _
  | _ => exact alike_pure _

theorem alike_close (opened : OpenEntry) :
    Alike (Beside R) (close env opened) (close other opened) :=
  alike_bind (alike_inWorld (h.pages.address _)) fun _ =>
    alike_bind (alike_observe h.timer) fun _ => alike_amend _ _

theorem alike_closeAll (entries : List OpenEntry) :
    Alike (Beside R) (closeAll env entries) (closeAll other entries) := by
  induction entries with
  | nil => exact alike_pure _
  | cons opened rest ih => exact alike_bind (alike_close h opened) fun _ => ih

theorem alike_settle (entries : List OpenEntry) :
    Alike (Beside R) (settle env entries) (settle other entries) := by
  induction entries with
  | nil => exact alike_pure _
  | cons opened rest ih =>
    exact alike_bind ih fun _ => alike_bind (alike_observe h.timer) fun _ => alike_amend _ _

theorem alike_dispatch (opened : OpenEntry) {i : Instruction} (hi : P i) :
    Alike (Beside R) (dispatch env opened i) (dispatch other opened i) := by
  cases i with
  | condition test consequent alternative =>
    refine alike_bind ?_ fun branch => alike_get fun s t hs => ?_
    · exact alike_bind (alike_evaluate h test) fun _ =>
        alike_bind (alike_amend _ _) fun _ => alike_pure _
    · rw [hs.frames]
      exact alike_bind (alike_setFrames _) (fun _ => alike_pure _) s t hs
  | jump name =>
    refine alike_get fun s t hs => ?_
    rw [hs.frames]
    cases land? name t.frames with
    | none => exact alike_throw _ s t hs
    | some landing =>
      exact alike_bind (alike_setFrames _) (fun _ =>
        alike_bind (alike_closeAll h _) fun _ => alike_pure _) s t hs
  | _ => exact alike_bind (alike_act h opened hi) fun _ => alike_pure _

theorem alike_openEntry (i : Instruction) :
    Alike (Beside R) (openEntry env i) (openEntry other i) := by
  refine alike_bind (alike_inWorld (h.pages.address _)) fun address => ?_
  refine alike_bind (alike_observe h.timer) fun started => alike_get fun s t hs => ?_
  rw [hs.entries]
  exact alike_bind (alike_record _) (fun _ => alike_pure _) s t hs

theorem alike_execute {i : Instruction} (hi : P i) :
    Alike (Beside R) (execute env i) (execute other i) := by
  refine alike_bind (alike_openEntry h i) fun opened => ?_
  refine alike_bind (alike_attempt (alike_dispatch h opened hi)) fun outcome => ?_
  cases outcome with
  | ok keepsOpen =>
    cases keepsOpen with
    | true => exact alike_pure _
    | false => exact alike_close h opened
  | error e => exact alike_bind (alike_close h opened) fun _ => alike_throw _

-- Two runs whose checkpoints are alike take the same turn.
theorem alike_turn {limit : Option Int} {s : Session σ} {t : Session τ} (hs : Beside R s t)
    (hc : AlikeAt (Beside R) (checkpoint env) (checkpoint other) s t)
    (hP : ∀ f rest i, s.frames = f :: rest → f.instructions[f.next]? = some i → P i) :
    AlikeAt (Beside R) (turn env limit) (turn other limit) s t := by
  cases hf : s.frames with
  | nil =>
    rw [AlikeAt, turn_nil env limit s hf, turn_nil other limit t (hs.frames ▸ hf)]
    exact ⟨rfl, hs⟩
  | cons f rest =>
    have hf' : t.frames = f :: rest := hs.frames ▸ hf
    obtain ⟨goesOn, u, hu⟩ := checkpoint_ok env s
    obtain ⟨goesOn', v, hv⟩ := checkpoint_ok other t
    rw [AlikeAt, hu, hv] at hc
    obtain ⟨hgoes, huv⟩ := hc
    cases hgoes
    cases goesOn with
    | false =>
      rw [AlikeAt, turn_cancelled env limit hf hu, turn_cancelled other limit hf' hv]
      exact ⟨rfl, huv⟩
    | true =>
      cases hi : f.instructions[f.next]? with
      | none =>
        rw [AlikeAt, turn_leave env limit hf hu hi, turn_leave other limit hf' hv hi]
        exact alike_bind (alike_closeAll h _) (fun _ => alike_pure _) _ _
          { huv with frames := rfl }
      | some i =>
        rw [AlikeAt, turn_run env limit hf hu hi, turn_run other limit hf' hv hi]
        exact alike_bind (alike_countStep limit) (fun _ =>
          alike_bind (alike_execute h (hP f rest i hf hi)) fun _ => alike_pure _) _ _
          { huv with frames := rfl }

omit h in
theorem alike_checkpoint
    (hcontrol : Alike R (monadLift env.control : Effect σ Control) (monadLift other.control))
    (hawait : ∀ entries, Alike R (monadLift (env.await entries) : Effect σ Unit)
      (monadLift (other.await entries))) :
    Alike (Beside R) (checkpoint env) (checkpoint other) := by
  refine alike_bind (alike_observe hcontrol) fun control => ?_
  have hlast : Alike (Beside R) (do return !(← observe env.control).cancelled)
      (do return !(← observe other.control).cancelled) :=
    alike_bind (alike_observe hcontrol) fun _ => alike_pure _
  cases control.paused with
  | false => exact hlast
  | true =>
    refine alike_get fun s t hs => ?_
    rw [hs.entries]
    exact alike_bind (alike_observe (hawait _)) (fun _ => hlast) s t hs

-- Two runs that are at the same point go the same way to the end, if the instructions they come
-- to are among those for which their environments are alike.
theorem alike_loop {limit : Option Int} (Q : List Frame → Prop)
    (hc : Alike (Beside R) (checkpoint env) (checkpoint other))
    (hmoves : ∀ fs gs, Moves fs gs → Q fs → Q gs)
    (hP : ∀ f rest i, Q (f :: rest) → f.instructions[f.next]? = some i → P i) (n : Nat)
    {s : Session σ} {t : Session τ} (hs : Beside R s t) (hQ : Q s.frames) :
    AlikeAt (Beside R) (loop env limit n) (loop other limit n) s t := by
  induction n generalizing s t with
  | zero => exact ⟨rfl, hs⟩
  | succ n ih =>
    have hturn : AlikeAt (Beside R) (turn env limit) (turn other limit) s t :=
      alike_turn h hs (hc s t hs) fun f rest i hf hi => hP f rest i (hf ▸ hQ) hi
    rw [AlikeAt, loop_succ, loop_succ]
    rcases hu : turn env limit s with ⟨e | _ | ending, u⟩ <;>
      rcases hv : turn other limit t with ⟨e' | _ | ending', v⟩ <;>
      rw [AlikeAt, hu, hv] at hturn <;> obtain ⟨houtcome, huv⟩ := hturn <;> cases houtcome
    · exact ⟨rfl, huv⟩
    · exact ih huv (hmoves _ _ (turn_moves hu) hQ)
    · exact ⟨rfl, huv⟩

theorem alike_conclude (started : Seconds) (inside : List OpenEntry)
    (outcome : Except Failure Ending) :
    Alike (Beside R) (conclude env started inside outcome)
      (conclude other started inside outcome) := by
  have hfail : ∀ e : Failure, Alike (Beside R)
      (do settle env inside; record (.error e.message (elapsed started (← observe env.timer))))
      (do
        settle other inside
        record (.error e.message (elapsed started (← observe other.timer)))) := fun e =>
    alike_bind (alike_settle h inside) fun _ =>
      alike_bind (alike_observe h.timer) fun _ => alike_record _
  cases outcome with
  | ok ending =>
    cases ending with
    | completed => exact alike_bind (alike_observe h.timer) fun _ => alike_record _
    | cancelled => exact alike_settle h inside
  | error e =>
    cases e with
    | unfinished => exact alike_throw _
    | _ => exact hfail _

end

end Gleaner
