import Gleaner.Proofs.Run.Effects

namespace Gleaner

open Session

variable {σ α β : Type}

-- Work that neither looks at the lists being run and the count of steps nor changes them.
def Confined (work : Effect (Session σ) α) : Prop :=
  ∀ s frames steps, work { s with frames, steps } =
    ((work s).1, { (work s).2 with frames, steps })

theorem Confined.under {work : Effect (Session σ) α} (h : Confined work) {s t : Session σ}
    {outcome : Except Failure α} (hs : work s = (outcome, t)) (frames : List Frame) :
    work { s with frames } = (outcome, { t with frames }) := by
  have hself := h s s.frames s.steps
  have hsteps : t.steps = s.steps := by
    have := congrArg (·.2.steps) hself
    rwa [hs] at this
  rw [h s frames s.steps, hs, hsteps]

theorem Confined.steps_eq {work : Effect (Session σ) α} (h : Confined work) {s t : Session σ}
    {outcome : Except Failure α} (hs : work s = (outcome, t)) : t.steps = s.steps := by
  have hself := congrArg (·.2.steps) (h s s.frames s.steps)
  rwa [hs] at hself

theorem Confined.frames_eq {work : Effect (Session σ) α} (h : Confined work) {s t : Session σ}
    {outcome : Except Failure α} (hs : work s = (outcome, t)) : t.frames = s.frames := by
  have hself := congrArg (·.2.frames) (h s s.frames s.steps)
  rwa [hs] at hself

theorem confined_pure (a : α) : Confined (pure a : Effect (Session σ) α) := fun _ _ _ => rfl

theorem confined_throw (e : Failure) : Confined (throw e : Effect (Session σ) α) :=
  fun _ _ _ => rfl

theorem confined_bind {work : Effect (Session σ) α} {next : α → Effect (Session σ) β}
    (hw : Confined work) (hn : ∀ a, Confined (next a)) : Confined (work >>= next) := by
  intro s frames steps
  simp only [Effect.bind_apply, hw s frames steps]
  rcases work s with ⟨a | a, t⟩
  · rfl
  · exact hn a t frames steps

-- What is read of the session may decide what follows as long as it is the world and the entries.
theorem confined_get {next : Session σ → Effect (Session σ) β}
    (hn : ∀ s, Confined (next s))
    (hs : ∀ s frames steps, next { s with frames, steps } = next s) :
    Confined (get >>= next) := by
  intro s frames steps
  simp only [Effect.bind_apply, Effect.get_apply, hs]
  exact hn s s frames steps

theorem confined_inWorld (work : Effect σ α) : Confined (inWorld work) := fun _ _ _ => rfl

theorem confined_observe (work : StateM σ α) : Confined (observe work) := fun _ _ _ => rfl

theorem confined_record (e : Entry) : Confined (σ := σ) (record e) := fun _ _ _ => rfl

theorem confined_amend (index : Nat) (change : Entry → Entry) :
    Confined (σ := σ) (amend index change) := fun _ _ _ => rfl

section

variable (env : Environment σ)

theorem confined_resolveDatum (key : String) (default : Option String) :
    Confined (resolveDatum env key default) := by
  have hrest : ∀ returned error, Confined (do
      recordOperation (.get key returned error)
      if !returned.isNull then return some returned.display
      if default.isSome then return default
      observe (env.warn (missingDatum key))
      return none) := by
    intro returned error
    refine confined_bind (confined_record _) fun _ => ?_
    split
    · exact confined_pure _
    · split
      · exact confined_pure _
      · exact confined_bind (confined_observe _) fun _ => confined_pure _
  refine confined_bind (confined_inWorld _) fun outcome => ?_
  cases outcome with
  | ok v => exact hrest v none
  | error e => exact hrest .null (some e.text)

theorem confined_readElement (kind : String) (page : Nat) (read : Effect σ (Option String)) :
    Confined (readElement env kind page read) := by
  refine confined_bind (confined_inWorld _) fun outcome => ?_
  cases outcome with
  | ok text => exact confined_pure _
  | error e =>
    cases e with
    | noElement _ => exact confined_bind (confined_observe _) fun _ => confined_pure _
    | _ => exact confined_throw _

theorem confined_resolve (source : Source) : Confined (source.resolve env) := by
  cases source with
  | literal text => exact confined_pure _
  | null => exact confined_pure _
  | currentTimestamp => exact confined_bind (confined_observe _) fun _ => confined_pure _
  | externalData key default => exact confined_resolveDatum env key default
  | elementText selectors page =>
    exact confined_bind (confined_inWorld _) fun _ => confined_readElement env _ _ _
  | elementAttribute selectors name page =>
    exact confined_bind (confined_inWorld _) fun _ => confined_readElement env _ _ _

theorem confined_resolveAll (sources : List Source) : Confined (resolveAll env sources) := by
  induction sources with
  | nil => exact confined_pure _
  | cons source rest ih =>
    exact confined_bind (confined_resolve env source) fun _ =>
      confined_bind ih fun _ => confined_pure _

theorem confined_resolveItems (items : List BatchItem) : Confined (resolveItems env items) := by
  induction items with
  | nil => exact confined_pure _
  | cons item rest ih =>
    exact confined_bind (confined_resolve env item.value) fun _ =>
      confined_bind ih fun _ => confined_pure _

theorem confined_evaluate (test : Condition) : Confined (test.evaluate env) := by
  cases test with
  | isVisible selectors page =>
    exact confined_bind (confined_inWorld _) fun _ => confined_inWorld _
  | textEquals source matcher =>
    exact confined_bind (confined_resolve env source) fun _ => confined_inWorld _

theorem confined_inputs (action : Action) : Confined (action.inputs env) := by
  cases action with
  | type selectors value clears enters waits =>
    exact confined_bind (confined_resolve env value) fun _ => confined_pure _
  | evaluate code arguments =>
    exact confined_bind (confined_resolveAll env arguments) fun _ => confined_pure _
  | _ => exact confined_pure _

theorem confined_perform (action : Action) (page : Nat) : Confined (action.perform env page) := by
  refine confined_bind (confined_inWorld _) fun expanded => ?_
  refine confined_bind (confined_inputs env expanded) fun inputs => ?_
  refine confined_bind (confined_inWorld _) fun outcome => ?_
  cases outcome with
  | ok _ => exact confined_pure _
  | error _ => exact confined_pure _

theorem confined_act (opened : OpenEntry) (i : Instruction) : Confined (act env opened i) := by
  cases i with
  | pageAction page action =>
    exact confined_bind (confined_perform env action page) fun _ => confined_amend _ _
  | saveData key source =>
    exact confined_bind (confined_resolve env source) fun _ =>
      confined_bind (confined_inWorld _) fun _ => confined_record _
  | saveDataBatch source items =>
    exact confined_bind (confined_resolveItems env items) fun _ =>
      confined_bind (confined_inWorld _) fun _ => confined_record _
  | deleteData source => exact confined_bind (confined_inWorld _) fun _ => confined_record _
  | _ => exact confined_pure _

theorem confined_chooseBranch (opened : OpenEntry) (test : Condition)
    (consequent : List Instruction) (alternative : Option (List Instruction)) :
    Confined (chooseBranch env opened test consequent alternative) :=
  confined_bind (confined_evaluate env test) fun _ =>
    confined_bind (confined_amend _ _) fun _ => confined_pure _

theorem confined_close (opened : OpenEntry) : Confined (close env opened) :=
  confined_bind (confined_inWorld _) fun _ =>
    confined_bind (confined_observe _) fun _ => confined_amend _ _

theorem confined_closeAll (entries : List OpenEntry) : Confined (closeAll env entries) := by
  induction entries with
  | nil => exact confined_pure _
  | cons opened rest ih => exact confined_bind (confined_close env opened) fun _ => ih

theorem confined_settle (entries : List OpenEntry) : Confined (settle env entries) := by
  induction entries with
  | nil => exact confined_pure _
  | cons opened rest ih =>
    exact confined_bind ih fun _ => confined_bind (confined_observe _) fun _ => confined_amend _ _

theorem confined_openEntry (i : Instruction) : Confined (openEntry env i) := by
  refine confined_bind (confined_inWorld _) fun address => ?_
  refine confined_bind (confined_observe _) fun started => ?_
  refine confined_get (fun s => ?_) fun _ _ _ => rfl
  exact confined_bind (confined_record _) fun _ => confined_pure _

theorem confined_checkpoint : Confined (checkpoint env) := by
  refine confined_bind (confined_observe _) fun control => ?_
  have hlast : Confined (do return !(← observe env.control).cancelled) :=
    confined_bind (confined_observe _) fun _ => confined_pure _
  cases control.paused with
  | false => exact hlast
  | true =>
    refine confined_get (fun s => ?_) fun _ _ _ => rfl
    exact confined_bind (confined_observe _) fun _ => hlast

theorem confined_conclude (started : Seconds) (inside : List OpenEntry)
    (outcome : Except Failure Ending) : Confined (conclude env started inside outcome) := by
  have hfail : ∀ e : Failure, Confined (do
      settle env inside
      record (.error e.message (elapsed started (← observe env.timer)))) := fun e =>
    confined_bind (confined_settle env inside) fun _ =>
      confined_bind (confined_observe _) fun _ => confined_record _
  cases outcome with
  | ok ending =>
    cases ending with
    | completed => exact confined_bind (confined_observe _) fun _ => confined_record _
    | cancelled => exact confined_settle env inside
  | error e =>
    cases e with
    | unfinished => exact confined_throw _
    | _ => exact hfail _

end

end Gleaner
