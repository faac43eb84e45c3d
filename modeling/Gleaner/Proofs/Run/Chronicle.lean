import Gleaner.Proofs.Run.Keeps

namespace Gleaner

open Instruction Session

-- Something that was done on a page, and what has come of it.
structure Performance where
  page : Nat
  action : Action
  outcome : Except Failure Unit

-- A world with all that has been done on its pages and all that its timer has shown.
structure Chronicle (σ : Type) where
  world : σ
  performances : List Performance
  readings : List Seconds

variable {σ α : Type}

namespace Chronicle

-- The same world, of which nothing has been written down yet.
def blank (world : σ) : Chronicle σ := ⟨world, [], []⟩

-- Work of which nothing is written down.
def unwritten (work : Effect σ α) : Effect (Chronicle σ) α := fun w =>
  let (outcome, world) := work w.world
  (outcome, { w with world })

def unwrittenLift (work : StateM σ α) : StateM (Chronicle σ) α := fun w =>
  let (a, world) := work w.world
  (a, { w with world })

def performing (page : Nat) (action : Action) (work : Effect σ Unit) :
    Effect (Chronicle σ) Unit := fun w =>
  let (outcome, world) := work w.world
  (outcome, { w with world, performances := w.performances ++ [⟨page, action, outcome⟩] })

def reading (work : StateM σ Seconds) : StateM (Chronicle σ) Seconds := fun w =>
  let (now, world) := work w.world
  (now, { w with world, readings := w.readings ++ [now] })

end Chronicle

open Chronicle

namespace Environment

-- An environment that writes down what is done on its pages and what its timer shows.
def chronicled (env : Environment σ) : Environment (Chronicle σ) where
  pages :=
    { perform := fun page action value arguments =>
        performing page action (env.pages.perform page action value arguments)
      isVisible := fun page selectors => unwritten (env.pages.isVisible page selectors)
      textOf := fun page selectors => unwritten (env.pages.textOf page selectors)
      attributeOf := fun page selectors name =>
        unwritten (env.pages.attributeOf page selectors name)
      address := fun page => unwritten (env.pages.address page) }
  store :=
    { get := fun key => unwritten (env.store.get key)
      set := fun key value => unwritten (env.store.set key value)
      setMany := fun source values => unwritten (env.store.setMany source values)
      delete := fun source => unwritten (env.store.delete source) }
  now := unwrittenLift env.now
  timer := reading env.timer
  draw := unwrittenLift env.draw
  warn := fun message => unwrittenLift (env.warn message)
  control := unwrittenLift env.control
  setControl := fun control => unwrittenLift (env.setControl control)
  await := fun entries => unwrittenLift (env.await entries)
  patience := env.patience

end Environment

-- What is written down makes no difference to a run.
theorem chronicled_alike (env : Environment σ) :
    env.chronicled.Alike (fun w v => w.world = v) (fun _ => True) env := by
  have hu : ∀ {α : Type} (work : Effect σ α),
      Alike (fun (w : Chronicle σ) v => w.world = v) (unwritten work) work := by
    rintro α work w _ rfl
    exact ⟨rfl, rfl⟩
  have hl : ∀ {α : Type} (work : StateM σ α), Alike (fun (w : Chronicle σ) v => w.world = v)
      (monadLift (unwrittenLift work) : Effect (Chronicle σ) α) (monadLift work) := by
    rintro α work w _ rfl
    exact ⟨rfl, rfl⟩
  exact {
    pages :=
      { perform := fun _ _ _ _ => by
          rintro w _ rfl
          exact ⟨rfl, rfl⟩
        isVisible := fun _ _ => hu _
        textOf := fun _ _ => hu _
        attributeOf := fun _ _ _ => hu _
        address := fun _ => hu _ }
    store :=
      { get := fun _ => hu _
        set := fun _ _ _ _ => hu _
        setMany := fun _ _ _ _ _ => hu _
        delete := fun _ _ => hu _ }
    now := hl _
    timer := by
      rintro w _ rfl
      exact ⟨rfl, rfl⟩
    draw := hl _
    warn := fun _ => hl _ }

theorem run_chronicled (env : Environment σ) (limit : Option Int) (fuel : Nat)
    (script : List Instruction) (entries : Array Entry) (world : σ) :
    (run env limit fuel script entries world).1 =
      let whole := wholeRun env.chronicled limit fuel script entries (blank world)
      whole.1.map fun _ => whole.2.entries := by
  have hl : ∀ {α : Type} (work : StateM σ α), Alike (fun (w : Chronicle σ) v => w.world = v)
      (monadLift (unwrittenLift work) : Effect (Chronicle σ) α) (monadLift work) := by
    rintro α work w _ rfl
    exact ⟨rfl, rfl⟩
  exact run_of_alike (chronicled_alike env) (hl _) (fun _ => hl _) (fun _ => hl _) limit fuel
    script entries rfl

-- Only what is done on pages is among the performances, and only what the timer shows among the
-- readings: nothing else changes more than the world.
section

variable {τ : Type} {view : Chronicle σ → τ} (hv : ∀ w world, view { w with world } = view w)
include hv

theorem chronicled_leavesReading (env : Environment σ) : env.chronicled.LeavesReading view where
  isVisible _ _ w := hv w _
  textOf _ _ w := hv w _
  attributeOf _ _ _ w := hv w _
  address _ w := hv w _
  get _ w := hv w _
  now w := hv w _
  draw w := hv w _
  warn _ w := hv w _

theorem chronicled_store_leaves (env : Environment σ) : env.chronicled.store.Leaves view where
  get _ w := hv w _
  set _ _ w := hv w _
  setMany _ _ w := hv w _
  delete _ w := hv w _

theorem chronicled_checkpoint_leaves (env : Environment σ) :
    Leaves (view ∘ Session.world) (checkpoint env.chronicled) :=
  leaves_checkpoint (fun w => hv w _) fun _ w => hv w _

end

end Gleaner
