import Gleaner.Proofs.Run.Alike
import Gleaner.Proofs.Run.Nesting

namespace Gleaner

section

open Session

-- A call a run makes of its environment.
inductive Call
  | perform (page : Nat) (action : Action) (value : Option String)
      (arguments : List (Option String))
  | isVisible (page : Nat) (selectors : Selectors)
  | textOf (page : Nat) (selectors : Selectors)
  | attributeOf (page : Nat) (selectors : Selectors) (name : String)
  | address (page : Nat)
  | get (key : String)
  | set (key : String) (value : Value)
  | setMany (source : String) (values : List (String × Value))
  | delete (source : String)

-- A world with the calls that have been made of it, and whether the run is to stop.
structure Watched (σ : Type) where
  world : σ
  calls : List Call
  control : Control

variable {σ α : Type}

namespace Watched

-- A call that is noted. The run is cancelled during the call with the given number.
def noting (cancelAt : Option Nat) (call : Call) (work : Effect σ α) : Effect (Watched σ) α :=
  fun w =>
    let (outcome, world) := work w.world
    (outcome, {
      world
      calls := w.calls ++ [call]
      control := if cancelAt = some w.calls.length then w.control.cancel else w.control })

def unnoted (work : StateM σ α) : StateM (Watched σ) α := fun w =>
  let (a, world) := work w.world
  (a, { w with world })

-- The same world, in which nothing has been called yet and nobody has been cancelled.
def fresh (world : σ) : Watched σ := ⟨world, [], {}⟩

end Watched

open Watched

namespace Environment

-- An environment whose calls are noted, and in which nobody waits.
def watched (env : Environment σ) (cancelAt : Option Nat) : Environment (Watched σ) where
  pages :=
    { perform := fun page action value arguments =>
        noting cancelAt (.perform page action value arguments)
          (env.pages.perform page action value arguments)
      isVisible := fun page selectors =>
        noting cancelAt (.isVisible page selectors) (env.pages.isVisible page selectors)
      textOf := fun page selectors =>
        noting cancelAt (.textOf page selectors) (env.pages.textOf page selectors)
      attributeOf := fun page selectors name =>
        noting cancelAt (.attributeOf page selectors name)
          (env.pages.attributeOf page selectors name)
      address := fun page => noting cancelAt (.address page) (env.pages.address page) }
  store :=
    { get := fun key => noting cancelAt (.get key) (env.store.get key)
      set := fun key value => noting cancelAt (.set key value) (env.store.set key value)
      setMany := fun source values =>
        noting cancelAt (.setMany source values) (env.store.setMany source values)
      delete := fun source => noting cancelAt (.delete source) (env.store.delete source) }
  now := unnoted env.now
  timer := unnoted env.timer
  draw := unnoted env.draw
  warn := fun message => unnoted (env.warn message)
  control := fun w => (w.control, w)
  setControl := fun control w => ((), { w with control })
  await := fun _ => pure ()
  patience := env.patience

-- An environment whose calls are noted, and which stops a run or makes it wait as it always did.
def noted (env : Environment σ) : Environment (Watched σ) :=
  { env.watched none with
    control := unnoted env.control
    setControl := fun control => unnoted (env.setControl control)
    await := fun entries => unnoted (env.await entries) }

end Environment

-- A world of a run that is cancelled during a call, beside that of the run that is not.
structure Shadows (k : Nat) (w v : Watched σ) : Prop where
  world : w.world = v.world
  calls : w.calls = v.calls
  plain : v.control = {}
  cancelled : w.control = if k < v.calls.length then ⟨true, false⟩ else {}

-- Calls are only ever added.
structure Extends (calls : List Call) (w v : Watched σ) : Prop where
  same : w = v
  calls : calls <+: v.calls

theorem alike_noting_extends (calls : List Call) (call : Call) (work : Effect σ α) :
    Alike (Extends calls) (noting none call work) (noting none call work) := by
  rintro w _ ⟨rfl, hcalls⟩
  exact ⟨rfl, rfl, hcalls.trans (List.prefix_append _ _)⟩

theorem alike_unnoted_extends (calls : List Call) (work : StateM σ α) :
    Alike (Extends calls) (monadLift (unnoted work) : Effect (Watched σ) α)
      (monadLift (unnoted work)) := by
  rintro w _ ⟨rfl, hcalls⟩
  exact ⟨rfl, rfl, hcalls⟩

-- What is alike for every call, and for what is not noted, is alike for the environments.
theorem watched_alike {R : Watched σ → Watched σ → Prop} {cancelAt other : Option Nat}
    (hn : ∀ {α : Type} (call : Call) (work : Effect σ α),
      Alike R (noting cancelAt call work) (noting other call work))
    (hu : ∀ {α : Type} (work : StateM σ α), Alike R
      (monadLift (unnoted work) : Effect (Watched σ) α) (monadLift (unnoted work)))
    (env : Environment σ) :
    (env.watched cancelAt).Alike R (fun _ => True) (env.watched other) where
  pages :=
    { perform := fun _ _ _ _ => hn _ _
      isVisible := fun _ _ => hn _ _
      textOf := fun _ _ => hn _ _
      attributeOf := fun _ _ _ => hn _ _
      address := fun _ => hn _ _ }
  store :=
    { get := fun _ => hn _ _
      set := fun _ _ _ _ => hn _ _
      setMany := fun _ _ _ _ _ => hn _ _
      delete := fun _ _ => hn _ _ }
  now := hu _
  timer := hu _
  draw := hu _
  warn _ := hu _

-- What is noted of the calls makes no difference to them.
theorem noted_alike (env : Environment σ) :
    env.noted.Alike (fun w v => w.world = v) (fun _ => True) env := by
  have hn : ∀ {α : Type} (call : Call) (work : Effect σ α),
      Alike (fun (w : Watched σ) v => w.world = v) (noting none call work) work := by
    rintro α call work w _ rfl
    exact ⟨rfl, rfl⟩
  have hu : ∀ {α : Type} (work : StateM σ α), Alike (fun (w : Watched σ) v => w.world = v)
      (monadLift (unnoted work) : Effect (Watched σ) α) (monadLift work) := by
    rintro α work w _ rfl
    exact ⟨rfl, rfl⟩
  exact {
    pages :=
      { perform := fun _ _ _ _ => hn _ _
        isVisible := fun _ _ => hn _ _
        textOf := fun _ _ => hn _ _
        attributeOf := fun _ _ _ => hn _ _
        address := fun _ => hn _ _ }
    store :=
      { get := fun _ => hn _ _
        set := fun _ _ _ _ => hn _ _
        setMany := fun _ _ _ _ _ => hn _ _
        delete := fun _ _ => hn _ _ }
    now := hu _
    timer := hu _
    draw := hu _
    warn := fun _ => hu _ }

theorem watched_alike_extends (calls : List Call) (env : Environment σ) :
    (env.watched none).Alike (Extends calls) (fun _ => True) (env.watched none) :=
  watched_alike (alike_noting_extends calls) (alike_unnoted_extends calls) env

theorem noted_alike_extends (calls : List Call) (env : Environment σ) :
    env.noted.Alike (Extends calls) (fun _ => True) env.noted :=
  { watched_alike_extends calls env with }

end

open Session Watched

variable {σ : Type} {env : Environment σ} {limit : Option Int} {k : Nat}

-- The list at the bottom belongs to no condition.
def OutermostUnowned : List Frame → Prop
  | [] => True
  | [f] => f.owner = none
  | _ :: f :: rest => OutermostUnowned (f :: rest)

theorem OutermostUnowned.go_to {f : Frame} {rest : List Frame} (h : OutermostUnowned (f :: rest))
    (next : Nat) : OutermostUnowned ({ f with next } :: rest) := by
  cases rest <;> exact h

theorem OutermostUnowned.land {name : String} {frames left staying : List Frame}
    (h : OutermostUnowned frames) (hl : land? name frames = some (left, staying)) :
    staying ≠ [] ∧ OutermostUnowned staying := by
  induction frames generalizing left staying with
  | nil => cases hl
  | cons f rest ih =>
    cases hm : markerIndex? name f.instructions with
    | some place =>
      simp only [land?, hm, Option.some.injEq, Prod.mk.injEq] at hl
      obtain ⟨-, rfl⟩ := hl
      exact ⟨by simp, h.go_to _⟩
    | none =>
      simp only [land?, hm, Option.map_eq_some_iff, Prod.mk.injEq] at hl
      obtain ⟨⟨left', staying'⟩, hl, -, rfl⟩ := hl
      cases rest with
      | nil => cases hl
      | cons g rest => exact ih h hl

theorem Shadows.paused {w v : Watched σ} (h : Shadows k w v) :
    w.control.paused = false ∧ v.control.paused = false := by
  refine ⟨?_, by rw [h.plain]⟩
  rw [h.cancelled]
  split <;> rfl

-- The turn during which a run is cancelled.
structure InProgress (env : Environment σ) (limit : Option Int) (k : Nat)
    (start : Session (Watched σ)) (outcome : Except Failure (Option Ending))
    (s t : Session (Watched σ)) : Prop where
  reached : ∃ n, Turns (env.watched none) limit n start s
  turn : Gleaner.turn (env.watched none) limit s = (outcome, t)
  before : s.world.calls.length ≤ k
  during : k < t.world.calls.length

theorem InProgress.later {outcome : Except Failure (Option Ending)}
    {r s t u : Session (Watched σ)} (h : InProgress env limit k s outcome t u)
    (ht : Gleaner.turn (env.watched none) limit r = (.ok none, s)) :
    InProgress env limit k r outcome t u := by
  obtain ⟨n, hn⟩ := h.reached
  exact { h with reached := ⟨n + 1, .next ht hn⟩ }

theorem checkpoint_extends (calls : List Call) :
    Alike (Beside (Extends calls)) (checkpoint (env.watched none))
      (checkpoint (env.watched none)) := by
  refine alike_checkpoint (fun w v h => ⟨?_, h⟩) fun entries w v h => ⟨rfl, h⟩
  rw [h.same]

-- What a run has called by the time it goes on is at the front of all that it calls.
theorem calls_onward {other : Environment (Watched σ)} {t : Session (Watched σ)}
    (halike : other.Alike (Extends t.world.calls) (fun _ => True) other)
    (hcheck : Alike (Beside (Extends t.world.calls)) (checkpoint other) (checkpoint other))
    (limit : Option Int) (m : Nat) (started : Seconds) :
    let stopped := loop other limit m t
    t.world.calls <+: (conclude other started (openEntries stopped.2.frames) stopped.1
      stopped.2).2.world.calls := by
  intro stopped
  have hself : Beside (Extends t.world.calls) t t := ⟨⟨rfl, List.prefix_rfl⟩, rfl, rfl, rfl⟩
  have hloop : AlikeAt (Beside (Extends t.world.calls)) (loop other limit m)
      (loop other limit m) t t :=
    alike_loop halike (fun _ => True) hcheck (fun _ _ _ h => h) (fun _ _ _ _ _ => trivial) m hself
      trivial
  exact (alike_conclude halike started _ _ _ _ hloop.2).2.world.calls

theorem calls_prefix (limit : Option Int) (m : Nat) (started : Seconds) (t : Session (Watched σ)) :
    let stopped := loop (env.watched none) limit m t
    t.world.calls <+: (conclude (env.watched none) started (openEntries stopped.2.frames) stopped.1
      stopped.2).2.world.calls :=
  calls_onward (watched_alike_extends _ env) (checkpoint_extends _) limit m started

-- A record is at the front of another, apart from what open entries get when they are closed.
structure PrefixBut (inside : List OpenEntry) (a b : Array Entry) : Prop where
  size_le : a.size ≤ b.size
  untimed : ∀ j, j < a.size → a[j]?.map Entry.untimed = b[j]?.map Entry.untimed
  same : ∀ j, j < a.size → (∀ o ∈ inside, o.index ≠ j) → a[j]? = b[j]?

theorem Records.prefixBut {inside : List OpenEntry} {told : List Entry} {a b c : Array Entry}
    (hb : Records a.size inside [] a b) (hc : Records a.size inside told a c) :
    PrefixBut inside b c := by
  have hsize := hb.size_eq
  refine ⟨hsize ▸ hc.size_le, fun j hj => ?_, fun j hj ho => ?_⟩
  · rw [hsize] at hj
    rw [hb.untimed j hj, hc.untimed j hj]
  · rw [hsize] at hj
    rw [hb.kept j hj ho, hc.kept j hj ho]

-- What comes after some turns leaves what is recorded, but for the entries that are open.
theorem rest_records (limit : Option Int) (m : Nat) (started : Seconds) (t : Session σ) :
    let stopped := loop env limit m t
    ∃ told, Records t.entries.size (openEntries t.frames) told t.entries
      (conclude env started (openEntries stopped.2.frames) stopped.1 stopped.2).2.entries := by
  rcases hloop : loop env limit m t with ⟨outcome, u⟩
  obtain ⟨before, -, hrecord, hinside⟩ := loop_advances hloop
  dsimp only
  rcases hconclude : conclude env started (openEntries u.frames) outcome u with ⟨result, final⟩
  rcases conclude_records t.entries.size (loop_outcome env limit hloop) hconclude with
    ⟨-, -, rfl⟩ | ⟨v, last, -, -, hsettled, hfinal⟩
  · exact ⟨_, hrecord⟩
  · dsimp only
    rw [hfinal]
    have hsize : t.entries.size ≤ v.size := Nat.le_trans hrecord.size_le hsettled.size_le
    refine ⟨_, ((hrecord.trans hsettled).trans (.append hsize last)).mono fun o ho hlt => ?_⟩
    rw [List.append_nil, List.mem_append] at ho
    rcases ho with ho | ho
    · exact ho
    · exact (hinside o ho).resolve_right (by omega)

-- The entries of a run are of instructions and operations until it is concluded.
theorem Turns.records (hr : env.ReadsAddresses) {n : Nat} {s t : Session σ}
    (h : Turns env limit n s t) :
    ∃ told, Records s.entries.size (openEntries s.frames) told s.entries t.entries ∧
      ∀ e ∈ told, e.isTerminal = false := by
  have hloop : loop env limit n s = (.error .unfinished, t) := by
    rw [← Nat.zero_add n, h.loop_eq]
    rfl
  exact ⟨_, (loop_records hr hloop).1, isTerminal_deeds _⟩

@[simp] theorem isTerminal_bare (e : Entry) : e.bare.isTerminal = e.isTerminal := by
  cases e <;> rfl

end Gleaner
