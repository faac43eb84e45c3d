import Gleaner.Proofs.Run.Alike
import Gleaner.Proofs.Run.Leaves
import Gleaner.Proofs.Run.Scopes
import Gleaner.Proofs.Script.Parts

namespace Gleaner

open Instruction Session

variable {σ τ α β : Type}

-- What is run of a script is part of it.
theorem Enclosed.parts {script : List Instruction} {f : Frame} {rest : List Frame}
    (h : Enclosed script f rest) {part : Instruction} (hp : part ∈ partsOfList f.instructions) :
    part ∈ partsOfList script := by
  induction h with
  | script next owner => exact hp
  | branch next owner h hn hi hb ih =>
    exact ih (mem_partsOfList (List.mem_of_getElem? hi) (mem_parts_of_branch hb hp))

theorem Reachable.mem_parts {env : Environment σ} {limit : Option Int} {script : List Instruction}
    {s : Session σ} {f : Frame} {rest : List Frame} {i : Instruction}
    (h : Reachable env limit script s) (hf : s.frames = f :: rest)
    (hi : f.instructions[f.next]? = some i) : i ∈ partsOfList script := by
  have henclosed := h.enclosed
  rw [hf] at henclosed
  exact Enclosed.parts henclosed (mem_partsOfList (List.mem_of_getElem? hi) (self_mem_parts i))

section

variable {R : σ → τ → Prop} {P : Instruction → Prop} {env : Environment σ} {other : Environment τ}

-- Runs of a script are alike if their environments are, for every part of the script.
theorem alike_run (h : env.Alike R P other)
    (hstart : Alike R (monadLift (restart env) : Effect σ Unit) (monadLift (restart other)))
    (hc : Alike (Beside R) (checkpoint env) (checkpoint other)) {script : List Instruction}
    (hP : ∀ i ∈ partsOfList script, P i) (limit : Option Int) (fuel : Nat)
    (entries : Array Entry) :
    Alike R (run env limit fuel script entries) (run other limit fuel script entries) := by
  intro w v hwv
  obtain ⟨hstarted, hworld⟩ := h.timer _ _ (hstart w v hwv).2
  have hbegun : Beside R (begun env script entries w) (begun other script entries v) :=
    ⟨hworld, rfl, rfl, rfl⟩
  have hparts : ∀ f rest i, AllEnclosed script (f :: rest) → f.instructions[f.next]? = some i →
      P i := fun f rest i hf hi =>
    hP i (Enclosed.parts hf (mem_partsOfList (List.mem_of_getElem? hi) (self_mem_parts i)))
  have hloop : AlikeAt (Beside R) (loop env limit (turnLimit limit fuel))
      (loop other limit (turnLimit limit fuel)) _ _ :=
    alike_loop h (AllEnclosed script) hc (fun fs gs hm hf => hm.enclosed hf) hparts _ hbegun
      (.script 0 none)
  rw [AlikeAt, run_eq_wholeRun, run_eq_wholeRun, wholeRun, wholeRun]
  rcases hs : loop env limit (turnLimit limit fuel) (begun env script entries w) with ⟨outcome, s⟩
  rcases ht : loop other limit (turnLimit limit fuel) (begun other script entries v) with
    ⟨outcome', t⟩
  rw [AlikeAt, hs, ht] at hloop
  obtain ⟨houtcome, hst⟩ := hloop
  cases houtcome
  have hconclude := alike_conclude h (env.timer (restart env w).2).1 (openEntries s.frames) outcome
    s t hst
  have htimer : (other.timer (restart other v).2).1 = (env.timer (restart env w).2).1 :=
    (Except.ok.inj hstarted).symm
  dsimp only
  rw [htimer, ← hst.frames, ← hconclude.1, hconclude.2.entries]
  exact ⟨rfl, hconclude.2.world⟩

-- So the entries of a run are those of one that is alike and shows more of itself.
theorem run_of_alike (h : env.Alike R (fun _ => True) other)
    (hcontrol : Alike R (monadLift env.control : Effect σ Control) (monadLift other.control))
    (hset : ∀ control, Alike R (monadLift (env.setControl control) : Effect σ Unit)
      (monadLift (other.setControl control)))
    (hawait : ∀ entries, Alike R (monadLift (env.await entries) : Effect σ Unit)
      (monadLift (other.await entries)))
    (limit : Option Int) (fuel : Nat) (script : List Instruction) (entries : Array Entry)
    {w : σ} {v : τ} (hwv : R w v) :
    (run other limit fuel script entries v).1 =
      let whole := wholeRun env limit fuel script entries w
      whole.1.map fun _ => whole.2.entries := by
  have hrestart : Alike R (monadLift (restart env) : Effect σ Unit) (monadLift (restart other)) :=
    alike_lift_bind hcontrol fun _ => hset _
  have hrun := alike_run h hrestart (alike_checkpoint hcontrol hawait)
    (fun _ _ => trivial : ∀ i ∈ partsOfList script, True) limit fuel entries w v hwv
  rw [← hrun.1, run_eq_wholeRun]

end

-- Work that keeps what holds of a state, however it ends.
def Keeps (I : σ → Prop) (work : Effect σ α) : Prop := ∀ s, I s → I (work s).2

-- States that are the same and of a kind.
def Same (I : σ → Prop) (s t : σ) : Prop := s = t ∧ I s

section

variable {I : σ → Prop}

theorem keeps_pure (a : α) : Keeps I (pure a : Effect σ α) := fun _ h => h

theorem keeps_throw (e : Failure) : Keeps I (throw e : Effect σ α) := fun _ h => h

theorem keeps_bind {work : Effect σ α} {next : α → Effect σ β} (hw : Keeps I work)
    (hn : ∀ a, Keeps I (next a)) : Keeps I (work >>= next) := by
  intro s hs
  have ht := hw s hs
  rw [Effect.bind_apply]
  rcases hr : work s with ⟨e | a, t⟩ <;> rw [hr] at ht
  · exact ht
  · exact hn a t ht

theorem keeps_map {work : Effect σ α} (f : α → β) (h : Keeps I work) : Keeps I (f <$> work) :=
  keeps_bind h fun a => keeps_pure (f a)

-- To keep what holds of a state is to be alike when begun twice in such a state.
theorem alike_same_iff {work : Effect σ α} : Alike (Same I) work work ↔ Keeps I work := by
  constructor
  · exact fun h s hs => (h s s ⟨rfl, hs⟩).2.2
  · rintro h s _ ⟨rfl, hs⟩
    exact ⟨rfl, rfl, h s hs⟩

end

section

variable {view : σ → τ} {p : τ → Prop}

-- What is left alone is kept, whatever holds of it.
theorem Leaves.keeps {work : Effect σ α} (h : Leaves view work) : Keeps (p ∘ view) work := by
  intro s hs
  rwa [Function.comp_apply, h s]

theorem Leaves.alike {work : Effect σ α} (h : Leaves view work) :
    Alike (Same (p ∘ view)) work work := alike_same_iff.mpr h.keeps

theorem Passes.alike {work : StateM σ α} (h : Passes view work) :
    Alike (Same (p ∘ view)) (monadLift work : Effect σ α) (monadLift work) :=
  (leaves_lift h).alike

section

variable {env : Environment σ} (h : env.Leaves view) {P : Instruction → Prop}
  {store : DataStore σ} (hs : store.Alike (Same (p ∘ view)) P store)
include h hs

theorem Environment.Leaves.alike :
    ({ env with store } : Environment σ).Alike (Same (p ∘ view)) P { env with store } where
  pages := {
    perform := fun _ _ _ _ => (h.pages.perform _ _ _ _).alike
    isVisible := fun _ _ => (h.pages.isVisible _ _).alike
    textOf := fun _ _ => (h.pages.textOf _ _).alike
    attributeOf := fun _ _ _ => (h.pages.attributeOf _ _ _).alike
    address := fun _ => (h.pages.address _).alike }
  store := hs
  now := h.now.alike
  timer := h.timer.alike
  draw := h.draw.alike
  warn _ := (h.warn _).alike

-- A run keeps what its store keeps, if nothing else has to do with it.
theorem keeps_run {script : List Instruction} (hP : ∀ i ∈ partsOfList script, P i)
    (limit : Option Int) (fuel : Nat) (entries : Array Entry) :
    Keeps (p ∘ view) (run { env with store } limit fuel script entries) :=
  alike_same_iff.mp <| alike_run (h.alike hs)
    (passes_bind h.control fun _ => h.setControl _).alike
    (alike_checkpoint h.control.alike fun _ => (h.await _).alike) hP limit fuel entries

end

theorem keeps_stamped {env : Environment σ} (h : env.Leaves view) (number : Nat)
    (entries : Array Entry) :
    Keeps (p ∘ view)
      (do
        match DateTime.ofEpochMillis? (← env.now) with
        | some finishedAt => return ⟨number, entries.toList, finishedAt⟩
        | none => throw .beyondCalendar : Effect σ IterationRecord) := by
  refine keeps_bind (leaves_lift h.now).keeps fun now => ?_
  cases DateTime.ofEpochMillis? now with
  | some finishedAt => exact keeps_pure _
  | none => exact keeps_throw _

-- What is seen of a state is out of reach of the environments of a host but for their stores.
def Host.Apart (host : Host σ) (view : σ → τ) : Prop :=
  ∀ store, ∃ env : Environment σ, env.Leaves view ∧ host.environment store = { env with store }

section

variable {host : Host σ} (h : host.Apart view) {P : Instruction → Prop}
  {script : List Instruction} (hP : ∀ i ∈ partsOfList script, P i)
include h hP

theorem keeps_runOnce {context : Option IterationContext}
    (hs : (host.warehouse.boundTo context).Alike (Same (p ∘ view)) P
      (host.warehouse.boundTo context)) (limit : Option Int) (number : Nat) :
    Keeps (p ∘ view) (host.runOnce limit script number context) := by
  obtain ⟨env, henv, he⟩ := h (host.warehouse.boundTo context)
  unfold Host.runOnce
  rw [he]
  refine keeps_bind (keeps_run henv hs hP _ _ _) fun entries => ?_
  dsimp only
  split
  · exact keeps_bind (leaves_lift (henv.warn _)).keeps fun _ => keeps_stamped henv number entries
  · exact keeps_stamped henv number entries

theorem keeps_runAll {contexts : List (Option IterationContext)}
    (hs : ∀ context ∈ contexts, (host.warehouse.boundTo context).Alike (Same (p ∘ view)) P
      (host.warehouse.boundTo context)) (limit : Option Int) (number : Nat) :
    Keeps (p ∘ view) (host.runAll limit script number contexts) := by
  induction contexts generalizing number with
  | nil => exact keeps_pure _
  | cons context rest ih =>
    obtain ⟨hfirst, hrest⟩ := List.forall_mem_cons.mp hs
    exact keeps_bind (keeps_runOnce h hP hfirst limit number) fun _ =>
      keeps_bind (ih hrest _) fun _ => keeps_pure _

end

end

end Gleaner
