import Gleaner.Proofs.Run.Turn
import Gleaner.Rehearsal.KeyedStore
import Gleaner.Rehearsal.ScriptedPages
import Gleaner.Run.Interpreter

namespace Gleaner.Structured

open Session

-- The meaning of scripts by recursion over the nesting of their lists, without a stack: the lists
-- around the one being run are known by the recursion, and a jump is a way to leave a list.

-- A list around the one being run, and the entry of the condition in it whose branch that is.
structure Surrounding where
  instructions : List Instruction
  condition : OpenEntry

-- How a list is left: at its end; by a jump that looks for its marker further out and whose entry
-- is still open; or because the whole run ends inside of some conditions, the innermost first.
inductive Exit
  | atEnd
  | jumping (name : String) (jump : OpenEntry)
  | cancelled (inside : List OpenEntry)
  | failed (cause : Failure) (inside : List OpenEntry)

namespace Exit

-- Whether the run goes on, so that the condition whose branch was left is over.
def goesOn : Exit → Bool
  | atEnd => true
  | jumping .. => true
  | _ => false

-- How the run ends when its outermost list is left, and what is still open then.
def outcome : Exit → Except Failure Ending
  | atEnd => .ok .completed
  | jumping name _ => .error (.noMarker name)
  | cancelled _ => .ok .cancelled
  | failed cause _ => .error cause

def inside : Exit → List OpenEntry
  | cancelled inside => inside
  | failed _ inside => inside
  | _ => []

end Exit

section

variable {σ : Type} (env : Environment σ)

-- Runs one instruction whose entry is open. Branches are run by the given means; a jump that no
-- list around it has the marker of is an error.
def instruction (branch : List Instruction → Effect (Session σ) Exit)
    (lists : List (List Instruction)) (inside : List OpenEntry) (opened : OpenEntry) :
    Instruction → Effect (Session σ) Exit
  | .condition test consequent alternative => do
    match ← (chooseBranch env opened test consequent alternative).attempt with
    | .error e => do
      close env opened
      return .failed e inside
    | .ok chosen => do
      let exit ← branch chosen
      if exit.goesOn then close env opened
      return exit
  | .jump name => do
    if lists.any fun is => (markerIndex? name is).isSome then return .jumping name opened
    close env opened
    return .failed (.noMarker name) inside
  | i => do
    let outcome ← (act env opened i).attempt
    close env opened
    match outcome with
    | .ok () => return .atEnd
    | .error e => return .failed e inside

-- How a list goes on when the instruction at a place has been left; `resume` runs it from a place
-- on. A jump goes on behind the first marker of its name, or leaves the list if there is none.
def goOn (resume : Nat → Effect (Session σ) Exit) (is : List Instruction) (place : Nat) :
    Exit → Effect (Session σ) Exit
  | .atEnd => resume (place + 1)
  | .jumping name jump =>
    match markerIndex? name is with
    | some marker => do
      close env jump
      resume (marker + 1)
    | none => return .jumping name jump
  | exit => return exit

-- Runs a list from a place on. The depth of the recursion is bounded by the number of
-- instructions that may be run.
def runFrom (most : Int) : Nat → List Surrounding → List Instruction → Nat →
    Effect (Session σ) Exit
  | 0, around, _, _ => return .failed (.stepLimit most) (around.map (·.condition))
  | depth + 1, around, is, place => do
    let inside := around.map (·.condition)
    if !(← checkpoint env) then return .cancelled inside
    match is[place]? with
    | none => return .atEnd
    | some i =>
      match ← (do countStep (some most); openEntry env i : Effect _ _).attempt with
      | .error e => return .failed e inside
      | .ok opened => do
        let branch chosen := runFrom most depth (⟨is, opened⟩ :: around) chosen 0
        let lists := is :: around.map (·.instructions)
        let exit ← instruction env branch lists inside opened i
        goOn env (runFrom most depth around is) is place exit

-- Runs a script of which at most the given number of instructions may be run, and gives the
-- entries behind those there are already.
def run (most : Int) (script : List Instruction) (entries : Array Entry) :
    Effect σ (Array Entry) := fun world =>
  let work : Effect (Session σ) Unit := do
    observe (do env.setControl (← env.control).restart)
    let started ← observe env.timer
    let exit ← runFrom env most (most.toNat + 1) [] script 0
    conclude env started exit.inside exit.outcome
  let (outcome, s) := work ⟨world, entries, [], 0⟩
  (outcome.map fun _ => s.entries, s.world)

end

end Gleaner.Structured

namespace Gleaner

open Session Structured

variable {σ : Type} (env : Environment σ)

-- The addresses of pages can always be read.
def Environment.ReadsAddresses : Prop :=
  ∀ page world, ∃ address, (env.pages.address page world).1 = .ok address

variable {env}

theorem close_ok (hr : env.ReadsAddresses) (opened : OpenEntry) (s : Session σ) :
    ∃ t, close env opened s = (.ok (), t) := by
  obtain ⟨address, ha⟩ := hr opened.page s.world
  unfold close
  rw [Effect.bind_apply, inWorld_apply, ha]
  exact ⟨_, rfl⟩

theorem openEntry_ok (hr : env.ReadsAddresses) (i : Instruction) (s : Session σ) :
    ∃ opened t, openEntry env i s = (.ok opened, t) := by
  obtain ⟨address, ha⟩ := hr i.page s.world
  unfold openEntry
  rw [Effect.bind_apply, inWorld_apply, ha]
  exact ⟨_, _, rfl⟩

-- The frames below a list are those of the lists around it, and the entries of the conditions
-- between them own the frames.
inductive Stacked : List Surrounding → Option OpenEntry → List Frame → Prop
  | outermost : Stacked [] none []
  | inside {around : List Surrounding} {f : Frame} {rest : List Frame} (opened : OpenEntry)
      (h : Stacked around f.owner rest) :
      Stacked (⟨f.instructions, opened⟩ :: around) (some opened) (f :: rest)

theorem Stacked.openEntries_eq {around : List Surrounding} {owner : Option OpenEntry}
    {rest : List Frame} (h : Stacked around owner rest) :
    owner.toList ++ openEntries rest = around.map (·.condition) := by
  induction h with
  | outermost => rfl
  | @inside around f rest opened h ih =>
    rw [List.map_cons, ← ih]
    cases hf : f.owner <;> simp [openEntries, hf]

theorem Stacked.instructions_eq {around : List Surrounding} {owner : Option OpenEntry}
    {rest : List Frame} (h : Stacked around owner rest) :
    rest.map (·.instructions) = around.map (·.instructions) := by
  induction h with
  | outermost => rfl
  | inside opened h ih => simp [ih]

variable (env)

-- Where the loop gets to, after some turns, when a list or an instruction above the given frames
-- is left and `pending` is still to be closed. A jump has landed by then, so that it also has the
-- entries between its own place and its marker to close.
def Reaches (most : Int) (turns : Nat) (s : Session σ) (pending : List OpenEntry)
    (below : List Frame) (t : Session σ) : Exit → Prop
  | .atEnd => ∀ n, loop env (some most) (n + turns) s =
      (do closeAll env pending; loop env (some most) n) { t with frames := below }
  | .jumping name jump => ∃ left staying, land? name below = some (left, staying) ∧
      ∀ n, loop env (some most) (n + turns) s =
        (do
          closeAll env (pending ++ openEntries left)
          close env jump
          loop env (some most) n) { t with frames := staying }
  | .cancelled inside => ∃ frames, openEntries frames = inside ∧
      ∀ n, loop env (some most) (n + turns) s = (.ok .cancelled, { t with frames })
  | .failed cause inside => ∃ frames, openEntries frames = inside ∧
      ∀ n, loop env (some most) (n + turns) s = (.error cause, { t with frames })

variable {env}

-- Turns that come first are counted in.
theorem Reaches.after {most : Int} {turns first : Nat} {s₀ s t : Session σ}
    {pending : List OpenEntry} {below : List Frame} {exit : Exit}
    (hs : ∀ n, loop env (some most) (n + first) s₀ = loop env (some most) n s)
    (h : Reaches env most turns s pending below t exit) :
    Reaches env most (turns + first) s₀ pending below t exit := by
  have hn : ∀ n, loop env (some most) (n + (turns + first)) s₀ =
      loop env (some most) (n + turns) s := fun n => by rw [← Nat.add_assoc, hs]
  cases exit with
  | atEnd => exact fun n => (hn n).trans (h n)
  | jumping name jump =>
    obtain ⟨left, staying, hl, hj⟩ := h
    exact ⟨left, staying, hl, fun n => (hn n).trans (hj n)⟩
  | cancelled inside =>
    obtain ⟨frames, hf, hc⟩ := h
    exact ⟨frames, hf, fun n => (hn n).trans (hc n)⟩
  | failed cause inside =>
    obtain ⟨frames, hf, hc⟩ := h
    exact ⟨frames, hf, fun n => (hn n).trans (hc n)⟩

theorem closeAll_cons_apply {opened : OpenEntry} {entries : List OpenEntry} {s t : Session σ}
    (h : close env opened s = (.ok (), t)) (frames : List Frame) {α : Type}
    (next : Unit → Effect (Session σ) α) :
    (closeAll env (opened :: entries) >>= next) { s with frames } =
      (closeAll env entries >>= next) { t with frames } := by
  rw [closeAll, Effect.bind_assoc_apply]
  exact Effect.bind_ok ((confined_close env opened).under h frames) _

-- Closing the condition whose branch has been left, if the run goes on.
theorem Reaches.close_pending {most : Int} {turns : Nat} {s t u : Session σ}
    {opened : OpenEntry} {below : List Frame} {exit : Exit}
    (h : Reaches env most turns s [opened] below t exit)
    (hc : close env opened t = (.ok (), u)) :
    Reaches env most turns s [] below (if exit.goesOn then u else t) exit := by
  cases exit with
  | atEnd =>
    intro n
    rw [h n]
    exact closeAll_cons_apply hc below _
  | jumping name jump =>
    obtain ⟨left, staying, hl, hj⟩ := h
    refine ⟨left, staying, hl, fun n => ?_⟩
    rw [hj n]
    exact closeAll_cons_apply hc staying _
  | cancelled inside => exact h
  | failed cause inside => exact h

-- What is spent on the way: one turn for each step and at most one more for leaving the branch of
-- a condition. The budget is exceeded by one step at most, and only where the run ends.
structure Spent (most : Int) (s t : Session σ) (turns slack : Nat) (exit : Exit) : Prop where
  turns_le : turns + 2 * s.steps ≤ 2 * t.steps + slack
  steps_ge : s.steps ≤ t.steps
  steps_le : t.steps ≤ most.toNat + 1
  steps_le_of_goesOn : exit.goesOn = true → t.steps ≤ most.toNat

-- An instruction that neither branches nor jumps.
theorem carryOut_act {opened : OpenEntry} {i : Instruction} {s t u : Session σ}
    {outcome : Except Failure Unit} (frames : List Frame)
    (hd : dispatch env opened i = do act env opened i; return false)
    (ha : act env opened i s = (outcome, t)) (hc : close env opened t = (.ok (), u)) :
    carryOut env opened i { s with frames } = (outcome, { u with frames }) := by
  have has := (confined_act env opened i).under ha frames
  have hcs := (confined_close env opened).under hc frames
  cases outcome with
  | ok _ =>
    have hdispatch : (dispatch env opened i).attempt { s with frames } =
        (.ok (.ok false), { t with frames }) := by
      rw [Effect.attempt_apply, hd, Effect.bind_ok has]; rfl
    rw [carryOut, Effect.bind_ok hdispatch]
    exact hcs
  | error e =>
    have hdispatch : (dispatch env opened i).attempt { s with frames } =
        (.ok (.error e), { t with frames }) := by
      rw [Effect.attempt_apply, hd, Effect.bind_error has]
    rw [carryOut, Effect.bind_ok hdispatch]
    exact Effect.bind_ok hcs _

section

variable {most : Int} {opened : OpenEntry} {s u : Session σ} {frames : List Frame}
  {branch : List Instruction → Effect (Session σ) Exit} {lists : List (List Instruction)}
  {inside : List OpenEntry}

theorem instruction_act {i : Instruction} (hr : env.ReadsAddresses)
    (hs : ∀ n, loop env (some most) (n + 1) s =
      (do carryOut env opened i; loop env (some most) n) { u with frames })
    (hd : dispatch env opened i = do act env opened i; return false)
    (hi : instruction env branch lists inside opened i = do
      let outcome ← (act env opened i).attempt
      close env opened
      match outcome with
      | .ok () => return .atEnd
      | .error e => return .failed e inside)
    (hopen : openEntries frames = inside) :
    ∃ exit t, instruction env branch lists inside opened i u = (.ok exit, t) ∧
      Reaches env most 1 s [] frames t exit ∧ t.steps = u.steps := by
  rcases ha : act env opened i u with ⟨outcome, v⟩
  obtain ⟨w, hc⟩ := close_ok hr opened v
  have hcarry := carryOut_act frames hd ha hc
  have hsteps : w.steps = u.steps :=
    ((confined_close env opened).steps_eq hc).trans ((confined_act env opened i).steps_eq ha)
  have hattempt : (act env opened i).attempt u = (.ok outcome, v) := by
    rw [Effect.attempt_apply, ha]
  rw [hi, Effect.bind_ok hattempt, Effect.bind_ok hc]
  cases outcome with
  | ok _ =>
    refine ⟨.atEnd, w, rfl, fun n => ?_, hsteps⟩
    rw [hs n, Effect.bind_ok hcarry]
    rfl
  | error e =>
    refine ⟨.failed e inside, w, rfl, ⟨frames, hopen, fun n => ?_⟩, hsteps⟩
    rw [hs n, Effect.bind_error hcarry]

theorem carryOut_jump_none {name : String} {v : Session σ}
    (hl : land? name frames = none) (hc : close env opened u = (.ok (), v)) :
    carryOut env opened (.jump name) { u with frames } =
      (.error (.noMarker name), { v with frames }) := by
  have hd : (dispatch env opened (.jump name)).attempt { u with frames } =
      (.ok (.error (.noMarker name)), { u with frames }) := by
    rw [Effect.attempt_apply, dispatch, Effect.bind_apply, Effect.get_apply]
    simp only [hl]
    rfl
  rw [carryOut, Effect.bind_ok hd]
  exact Effect.bind_ok ((confined_close env opened).under hc frames) _

theorem closeAll_ok (hr : env.ReadsAddresses) (entries : List OpenEntry) (s : Session σ) :
    ∃ t, closeAll env entries s = (.ok (), t) := by
  induction entries generalizing s with
  | nil => exact ⟨s, rfl⟩
  | cons opened rest ih =>
    obtain ⟨t, ht⟩ := close_ok hr opened s
    obtain ⟨u, hu⟩ := ih t
    exact ⟨u, by rw [closeAll, Effect.bind_ok ht, hu]⟩

theorem carryOut_jump_some {name : String} {left staying : List Frame} (hr : env.ReadsAddresses)
    (hl : land? name frames = some (left, staying)) :
    carryOut env opened (.jump name) { u with frames } =
      (do closeAll env (openEntries left); close env opened) { u with frames := staying } := by
  obtain ⟨v, hv⟩ := closeAll_ok hr (openEntries left) { u with frames := staying }
  have hd : (dispatch env opened (.jump name)).attempt { u with frames } =
      (.ok (.ok false), v) := by
    rw [Effect.attempt_apply, dispatch, Effect.bind_apply, Effect.get_apply]
    simp only [hl]
    rw [Effect.bind_ok (setFrames_apply staying _), Effect.bind_ok hv]
    rfl
  rw [carryOut, Effect.bind_ok hd, Effect.bind_ok hv]

theorem instruction_jump {name : String} (hr : env.ReadsAddresses)
    (hs : ∀ n, loop env (some most) (n + 1) s =
      (do carryOut env opened (.jump name); loop env (some most) n) { u with frames })
    (hlists : lists = frames.map (·.instructions)) (hopen : openEntries frames = inside) :
    ∃ exit t, instruction env branch lists inside opened (.jump name) u = (.ok exit, t) ∧
      Reaches env most 1 s [] frames t exit ∧ t.steps = u.steps := by
  subst hlists
  rw [instruction, ← land?_isSome]
  cases hl : land? name frames with
  | none =>
    obtain ⟨v, hc⟩ := close_ok hr opened u
    refine ⟨.failed (.noMarker name) inside, v, ?_, ⟨frames, hopen, fun n => ?_⟩,
      (confined_close env opened).steps_eq hc⟩
    · simp only [Option.isSome_none, Bool.false_eq_true, ite_false]
      exact Effect.bind_ok hc _
    · rw [hs n, Effect.bind_error (carryOut_jump_none hl hc)]
  | some landing =>
    obtain ⟨left, staying⟩ := landing
    refine ⟨.jumping name opened, u, rfl, ⟨left, staying, hl, fun n => ?_⟩, rfl⟩
    rw [hs n, Effect.bind_apply, carryOut_jump_some hr hl]
    obtain ⟨v, hv⟩ := closeAll_ok hr (openEntries left) { u with frames := staying }
    obtain ⟨w, hw⟩ := close_ok hr opened v
    rw [Effect.bind_ok hv, hw, List.nil_append, Effect.bind_ok hv, Effect.bind_ok hw]

theorem carryOut_condition_error {test : Condition} {consequent : List Instruction}
    {alternative : Option (List Instruction)} {e : Failure} {v w : Session σ}
    (hb : chooseBranch env opened test consequent alternative u = (.error e, v))
    (hc : close env opened v = (.ok (), w)) :
    carryOut env opened (.condition test consequent alternative) { u with frames } =
      (.error e, { w with frames }) := by
  have hbs := (confined_chooseBranch env opened test consequent alternative).under hb frames
  have hd : (dispatch env opened (.condition test consequent alternative)).attempt
      { u with frames } = (.ok (.error e), { v with frames }) := by
    rw [Effect.attempt_apply, dispatch, Effect.bind_error hbs]
  rw [carryOut, Effect.bind_ok hd]
  exact Effect.bind_ok ((confined_close env opened).under hc frames) _

theorem carryOut_condition_ok {test : Condition} {consequent chosen : List Instruction}
    {alternative : Option (List Instruction)} {v : Session σ}
    (hb : chooseBranch env opened test consequent alternative u = (.ok chosen, v)) :
    carryOut env opened (.condition test consequent alternative) { u with frames } =
      (.ok (), { v with frames := ⟨chosen, 0, some opened⟩ :: frames }) := by
  have hbs := (confined_chooseBranch env opened test consequent alternative).under hb frames
  have hd : (dispatch env opened (.condition test consequent alternative)).attempt
      { u with frames } =
      (.ok (.ok true), { v with frames := ⟨chosen, 0, some opened⟩ :: frames }) := by
    rw [Effect.attempt_apply, dispatch, Effect.bind_ok hbs]
    rfl
  rw [carryOut, Effect.bind_ok hd]
  rfl

theorem instruction_condition {test : Condition} {consequent : List Instruction}
    {alternative : Option (List Instruction)} (hr : env.ReadsAddresses)
    (hs : ∀ n, loop env (some most) (n + 1) s =
      (do
        carryOut env opened (.condition test consequent alternative)
        loop env (some most) n) { u with frames })
    (hbranch : ∀ chosen v, v.steps = u.steps → ∃ exit t turns,
      branch chosen v = (.ok exit, t) ∧
      Reaches env most turns { v with frames := ⟨chosen, 0, some opened⟩ :: frames } [opened]
        frames t exit ∧ Spent most v t turns 1 exit)
    (hsteps : u.steps ≤ most.toNat) (hopen : openEntries frames = inside) :
    ∃ exit t turns, instruction env branch lists inside opened
        (.condition test consequent alternative) u = (.ok exit, t) ∧
      Reaches env most turns s [] frames t exit ∧ Spent most u t turns 2 exit := by
  rw [instruction]
  rcases hb : chooseBranch env opened test consequent alternative u with ⟨e | chosen, v⟩
  · have hattempt : (chooseBranch env opened test consequent alternative).attempt u =
        (.ok (.error e), v) := by rw [Effect.attempt_apply, hb]
    obtain ⟨w, hc⟩ := close_ok hr opened v
    have hw : w.steps = u.steps := ((confined_close env opened).steps_eq hc).trans
      ((confined_chooseBranch env opened _ _ _).steps_eq hb)
    refine ⟨.failed e inside, w, 1, ?_, ⟨frames, hopen, fun n => ?_⟩, ⟨?_, ?_, ?_, ?_⟩⟩
    · rw [Effect.bind_ok hattempt]
      exact Effect.bind_ok hc _
    · rw [hs n, Effect.bind_error (carryOut_condition_error hb hc)]
    · omega
    · omega
    · omega
    · intro h
      cases h
  · have hattempt : (chooseBranch env opened test consequent alternative).attempt u =
        (.ok (.ok chosen), v) := by rw [Effect.attempt_apply, hb]
    have hv : v.steps = u.steps := (confined_chooseBranch env opened _ _ _).steps_eq hb
    obtain ⟨exit, t, turns, hrun, hreach, hspent⟩ := hbranch chosen v hv
    obtain ⟨w, hc⟩ := close_ok hr opened t
    have hw : w.steps = t.steps := (confined_close env opened).steps_eq hc
    have hfirst : ∀ n, loop env (some most) (n + 1) s = loop env (some most) n
        { v with frames := ⟨chosen, 0, some opened⟩ :: frames } := by
      intro n
      rw [hs n, Effect.bind_ok (carryOut_condition_ok hb)]
    refine ⟨exit, if exit.goesOn then w else t, turns + 1, ?_,
      (hreach.close_pending hc).after hfirst, ?_⟩
    · rw [Effect.bind_ok hattempt]
      dsimp only
      rw [Effect.bind_ok hrun]
      cases exit.goesOn with
      | false => rfl
      | true => exact Effect.bind_ok hc _
    · have h₁ := hspent.turns_le
      have h₂ := hspent.steps_le
      have h₃ := hspent.steps_le_of_goesOn
      have h₄ := hspent.steps_ge
      constructor
      · split <;> omega
      · split <;> omega
      · split <;> omega
      · intro hg
        simp only [hg, ite_true]
        have := h₃ hg
        omega

theorem instruction_reaches (branch : List Instruction → Effect (Session σ) Exit)
    (lists : List (List Instruction)) (i : Instruction) (hr : env.ReadsAddresses)
    (hs : ∀ n, loop env (some most) (n + 1) s =
      (do carryOut env opened i; loop env (some most) n) { u with frames })
    (hbranch : ∀ chosen v, v.steps = u.steps → ∃ exit t turns,
      branch chosen v = (.ok exit, t) ∧
      Reaches env most turns { v with frames := ⟨chosen, 0, some opened⟩ :: frames } [opened]
        frames t exit ∧ Spent most v t turns 1 exit)
    (hsteps : u.steps ≤ most.toNat) (hlists : lists = frames.map (·.instructions))
    (hopen : openEntries frames = inside) :
    ∃ exit t turns, instruction env branch lists inside opened i u = (.ok exit, t) ∧
      Reaches env most turns s [] frames t exit ∧ Spent most u t turns 2 exit := by
  have hone : ∀ {exit t}, t.steps = u.steps → Spent most u t 1 2 exit := by
    intro exit t ht
    exact ⟨by omega, by omega, by omega, fun _ => by omega⟩
  cases i with
  | condition test consequent alternative =>
    exact instruction_condition hr hs hbranch hsteps hopen
  | jump name =>
    obtain ⟨exit, t, hrun, hreach, ht⟩ := instruction_jump hr hs hlists hopen
    exact ⟨exit, t, 1, hrun, hreach, hone ht⟩
  | _ =>
    obtain ⟨exit, t, hrun, hreach, ht⟩ := instruction_act hr hs rfl rfl hopen
    exact ⟨exit, t, 1, hrun, hreach, hone ht⟩

end

-- The start of an instruction: the step is counted and its entry is opened, or the budget is
-- used up.
theorem start_cases (hr : env.ReadsAddresses) (most : Int) (i : Instruction) (s : Session σ) :
    (most < s.steps + 1 ∧
      countStep (some most) s = (.error (.stepLimit most), { s with steps := s.steps + 1 })) ∨
    (s.steps + 1 ≤ most ∧ ∃ opened u, u.steps = s.steps + 1 ∧
      countStep (some most) s = (.ok (), { s with steps := s.steps + 1 }) ∧
      openEntry env i { s with steps := s.steps + 1 } = (.ok opened, u)) := by
  rw [countStep_apply]
  by_cases h : most < s.steps + 1
  · exact .inl ⟨h, if_pos h⟩
  · obtain ⟨opened, u, hu⟩ := openEntry_ok hr i { s with steps := s.steps + 1 }
    have hsteps := (confined_openEntry env i).steps_eq hu
    exact .inr ⟨by omega, opened, u, hsteps, if_neg h, hu⟩

theorem goOn_reaches (hr : env.ReadsAddresses) {most : Int} {is : List Instruction}
    {place turns : Nat} {owner : Option OpenEntry} {rest : List Frame} {s₀ s t : Session σ}
    {exit : Exit} (resume : Nat → Effect (Session σ) Exit)
    (hreach : Reaches env most turns s₀ [] (⟨is, place + 1, owner⟩ :: rest) t exit)
    (hspent : Spent most s t turns 2 exit)
    (hresume : ∀ place v, t.steps ≤ v.steps → v.steps ≤ most.toNat → ∃ exit u turns,
      resume place v = (.ok exit, u) ∧
      Reaches env most turns { v with frames := ⟨is, place, owner⟩ :: rest } owner.toList rest u
        exit ∧ Spent most v u turns 1 exit) :
    ∃ exit' u turns', goOn env resume is place exit t = (.ok exit', u) ∧
      Reaches env most turns' s₀ owner.toList rest u exit' ∧ Spent most s u turns' 3 exit' := by
  have h₁ := hspent.turns_le
  have h₂ := hspent.steps_le
  have h₀ := hspent.steps_ge
  have hmore : ∀ place v, v.steps = t.steps → exit.goesOn = true →
      (∀ n, loop env (some most) (n + turns) s₀ =
        loop env (some most) n { v with frames := ⟨is, place, owner⟩ :: rest }) →
      ∃ exit' u turns', resume place v = (.ok exit', u) ∧
        Reaches env most turns' s₀ owner.toList rest u exit' ∧
        Spent most s u turns' 3 exit' := by
    intro place v hv hg hs
    have h₃ := hspent.steps_le_of_goesOn hg
    obtain ⟨exit', u, turns', hrun, hreach', hspent'⟩ := hresume place v (by omega) (by omega)
    have h₄ := hspent'.turns_le
    have h₅ := hspent'.steps_ge
    exact ⟨exit', u, turns' + turns, hrun, hreach'.after hs,
      ⟨by omega, by omega, hspent'.steps_le, hspent'.steps_le_of_goesOn⟩⟩
  cases exit with
  | atEnd => exact hmore (place + 1) t rfl rfl fun n => hreach n
  | jumping name jump =>
    obtain ⟨left, staying, hl, hj⟩ := hreach
    rw [goOn]
    cases hm : markerIndex? name is with
    | some marker =>
      simp only [land?, hm, Option.some.injEq, Prod.mk.injEq] at hl
      obtain ⟨rfl, rfl⟩ := hl
      obtain ⟨v, hv⟩ := close_ok hr jump t
      obtain ⟨exit', u, turns', hrun, hrest⟩ := hmore (marker + 1) v
        ((confined_close env jump).steps_eq hv) rfl fun n => by
          rw [hj n]
          exact Effect.bind_ok ((confined_close env jump).under hv _) _
      exact ⟨exit', u, turns', (Effect.bind_ok hv _).trans hrun, hrest⟩
    | none =>
      simp only [land?, hm, Option.map_eq_some_iff, Prod.mk.injEq] at hl
      obtain ⟨⟨left', staying'⟩, hl', rfl, rfl⟩ := hl
      refine ⟨.jumping name jump, t, turns, rfl, ⟨left', staying', hl', fun n => ?_⟩,
        ⟨by omega, h₀, h₂, hspent.steps_le_of_goesOn⟩⟩
      rw [hj n]
      have : openEntries (⟨is, place + 1, owner⟩ :: left') =
          owner.toList ++ openEntries left' := by cases owner <;> rfl
      rw [List.nil_append, this]
  | cancelled inside =>
    exact ⟨.cancelled inside, t, turns, rfl, hreach,
      ⟨by omega, h₀, h₂, hspent.steps_le_of_goesOn⟩⟩
  | failed cause inside =>
    exact ⟨.failed cause inside, t, turns, rfl, hreach,
      ⟨by omega, h₀, h₂, hspent.steps_le_of_goesOn⟩⟩

-- The loop over a stack of frames goes the way of the recursion over lists.
theorem runFrom_reaches (hr : env.ReadsAddresses) (most : Int) (depth : Nat)
    (around : List Surrounding) (is : List Instruction) (place : Nat) (owner : Option OpenEntry)
    (rest : List Frame) (s : Session σ) (hstack : Stacked around owner rest)
    (hsteps : s.steps ≤ most.toNat) (hdepth : most.toNat < s.steps + depth) :
    ∃ exit t turns, runFrom env most depth around is place s = (.ok exit, t) ∧
      Reaches env most turns { s with frames := ⟨is, place, owner⟩ :: rest } owner.toList rest t
        exit ∧ Spent most s t turns 1 exit := by
  induction depth generalizing around is place owner rest s with
  | zero => omega
  | succ depth ih =>
    obtain ⟨goesOn, t₁, hcheck⟩ := checkpoint_ok env s
    have ht₁ := (confined_checkpoint env).steps_eq hcheck
    have hcheckF := (confined_checkpoint env).under hcheck (⟨is, place, owner⟩ :: rest)
    have hopen : ∀ place, openEntries (⟨is, place, owner⟩ :: rest) =
        around.map (·.condition) := by
      intro place
      rw [← hstack.openEntries_eq]
      cases owner <;> rfl
    rw [runFrom, Effect.bind_ok hcheck]
    cases goesOn with
    | false =>
      refine ⟨.cancelled _, t₁, 1, rfl, ⟨_, hopen place, fun n => ?_⟩, ?_⟩
      · exact loop_cancelled env (some most) n rfl hcheckF
      · exact ⟨by omega, by omega, by omega, fun h => by cases h⟩
    | true =>
      simp only [Bool.not_true, Bool.false_eq_true, ite_false]
      cases hi : is[place]? with
      | none =>
        refine ⟨.atEnd, t₁, 1, rfl, fun n => ?_, ⟨by omega, by omega, by omega, fun _ => by omega⟩⟩
        exact loop_leave env (some most) n rfl hcheckF hi
      | some i =>
        have hloop : ∀ n, loop env (some most) (n + 1)
            { s with frames := ⟨is, place, owner⟩ :: rest } =
            (do countStep (some most); execute env i; loop env (some most) n)
              { t₁ with frames := ⟨is, place + 1, owner⟩ :: rest } :=
          fun n => loop_run env (some most) n rfl hcheckF hi
        dsimp only
        rcases start_cases hr most i t₁ with
          ⟨hmost, hcount⟩ | ⟨hmost, opened, u, hu, hcount, hentry⟩
        · have hstart : (do countStep (some most); openEntry env i : Effect _ _).attempt t₁ =
              (.ok (.error (.stepLimit most)), { t₁ with steps := t₁.steps + 1 }) := by
            rw [Effect.attempt_apply, Effect.bind_error hcount]
          refine ⟨.failed (.stepLimit most) _, { t₁ with steps := t₁.steps + 1 }, 1,
            Effect.bind_ok hstart _, ⟨_, hopen (place + 1), fun n => ?_⟩, ?_⟩
          · rw [hloop n]
            refine Effect.bind_error ?_ _
            rw [countStep_apply]
            exact if_pos hmost
          · exact ⟨by simp only; omega, by simp only; omega, by simp only; omega, fun h => by cases h⟩
        · have hstart : (do countStep (some most); openEntry env i : Effect _ _).attempt t₁ =
              (.ok (.ok opened), u) := by
            rw [Effect.attempt_apply, Effect.bind_ok hcount, hentry]
          have hcarry : ∀ n, loop env (some most) (n + 1)
              { s with frames := ⟨is, place, owner⟩ :: rest } =
              (do carryOut env opened i; loop env (some most) n)
                { u with frames := ⟨is, place + 1, owner⟩ :: rest } := by
            intro n
            have hcountF : countStep (some most)
                { t₁ with frames := ⟨is, place + 1, owner⟩ :: rest } =
                (.ok (), { t₁ with
                  frames := ⟨is, place + 1, owner⟩ :: rest, steps := t₁.steps + 1 }) := by
              rw [countStep_apply]
              exact if_neg (by simp only; omega)
            rw [hloop n, Effect.bind_ok hcountF, execute, Effect.bind_assoc_apply]
            exact Effect.bind_ok ((confined_openEntry env i).under hentry _) _
          have hinside := @Stacked.inside _ ⟨is, place + 1, owner⟩ _ opened hstack
          obtain ⟨exit, t, turns, hrun, hreach, hspent⟩ := instruction_reaches
            (fun chosen => runFrom env most depth (⟨is, opened⟩ :: around) chosen 0)
            (is :: around.map (·.instructions)) i hr hcarry
            (fun chosen v hv => ih _ chosen 0 _ _ v hinside (by omega) (by omega)) (by omega)
            (by rw [List.map_cons, hstack.instructions_eq]) (hopen (place + 1))
          have h₁ := hspent.steps_ge
          obtain ⟨exit', v, turns', hgo, hreach', hspent'⟩ := goOn_reaches hr
            (runFrom env most depth around is) hreach hspent
            fun place v htv hv => ih around is place owner rest v hstack hv (by omega)
          have h₂ := hspent'.turns_le
          have h₃ := hspent'.steps_ge
          refine ⟨exit', v, turns', ?_, hreach', by omega, by omega, hspent'.steps_le,
            hspent'.steps_le_of_goesOn⟩
          rw [Effect.bind_ok hstart]
          exact (Effect.bind_ok hrun _).trans hgo

-- How the loop over the frames of a whole script ends.
theorem loop_script (hr : env.ReadsAddresses) (most : Int) (fuel : Nat)
    (script : List Instruction) (s : Session σ) (hs : s.steps = 0) :
    ∃ exit t frames, runFrom env most (most.toNat + 1) [] script 0 s = (.ok exit, t) ∧
      loop env (some most) (turnLimit (some most) fuel) { s with frames := [⟨script, 0, none⟩] } =
        (exit.outcome, { t with frames }) ∧ openEntries frames = exit.inside := by
  obtain ⟨exit, t, turns, hrun, hreach, hspent⟩ := runFrom_reaches hr most (most.toNat + 1) []
    script 0 none [] s .outermost (by omega) (by omega)
  have h₁ := hspent.turns_le
  have h₂ := hspent.steps_le
  obtain ⟨n, hn⟩ : ∃ n, turnLimit (some most) fuel = n + 1 + turns :=
    ⟨2 * most.toNat + 4 - 1 - turns, by simp only [turnLimit]; omega⟩
  rw [hn]
  cases exit with
  | atEnd =>
    refine ⟨.atEnd, t, [], hrun, ?_, rfl⟩
    rw [hreach (n + 1)]
    exact loop_nil env (some most) n _ rfl
  | jumping name jump =>
    obtain ⟨left, staying, hl, -⟩ := hreach
    cases hl
  | cancelled inside =>
    obtain ⟨frames, hf, hc⟩ := hreach
    exact ⟨.cancelled inside, t, frames, hrun, hc (n + 1), hf⟩
  | failed cause inside =>
    obtain ⟨frames, hf, hc⟩ := hreach
    exact ⟨.failed cause inside, t, frames, hrun, hc (n + 1), hf⟩

-- A run with its stack of frames does what the recursion over lists does: the same calls in the
-- same order, whatever the world answers, the same entries and the same last entry.
theorem run_eq_structured (hr : env.ReadsAddresses) (most : Int) (fuel : Nat)
    (script : List Instruction) (entries : Array Entry) :
    run env (some most) fuel script entries = Structured.run env most script entries := by
  funext world
  let restart : StateM σ Unit := do env.setControl (← env.control).restart
  let s : Session σ := ⟨(env.timer (restart world).2).2, entries, [], 0⟩
  let started := (env.timer (restart world).2).1
  obtain ⟨exit, t, frames, hrun, hloop, hinside⟩ := loop_script hr most fuel script s rfl
  rcases hc : conclude env started exit.inside exit.outcome t with ⟨outcome, u⟩
  have hframes : conclude env started exit.inside exit.outcome { t with frames } =
      (outcome, { u with frames }) := (confined_conclude env _ _ _).under hc frames
  have hattempt : (loop env (some most) (turnLimit (some most) fuel)).attempt
      { s with frames := [⟨script, 0, none⟩] } = (.ok exit.outcome, { t with frames }) := by
    rw [Effect.attempt_apply, hloop]
  have hleft : (do
      observe restart
      let started ← observe env.timer
      let outcome ← (loop env (some most) (turnLimit (some most) fuel)).attempt
      conclude env started (openEntries (← get).frames) outcome)
      ⟨world, entries, [⟨script, 0, none⟩], 0⟩ = (outcome, { u with frames }) := by
    rw [Effect.bind_ok (observe_apply restart _), Effect.bind_ok (observe_apply env.timer _)]
    rw [Effect.bind_ok hattempt, Effect.bind_ok (Effect.get_apply _), hinside]
    exact hframes
  have hright : (do
      observe restart
      let started ← observe env.timer
      let exit ← runFrom env most (most.toNat + 1) [] script 0
      conclude env started exit.inside exit.outcome) ⟨world, entries, [], 0⟩ = (outcome, u) := by
    rw [Effect.bind_ok (observe_apply restart _), Effect.bind_ok (observe_apply env.timer _)]
    rw [Effect.bind_ok hrun]
    exact hc
  unfold run Structured.run
  dsimp only
  rw [hleft, hright]

-- Jumps from two conditions deep back to the start, as long as there is a link to see.
def whileVisible : List Instruction :=
  let seen : Condition := .isVisible [.tagName "a"] none
  [.marker "top", .condition seen [.condition seen [.jump "top"] none] none]

-- A world whose link is seen twice.
def twoLooks : Rehearsal.World where
  elements := [{ selectors := Selectors.wire [.tagName "a"], visible := [true, true, false] }]

theorem run_eq_structured_whileVisible :
    let env := Rehearsal.environment Rehearsal.scriptedPages (Rehearsal.KeyedStore.store none)
    env.ReadsAddresses ∧
    run env (some 5) 0 whileVisible #[] = Structured.run env 5 whileVisible #[] ∧
    (run env (some 5) 0 whileVisible #[] twoLooks).1.toOption.map
        (fun entries => entries.toList.map Entry.kind) =
      some (List.replicate 5 "instruction" ++ ["success"]) := by
  have hr : (Rehearsal.environment Rehearsal.scriptedPages
      (Rehearsal.KeyedStore.store none)).ReadsAddresses := fun _ _ => ⟨_, rfl⟩
  exact ⟨hr, run_eq_structured hr 5 0 whileVisible #[], by decide +kernel⟩

end Gleaner
