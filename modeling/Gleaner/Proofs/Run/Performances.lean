import Gleaner.Proofs.Run.Chronicle
import Gleaner.Proofs.Run.Nesting
import Mathlib.Data.List.Forall2

namespace Gleaner

open Instruction Session

-- What is recorded of an action on a page.
structure Report where
  page : Int
  action : Action
  success : Bool
  error : Option String
deriving DecidableEq

def Entry.report? : Entry → Option Report
  | .instruction (.pageAction page action succeeded problem) _ _ =>
    some ⟨page, action, succeeded, problem⟩
  | _ => none

-- The reports of a record, in order.
def reports (entries : List Entry) : List Report := entries.filterMap Entry.report?

namespace Entry

@[simp] theorem report?_untimed (e : Entry) : e.untimed.report? = e.report? := by
  cases e with
  | instruction info url duration => cases info <;> rfl
  | _ => rfl

theorem report?_eq_none_of_bare {e : Entry} (h : e.bare.report? = none) : e.report? = none := by
  cases e with
  | instruction info url duration => cases info <;> first | rfl | cases h
  | _ => rfl

theorem report?_withResult (e : Entry) (error : Option String) :
    (e.withInfo (·.withResult error)).report? =
      e.report?.map fun r => { r with success := error.isNone, error } := by
  cases e with
  | instruction info url duration => cases info <;> rfl
  | _ => rfl

end Entry

theorem StoreCall.report?_entry (call : StoreCall) : call.entry.report? = none := rfl

theorem reports_eq_of_untimed {a b : List Entry} (h : a.map Entry.untimed = b.map Entry.untimed) :
    reports a = reports b := by
  have hr (entries : List Entry) : reports entries = reports (entries.map Entry.untimed) := by
    rw [reports, reports, List.filterMap_map]
    exact congrArg (List.filterMap · entries) (funext fun e => e.report?_untimed.symm)
  rw [hr, h, ← hr]

theorem reports_storeCalls (calls : List StoreCall) : reports (calls.map StoreCall.entry) = [] := by
  rw [reports, List.filterMap_map, List.filterMap_eq_nil_iff]
  exact fun call _ => call.report?_entry

-- The report of an entry that is changed.
theorem reports_modify (before later : List Entry) (own : Entry) (change : Entry → Entry) :
    reports ((before ++ own :: later).modify before.length change) =
      reports before ++ (change own).report?.toList ++ reports later := by
  rw [List.modify_eq_take_cons_drop (by simp)]
  cases h : (change own).report? <;> simp [reports, List.filterMap_append, h]

theorem Records.bare_added {place : Nat} {closed : List OpenEntry} {told : List Entry}
    {a b : Array Entry} (h : Records place closed told a b) :
    (b.toList.drop a.size).map Entry.bare = told := by
  rw [List.map_drop, h.bare, List.drop_left' (by simp)]

-- What is recorded of other things than actions adds no report.
theorem Records.reports_eq {place : Nat} {closed : List OpenEntry} {told : List Entry}
    {a b : Array Entry} (h : Records place closed told a b) (hplace : a.size ≤ place)
    (htold : ∀ e ∈ told, e.report? = none) : reports b.toList = reports a.toList := by
  have hold : (b.toList.take a.size).map Entry.untimed = a.toList.map Entry.untimed := by
    refine List.ext_getElem? fun j => ?_
    rw [List.getElem?_map, List.getElem?_map, List.getElem?_take]
    split
    · next hj => simpa using h.untimed j (by omega)
    · next hj => simp [show a.size ≤ j by omega]
  have hnew : reports (b.toList.drop a.size) = [] := by
    rw [reports, List.filterMap_eq_nil_iff]
    exact fun e he => e.report?_eq_none_of_bare
      (htold _ (h.bare_added ▸ List.mem_map_of_mem he))
  rw [← reports_eq_of_untimed hold, ← List.append_nil (reports (b.toList.take a.size)), ← hnew,
    reports, reports, reports, ← List.filterMap_append, List.take_append_drop]

variable {σ : Type}

section

variable (env : Environment σ)

-- An action as it is carried out, with what it types and hands over.
def Action.prepare (action : Action) :
    Effect (Session σ) (Action × Option String × List (Option String)) := do
  let expanded ← inWorld (action.expand env)
  let inputs ← expanded.inputs env
  return (expanded, inputs)

-- What is recorded of the outcome of an action: the text of a failure, or its kind where that is
-- empty.
def errorOf : Except Failure Unit → Option String
  | .ok () => none
  | .error e => some e.message

theorem perform_of_error {action : Action} {page : Nat} {s t : Session σ} {e : Failure}
    (h : action.prepare env s = (.error e, t)) : action.perform env page s = (.error e, t) := by
  rcases Effect.bind_eq_error h with h | ⟨expanded, u, hu, h⟩
  · exact Effect.bind_error h _
  · rcases Effect.bind_eq_error h with h | ⟨inputs, v, -, h⟩
    · exact (Effect.bind_ok hu _).trans (Effect.bind_error h _)
    · cases h

theorem perform_of_ok {action expanded : Action} {page : Nat} {value : Option String}
    {arguments : List (Option String)} {s t : Session σ} {outcome : Except Failure Unit} {world : σ}
    (h : action.prepare env s = (.ok (expanded, value, arguments), t))
    (hp : env.pages.perform page expanded value arguments t.world = (outcome, world)) :
    action.perform env page s = (.ok (errorOf outcome), { t with world }) := by
  obtain ⟨expanded', u, hu, h⟩ := Effect.bind_eq_ok h
  obtain ⟨inputs, v, hv, h⟩ := Effect.bind_eq_ok h
  cases h
  refine (Effect.bind_ok hu _).trans ((Effect.bind_ok hv _).trans ?_)
  dsimp only
  rw [Effect.bind_apply, inWorld_apply, Effect.attempt_apply, hp]
  cases outcome <;> rfl

theorem reports_prepare (action : Action) :
    Reports (action.prepare env) ((action.expand env).onward (Action.calls env)) :=
  reports_bind_onward (reports_inWorld _) fun expanded =>
    reports_bind_first (reports_inputs env expanded) fun _ => reports_pure _

-- What a turn of a run cannot prepare: an action that it has recorded by then.
inductive FailsToPrepare (limit : Option Int) (s : Session σ) (page : Nat) (action : Action) : Prop
  | intro {f : Frame} {rest : List Frame} {t u v : Session σ} {opened : OpenEntry} {e : Failure}
      (hf : s.frames = f :: rest) (hc : checkpoint env s = (.ok true, t))
      (hi : f.instructions[f.next]? = some (.pageAction page action))
      (hcount : countStep limit { t with frames := f.advance :: rest } = (.ok (), u))
      (hopen : openEntry env (.pageAction page action) u = (.ok opened, v))
      (hprepare : (action.prepare env v).1 = .error e)

-- A report of something that was done: what was done is the action with its texts expanded, and
-- what has come of it is what the call came to.
structure Reported (r : Report) (p : Performance) : Prop where
  page : r.page = p.page
  action : ∃ world, (r.action.expand env world).1 = .ok p.action
  success : r.success = true ↔ p.outcome = .ok ()
  error : r.error = errorOf p.outcome

end

-- What has been reported, and what has been done, from one point of a run to another.
structure Accounts (s t : Session (Chronicle σ)) (rs : List Report) (ps : List Performance) :
    Prop where
  reports : Gleaner.reports t.entries.toList = Gleaner.reports s.entries.toList ++ rs
  performances : t.world.performances = s.world.performances ++ ps

namespace Accounts

variable {s t u : Session (Chronicle σ)} {rs rs' : List Report} {ps ps' : List Performance}

theorem refl (s : Session (Chronicle σ)) : Accounts s s [] [] :=
  ⟨(List.append_nil _).symm, (List.append_nil _).symm⟩

theorem trans (h : Accounts s t rs ps) (h' : Accounts t u rs' ps') :
    Accounts s u (rs ++ rs') (ps ++ ps') where
  reports := by rw [h'.reports, h.reports, List.append_assoc]
  performances := by rw [h'.performances, h.performances, List.append_assoc]

-- Nothing is reported and nothing is done.
theorem of_eq (hr : Gleaner.reports t.entries.toList = Gleaner.reports s.entries.toList)
    (hp : t.world.performances = s.world.performances) : Accounts s t [] [] :=
  ⟨by rw [hr, List.append_nil], by rw [hp, List.append_nil]⟩

theorem then_quiet (h : Accounts s t rs ps) (h' : Accounts t u [] []) : Accounts s u rs ps := by
  simpa using h.trans h'

end Accounts

variable (env : Environment σ)

theorem leavesReading_performances : env.chronicled.LeavesReading Chronicle.performances :=
  chronicled_leavesReading (fun _ _ => rfl) env

theorem passes_timer_performances :
    Passes Chronicle.performances env.chronicled.timer := fun _ => rfl

theorem close_accounts {opened : OpenEntry} {s t : Session (Chronicle σ)}
    {outcome : Except Failure Unit} (h : close env.chronicled opened s = (outcome, t)) :
    Accounts s t [] [] := by
  have hleaves :=
    leaves_close (leavesReading_performances env) (passes_timer_performances env) opened
  have hrecord := close_records s.entries.size h
  exact .of_eq (hrecord.reports_eq (Nat.le_refl _) (by simp)) (hleaves.view_eq h)

-- Preparing an action reports nothing and does nothing on a page.
theorem prepare_accounts {action : Action} {s t : Session (Chronicle σ)}
    {outcome : Except Failure (Action × Option String × List (Option String))}
    (h : action.prepare env.chronicled s = (outcome, t)) : Accounts s t [] [] := by
  have hleaves : Leaves (Chronicle.performances ∘ world) (action.prepare env.chronicled) :=
    leaves_bind (leaves_inWorld (leaves_expandAction (leavesReading_performances env) action))
      fun expanded => leaves_bind (leaves_inputs (leavesReading_performances env) expanded)
        fun _ => leaves_pure _
  have hrecord := (reports_prepare env.chronicled action).records (Nat.le_refl s.entries.size) h
  refine .of_eq (hrecord.reports_eq (Nat.le_refl _) fun e he => ?_) (hleaves.view_eq h)
  obtain ⟨call, -, rfl⟩ := List.mem_map.mp he
  exact call.report?_entry

-- What is carried out is the action with its texts expanded.
theorem prepare_expands {action expanded : Action} {inputs : Option String × List (Option String)}
    {s t : Session (Chronicle σ)}
    (h : action.prepare env.chronicled s = (.ok (expanded, inputs), t)) :
    ∃ world, (action.expand env world).1 = .ok expanded := by
  obtain ⟨expanded', u, hu, h⟩ := Effect.bind_eq_ok h
  obtain ⟨inputs', v, -, h⟩ := Effect.bind_eq_ok h
  cases h
  rw [inWorld_apply, Prod.mk.injEq] at hu
  refine ⟨s.world.world, ?_⟩
  rw [← (alike_expandAction (chronicled_alike env) action s.world s.world.world rfl).1]
  exact hu.1

-- An action that has been recorded, and cannot be prepared.
theorem carryOut_unprepared {opened : OpenEntry} {page : Nat} {action : Action}
    {s t u : Session (Chronicle σ)} {e : Failure} {outcome : Except Failure Unit}
    (hp : action.prepare env.chronicled s = (.error e, u))
    (h : carryOut env.chronicled opened (.pageAction page action) s = (outcome, t)) :
    Accounts s t [] [] ∧ ∃ e, outcome = .error e := by
  have hperform : action.perform env.chronicled page s = (.error e, u) := perform_of_error _ hp
  have hact : act env.chronicled opened (.pageAction page action) s = (.error e, u) :=
    Effect.bind_error hperform _
  have hdispatch : dispatch env.chronicled opened (.pageAction page action) s = (.error e, u) :=
    Effect.bind_error hact _
  have hattempt : (dispatch env.chronicled opened (.pageAction page action)).attempt s =
      (.ok (.error e), u) := by rw [Effect.attempt_apply, hdispatch]
  rw [carryOut, Effect.bind_ok hattempt] at h
  rcases hc : close env.chronicled opened u with ⟨closed, v⟩
  have hquiet := (prepare_accounts env hp).then_quiet (close_accounts env hc)
  cases closed with
  | error e' =>
    cases (Effect.bind_error hc _).symm.trans h
    exact ⟨hquiet, e', rfl⟩
  | ok _ =>
    cases (Effect.bind_ok hc _).symm.trans h
    exact ⟨hquiet, e, rfl⟩

-- An action that has been recorded, and is done.
theorem carryOut_prepared {opened : OpenEntry} {page : Nat} {action expanded : Action}
    {value : Option String} {arguments : List (Option String)} {own : Entry} {before : Array Entry}
    {s t u : Session (Chronicle σ)} {outcome : Except Failure Unit}
    (hown : s.entries = before.push own) (hindex : opened.index = before.size)
    (hreport : own.report? = some ⟨page, action, true, none⟩)
    (hp : action.prepare env.chronicled s = (.ok (expanded, value, arguments), u))
    (h : carryOut env.chronicled opened (.pageAction page action) s = (outcome, t)) :
    ∃ r p, reports t.entries.toList = reports before.toList ++ [r] ∧
      t.world.performances = s.world.performances ++ [p] ∧ Reported env r p := by
  rcases hdone : env.pages.perform page expanded value arguments u.world.world with ⟨done, world⟩
  let p : Performance := ⟨page, expanded, done⟩
  let r : Report := ⟨page, action, (errorOf done).isNone, errorOf done⟩
  let after : Chronicle σ :=
    { u.world with world, performances := u.world.performances ++ [p] }
  have hperformed : env.chronicled.pages.perform page expanded value arguments u.world =
      (done, after) := by
    simp only [Environment.chronicled, Chronicle.performing, hdone]
    rfl
  have hperform : action.perform env.chronicled page s =
      (.ok (errorOf done), { u with world := after }) := perform_of_ok _ hp hperformed
  let amended : Session (Chronicle σ) := { u with
    world := after
    entries := u.entries.modify opened.index (·.withInfo (·.withResult (errorOf done))) }
  have hdispatch : dispatch env.chronicled opened (.pageAction page action) s =
      (.ok false, amended) :=
    (Effect.bind_ok ((Effect.bind_ok hperform _).trans rfl) _).trans rfl
  have hattempt : (dispatch env.chronicled opened (.pageAction page action)).attempt s =
      (.ok (.ok false), amended) := by rw [Effect.attempt_apply, hdispatch]
  rw [carryOut, Effect.bind_ok hattempt] at h
  have hclosed := close_accounts env h
  have hprepared := prepare_accounts env hp
  refine ⟨r, p, ?_, ?_, ?_⟩
  · rw [hclosed.reports, List.append_nil]
    have hentries : u.entries = s.entries ++
        (((action.expand env.chronicled).onward (Action.calls env.chronicled) s.world).map
          StoreCall.entry).toArray := by
      have hreports := reports_prepare env.chronicled action s
      rw [hp, Prod.mk.injEq] at hreports
      rw [hreports.2]
    have hamended : amended.entries.toList = (before.toList ++ own ::
        ((action.expand env.chronicled).onward (Action.calls env.chronicled) s.world).map
          StoreCall.entry).modify before.toList.length (·.withInfo (·.withResult (errorOf done))) := by
      simp [amended, hentries, hown, hindex]
    rw [hamended, reports_modify, reports_storeCalls, Entry.report?_withResult, hreport,
      List.append_nil]
    rfl
  · rw [hclosed.performances, List.append_nil]
    change u.world.performances ++ [p] = _
    rw [hprepared.performances, List.append_nil]
  · refine ⟨rfl, ?_, ?_, rfl⟩
    · exact prepare_expands env hp
    · cases done <;> simp [r, p, errorOf]

-- An instruction that is no action.
theorem execute_quiet {i : Instruction} (hi : ∀ page action, i ≠ .pageAction page action)
    {s t : Session (Chronicle σ)} {outcome : Except Failure Unit}
    (h : execute env.chronicled i s = (outcome, t)) : Accounts s t [] [] := by
  have hleaves : Leaves (Chronicle.performances ∘ Session.world) (execute env.chronicled i) :=
    leaves_execute (leavesReading_performances env) (chronicled_store_leaves (fun _ _ => rfl) env)
      (passes_timer_performances env) fun page action hp => absurd hp (hi page action)
  obtain ⟨told, -, htells, ⟨closed, -, -, -, hrecord⟩, -⟩ := execute_advances h
  refine .of_eq (hrecord.reports_eq (Nat.le_refl _) fun e he => ?_) (hleaves.view_eq h)
  rcases htells with rfl | ⟨rfl, -⟩
  · rcases List.mem_cons.mp he with rfl | he
    · cases i <;> first | rfl | exact absurd rfl (hi _ _)
    · obtain ⟨call, -, rfl⟩ := List.mem_map.mp he
      exact call.report?_entry
  · cases he

-- What an instruction reports is what it does, unless it is an action that cannot be prepared.
theorem execute_accounts {i : Instruction} {s t : Session (Chronicle σ)}
    {outcome : Except Failure Unit} (h : execute env.chronicled i s = (outcome, t)) :
    (∀ page action opened u, i = .pageAction page action →
      openEntry env.chronicled i s = (.ok opened, u) →
      ∃ prepared, (action.prepare env.chronicled u).1 = .ok prepared) ∧
      (∃ rs ps, Accounts s t rs ps ∧ List.Forall₂ (Reported env) rs ps) ∨
    ∃ page action opened u e, i = .pageAction page action ∧
      openEntry env.chronicled i s = (.ok opened, u) ∧
      (action.prepare env.chronicled u).1 = .error e ∧
      Accounts s t [⟨page, action, true, none⟩] [] ∧ ∃ e, outcome = .error e := by
  by_cases hi : ∃ page action, i = .pageAction page action
  · obtain ⟨page, action, rfl⟩ := hi
    have hleaves := leaves_openEntry (leavesReading_performances env)
      (passes_timer_performances env) (.pageAction page action)
    rcases ha : env.chronicled.pages.address (Instruction.pageAction page action).page s.world with
      ⟨e | address, world⟩
    · have hopen : openEntry env.chronicled (.pageAction page action) s =
          (.error e, { s with world }) := by rw [openEntry, Effect.bind_apply, inWorld_apply, ha]
      have hsame := hleaves.view_eq hopen
      rw [execute, Effect.bind_error hopen] at h
      cases h
      refine .inl ⟨fun page action opened u _ hopened => ?_, [], [], .of_eq rfl hsame, .nil⟩
      rw [hopen] at hopened
      cases hopened
    · have hopen := openEntry_apply ha
      have hsame := hleaves.view_eq hopen
      rw [execute, Effect.bind_ok hopen] at h
      rcases hp : action.prepare env.chronicled _ with ⟨e | ⟨expanded, value, arguments⟩, v⟩
      · obtain ⟨hquiet, houtcome⟩ := carryOut_unprepared env hp h
        refine .inr ⟨page, action, _, _, e, rfl, hopen, by rw [hp], ⟨?_, ?_⟩, houtcome⟩
        · rw [hquiet.reports, Array.toList_push, reports, List.filterMap_append]
          simp [reports, Entry.report?, InstructionInfo.ofInstruction]
        · rw [hquiet.performances, List.append_nil, List.append_nil]
          exact hsame
      · obtain ⟨r, p, hreports, hperformances, hreported⟩ := carryOut_prepared env rfl rfl rfl hp h
        refine .inl ⟨fun page action opened u hi hopened => ?_, [r], [p], ⟨hreports, ?_⟩,
          .cons hreported .nil⟩
        · cases hi
          rw [hopen] at hopened
          cases hopened
          exact ⟨_, congrArg Prod.fst hp⟩
        · rw [hperformances]
          exact congrArg (· ++ [p]) hsame
  · refine .inl ⟨fun page action _ _ he => absurd ⟨page, action, he⟩ hi, [], [], ?_, .nil⟩
    exact execute_quiet env (fun page action he => hi ⟨page, action, he⟩) h

theorem closeAll_accounts {entries : List OpenEntry} {s t : Session (Chronicle σ)}
    {outcome : Except Failure Unit} (h : closeAll env.chronicled entries s = (outcome, t)) :
    Accounts s t [] [] := by
  have hleaves := leaves_closeAll (leavesReading_performances env) (passes_timer_performances env)
    entries
  have hrecord := closeAll_records s.entries.size h
  exact .of_eq (hrecord.reports_eq (Nat.le_refl _) (by simp)) (hleaves.view_eq h)

theorem checkpoint_accounts {s t : Session (Chronicle σ)} {outcome : Except Failure Bool}
    (h : checkpoint env.chronicled s = (outcome, t)) : Accounts s t [] [] :=
  .of_eq (by rw [checkpoint_entries h])
    ((chronicled_checkpoint_leaves (fun _ _ => rfl) env).view_eq h)

omit env in
theorem countStep_accounts {limit : Option Int} {s t : Session (Chronicle σ)}
    {outcome : Except Failure Unit} (h : countStep limit s = (outcome, t)) :
    Accounts s t [] [] := by
  cases limit with
  | none =>
    cases h
    exact .of_eq rfl rfl
  | some most =>
    rw [countStep_apply] at h
    split at h <;> (cases h; exact .of_eq rfl rfl)

-- Where a turn runs an instruction, it is that one it may fail to prepare.
theorem FailsToPrepare.takes {limit : Option Int} {s t : Session σ} {f : Frame} {rest : List Frame}
    {page : Nat} {action : Action} {goesOn : Bool} (h : FailsToPrepare env limit s page action)
    (hf : s.frames = f :: rest) (hc : checkpoint env s = (.ok goesOn, t)) :
    goesOn = true ∧ f.instructions[f.next]? = some (.pageAction page action) ∧ ∃ u opened v e,
      countStep limit { t with frames := f.advance :: rest } = (.ok (), u) ∧
      openEntry env (.pageAction page action) u = (.ok opened, v) ∧
      (action.prepare env v).1 = .error e := by
  obtain ⟨hf', hc', hi, hcount, hopen, hprepare⟩ := h
  rw [hf, List.cons.injEq] at hf'
  obtain ⟨rfl, rfl⟩ := hf'
  rw [hc, Prod.mk.injEq, Except.ok.injEq] at hc'
  obtain ⟨rfl, rfl⟩ := hc'
  exact ⟨rfl, hi, _, _, _, _, hcount, hopen, hprepare⟩

-- So does a turn.
theorem turn_accounts {limit : Option Int} {s t : Session (Chronicle σ)}
    {outcome : Except Failure (Option Ending)}
    (h : turn env.chronicled limit s = (outcome, t)) :
    (∀ page action, ¬FailsToPrepare env.chronicled limit s page action) ∧
      (∃ rs ps, Accounts s t rs ps ∧ List.Forall₂ (Reported env) rs ps) ∨
    ∃ page action, FailsToPrepare env.chronicled limit s page action ∧
      Accounts s t [⟨page, action, true, none⟩] [] ∧ ∃ e, outcome = .error e := by
  cases hf : s.frames with
  | nil =>
    rw [turn_nil env.chronicled limit s hf] at h
    cases h
    refine .inl ⟨fun page action hfails => ?_, [], [], .refl s, .nil⟩
    obtain ⟨hf', -⟩ := hfails
    rw [hf] at hf'
    cases hf'
  | cons f rest =>
    obtain ⟨goesOn, u, hc⟩ := checkpoint_ok env.chronicled s
    have hchecked := checkpoint_accounts env hc
    cases goesOn with
    | false =>
      rw [turn_cancelled env.chronicled limit hf hc] at h
      cases h
      refine .inl ⟨fun page action hfails => ?_, [], [], hchecked, .nil⟩
      cases (hfails.takes _ hf hc).1
    | true =>
      cases hi : f.instructions[f.next]? with
      | none =>
        rw [turn_leave env.chronicled limit hf hc hi] at h
        rcases hclose : closeAll env.chronicled f.owner.toList { u with frames := rest } with
          ⟨closed, v⟩
        have ht := Effect.bind_pure_snd (closeAll env.chronicled f.owner.toList)
          (none : Option Ending) { u with frames := rest }
        rw [h, hclose] at ht
        obtain rfl : t = v := ht
        have hclosed := closeAll_accounts env hclose
        refine .inl ⟨fun page action hfails => ?_, [], [],
          hchecked.then_quiet ⟨hclosed.reports, hclosed.performances⟩, .nil⟩
        have hnext := (hfails.takes _ hf hc).2.1
        rw [hi] at hnext
        cases hnext
      | some i =>
        rw [turn_run env.chronicled limit hf hc hi] at h
        have htaken : Accounts s { u with frames := f.advance :: rest } [] [] :=
          ⟨hchecked.reports, hchecked.performances⟩
        rcases hcount : countStep limit { u with frames := f.advance :: rest } with ⟨e | _, v⟩
        · cases (Effect.bind_error hcount _).symm.trans h
          refine .inl ⟨fun page action hfails => ?_, [], [],
            htaken.then_quiet (countStep_accounts hcount), .nil⟩
          obtain ⟨-, -, _, _, _, _, hcounted, -⟩ := hfails.takes _ hf hc
          cases hcount.symm.trans hcounted
        · have h := (Effect.bind_ok hcount _).symm.trans h
          have hcounted : Accounts s v [] [] := htaken.then_quiet (countStep_accounts hcount)
          rcases hrun : execute env.chronicled i v with ⟨result, w⟩
          have ht := Effect.bind_pure_snd (execute env.chronicled i) (none : Option Ending) v
          rw [h, hrun] at ht
          obtain rfl : t = w := ht
          rcases execute_accounts env hrun with ⟨hprepares, rs, ps, hrest, hreported⟩ |
            ⟨page, action, opened, x, e, rfl, hopen, hprepare, hrest, e', rfl⟩
          · refine .inl ⟨fun page action hfails => ?_, rs, ps, hcounted.trans hrest, hreported⟩
            obtain ⟨-, hnext, v', opened, x, e, hcount', hopen, hprepare⟩ := hfails.takes _ hf hc
            cases hi.symm.trans hnext
            cases hcount.symm.trans hcount'
            obtain ⟨prepared, hprepared⟩ := hprepares page action opened x rfl hopen
            cases hprepare.symm.trans hprepared
          · exact .inr ⟨page, action, .intro hf hc hi hcount hopen hprepare, hcounted.trans hrest,
              e', congrArg Prod.fst (h.symm.trans (Effect.bind_error hrun _))⟩

-- One of a number of turns fails to prepare the action it comes to.
def Unprepared (limit : Option Int) (n : Nat) (s : Session σ) : Prop :=
  ∃ m t page action, m < n ∧ Turns env limit m s t ∧ FailsToPrepare env limit t page action

theorem unprepared_succ {limit : Option Int} {n : Nat} {s t : Session σ}
    (hs : ∀ page action, ¬FailsToPrepare env limit s page action)
    (ht : turn env limit s = (.ok none, t)) :
    Unprepared env limit (n + 1) s ↔ Unprepared env limit n t := by
  constructor
  · rintro ⟨m, u, page, action, hm, hturns, hfails⟩
    cases hturns with
    | zero => exact absurd hfails (hs page action)
    | next ht' hturns =>
      cases ht.symm.trans ht'
      exact ⟨_, u, page, action, by omega, hturns, hfails⟩
  · rintro ⟨m, u, page, action, hm, hturns, hfails⟩
    exact ⟨m + 1, u, page, action, by omega, .next ht hturns, hfails⟩

-- Nothing comes after a turn that ends the run.
theorem not_unprepared {limit : Option Int} {n : Nat} {s : Session σ}
    (hs : ∀ page action, ¬FailsToPrepare env limit s page action)
    (ht : ∀ t, turn env limit s ≠ (.ok none, t)) : ¬Unprepared env limit (n + 1) s := by
  rintro ⟨m, u, page, action, -, hturns, hfails⟩
  cases hturns with
  | zero => exact hs page action hfails
  | next ht' => exact ht _ ht'

-- The turns of a run report what they do, up to the one that cannot prepare its action, if there
-- is one.
theorem loop_accounts {limit : Option Int} {n : Nat} {s t : Session (Chronicle σ)}
    {outcome : Except Failure Ending} (h : loop env.chronicled limit n s = (outcome, t)) :
    ∃ rs ps, List.Forall₂ (Reported env) rs ps ∧
      (¬Unprepared env.chronicled limit n s ∧ Accounts s t rs ps ∨
        Unprepared env.chronicled limit n s ∧ ∃ page action,
          Accounts s t (rs ++ [⟨page, action, true, none⟩]) ps) := by
  induction n generalizing s with
  | zero =>
    cases h
    refine ⟨[], [], .nil, .inl ⟨?_, .refl _⟩⟩
    rintro ⟨m, u, page, action, hm, -⟩
    omega
  | succ n ih =>
    rw [loop_succ] at h
    rcases ht : turn env.chronicled limit s with ⟨e | _ | ending, u⟩ <;> rw [ht] at h <;>
      rcases turn_accounts env ht with
        ⟨hnone, rs, ps, hfirst, hreported⟩ | ⟨page, action, hfails, hlast, e', houtcome⟩
    · cases h
      exact ⟨rs, ps, hreported, .inl ⟨not_unprepared _ hnone (by rw [ht]; nofun), hfirst⟩⟩
    · cases h
      exact ⟨[], [], .nil, .inr ⟨⟨0, s, page, action, by omega, .zero s, hfails⟩, page, action,
        hlast⟩⟩
    · obtain ⟨rs', ps', hreported', hrest⟩ := ih h
      refine ⟨rs ++ rs', ps ++ ps', List.rel_append hreported hreported', ?_⟩
      rw [unprepared_succ _ hnone ht]
      refine hrest.imp (And.imp id hfirst.trans) (And.imp id ?_)
      rintro ⟨page, action, hlast⟩
      refine ⟨page, action, ?_⟩
      rw [List.append_assoc]
      exact hfirst.trans hlast
    · cases houtcome
    · cases h
      exact ⟨rs, ps, hreported, .inl ⟨not_unprepared _ hnone (by rw [ht]; nofun), hfirst⟩⟩
    · cases houtcome

-- Nothing is reported any more when the lists have ended.
theorem conclude_accounts {started : Seconds} {inside : List OpenEntry}
    {s t : Session (Chronicle σ)} {outcome : Except Failure Ending} {result : Except Failure Unit}
    (hs : ∀ ending, outcome = .ok ending → ending = .completed ∧ s.frames = [] ∨
      ending = .cancelled ∧ ∃ u, checkpoint env.chronicled u = (.ok false, s))
    (h : conclude env.chronicled started inside outcome s = (result, t)) : Accounts s t [] [] := by
  have hleaves := leaves_conclude (passes_timer_performances env) started inside outcome
  refine .of_eq ?_ (hleaves.view_eq h)
  rcases conclude_records s.entries.size hs h with ⟨-, -, rfl⟩ | ⟨u, last, -, hlast, hrecord, ht⟩
  · rfl
  · have hnone : reports last = [] := by cases hlast <;> rfl
    rw [ht, Array.toList_append, reports, List.filterMap_append, ← reports, ← reports, hnone,
      List.append_nil]
    exact hrecord.reports_eq (Nat.le_refl _) (by simp)

-- What a whole run adds to a record, whether or not it comes to an end.
theorem wholeRun_entries (limit : Option Int) (fuel : Nat) (script : List Instruction)
    (entries : Array Entry) (world : σ) :
    ∃ added, (wholeRun env limit fuel script entries world).2.entries.toList =
      entries.toList ++ added := by
  rcases hloop : loop env limit (turnLimit limit fuel) (begun env script entries world) with
    ⟨outcome, t⟩
  obtain ⟨told, -, hrecord, hinside⟩ := loop_advances hloop
  have hnew : ∀ o ∈ openEntries t.frames, entries.size ≤ o.index := fun o ho =>
    (hinside o ho).resolve_left (by rintro ⟨⟩)
  rcases wholeRun_records hloop hrecord hnew with
    hwhole | ⟨final, added, last, hwhole, -, -, hfinal⟩ <;> rw [hwhole]
  · obtain ⟨added, hadded, -⟩ := hrecord.split (by rintro o ⟨⟩)
    exact ⟨added, hadded⟩
  · exact ⟨added ++ last, by rw [hfinal, List.append_assoc]⟩

-- A run reports exactly what it does on pages, unless it comes to an action that it cannot
-- prepare: that one is never done, ends the run, and is reported as a success.
theorem reports_performances_iff (limit : Option Int) (fuel : Nat) (script : List Instruction)
    (entries : Array Entry) (world : σ) :
    let start := begun env.chronicled script entries (.blank world)
    let whole := wholeRun env.chronicled limit fuel script entries (.blank world)
    let unprepared := Unprepared env.chronicled limit (turnLimit limit fuel) start
    (run env limit fuel script entries world).1 = whole.1.map (fun _ => whole.2.entries) ∧
    ∃ added, whole.2.entries.toList = entries.toList ++ added ∧
      (List.Forall₂ (Reported env) (reports added) whole.2.world.performances ↔ ¬unprepared) ∧
      (unprepared → ∃ rs page action, reports added = rs ++ [⟨page, action, true, none⟩] ∧
        List.Forall₂ (Reported env) rs whole.2.world.performances) := by
  intro start whole unprepared
  refine ⟨run_chronicled env limit fuel script entries world, ?_⟩
  obtain ⟨added, hadded⟩ := wholeRun_entries env.chronicled limit fuel script entries (.blank world)
  refine ⟨added, hadded, ?_⟩
  rcases hloop : loop env.chronicled limit (turnLimit limit fuel) start with ⟨outcome, t⟩
  have hwhole := wholeRun_of_loop env.chronicled limit hloop
  have hquiet : Accounts t whole.2 [] [] :=
    conclude_accounts env (loop_outcome env.chronicled limit hloop) hwhole.symm
  have haccounts : ∀ {rs ps}, Accounts start t rs ps →
      reports added = rs ∧ whole.2.world.performances = ps := by
    intro rs ps h
    obtain ⟨hreports, hperformances⟩ := h.then_quiet hquiet
    rw [hadded, reports, List.filterMap_append] at hreports
    exact ⟨List.append_cancel_left hreports, hperformances⟩
  obtain ⟨rs, ps, hreported, ⟨hnone, hquiet⟩ | ⟨hfails, page, action, hlast⟩⟩ :=
    loop_accounts env hloop
  · obtain ⟨hrs, hps⟩ := haccounts hquiet
    rw [hrs, hps]
    exact ⟨iff_of_true hreported hnone, fun hfails => absurd hfails hnone⟩
  · obtain ⟨hrs, hps⟩ := haccounts hlast
    rw [hrs, hps]
    refine ⟨iff_of_false (fun hall => ?_) (not_not_intro hfails),
      fun _ => ⟨rs, page, action, rfl, hreported⟩⟩
    have hlength := hall.length_eq
    rw [← hreported.length_eq, List.length_append, List.length_singleton] at hlength
    omega

-- Goes to an address that no token of it can be expanded to.
def toNowhere : List Instruction := [.pageAction 0 (.navigate "\x7b\x7bBogus\x7d\x7d")]

-- It is reported as a success, and nothing has been done.
theorem not_reported_toNowhere :
    let env := Rehearsal.environment Rehearsal.scriptedPages (Rehearsal.KeyedStore.store none)
    let whole := wholeRun env.chronicled none 5 toNowhere #[] (.blank {})
    (run env none 5 toNowhere #[] {}).1.toOption.map (fun all => reports all.toList) =
        some [⟨0, .navigate "\x7b\x7bBogus\x7d\x7d", true, none⟩] ∧
      whole.2.world.performances.length = 0 ∧
      ¬List.Forall₂ (Reported env) (reports whole.2.entries.toList) whole.2.world.performances := by
  intro env whole
  have hreports : reports whole.2.entries.toList =
      [⟨0, .navigate "\x7b\x7bBogus\x7d\x7d", true, none⟩] := by decide +kernel
  have hnothing : whole.2.world.performances.length = 0 := by decide +kernel
  refine ⟨by decide +kernel, hnothing, fun hall => ?_⟩
  have hlength := hall.length_eq
  rw [hreports, hnothing] at hlength
  cases hlength

end Gleaner
