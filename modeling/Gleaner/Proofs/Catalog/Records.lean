import Gleaner.Catalog.Execute
import Gleaner.Catalog.Record
import Gleaner.Proofs.Catalog.Execute
import Gleaner.Proofs.Json.Dates
import Gleaner.Proofs.Routine.NextRun
import Gleaner.Proofs.Script.Kept

namespace Gleaner

-- Whether a run that is kept as some JSON has failed: its last entry does not report success.
def hasFailed (run : Value) : Bool :=
  match (run.object?.bind (Fields.get? · "executionInfo")).bind Value.list? with
  | some entries =>
    (entries.getLast?.bind Value.object?).bind (Fields.get? · "type") != some (.text "success")
  | none => true

def ExecutionRecord.failed (e : ExecutionRecord) : Bool := e.iterations.any hasFailed

theorem Document.json_eq_ok {d : Document} {v : Value} (h : d.json = .ok v) :
    Json.encode? (d.toValue .stored) = some v := by
  unfold Document.json at h
  split at h
  · next w hw =>
    cases h
    exact hw
  · cases h

-- An entry is kept as an object that starts with its kind.
theorem Entry.encode?_document (e : Entry) {v : Value}
    (h : Json.encode? (e.document.toValue .stored) = some v) :
    ∃ rest, v = .object (("type", .text e.kind) :: rest) := by
  have hfields : ∃ fields, e.document.toValue .stored = .object (("type", .text e.kind) :: fields) := by
    cases e <;> exact ⟨_, rfl⟩
  obtain ⟨fields, hfields⟩ := hfields
  rw [hfields] at h
  obtain ⟨written, hwritten, rfl⟩ := Json.encode?_object h
  obtain ⟨w, rest, hw, -, rfl⟩ := Json.encodeFields?_cons hwritten
  cases hw
  exact ⟨rest, rfl⟩

theorem IterationRecord.document_stored (r : IterationRecord) :
    r.document.toValue .stored = .object [("iteration", .int r.iteration),
      ("executionInfo", .list (r.entries.map fun e => e.document.toValue .stored)),
      ("finishedAt", .moment r.finishedAt)] := by
  rw [← Document.toValue_list_map]
  rfl

-- A run that is kept has failed if it had.
theorem hasFailed_json {r : IterationRecord} {v : Value} (h : r.document.json = .ok v) :
    hasFailed v = r.failed := by
  have hwritten := Document.json_eq_ok h
  rw [r.document_stored] at hwritten
  obtain ⟨_, hfields, rfl⟩ := Json.encode?_object hwritten
  obtain ⟨number, _, -, hmore, rfl⟩ := Json.encodeFields?_cons hfields
  obtain ⟨_, rest, hinfo, -, rfl⟩ := Json.encodeFields?_cons hmore
  obtain ⟨entries, hentries, rfl⟩ := Json.encode?_list hinfo
  have hlast : r.entries.getLast?.map (fun e => Json.encode? (e.document.toValue .stored)) =
      entries.getLast?.map some := by
    rw [← List.getLast?_map, ← List.getLast?_map, ← Json.encodeItems?_map hentries, List.map_map]
    rfl
  have hread : hasFailed (.object (("iteration", number) :: ("executionInfo", .list entries) :: rest)) =
      ((entries.getLast?.bind Value.object?).bind (Fields.get? · "type") !=
        some (.text "success")) := rfl
  rw [hread, IterationRecord.failed]
  cases hr : r.entries.getLast? with
  | none =>
    rw [hr] at hlast
    rw [Option.map_eq_none_iff.mp hlast.symm]
    rfl
  | some e =>
    rw [hr] at hlast
    obtain ⟨w, hw, hwe⟩ := Option.map_eq_some_iff.mp hlast.symm
    obtain ⟨fields, rfl⟩ := e.encode?_document hwe.symm
    rw [hw]
    cases e <;> rfl

theorem runsJson_any {runs : List IterationRecord} {stored : List Value}
    (h : runsJson runs = .ok stored) : stored.any hasFailed = runs.any (·.failed) := by
  induction runs generalizing stored with
  | nil =>
    cases h
    rfl
  | cons r runs ih =>
    unfold runsJson at h
    cases hv : r.document.json with
    | error e =>
      rw [hv] at h
      cases h
    | ok v =>
      cases hrest : runsJson runs with
      | error e =>
        rw [hv, hrest] at h
        cases h
      | ok rest =>
        rw [hv, hrest] at h
        cases h
        rw [List.any_cons, List.any_cons, hasFailed_json hv, ih hrest]

namespace Catalog

-- The executions that are kept of a routine.
def runsOf (c : Catalog) (id : Nat) : List ExecutionRecord := c.executions.filter (·.routineId == id)

theorem runsOf_append {c c' : Catalog} {id : Nat} {e : ExecutionRecord}
    (he : c'.executions = c.executions ++ [e]) :
    c'.runsOf id = c.runsOf id ++ if e.routineId = id then [e] else [] := by
  rw [runsOf, he, List.filter_append]
  by_cases hid : e.routineId = id <;> simp [runsOf, hid]

end Catalog

section

open Validation

namespace Scraper

-- What is known of a scraper that has been taken.
structure Accepted (s : Scraper) : Prop where
  name : filledText (.text s.name) = .valid s.name
  instructions : Kept (fun v => nonEmpty (Instruction.checkAll v))
    ((Document.list (Instruction.documents s.instructions)).toValue .stored) s.isLegible
    s.instructions
  dataSources : items DataSource.check
    ((Document.list (s.dataSources.map DataSource.document)).toValue .stored) = .valid s.dataSources
  jumps : Instruction.unresolvedJumps s.instructions = []

theorem accepted {v : Value} {s : Scraper} (h : check v = .valid s) : s.Accepted := by
  obtain ⟨fields, -, h⟩ := model_eq_valid h
  obtain ⟨_, hfields, hresolved⟩ := Checked.andThen_eq_valid h
  unfold resolved at hresolved
  split at hresolved
  · next hjumps =>
    cases hresolved
    obtain ⟨_, sources, hfirst, hsources, rfl⟩ := Checked.ap_eq_valid hfields
    obtain ⟨_, instructions, hsecond, hinstructions, rfl⟩ := Checked.ap_eq_valid hfirst
    obtain ⟨name, hname, rfl⟩ := Checked.map_eq_valid hsecond
    obtain ⟨w, hw⟩ := required_eq_valid hinstructions
    obtain ⟨hitems, hne⟩ := nonEmpty_eq_valid hw
    refine ⟨stable_filledText.required hname, ?_, ?_, hjumps⟩
    · have hkept : Kept Instruction.checkAll
          ((Document.list (Instruction.documents instructions)).toValue .stored)
          (Instruction.areLegible instructions) instructions := by
        rw [Instruction.documents_eq_map, Instruction.areLegible_eq_all]
        refine kept_items fun i hi => ?_
        obtain ⟨x, -, hx⟩ := itemsPart_eq_valid hitems i hi
        exact Instruction.kept hx
      exact hkept.nonEmpty hne
    · rw [Document.toValue_list_map]
      exact (stable_items DataSource.stable).optional rfl hsources
  · cases hresolved

end Scraper

theorem ofChecked_toOption {α : Type} (c : Checked α) : (ofChecked c).toOption = c.value? := by
  cases c <;> rfl

theorem Document.json_of_written {d : Document}
    (h : Json.encode? (d.toValue .stored) = some (d.toValue .stored)) :
    d.json = .ok (d.toValue .stored) := by
  rw [Document.json, h]

theorem DataSource.json_documents (sources : List DataSource) :
    (Document.list (sources.map DataSource.document)).json =
      .ok ((Document.list (sources.map DataSource.document)).toValue .stored) := by
  refine Document.json_of_written ?_
  rw [Document.toValue_list_map]
  refine congrArg (Option.map Value.list) (Json.encodeItems?_self ?_)
  exact List.forall_mem_map.mpr fun s _ => rfl

-- What is read of a record depends on its instructions only: all else is read as it is kept.
theorem StoredScraper.check_kept {s : Scraper} (h : s.Accepted) (id : Nat) (w : Value) :
    (StoredScraper.check (.object [("id", .int id), ("name", .text s.name), ("instructions", w),
      ("dataSources",
        (Document.list (s.dataSources.map DataSource.document)).toValue .stored)])).value? =
      (nonEmpty (Instruction.checkAll w)).value?.bind fun is =>
        if Instruction.unresolvedJumps is = [] then some ⟨⟨s.name, is, s.dataSources⟩, id⟩
        else none := by
  change (((StoredScraper.mk <$> (Scraper.mk <$> (filledText (.text s.name)).under (.key "name")
    <*> (nonEmpty (Instruction.checkAll w)).under (.key "instructions")
    <*> (items DataSource.check ((Document.list (s.dataSources.map DataSource.document)).toValue
      .stored)).under (.key "dataSources"))
    <*> (integer (.int id)).under (.key "id"))).andThen _).value? = _
  rw [h.name, h.dataSources]
  cases nonEmpty (Instruction.checkAll w) with
  | invalid issues => rfl
  | valid is =>
    change (Checked.andThen (.valid (StoredScraper.mk ⟨s.name, is, s.dataSources⟩ id)) _).value? = _
    dsimp only [Checked.andThen, Checked.value?, Option.bind_some]
    cases hjumps : Instruction.unresolvedJumps is with
    | nil => rfl
    | cons name names => rfl

-- A scraper that has been taken can be kept, and it is read again as it was if it is legible.
theorem ScraperRecord.reread_of_accepted {s : Scraper} (h : s.Accepted) (id : Nat) :
    ∃ r, ScraperRecord.ofScraper id s = .ok r ∧
      r.scraper.toOption = if s.isLegible then some ⟨s, id⟩ else none := by
  refine ⟨⟨id, s.name, (Document.list (Instruction.documents s.instructions)).toValue .stored,
    (Document.list (s.dataSources.map DataSource.document)).toValue .stored⟩, ?_, ?_⟩
  · rw [ofScraper, Document.json_of_written h.instructions.written, DataSource.json_documents]
    rfl
  · have hread : ∀ v, (ScraperRecord.scraper ⟨id, s.name, v,
        (Document.list (s.dataSources.map DataSource.document)).toValue .stored⟩).toOption =
          (reread (fun v => nonEmpty (Instruction.checkAll v)) v).bind fun is =>
            if Instruction.unresolvedJumps is = [] then some ⟨⟨s.name, is, s.dataSources⟩, id⟩
            else none := by
      intro v
      unfold scraper restore reread
      cases Json.decode v with
      | error e => rfl
      | ok w => exact (ofChecked_toOption _).trans (StoredScraper.check_kept h id w)
    rw [hread, h.instructions.read]
    cases s.isLegible with
    | false => rfl
    | true => exact if_pos h.jumps

end

namespace Catalog

variable {c : Catalog} {r r' : RoutineRecord}

theorem mem_putRoutine (h : r' ∈ (c.putRoutine r).routines) :
    r' = r ∨ r' ∈ c.routines ∧ r'.id ≠ r.id := by
  obtain ⟨old, hold, rfl⟩ := List.mem_map.mp h
  by_cases hid : old.id = r.id
  · rw [if_pos hid]
    exact .inl rfl
  · rw [if_neg hid]
    exact .inr ⟨hold, hid⟩

theorem mem_putRoutine_self (h : c.HasRoutine r.id) : r ∈ (c.putRoutine r).routines := by
  obtain ⟨old, hold, hid⟩ := h
  exact List.mem_map.mpr ⟨old, hold, if_pos hid⟩

-- A routine is found in the place of the one with its number.
theorem routine?_putRoutine {old : RoutineRecord} (h : c.routine? old.id = some old)
    (hid : r.id = old.id) : (c.putRoutine r).routine? old.id = some r := by
  have hsame : (fun s : RoutineRecord => ((if s.id = r.id then r else s).id : Int) == old.id) =
      fun s : RoutineRecord => (s.id : Int) == old.id := by
    funext s
    by_cases hs : s.id = r.id
    · rw [if_pos hs, hs]
    · rw [if_neg hs]
  unfold routine? at h ⊢
  rw [putRoutine, List.find?_map]
  change Option.map _ (c.routines.find?
    fun s : RoutineRecord => ((if s.id = r.id then r else s).id : Int) == old.id) = some r
  rw [hsame, h]
  exact congrArg some (if_pos hid.symm)

end Catalog

namespace RoutineRecord

variable {r r' : RoutineRecord}

-- The next run is the one that follows from the status, the schedule and the last update.
def Scheduled (r : RoutineRecord) : Prop :=
  nextRunOf (.text r.status) r.schedule r.updatedAt = .ok r.nextRunAt

theorem scheduled_of_reschedule {now : Int} (hnow : r.updatedAt = now)
    (h : r.reschedule now = .ok r') : r'.Scheduled := by
  obtain ⟨next, hnext, rfl⟩ := reschedule_eq_ok h
  subst hnow
  exact hnext

theorem scheduled_of_assign {draft : RoutineDraft} {now : Int} (h : r.assign draft now = .ok r') :
    r'.Scheduled := by
  obtain ⟨iterator, next, hnext, rfl⟩ := assign_eq_ok h
  exact hnext

theorem scheduled_of_finish {failed : Bool} {startedAt finishedAt : Int}
    (h : r.finish failed startedAt finishedAt = .ok r') : r'.Scheduled :=
  scheduled_of_reschedule rfl h

theorem isExecuting_executing (r : RoutineRecord) :
    (r.withStatus .executing).isExecuting = true := beq_self_eq_true _

theorem statusAfter_idle (h : r.isExecuting = false) : statusAfter r.status = r.status := by
  have hstatus : r.status ≠ Status.executing.name := by simpa [isExecuting] using h
  exact if_neg hstatus

-- What is counted of a run of a routine that is idle.
theorem countRun_idle (h : r.isExecuting = false) (failed : Bool) :
    r.countRun failed = { r with
      runs := r.runs + 1
      failures := if failed then r.failures + 1 else 0
      status := if failed && r.failureLimit.any (· ≤ r.failures + 1) then
        Status.pausedByFailures.name else r.status } := by
  unfold countRun
  rw [statusAfter_idle h]
  cases failed with
  | false => simp
  | true =>
    dsimp only
    by_cases hlimit : r.failureLimit.any (· ≤ r.failures + 1) = true
    · simp [hlimit, withStatus]
    · simp [hlimit]

-- What a run leaves of a routine that was idle.
theorem finish_idle {failed : Bool} {startedAt finishedAt : Int} (hidle : r.isExecuting = false)
    (h : r.finish failed startedAt finishedAt = .ok r') :
    r'.id = r.id ∧ r'.runs = r.runs + 1 ∧
      r'.failures = (if failed then r.failures + 1 else 0) ∧
      r'.status = if failed && r.failureLimit.any (· ≤ r.failures + 1) then
        Status.pausedByFailures.name else r.status := by
  obtain ⟨next, -, rfl⟩ := finish_eq_ok h
  rw [countRun_idle hidle]
  exact ⟨rfl, rfl, rfl, rfl⟩

theorem isExecuting_finish {failed : Bool} {startedAt finishedAt : Int}
    (hidle : r.isExecuting = false) (h : r.finish failed startedAt finishedAt = .ok r') :
    r'.isExecuting = false := by
  obtain ⟨-, -, -, hstatus⟩ := finish_idle hidle h
  rw [isExecuting, hstatus]
  split
  · decide
  · exact hidle

end RoutineRecord

end Gleaner
