import Gleaner.Proofs.Number.Order
import Gleaner.Proofs.Run.Deeds
import Gleaner.Proofs.Run.Keeps
import Gleaner.Proofs.Trace.Wire

namespace Gleaner

open Instruction Session

-- Time never runs backwards.
theorem compareInt?_elapsed (started now : Seconds) :
    (elapsed started now).compareInt? 0 ≠ some .lt := by
  rw [elapsed]
  split_ifs with h
  · exact Binary64.compareInt?_of_isNegative rfl
  · exact h

-- What was read, if anything, is a datum.
def Entry.readsDatum : Entry → Bool
  | .operation (.get _ returned _) => returned.isDatum
  | _ => true

theorem Value.isDatum_ofText? (text : Option String) : (Value.ofText? text).isDatum = true := by
  cases text <;> rfl

variable {σ : Type} {env : Environment σ} {limit : Option Int}

-- What is to be written is a text or nothing.
theorem isDatum_resolveItems {items : List BatchItem} {s t : Session σ}
    {values : List (String × Value)} (h : resolveItems env items s = (.ok values, t)) :
    ∀ v ∈ values, v.2.isDatum = true := by
  induction items generalizing s values with
  | nil =>
    cases h
    nofun
  | cons item rest ih =>
    obtain ⟨text, u, -, h⟩ := Effect.bind_eq_ok h
    obtain ⟨others, u', hrest, h⟩ := Effect.bind_eq_ok h
    cases h
    exact List.forall_mem_cons.mpr ⟨Value.isDatum_ofText? text, ih hrest⟩

theorem Effect.mem_onward {α : Type} {work : Effect σ α} {calls : α → σ → List StoreCall}
    {world : σ} {call : StoreCall} (h : call ∈ work.onward calls world) :
    ∃ a after, work world = (.ok a, after) ∧ call ∈ calls a after := by
  unfold onward at h
  split at h
  · next a after heq => exact ⟨a, after, heq, h⟩
  · cases h

namespace StoreCall

-- A call that reads, or one that hands over nothing but data.
def IsPlain (call : StoreCall) : Prop :=
  call.entry.readsDatum = true → ∀ v ∈ call.operation.data, v.isDatum = true

theorem isPlain_get (key : String) (outcome : Except Failure Value) : (get key outcome).IsPlain :=
  fun h _ hv => List.mem_singleton.mp hv ▸ h

end StoreCall

theorem Source.calls_plain {source : Source} {world : σ} :
    ∀ call ∈ source.calls env world, call.IsPlain := by
  cases source with
  | externalData key default => exact List.forall_mem_singleton.mpr (StoreCall.isPlain_get _ _)
  | _ => exact List.forall_mem_nil _

theorem sourceCalls_plain {sources : List Source} {world : σ} :
    ∀ call ∈ sourceCalls env sources world, call.IsPlain := by
  induction sources generalizing world with
  | nil => exact List.forall_mem_nil _
  | cons source rest ih =>
    rw [sourceCalls, List.forall_mem_append]
    refine ⟨Source.calls_plain, fun call hcall => ?_⟩
    obtain ⟨_, after, -, hcall⟩ := Effect.mem_onward hcall
    exact ih call hcall

theorem Action.calls_plain {action : Action} {world : σ} :
    ∀ call ∈ action.calls env world, call.IsPlain := by
  cases action with
  | type selectors value clears enters waits => exact Source.calls_plain
  | evaluate code arguments => exact sourceCalls_plain
  | _ => exact List.forall_mem_nil _

theorem Instruction.calls_plain {i : Instruction} {world : σ} :
    ∀ call ∈ i.calls env world, call.IsPlain := by
  cases i with
  | pageAction page action =>
    intro call hcall
    obtain ⟨expanded, after, -, hcall⟩ := Effect.mem_onward hcall
    exact Action.calls_plain call hcall
  | condition test consequent alternative =>
    cases test with
    | isVisible selectors page => exact List.forall_mem_nil _
    | textEquals source matcher => exact Source.calls_plain
  | saveData key source =>
    rw [Instruction.calls, List.forall_mem_append]
    refine ⟨Source.calls_plain, fun call hcall => ?_⟩
    obtain ⟨text, after, -, hcall⟩ := Effect.mem_onward hcall
    rw [List.mem_singleton.mp hcall]
    exact fun _ => List.forall_mem_singleton.mpr (Value.isDatum_ofText? text)
  | saveDataBatch source items =>
    rw [Instruction.calls, List.forall_mem_append]
    refine ⟨sourceCalls_plain, fun call hcall => ?_⟩
    obtain ⟨values, after, hvalues, hcall⟩ := Effect.mem_onward hcall
    have hresolved := isDatum_resolveItems (Prod.ext (congrArg (·.1) hvalues) rfl)
    rw [List.mem_singleton.mp hcall]
    exact fun _ => List.forall_mem_map.mpr hresolved
  | deleteData source => exact List.forall_mem_singleton.mpr fun _ => List.forall_mem_nil _
  | marker name => exact List.forall_mem_nil _
  | jump name => exact List.forall_mem_nil _

-- A part of the script, and the calls it makes.
def Deed.IsOf (env : Environment σ) (script : List Instruction) (d : Deed) : Prop :=
  d.instruction ∈ partsOfList script ∧ ∃ world, d.calls = d.instruction.calls env world

theorem deed?_isOf {script : List Instruction} {s : Session σ} (hs : Reachable env limit script s)
    {d : Deed} (h : deed? env limit s = some d) : d.IsOf env script := by
  unfold deed? at h
  split at h
  · next f rest t hf hc =>
    obtain ⟨i, hi, h⟩ := Option.bind_eq_some_iff.mp h
    unfold deedOf? at h
    split at h
    · cases h
      exact ⟨hs.mem_parts hf hi, _, rfl⟩
    · cases h
  · cases h

-- Nothing is executed but what is in the script.
theorem deeds_isOf {script : List Instruction} {n : Nat} {s : Session σ}
    (hs : Reachable env limit script s) : ∀ d ∈ deeds env limit n s, d.IsOf env script := by
  induction n generalizing s with
  | zero => exact List.forall_mem_nil _
  | succ n ih =>
    rw [deeds, List.forall_mem_append]
    refine ⟨fun d hd => deed?_isOf hs (Option.mem_toList.mp hd), ?_⟩
    split
    · next t ht => exact ih (hs.turn ht)
    · exact List.forall_mem_nil _

-- What is recorded of it is read again as it was.
theorem Deed.IsOf.lasts {script : List Instruction} (hscript : ∀ i ∈ script, i.Lasts) {d : Deed}
    (hd : d.IsOf env script) {e : Entry} (he : e.bare ∈ d.entries) (hreads : e.readsDatum = true) :
    e.Lasts := by
  obtain ⟨hpart, world, hcalls⟩ := hd
  rcases List.mem_cons.mp he with heq | hcall
  · cases e with
    | instruction info url duration =>
      have hinfo : info.bare = .ofInstruction d.instruction := by
        injection heq
      exact Entry.lasts_instruction (lasts_partsOfList hscript _ hpart) hinfo url duration
    | _ => cases heq
  · obtain ⟨call, hmem, heq⟩ := List.mem_map.mp hcall
    rw [hcalls] at hmem
    cases e with
    | instruction info url duration => cases heq
    | operation op =>
      cases heq
      exact Entry.lasts_operation (Instruction.calls_plain call hmem hreads)
    | success duration => cases heq
    | error message duration => cases heq

-- So is the entry a run ends with.
theorem conclude_lasts {started : Seconds} {inside : List OpenEntry} {s t : Session σ}
    {outcome : Except Failure Ending} (h : conclude env started inside outcome s = (.ok (), t)) :
    outcome = .ok .cancelled ∨ ∃ e, t.entries.back? = some e ∧ e.Lasts := by
  cases outcome with
  | ok ending =>
    cases ending with
    | completed =>
      cases h
      exact .inr ⟨_, Array.back?_push, Entry.lasts_success (compareInt?_elapsed _ _)⟩
    | cancelled => exact .inl rfl
  | error e =>
    by_cases he : e = .unfinished
    · subst he
      cases h
    · rw [conclude_error env started inside he] at h
      obtain ⟨_, u, -, h⟩ := Effect.bind_eq_ok h
      cases h
      exact .inr ⟨_, Array.back?_push, Entry.lasts_error _ (compareInt?_elapsed _ _)⟩

theorem LastEntry.lasts {outcome : Except Failure Ending} {s : Session σ} {last : List Entry}
    (h : LastEntry env outcome s last) {entries : Array Entry} {front : List Entry}
    (hentries : entries.toList = front ++ last)
    (hback : outcome = .ok .cancelled ∨ ∃ e, entries.back? = some e ∧ e.Lasts) :
    ∀ e ∈ last, e.Lasts := by
  have hlast : ∀ final, last = [final] → outcome ≠ .ok .cancelled → ∀ e ∈ last, e.Lasts := by
    rintro final rfl houtcome
    obtain ⟨e, he, hlasts⟩ := hback.resolve_left houtcome
    rw [← Array.getLast?_toList, hentries, List.getLast?_concat, Option.some.injEq] at he
    subst he
    exact List.forall_mem_singleton.mpr hlasts
  cases h with
  | success duration hframes => exact hlast _ rfl nofun
  | none hc => exact List.forall_mem_nil _
  | error duration he => exact hlast _ rfl nofun

-- Every trace of a run is read again as it was written, if the script was taken from data and
-- nothing was read from the data store that JSON cannot hold.
theorem run_lasts {v : Value} {script : List Instruction} (hv : v.isWellFormed = true)
    (hscript : checkAll v = .valid script) (hlegible : areLegible script = true) {fuel : Nat}
    {entries all : Array Entry} {world : σ} (hentries : ∀ e ∈ entries.toList, e.Lasts)
    (hrun : (run env limit fuel script entries world).1 = .ok all)
    (hreads : ∀ e ∈ all.toList, e.readsDatum = true) (indent : Option Nat) :
    ∃ text, TraceLog.toJson indent all = some text ∧ TraceLog.ofJson text = .ok all := by
  have hparts : ∀ i ∈ script, i.Lasts := fun i hi => by
    rw [areLegible_eq_all, List.all_eq_true] at hlegible
    obtain ⟨w, -, hw, hitem⟩ := itemsPart_wellFormed hv hscript i hi
    exact ⟨⟨w, hitem⟩, writesJson hw hitem, hlegible i hi⟩
  rcases hloop : loop env limit (turnLimit limit fuel) (begun env script entries world) with
    ⟨outcome, t⟩
  obtain ⟨told, ⟨htold, -⟩, hrecord, hinside⟩ := loop_advances hloop
  have hnew : ∀ o ∈ openEntries t.frames, entries.size ≤ o.index := fun o ho =>
    (hinside o ho).resolve_left (by rintro ⟨⟩)
  rw [run_eq_wholeRun] at hrun
  rcases wholeRun_records hloop hrecord hnew with
    hwhole | ⟨final, added, last, hwhole, hlast, hadded, hfinal⟩ <;> rw [hwhole] at hrun <;>
    cases hrun
  have hback := conclude_lasts ((wholeRun_of_loop env limit hloop).symm.trans hwhole)
  refine TraceLog.ofJson_toJson indent fun e he => ?_
  have hread := hreads e he
  rw [hfinal, List.mem_append, List.mem_append] at he
  rcases he with (he | he) | he
  · exact hentries e he
  · have hbare : e.bare ∈ told := hadded ▸ List.mem_map_of_mem he
    obtain ⟨d, hd, he⟩ := List.mem_flatMap.mp (htold.subset hbare)
    exact (deeds_isOf (.start _ _) d hd).lasts hparts he hread
  · exact hlast.lasts hfinal hback e he

theorem run_lasts_copyAndClear :
    let env := Rehearsal.environment Rehearsal.scriptedPages (Rehearsal.KeyedStore.store none)
    (Value.list (copyAndClear.map wire)).isWellFormed = true ∧
    checkAll (.list (copyAndClear.map wire)) = .valid copyAndClear ∧
    areLegible copyAndClear = true ∧
    ∃ all text, (run env (some 5) 0 copyAndClear #[] locked).1 = .ok all ∧
      (∀ e ∈ all.toList, e.readsDatum = true) ∧ TraceLog.toJson (some 2) all = some text ∧
      TraceLog.ofJson text = .ok all := by
  intro env
  have hscript : checkAll (.list (copyAndClear.map wire)) = .valid copyAndClear := by
    have hsave : check (saveData "s.b" (.externalData "s.a" none)).wire =
        .valid (.saveData "s.b" (.externalData "s.a" none)) := by
      rw [check]
      rfl
    rw [checkAll, copyAndClear, Validation.items_list]
    simp only [List.map_cons, List.map_nil]
    rw [check, check]
    change Validation.Checked.ofItems [(condition <$>
        .valid (.textEquals (.externalData "s.a" none) (.exactly "x")) <*>
      (Validation.Checked.ofItems
        [check (saveData "s.b" (.externalData "s.a" none)).wire] 0).under _ <*>
          .valid none).under _, .valid (deleteData "s")] 0 = _
    rw [hsave]
    rfl
  have hreads : ((run env (some 5) 0 copyAndClear #[] locked).1.toOption.any fun all =>
      all.toList.all Entry.readsDatum) = true := by decide +kernel
  rcases hrun : (run env (some 5) 0 copyAndClear #[] locked).1 with e | all <;> rw [hrun] at hreads
  · cases hreads
  · have hreads := List.all_eq_true.mp hreads
    obtain ⟨text, hwritten, hread⟩ :=
      run_lasts rfl hscript rfl (List.forall_mem_nil _) hrun hreads (some 2)
    exact ⟨rfl, hscript, rfl, all, text, rfl, hreads, hwritten, hread⟩

end Gleaner
