import Gleaner.Proofs.Run.Nesting
import Gleaner.Proofs.Script.Numbering

namespace Gleaner

open Instruction Session

-- What a condition has been found to be.
def Entry.truth? : Entry → Option Bool
  | .instruction (.condition _ isMet) _ _ => some isMet
  | _ => none

@[simp] theorem Entry.truth?_untimed (e : Entry) : e.untimed.truth? = e.truth? := by
  cases e with
  | instruction info url duration => cases info <;> rfl
  | _ => rfl

-- Which branch of a condition is being run.
def OpenEntry.truth? (entries : Array Entry) (o : OpenEntry) : Option Bool :=
  entries[o.index]?.bind Entry.truth?

-- The number of the first instruction of the innermost list. That of a branch depends on which of
-- the two it is, and so on what its condition has been found to be.
def startOf (entries : Array Entry) : List Frame → Nat
  | f :: g :: rest =>
    match g.instructions[g.next - 1]?, f.owner.bind (OpenEntry.truth? entries) with
    | some (.condition _ consequent alternative), some isMet =>
      (Block.branch ⟨g.instructions, startOf entries (g :: rest)⟩ (g.next - 1) consequent
        alternative isMet).start
    | _, _ => 0
  | _ => 0

-- The number of the instruction a run comes to next, or the next number behind the innermost list
-- when that is used up.
def Session.number {σ : Type} (script : List Instruction) (s : Session σ) : Nat :=
  match s.frames with
  | [] => (partsOfList script).length
  | f :: rest => Block.number ⟨f.instructions, startOf s.entries (f :: rest)⟩ f.next

-- The lists of a frame and of those below it, as lists of the script.
inductive Stands (script : List Instruction) (entries : Array Entry) :
    Frame → List Frame → Block → List Block → Prop
  | script (next : Nat) (owner : Option OpenEntry) :
      Stands script entries ⟨script, next, owner⟩ [] ⟨script, 0⟩ []
  | branch {f : Frame} {rest : List Frame} {b : Block} {around : List Block} {place : Nat}
      {test : Condition} {consequent : List Instruction} {alternative : Option (List Instruction)}
      {isMet : Bool} (next : Nat) {o : OpenEntry} (h : Stands script entries f rest b around)
      (hn : f.next = place + 1)
      (hi : b.instructions[place]? = some (.condition test consequent alternative))
      (ho : o.truth? entries = some isMet) :
      Stands script entries
        ⟨(b.branch place consequent alternative isMet).instructions, next, some o⟩ (f :: rest)
        (b.branch place consequent alternative isMet) (b :: around)

-- The same of all the frames of a run, of which there are none at its end.
def StandsIn (script : List Instruction) (entries : Array Entry) : List Frame → Prop
  | [] => True
  | f :: rest => ∃ b around, Stands script entries f rest b around

namespace Stands

variable {script : List Instruction} {entries : Array Entry} {f : Frame} {rest : List Frame}
  {b : Block} {around : List Block}

theorem instructions_eq (h : Stands script entries f rest b around) :
    b.instructions = f.instructions := by
  cases h <;> rfl

theorem start_eq (h : Stands script entries f rest b around) :
    b.start = startOf entries (f :: rest) := by
  induction h with
  | script next owner => rfl
  | @branch f rest b around place test consequent alternative isMet next o h hn hi ho ih =>
    have hb : (⟨f.instructions, startOf entries (f :: rest)⟩ : Block) = b := by
      rw [← ih, ← h.instructions_eq]
    have hplace : f.next - 1 = place := by omega
    have hi' : f.instructions[place]? = some (.condition test consequent alternative) := by
      rw [← h.instructions_eq, hi]
    rw [startOf, hplace, hi', Option.bind_some, ho, hb]

theorem go_to (h : Stands script entries f rest b around) (next : Nat) :
    Stands script entries { f with next } rest b around := by
  cases h with
  | script _ owner => exact .script next owner
  | branch _ h hn hi ho => exact .branch next h hn hi ho

theorem outside (h : Stands script entries f rest b around) : StandsIn script entries rest := by
  cases h with
  | script _ _ => trivial
  | branch _ h _ _ _ => exact ⟨_, _, h⟩

theorem isPart (h : Stands script entries f rest b around) : b.IsPart script := by
  induction h with
  | script next owner => exact Block.isPart_script script
  | branch next h hn hi ho ih => exact ih.branch hi _

-- The jumps of the innermost list are jumps of the script.
theorem mem_leaps (h : Stands script entries f rest b around) {leap : Nat × Option Nat}
    (hleap : leap ∈ leapsFrom (b :: around) b.start b.instructions) : leap ∈ leaps script := by
  induction h with
  | script next owner => exact hleap
  | @branch f rest b around place test consequent alternative isMet next o h hn hi ho ih =>
    refine ih (mem_leapsFrom hi ?_)
    rw [leapsIn, List.mem_append]
    cases isMet with
    | true => exact .inl hleap
    | false =>
      cases alternative with
      | none => cases hleap
      | some is => exact .inr hleap

-- What is recorded of the conditions around is all that is asked of the record.
theorem of_truth {others : Array Entry} (h : Stands script entries f rest b around)
    (ho : ∀ o ∈ openEntries (f :: rest), o.truth? others = o.truth? entries) :
    Stands script others f rest b around := by
  induction h with
  | script next owner => exact .script next owner
  | @branch f rest b around place test consequent alternative isMet next o h hn hi htruth ih =>
    refine .branch next (ih fun o ho' => ho o ?_) hn hi ?_
    · exact List.mem_cons_of_mem _ ho'
    · rw [ho o List.mem_cons_self, htruth]

-- A jump lands behind its target.
theorem land (h : Stands script entries f rest b around) {name : String}
    {left staying : List Frame} (hl : land? name (f :: rest) = some (left, staying)) :
    ∃ g below c outer place i, staying = g :: below ∧ Stands script entries g below c outer ∧
      target? name (b :: around) = some (c.number place) ∧ g.next = place + 1 ∧
      c.instructions[place]? = some i := by
  induction h generalizing left staying with
  | script next owner =>
    cases hm : markerIndex? name script with
    | some place =>
      simp only [land?, hm, Option.some.injEq, Prod.mk.injEq] at hl
      obtain ⟨-, rfl⟩ := hl
      obtain ⟨hlt, -⟩ := List.findIdx?_eq_some_iff_getElem.mp hm
      refine ⟨_, _, _, _, place, _, rfl, .script (place + 1) owner, ?_, rfl,
        List.getElem?_eq_getElem hlt⟩
      simp only [target?, hm]
    | none => simp [land?, hm] at hl
  | @branch f rest b around at_ test consequent alternative isMet next o h hn hi ho ih =>
    cases hm : markerIndex? name (b.branch at_ consequent alternative isMet).instructions with
    | some place =>
      simp only [land?, hm, Option.some.injEq, Prod.mk.injEq] at hl
      obtain ⟨-, rfl⟩ := hl
      obtain ⟨hlt, -⟩ := List.findIdx?_eq_some_iff_getElem.mp hm
      refine ⟨_, _, _, _, place, _, rfl, .branch (place + 1) h hn hi ho, ?_, rfl,
        List.getElem?_eq_getElem hlt⟩
      simp only [target?, hm]
    | none =>
      rw [land?, hm] at hl
      simp only [Option.map_eq_some_iff, Prod.mk.injEq] at hl
      obtain ⟨⟨left', staying'⟩, hl', -, rfl⟩ := hl
      obtain ⟨g, below, c, outer, place, i, hg, hstands, htarget, hnext, hplace⟩ := ih hl'
      refine ⟨g, below, c, outer, place, i, hg, hstands, ?_, hnext, hplace⟩
      rw [target?, hm]
      exact htarget

end Stands

theorem Records.truth_eq {place : Nat} {closed : List OpenEntry} {told : List Entry}
    {a b : Array Entry} (h : Records place closed told a b) {o : OpenEntry} (ho : o.index < place) :
    o.truth? b = o.truth? a := by
  have htruth (entries : Array Entry) :
      o.truth? entries = (entries[o.index]?.map Entry.untimed).bind Entry.truth? := by
    rw [OpenEntry.truth?, Option.bind_map]
    exact congrArg _ (funext fun e => (Entry.truth?_untimed e).symm)
  rw [htruth, h.untimed o.index ho, ← htruth]

section

variable {σ : Type} {env : Environment σ} {limit : Option Int} {script : List Instruction}

theorem Stands.number_eq {s : Session σ} {f : Frame} {rest : List Frame} {b : Block}
    {around : List Block} (h : Stands script s.entries f rest b around)
    (hf : s.frames = f :: rest) : s.number script = b.number f.next := by
  have hb : (⟨f.instructions, startOf s.entries (f :: rest)⟩ : Block) = b := by
    rw [← h.start_eq, ← h.instructions_eq]
  simp only [Session.number, hf, hb]

theorem number_le {s : Session σ} (h : StandsIn script s.entries s.frames) :
    s.number script ≤ (partsOfList script).length := by
  cases hf : s.frames with
  | nil => simp [Session.number, hf]
  | cons f rest =>
    rw [hf] at h
    obtain ⟨b, around, h⟩ := h
    rw [h.number_eq hf]
    exact h.isPart.number_le _

-- The next instruction of the innermost list is the one with the number of the run.
theorem getElem?_number {s : Session σ} {f : Frame} {rest : List Frame} {i : Instruction}
    (h : StandsIn script s.entries s.frames) (hf : s.frames = f :: rest)
    (hi : f.instructions[f.next]? = some i) :
    (partsOfList script)[s.number script]? = some i := by
  rw [hf] at h
  obtain ⟨b, around, h⟩ := h
  rw [h.number_eq hf]
  exact h.isPart.getElem?_number (h.instructions_eq ▸ hi)

-- The branch that is run is the one of what the condition has been found to be.
theorem chooseBranch_takes {opened : OpenEntry} {test : Condition}
    {consequent chosen : List Instruction} {alternative : Option (List Instruction)}
    {url : Option PageUrl} {duration : Binary64} {s t : Session σ}
    (hs : s.entries[opened.index]? = some (.instruction (.condition test false) url duration))
    (h : chooseBranch env opened test consequent alternative s = (.ok chosen, t)) :
    ∃ isMet, chosen = (if isMet then consequent else alternative.getD []) ∧
      opened.truth? t.entries = some isMet := by
  obtain ⟨isMet, u, he, h⟩ := Effect.bind_eq_ok h
  have hu := reports_evaluate env test consequent alternative s
  rw [he, Prod.mk.injEq] at hu
  obtain ⟨-, rfl⟩ := hu
  cases h
  refine ⟨isMet, rfl, ?_⟩
  have hlt : opened.index < s.entries.size := (Array.getElem?_eq_some_iff.mp hs).1
  rw [OpenEntry.truth?]
  dsimp only
  rw [Array.getElem?_modify, if_pos rfl, Array.getElem?_append_left hlt, hs]
  rfl

-- An instruction that starts has an entry, which is the one it has opened.
theorem openEntry_own {i : Instruction} {opened : OpenEntry} {s t : Session σ}
    (h : openEntry env i s = (.ok opened, t)) : t.entries[opened.index]? =
      some (.instruction (.ofInstruction i) (opened.address.map .same) Binary64.zero) := by
  rcases ha : env.pages.address i.page s.world with ⟨e | address, world⟩
  · rw [openEntry, Effect.bind_apply, inWorld_apply, ha] at h
    cases h
  · rw [openEntry_apply ha] at h
    cases h
    exact Array.getElem?_push_size

-- The turn of a condition that has been found out.
theorem turn_condition {s t : Session σ} {f : Frame} {rest : List Frame} {test : Condition}
    {consequent : List Instruction} {alternative : Option (List Instruction)}
    (hf : s.frames = f :: rest)
    (hi : f.instructions[f.next]? = some (.condition test consequent alternative))
    (h : turn env limit s = (.ok none, t)) :
    ∃ isMet o, t.frames = ⟨if isMet then consequent else alternative.getD [], 0, some o⟩ ::
        f.advance :: rest ∧ o.truth? t.entries = some isMet := by
  obtain ⟨goesOn, u, hc⟩ := checkpoint_ok env s
  cases goesOn with
  | false =>
    rw [turn_cancelled env limit hf hc] at h
    cases h
  | true =>
    rw [turn_run env limit hf hc hi] at h
    obtain ⟨_, v, hcount, h⟩ := Effect.bind_eq_ok h
    obtain ⟨_, w, hrun, h⟩ := Effect.bind_eq_ok h
    cases h
    obtain ⟨opened, x, hopen, hcarry⟩ := Effect.bind_eq_ok hrun
    have hx : x.frames = f.advance :: rest :=
      ((confined_openEntry env _).frames_eq hopen).trans (countStep_frames hcount)
    have hown := openEntry_own hopen
    obtain ⟨outcome, y, hd, hcarry⟩ := Effect.bind_eq_ok hcarry
    rw [Effect.attempt_apply, dispatch] at hd
    rcases hb : chooseBranch env opened test consequent alternative x with ⟨e | chosen, z⟩
    · rw [Effect.bind_error hb] at hd
      cases hd
      obtain ⟨_, _, _, hcarry⟩ := Effect.bind_eq_ok hcarry
      cases hcarry
    · rw [Effect.bind_ok hb] at hd
      cases hd
      cases hcarry
      obtain ⟨isMet, rfl, htruth⟩ := chooseBranch_takes hown hb
      refine ⟨isMet, opened, ?_, htruth⟩
      rw [← hx, ← (confined_chooseBranch env opened _ _ _).frames_eq hb]
      rfl

end

end Gleaner
