import Gleaner.Proofs.Run.Deeds
import Gleaner.Proofs.Run.Scopes
import Mathlib.Logic.Function.Iterate

namespace Gleaner

section

open Instruction Session

namespace Instruction

mutual

-- How many conditions stand one inside the other in an instruction, at most.
def depth : Instruction → Nat
  | .condition _ consequent alternative =>
    max (depthOfList consequent) (depthOfBranch alternative) + 1
  | _ => 0

def depthOfList : List Instruction → Nat
  | [] => 0
  | i :: rest => max i.depth (depthOfList rest)

def depthOfBranch : Option (List Instruction) → Nat
  | none => 0
  | some is => depthOfList is

end

theorem depth_le_depthOfList {is : List Instruction} {i : Instruction} (hi : i ∈ is) :
    i.depth ≤ depthOfList is := by
  induction is with
  | nil => cases hi
  | cons first rest ih =>
    rw [depthOfList]
    rcases List.mem_cons.mp hi with rfl | hi
    · exact Nat.le_max_left _ _
    · exact (ih hi).trans (Nat.le_max_right _ _)

theorem depthOfList_branch (test : Condition) {consequent chosen : List Instruction}
    {alternative : Option (List Instruction)}
    (hb : chosen = consequent ∨ chosen = alternative.getD []) :
    depthOfList chosen < (condition test consequent alternative).depth := by
  rw [depth]
  rcases hb with rfl | rfl
  · omega
  · cases alternative with
    | none => simp [depthOfList]
    | some is =>
      simp only [Option.getD_some, depthOfBranch]
      omega

end Instruction

variable {σ : Type} {env : Environment σ} {limit : Option Int} {script : List Instruction}

-- Each list that is run inside of another one is nested less deep.
theorem Enclosed.depth_le {f : Frame} {rest : List Frame} (h : Enclosed script f rest) :
    rest.length + depthOfList f.instructions ≤ depthOfList script := by
  induction h with
  | script next owner => simp
  | @branch f rest place test consequent chosen alternative next owner h hn hi hb ih =>
    have hinner := depthOfList_branch test hb
    have houter := depth_le_depthOfList (List.mem_of_getElem? hi)
    simp only [List.length_cons]
    omega

theorem AllEnclosed.length_le {frames : List Frame} (h : AllEnclosed script frames) :
    frames.length ≤ depthOfList script + 1 := by
  cases frames with
  | nil => simp
  | cons f rest =>
    have := Enclosed.depth_le h
    simp only [List.length_cons]
    omega

-- An instruction that fails has changed no list, unless it is a jump that had landed.
theorem dispatch_error_frames {opened : OpenEntry} {i : Instruction} {s t : Session σ} {e : Failure}
    (h : dispatch env opened i s = (.error e, t)) :
    t.frames = s.frames ∨
      ∃ name left, i = .jump name ∧ land? name s.frames = some (left, t.frames) := by
  have hact : (do act env opened i; return false : Effect (Session σ) Bool) s = (.error e, t) →
      t.frames = s.frames := fun h => by
    rcases Effect.bind_eq_error h with h | ⟨_, _, _, h⟩
    · exact (confined_act env opened i).frames_eq h
    · cases h
  cases i with
  | condition test consequent alternative =>
    rcases Effect.bind_eq_error h with h | ⟨_, _, _, h⟩
    · exact .inl ((confined_chooseBranch env opened _ _ _).frames_eq h)
    · cases h
  | jump name =>
    rw [dispatch, Effect.bind_apply, Effect.get_apply] at h
    dsimp only at h
    cases hl : land? name s.frames with
    | none =>
      rw [hl] at h
      cases h
      exact .inl rfl
    | some landing =>
      obtain ⟨left, staying⟩ := landing
      rw [hl] at h
      dsimp only at h
      rw [Effect.bind_ok (setFrames_apply staying s)] at h
      rcases Effect.bind_eq_error h with h | ⟨_, _, _, h⟩
      · refine .inr ⟨name, left, rfl, ?_⟩
        rw [(confined_closeAll env _).frames_eq h, hl]
      · cases h
  | _ => exact .inl (hact h)

theorem dispatch_enclosed {opened : OpenEntry} {f : Frame} {rest : List Frame} {i : Instruction}
    {s t : Session σ} {outcome : Except Failure Bool} (hs : AllEnclosed script (f :: rest))
    (hf : s.frames = f.advance :: rest) (hi : f.instructions[f.next]? = some i)
    (h : dispatch env opened i s = (outcome, t)) : AllEnclosed script t.frames := by
  cases outcome with
  | ok keepsOpen => exact (dispatch_moves hi hf h).enclosed hs
  | error e =>
    rcases dispatch_error_frames h with ht | ⟨name, left, -, hl⟩
    · rw [ht, hf]
      exact Enclosed.go_to hs _
    · rw [hf] at hl
      exact Enclosed.land (Enclosed.go_to hs _) hl

-- Closing an entry leaves the lists as they are, whether or not it fails.
theorem carryOut_frames {opened : OpenEntry} {i : Instruction} {s t : Session σ}
    {outcome : Except Failure Unit} (h : carryOut env opened i s = (outcome, t)) :
    t.frames = (dispatch env opened i s).2.frames := by
  rw [carryOut, Effect.bind_apply, Effect.attempt_apply] at h
  rcases hd : dispatch env opened i s with ⟨e | keepsOpen, u⟩ <;> rw [hd] at h <;> dsimp only at h ⊢
  · rcases hc : close env opened u with ⟨closed, v⟩
    have ht := Effect.bind_throw_snd (β := Unit) (close env opened) e u
    rw [h, hc] at ht
    rw [show t = v from ht, (confined_close env opened).frames_eq hc]
  · cases keepsOpen with
    | true =>
      cases h
      rfl
    | false => exact (confined_close env opened).frames_eq h

theorem execute_enclosed {f : Frame} {rest : List Frame} {i : Instruction} {s t : Session σ}
    {outcome : Except Failure Unit} (hs : AllEnclosed script (f :: rest))
    (hf : s.frames = f.advance :: rest) (hi : f.instructions[f.next]? = some i)
    (h : execute env i s = (outcome, t)) : AllEnclosed script t.frames := by
  have hstart : AllEnclosed script s.frames := hf ▸ Enclosed.go_to hs _
  rcases hopen : openEntry env i s with ⟨e | opened, u⟩
  · rw [execute, Effect.bind_error hopen] at h
    cases h
    rwa [(confined_openEntry env i).frames_eq hopen]
  · rw [execute, Effect.bind_ok hopen] at h
    rw [carryOut_frames h]
    exact dispatch_enclosed hs ((confined_openEntry env i).frames_eq hopen |>.trans hf) hi rfl

-- However a turn ends, it leaves lists that enclose each other.
theorem turn_enclosed {s t : Session σ} {outcome : Except Failure (Option Ending)}
    (hs : AllEnclosed script s.frames) (h : turn env limit s = (outcome, t)) :
    AllEnclosed script t.frames := by
  cases hf : s.frames with
  | nil =>
    rw [turn_nil env limit s hf] at h
    cases h
    exact hs
  | cons f rest =>
    obtain ⟨goesOn, u, hc⟩ := checkpoint_ok env s
    cases goesOn with
    | false =>
      rw [turn_cancelled env limit hf hc] at h
      cases h
      rwa [(confined_checkpoint env).frames_eq hc]
    | true =>
      rw [hf] at hs
      cases hi : f.instructions[f.next]? with
      | none =>
        rw [turn_leave env limit hf hc hi] at h
        rcases hclose : closeAll env f.owner.toList { u with frames := rest } with ⟨closed, v⟩
        have ht := Effect.bind_pure_snd (closeAll env f.owner.toList) (none : Option Ending)
          { u with frames := rest }
        rw [h, hclose] at ht
        rw [show t = v from ht, (confined_closeAll env _).frames_eq hclose]
        exact Enclosed.outside hs
      | some i =>
        rw [turn_run env limit hf hc hi] at h
        rcases hcount : countStep limit { u with frames := f.advance :: rest } with ⟨e | _, v⟩
        · have ht := (Effect.bind_error hcount _).symm.trans h
          cases ht
          rw [countStep_frames hcount]
          exact Enclosed.go_to hs _
        · have hrun := (Effect.bind_ok hcount _).symm.trans h
          rcases hexecute : execute env i v with ⟨result, w⟩
          have ht := Effect.bind_pure_snd (execute env i) (none : Option Ending) v
          rw [hrun, hexecute] at ht
          rw [show t = w from ht]
          exact execute_enclosed hs (countStep_frames hcount) hi hexecute

-- The lists of a run at any time: between two turns, while an instruction is carried out, and
-- when a turn has changed them for the last time, also if it has failed or the run is over.
inductive Visits (env : Environment σ) (limit : Option Int) (script : List Instruction) :
    List Frame → Prop
  | between {s : Session σ} (hs : Reachable env limit script s) : Visits env limit script s.frames
  | during {s : Session σ} {f : Frame} {rest : List Frame} {i : Instruction}
      (hs : Reachable env limit script s) (hf : s.frames = f :: rest)
      (hi : f.instructions[f.next]? = some i) : Visits env limit script (f.advance :: rest)
  | after {s t : Session σ} {outcome : Except Failure (Option Ending)}
      (hs : Reachable env limit script s) (h : turn env limit s = (outcome, t)) :
      Visits env limit script t.frames

-- The lists being run are at all times those around the current place of the script, and so there
-- are never more of them than conditions stand one inside the other, and one.
theorem frames_enclosed {frames : List Frame} (h : Visits env limit script frames) :
    AllEnclosed script frames ∧ frames.length ≤ depthOfList script + 1 := by
  have henclosed : AllEnclosed script frames := by
    cases h with
    | between hs => exact hs.enclosed
    | during hs hf hi =>
      have hframes := hs.enclosed
      rw [hf] at hframes
      exact Enclosed.go_to hframes _
    | after hs h => exact turn_enclosed hs.enclosed h
  exact ⟨henclosed, henclosed.length_le⟩

-- The branch with the jump is run inside of the script, and nothing deeper.
theorem frames_enclosed_intoOtherBranch :
    let env := Rehearsal.environment Rehearsal.scriptedPages (Rehearsal.KeyedStore.store none)
    ∃ frames, Visits env (some 5) intoOtherBranch frames ∧
      (AllEnclosed intoOtherBranch frames ∧ frames.length ≤ depthOfList intoOtherBranch + 1) ∧
      frames.map Frame.instructions = [[.jump "gone"], intoOtherBranch] := by
  intro env
  have h : turn env (some 5) ⟨{}, #[], [⟨intoOtherBranch, 0, none⟩], 0⟩ = (.ok none, _) := rfl
  have hvisits := Visits.after (.start _ _) h
  exact ⟨_, hvisits, frames_enclosed hvisits, rfl⟩

end

section

open Session

variable {σ : Type} {env : Environment σ} {limit : Option Int}

-- The conditions whose branches are being run have open entries, an inner one behind an outer one.
structure OpenInside (s : Session σ) : Prop where
  isOpen : ∀ o ∈ openEntries s.frames, IsOpen s.entries o
  nested : (openEntries s.frames).Pairwise fun inner outer => outer.index < inner.index

theorem IsOpen.index_lt {entries : Array Entry} {opened : OpenEntry} (h : IsOpen entries opened) :
    opened.index < entries.size := by
  obtain ⟨test, isMet, he⟩ := h
  exact (Array.getElem?_eq_some_iff.mp he).1

theorem OpenInside.nodup {s : Session σ} (hs : OpenInside s) : (openEntries s.frames).Nodup :=
  hs.nested.imp fun {a b} hlt he => by
    subst he
    exact Nat.lt_irrefl _ hlt

theorem openInside_begun (script : List Instruction) (entries : Array Entry) (world : σ) :
    OpenInside (begun env script entries world) :=
  ⟨by rintro o ⟨⟩, .nil⟩

theorem turn_openInside {s t : Session σ}
    {outcome : Except Failure (Option Ending)} (hs : OpenInside s)
    (h : turn env limit s = (outcome, t)) : OpenInside t := by
  obtain ⟨told, added, -, ⟨closed, kept, hbefore, hafter, hrecord⟩, hadded⟩ := turn_advances h
  obtain ⟨hisOpen, hnested⟩ := hs
  rw [hbefore] at hisOpen hnested
  obtain ⟨-, hkept, hapart⟩ := List.pairwise_append.mp hnested
  have hstill : ∀ o ∈ kept, IsOpen t.entries o := by
    intro o ho
    have hold := hisOpen o (List.mem_append_right _ ho)
    have hsame := hrecord.kept o.index hold.index_lt fun c hc he => by
      have := hapart c hc o ho
      omega
    unfold IsOpen
    rwa [hsame]
  rcases hadded with rfl | ⟨opened, rfl, -, hindex, hnew⟩
  · exact ⟨by rwa [hafter], by rwa [hafter]⟩
  · refine ⟨?_, ?_⟩
    · rw [hafter]
      intro o ho
      rcases List.mem_cons.mp ho with rfl | ho
      · exact hnew
      · exact hstill o ho
    · rw [hafter, List.singleton_append, List.pairwise_cons]
      refine ⟨fun o ho => ?_, hkept⟩
      rw [hindex]
      exact (hisOpen o (List.mem_append_right _ ho)).index_lt

theorem Turns.openInside {n : Nat} {s t : Session σ} (h : Turns env limit n s t)
    (hs : OpenInside s) : OpenInside t := by
  induction h with
  | zero s => exact hs
  | next ht hn ih => exact ih (turn_openInside hs ht)

-- The world once the timer has been read.
def tick (env : Environment σ) (world : σ) : σ := (env.timer world).2

-- A run that stops reads the timer once for every open entry, and changes nothing else.
theorem settle_isOpen {inside : List OpenEntry} {s t : Session σ} {outcome : Except Failure Unit}
    (hopen : ∀ o ∈ inside, IsOpen s.entries o)
    (hnested : inside.Pairwise fun inner outer => outer.index < inner.index)
    (h : settle env inside s = (outcome, t)) :
    t.world = (tick env)^[inside.length] s.world ∧ ∀ o ∈ inside, ∃ test isMet n,
      t.entries[o.index]? = some (.instruction (.condition test isMet) (o.address.map .same)
        (elapsed o.started (env.timer ((tick env)^[n] s.world)).1)) := by
  induction inside generalizing t outcome with
  | nil =>
    cases h
    exact ⟨rfl, by rintro o ⟨⟩⟩
  | cons opened rest ih =>
    obtain ⟨houter, hrest⟩ := List.pairwise_cons.mp hnested
    rcases hs : settle env rest s with ⟨outcome', u⟩
    obtain ⟨rfl, hrecord⟩ := settle_records (opened.index + 1) hs
    obtain ⟨hworld, hclosed⟩ := ih (fun o ho => hopen o (List.mem_cons_of_mem _ ho)) hrest hs
    rw [settle, Effect.bind_ok hs] at h
    cases h
    refine ⟨?_, fun o ho => ?_⟩
    · change tick env u.world = _
      rw [hworld, List.length_cons, Function.iterate_succ_apply']
    · rcases List.mem_cons.mp ho with rfl | ho
      · obtain ⟨test, isMet, he⟩ := hopen o List.mem_cons_self
        have hkept := hrecord.kept o.index (by omega) fun r hr he => by
          have := houter r hr
          omega
        refine ⟨test, isMet, rest.length, ?_⟩
        dsimp only
        rw [Array.getElem?_modify, if_pos rfl, hkept, he, ← hworld]
        rfl
      · obtain ⟨test, isMet, n, he⟩ := hclosed o ho
        refine ⟨test, isMet, n, ?_⟩
        have := houter o ho
        dsimp only
        rw [Array.getElem?_modify, if_neg (by omega), he]

end

end Gleaner
