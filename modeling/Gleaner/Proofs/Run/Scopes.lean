import Gleaner.Proofs.Run.Failing
import Gleaner.Proofs.Script.Numbering
import Gleaner.Rehearsal.KeyedStore
import Gleaner.Rehearsal.ScriptedPages

namespace Gleaner

open Instruction Session

variable {σ : Type} {env : Environment σ} {limit : Option Int} {script : List Instruction}

def Frame.scope (f : Frame) : Scope := ⟨f.instructions, f.next⟩

-- The list of a frame and those of the frames below enclose each other: the outermost is the
-- script, and each further one is a branch of the condition that the list below it has just run.
inductive Enclosed (script : List Instruction) : Frame → List Frame → Prop
  | script (next : Nat) (owner : Option OpenEntry) : Enclosed script ⟨script, next, owner⟩ []
  | branch {f : Frame} {rest : List Frame} {place : Nat} {test : Condition}
      {consequent chosen : List Instruction} {alternative : Option (List Instruction)}
      (next : Nat) (owner : Option OpenEntry) (h : Enclosed script f rest)
      (hn : f.next = place + 1)
      (hi : f.instructions[place]? = some (.condition test consequent alternative))
      (hb : chosen = consequent ∨ chosen = alternative.getD []) :
      Enclosed script ⟨chosen, next, owner⟩ (f :: rest)

-- The same for all the frames of a run, of which there are none at its end.
def AllEnclosed (script : List Instruction) : List Frame → Prop
  | [] => True
  | f :: rest => Enclosed script f rest

theorem Enclosed.go_to {f : Frame} {rest : List Frame} (h : Enclosed script f rest) (next : Nat) :
    Enclosed script { f with next } rest := by
  cases h with
  | script _ owner => exact .script next owner
  | branch _ owner h hn hi hb => exact .branch next owner h hn hi hb

theorem Enclosed.outside {f : Frame} {rest : List Frame} (h : Enclosed script f rest) :
    AllEnclosed script rest := by
  cases h with
  | script _ _ => trivial
  | branch _ _ h _ _ _ => exact h

theorem Enclosed.land {name : String} {f : Frame} {rest left staying : List Frame}
    (h : Enclosed script f rest) (hl : land? name (f :: rest) = some (left, staying)) :
    AllEnclosed script staying := by
  induction h generalizing left staying with
  | script next owner =>
    cases hm : markerIndex? name script with
    | some place =>
      simp only [land?, hm, Option.some.injEq, Prod.mk.injEq] at hl
      obtain ⟨-, rfl⟩ := hl
      exact .script (place + 1) owner
    | none => simp [land?, hm] at hl
  | @branch f rest place test consequent chosen alternative next owner h hn hi hb ih =>
    cases hm : markerIndex? name chosen with
    | some marker =>
      simp only [land?, hm, Option.some.injEq, Prod.mk.injEq] at hl
      obtain ⟨-, rfl⟩ := hl
      exact .branch (marker + 1) owner h hn hi hb
    | none =>
      rw [land?, hm] at hl
      simp only [Option.map_eq_some_iff, Prod.mk.injEq] at hl
      obtain ⟨⟨left', staying'⟩, hl', -, rfl⟩ := hl
      exact ih hl'

theorem Moves.enclosed {fs gs : List Frame} (hm : Moves fs gs) (h : AllEnclosed script fs) :
    AllEnclosed script gs := by
  cases hm with
  | leave hn => exact Enclosed.outside h
  | stay hi hc hj => exact Enclosed.go_to h _
  | branch opened hi hb => exact .branch 0 (some opened) (Enclosed.go_to h _) rfl hi hb
  | jump hi hl => exact Enclosed.land (Enclosed.go_to h _) hl

theorem Reachable.enclosed {s : Session σ} (h : Reachable env limit script s) :
    AllEnclosed script s.frames := by
  induction h with
  | start world entries => exact .script 0 none
  | turn hs ht ih => exact (turn_moves ht).enclosed ih

-- What stands at a place of a list being run stands there in the script.
theorem Enclosed.mem_jumps {f : Frame} {rest : List Frame} (h : Enclosed script f rest)
    {place : Nat} {i : Instruction} {o : Occurrence} (hi : f.instructions[place]? = some i)
    (ho : o ∈ jumpsIn (⟨f.instructions, place + 1⟩ :: rest.map Frame.scope) i) :
    o ∈ jumps script := by
  induction h generalizing place i with
  | script next owner =>
    refine mem_jumpsFrom hi ?_
    rw [Nat.zero_add]
    exact ho
  | @branch f rest above test consequent chosen alternative next owner h hn hc hb ih =>
    refine ih hc ?_
    have hscope : (f :: rest).map Frame.scope =
        ⟨f.instructions, above + 1⟩ :: rest.map Frame.scope := by
      rw [List.map_cons, Frame.scope, hn]
    rw [hscope] at ho
    rw [jumpsIn, List.mem_append]
    have hmem : o ∈ jumpsFrom (⟨f.instructions, above + 1⟩ :: rest.map Frame.scope) chosen 0
        chosen := by
      refine mem_jumpsFrom hi ?_
      rw [Nat.zero_add]
      exact ho
    rcases hb with rfl | rfl
    · exact .inl hmem
    · cases alternative with
      | none => cases hi
      | some is => exact .inr hmem

theorem markerIndex?_isSome (name : String) (is : List Instruction) :
    (markerIndex? name is).isSome = (markers is).contains name := by
  rw [markers_contains, markerIndex?, List.findIdx?_isSome]

-- The search of a jump through the frames is the one through the lists around it.
theorem isLost_eq (name : String) (frames : List Frame) :
    Occurrence.isLost ⟨name, frames.map Frame.scope⟩ = (land? name frames).isNone := by
  rw [Occurrence.isLost, ← Option.not_isSome, land?_isSome, List.any_map, List.any_map]
  simp only [markerIndex?_isSome]
  rfl

-- A jump that a run comes to and that finds no marker is reported before the run.
theorem Reachable.mem_unresolvedJumps {s : Session σ} {f : Frame} {rest : List Frame}
    {name : String} (h : Reachable env limit script s) (hf : s.frames = f :: rest)
    (hi : f.instructions[f.next]? = some (.jump name))
    (hl : land? name (f.advance :: rest) = none) : name ∈ unresolvedJumps script := by
  let o : Occurrence := ⟨name, (f.advance :: rest).map Frame.scope⟩
  have henclosed := h.enclosed
  rw [hf] at henclosed
  have hmem : o ∈ jumps script := henclosed.mem_jumps hi (List.mem_singleton.mpr rfl)
  have hlost : o.isLost = true := by
    rw [isLost_eq, hl]
    rfl
  rw [unresolvedJumps_eq]
  exact List.mem_map.mpr ⟨o, List.mem_filter.mpr ⟨hmem, hlost⟩, rfl⟩

theorem dispatch_jump_noMarker_iff {opened : OpenEntry} {name : String} {s : Session σ} :
    dispatch env opened (.jump name) s = (.error (.noMarker name), s) ↔
      land? name s.frames = none := by
  rw [dispatch, Effect.bind_apply, Effect.get_apply]
  dsimp only
  cases hl : land? name s.frames with
  | none => exact ⟨fun _ => rfl, fun _ => rfl⟩
  | some landing =>
    obtain ⟨left, staying⟩ := landing
    refine ⟨fun h => ?_, fun h => by cases h⟩
    dsimp only at h
    rw [Effect.bind_ok (setFrames_apply staying s)] at h
    rcases hc : closeAll env (openEntries left) { s with frames := staying } with ⟨e | _, t⟩
    · -- A call that fails while the lists are left comes after the frames have been cut.
      rw [Effect.bind_error hc] at h
      cases h
      have hframes : s.frames = staying := (confined_closeAll env _).frames_eq hc
      have hlength := land?_length hl
      have : left = [] := by
        rw [← List.length_eq_zero_iff]
        rw [hframes] at hlength
        omega
      subst this
      cases hc
    · rw [Effect.bind_ok hc] at h
      cases h

-- The calls whose failure can end a run, and what they fail with.
inductive Environment.Raises (env : Environment σ) (e : Failure) : Prop
  | isVisible {page : Nat} {selectors : Selectors} {w w' : σ}
      (h : env.pages.isVisible page selectors w = (.error e, w'))
  | textOf {page : Nat} {selectors : Selectors} {w w' : σ}
      (h : env.pages.textOf page selectors w = (.error e, w'))
  | attributeOf {page : Nat} {selectors : Selectors} {name : String} {w w' : σ}
      (h : env.pages.attributeOf page selectors name w = (.error e, w'))
  | address {page : Nat} {w w' : σ} (h : env.pages.address page w = (.error e, w'))
  | datum {key : String} {w w' : σ} (h : env.store.get key w = (.error e, w'))

-- A failure that no text, address or pattern gives rise to is that of a call.
theorem failsWith_raises_of (env : Environment σ) (failure : Failure)
    (hu : failure ≠ .unfinished) (ht : ∀ e, failure ≠ .token e) (ha : ∀ e, failure ≠ .url e)
    (hm : ∀ e, failure ≠ .matcher e) : env.FailsWith fun e => e = failure → env.Raises e where
  pages :=
    { isVisible := fun _ _ _ _ _ h _ => .isVisible h
      textOf := fun _ _ _ _ _ h => .inl fun _ => .textOf h
      attributeOf := fun _ _ _ _ _ _ h => .inl fun _ => .attributeOf h
      address := fun _ _ _ _ h _ => .address h }
  matcher e h := absurd h.symm (hm e)
  expand text := by
    refine failsWith_expand text (fun _ _ _ _ h _ => .datum h) ?_ ?_ ?_ ?_
    · intro address hpage page s e t h _
      cases hpage
      exact .address h
    · exact fun e h => absurd h.symm (ha e)
    · exact fun e h => absurd h.symm (ht e)
    · exact fun h => absurd h.symm hu

theorem failsWith_raises (env : Environment σ) (name : String) :
    env.FailsWith fun e => e = .noMarker name → env.Raises e :=
  failsWith_raises_of env (.noMarker name) nofun nofun nofun nofun

-- The check before a script is stored reports exactly the jumps that cannot be carried out: it
-- goes through the jumps of the script in order; a jump that comes up in a run is one of them,
-- and it finds no marker, before anything has changed, if and only if it is lost; and a run that
-- ends for want of a marker has come to one that the check reports, unless a call of its
-- environment fails in that very way.
theorem noMarker_iff_unresolved (env : Environment σ) (limit : Option Int)
    (script : List Instruction) :
    unresolvedJumps script = lostNames (jumps script) ∧
    (∀ s f rest name, Reachable env limit script s → s.frames = f :: rest →
      f.instructions[f.next]? = some (.jump name) →
      let o : Occurrence := ⟨name, (f.advance :: rest).map Frame.scope⟩
      o ∈ jumps script ∧ ∀ opened t, t.frames = f.advance :: rest →
        (dispatch env opened (.jump name) t = (.error (.noMarker name), t) ↔ o.isLost)) ∧
    ∀ fuel world entries name t,
      loop env limit fuel ⟨world, entries, [⟨script, 0, none⟩], 0⟩ = (.error (.noMarker name), t) →
      name ∈ unresolvedJumps script ∨ env.Raises (.noMarker name) := by
  have hmem : ∀ s f rest name, Reachable env limit script s → s.frames = f :: rest →
      f.instructions[f.next]? = some (.jump name) →
      (⟨name, (f.advance :: rest).map Frame.scope⟩ : Occurrence) ∈ jumps script := by
    intro s f rest name hs hf hi
    have henc := hs.enclosed
    rw [hf] at henc
    exact henc.mem_jumps hi (List.mem_singleton.mpr rfl)
  refine ⟨unresolvedJumps_eq script, ?_, ?_⟩
  · intro s f rest name hs hf hi
    refine ⟨hmem s f rest name hs hf hi, fun opened t ht => ?_⟩
    rw [dispatch_jump_noMarker_iff, ht, isLost_eq, Option.isNone_iff_eq_none]
  · intro fuel world entries name t ht
    rcases loop_error (.start world entries) ht with h | ⟨u, hu, h⟩
    · cases h
    · rcases turn_error (failsWith_raises env name) h with
        hraises | ⟨most, h⟩ | ⟨f, rest, other, hf, hi, he, hl⟩
      · exact .inr (hraises rfl)
      · cases h
      · cases he
        refine .inl ?_
        rw [unresolvedJumps_eq]
        refine List.mem_map.mpr ⟨_, List.mem_filter.mpr ⟨hmem u f rest name hu hf hi, ?_⟩, rfl⟩
        rw [isLost_eq, hl]
        rfl

-- A jump into the branch that is not taken.
def intoOtherBranch : List Instruction :=
  [.condition (.textEquals .null (.exactly "")) [.marker "gone"] (some [.jump "gone"])]

theorem noMarker_iff_unresolved_intoOtherBranch :
    let env := Rehearsal.environment Rehearsal.scriptedPages (Rehearsal.KeyedStore.store none)
    ∃ t, loop env (some 5) 10 ⟨{}, #[], [⟨intoOtherBranch, 0, none⟩], 0⟩ =
        (.error (.noMarker "gone"), t) ∧
      ("gone" ∈ unresolvedJumps intoOtherBranch ∨ env.Raises (.noMarker "gone")) := by
  intro env
  have h : loop env (some 5) 10 ⟨{}, #[], [⟨intoOtherBranch, 0, none⟩], 0⟩ =
      (.error (.noMarker "gone"), _) := rfl
  exact ⟨_, h, (noMarker_iff_unresolved env (some 5) intoOtherBranch).2.2 10 {} #[] "gone" _ h⟩

end Gleaner
