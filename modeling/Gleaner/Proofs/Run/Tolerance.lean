import Gleaner.Proofs.Run.Keeps
import Gleaner.Proofs.Run.Scopes

namespace Gleaner

open Instruction Session

variable {σ : Type} {env : Environment σ} {script : List Instruction} {P : Failure → Prop}

-- What a run without a limit fails with, if all its jumps have markers.
theorem loop_fails_of_resolved (hpages : env.pages.FailsWith P)
    (hparts : ∀ i ∈ partsOfList script, i.FailsWith env P) (hjumps : unresolvedJumps script = [])
    {fuel : Nat} {s t : Session σ} {e : Failure} (hs : Reachable env none script s)
    (h : loop env none fuel s = (.error e, t)) : e = .unfinished ∨ P e := by
  rcases loop_error hs h with he | ⟨u, hu, ht⟩
  · exact .inl he
  · have hnext : ∀ f rest i, u.frames = f :: rest → f.instructions[f.next]? = some i →
        i.FailsWith env P := fun f rest i hf hi => hparts i (hu.mem_parts hf hi)
    rcases turn_fails hpages hnext ht with he | ⟨most, hmost, -⟩ | ⟨f, rest, name, hf, hi, -, hl⟩
    · exact .inr he
    · cases hmost
    · have hname := hu.mem_unresolvedJumps hf hi hl
      rw [hjumps] at hname
      cases hname

-- Whatever comes of acting on pages and of the data a script reads and writes, a run without a
-- limit that comes to an end and is not cancelled ends with success: its jumps have markers, its
-- texts can be expanded, its patterns can be read, and pages can be looked at, though elements may
-- be missing.
theorem run_succeeds (hjumps : unresolvedJumps script = [])
    (hpages : env.pages.FailsWith (· = .unfinished))
    (htexts : ∀ i ∈ partsOfList script, ∀ text ∈ i.texts, FailsWith (· = .unfinished) (env.expand text))
    (hpatterns : ∀ i ∈ partsOfList script, ∀ p ∈ i.pattern?, p.compiles = true)
    (fuel : Nat) (entries : Array Entry) (world : σ) {all : Array Entry}
    (hrun : (run env none fuel script entries world).1 = .ok all)
    (hstays : (loop env none fuel (begun env script entries world)).1 ≠ .ok .cancelled) :
    ∃ duration, all.back? = some (.success duration) := by
  have hparts : ∀ i ∈ partsOfList script, i.FailsWith env (· = .unfinished) := by
    intro i hi
    refine ⟨htexts i hi, fun p hp text e he => ?_⟩
    obtain ⟨found, hfound⟩ := PatternSource.occursIn_ok (hpatterns i hi p hp) text
    rw [hfound] at he
    cases he
  rw [run_eq_wholeRun, wholeRun] at hrun
  rcases hloop : loop env none fuel (begun env script entries world) with ⟨outcome, s⟩
  simp only [turnLimit, hloop] at hrun hstays
  cases outcome with
  | error e =>
    have he : e = .unfinished := by
      simpa using loop_fails_of_resolved hpages hparts hjumps (.start _ entries) hloop
    subst he
    cases hrun
  | ok ending =>
    cases ending with
    | cancelled => exact absurd rfl hstays
    | completed =>
      cases hrun
      exact ⟨_, Array.back?_push⟩

-- A store out of which nothing can be read and into which nothing can be written.
def brokenStore : DataStore Rehearsal.World where
  get _ := throw (.fault "locked")
  set _ _ := throw (.fault "locked")
  setMany _ _ := throw (.timeout "locked")
  delete _ := throw (.fault "locked")

-- Does a bit of everything.
def bitOfEverything : List Instruction :=
  let value : Source := .externalData "s.a" none
  [.condition (.textEquals value (.containing ⟨"^a+$", "i"⟩)) [] (some [.marker "no"]),
    .condition (.isVisible [.tagName "a"] none)
      [.pageAction 0 (.navigate "about:blank"),
        .pageAction 0 (.type [.query "input"] value true false false), .saveData "s.b" value,
        .saveDataBatch "s" [⟨"c", .elementText [.query "p"] none⟩], .deleteData "s", .jump "end"]
      none,
    .deleteData "s", .marker "end"]

theorem run_succeeds_bitOfEverything :
    let env := Rehearsal.environment brokenPages brokenStore
    unresolvedJumps bitOfEverything = [] ∧ env.pages.FailsWith (· = .unfinished) ∧
    (∀ i ∈ partsOfList bitOfEverything, ∀ text ∈ i.texts,
      FailsWith (· = .unfinished) (env.expand text)) ∧
    (∀ i ∈ partsOfList bitOfEverything, ∀ p ∈ i.pattern?, p.compiles = true) ∧
    (loop env none 30 (begun env bitOfEverything #[] {})).1 ≠ .ok .cancelled ∧
    ∃ all, (run env none 30 bitOfEverything #[] {}).1 = .ok all ∧
      ∃ duration, all.back? = some (.success duration) := by
  intro env
  have hjumps : unresolvedJumps bitOfEverything = [] := by decide
  have hnone : ∀ i ∈ partsOfList bitOfEverything, ∀ text ∈ i.texts,
      Template.first? text.toList = none := by decide
  have htexts : ∀ i ∈ partsOfList bitOfEverything, ∀ text ∈ i.texts,
      FailsWith (· = .unfinished) (env.expand text) :=
    fun i hi text ht => failsWith_expand_of_none (hnone i hi text ht)
  have hpatterns : ∀ i ∈ partsOfList bitOfEverything, ∀ p ∈ i.pattern?, p.compiles = true := by
    decide
  have hstays : (loop env none 30 (begun env bitOfEverything #[] {})).1 ≠ .ok .cancelled := by
    have hloop : (loop env none 30 (begun env bitOfEverything #[] {})).1.toOption =
      some .completed := by decide +kernel
    intro h
    rw [h] at hloop
    cases hloop
  have hends : (run env none 30 bitOfEverything #[] {}).1.toOption.isSome = true := by
    decide +kernel
  obtain ⟨all, hrun⟩ : ∃ all, (run env none 30 bitOfEverything #[] {}).1 = .ok all := by
    cases h : (run env none 30 bitOfEverything #[] {}).1 with
    | ok all => exact ⟨all, rfl⟩
    | error e =>
      rw [h] at hends
      cases hends
  exact ⟨hjumps, (brokenPages_failsWith _), htexts, hpatterns, hstays, all, hrun,
    run_succeeds hjumps (brokenPages_failsWith _) htexts hpatterns 30 #[] {} hrun hstays⟩

end Gleaner
