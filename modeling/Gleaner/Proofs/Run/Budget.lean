import Gleaner.Proofs.Run.Cancellation
import Gleaner.Proofs.Run.Keeps

namespace Gleaner

open Instruction Session Watched

variable {σ : Type} {env : Environment σ} {limit : Option Int} {most : Int}

-- A turn in which a run is refused one more instruction. It has waited at its checkpoint by then.
structure Refused (env : Environment σ) (most : Int) (s t : Session σ) : Prop where
  turn : Gleaner.turn env (some most) s = (.error (.stepLimit most), t)
  exceeded : most < s.steps + 1
  checked : ∃ u, checkpoint env s = (.ok true, u) ∧ t.world = u.world
  entries : t.entries = s.entries
  openEntries : Gleaner.openEntries t.frames = Gleaner.openEntries s.frames

theorem countStep_ok {s : Session σ} (h : ∀ m ∈ limit, (s.steps + 1 : Int) ≤ m) :
    countStep limit s = (.ok (), { s with steps := s.steps + 1 }) := by
  cases limit with
  | none => rfl
  | some m =>
    have hm := h m rfl
    rw [countStep_apply, if_neg (by omega)]

-- A turn is the same under every limit that allows as much, unless it is refused.
theorem turn_limit (env : Environment σ) (most : Int) (s : Session σ) :
    (∀ limit : Option Int, (∀ m ∈ limit, most ≤ m) →
      turn env (some most) s = turn env limit s) ∨ ∃ t, Refused env most s t := by
  cases hf : s.frames with
  | nil =>
    refine .inl fun limit _ => ?_
    rw [turn_nil env _ s hf, turn_nil env _ s hf]
  | cons f rest =>
    obtain ⟨goesOn, u, hc⟩ := checkpoint_ok env s
    cases goesOn with
    | false =>
      refine .inl fun limit _ => ?_
      rw [turn_cancelled env _ hf hc, turn_cancelled env _ hf hc]
    | true =>
      cases hi : f.instructions[f.next]? with
      | none =>
        refine .inl fun limit _ => ?_
        rw [turn_leave env _ hf hc hi, turn_leave env _ hf hc hi]
      | some i =>
        have hsteps : u.steps = s.steps := (confined_checkpoint env).steps_eq hc
        let taken : Session σ := { u with frames := f.advance :: rest }
        by_cases hexceeded : most < s.steps + 1
        · have hcount : countStep (some most) taken =
              (.error (.stepLimit most), { taken with steps := u.steps + 1 }) := by
            rw [countStep_apply, if_pos (by simpa [taken, hsteps] using hexceeded)]
          refine .inr ⟨{ taken with steps := u.steps + 1 }, ?_, hexceeded, ⟨u, hc, rfl⟩, ?_, ?_⟩
          · rw [turn_run env _ hf hc hi]
            exact Effect.bind_error hcount _
          · exact (checkpoint_entries hc : u.entries = s.entries)
          · rw [hf]
            rfl
        · refine .inl fun limit hlimit => ?_
          have hmost : ∀ m ∈ some most, (taken.steps + 1 : Int) ≤ m := by
            rintro m ⟨⟩
            simp only [taken, hsteps]
            omega
          have hmore : ∀ m ∈ limit, (taken.steps + 1 : Int) ≤ m :=
            fun m hm => Int.le_trans (hmost most rfl) (hlimit m hm)
          rw [turn_run env _ hf hc hi, turn_run env _ hf hc hi]
          refine (Effect.bind_ok (countStep_ok hmost) _).trans (Eq.symm ?_)
          exact Effect.bind_ok (countStep_ok hmore) _

-- A run with a limit is the same as one that may go on for longer, or it comes to a turn that is
-- refused, and the other one goes on from there.
theorem loop_limit {n : Nat} {s : Session σ} (hn : turnsLeft most s < n) :
    (∀ limit : Option Int, (∀ m ∈ limit, most ≤ m) → ∀ k, n ≤ k →
      loop env (some most) n s = loop env limit k s) ∨
    ∃ j u t, Turns env (some most) j s u ∧ Refused env most u t ∧
      loop env (some most) n s = (.error (.stepLimit most), t) ∧
      ∀ limit : Option Int, (∀ m ∈ limit, most ≤ m) → ∀ k, n ≤ k →
        ∃ m, loop env limit k s = loop env limit m u := by
  induction n generalizing s with
  | zero => omega
  | succ n ih =>
    rcases turn_limit env most s with hsame | ⟨t, hrefused⟩
    · rcases ht : turn env (some most) s with ⟨e | _ | ending, u⟩
      · refine .inl fun limit hlimit k hk => ?_
        obtain ⟨k, rfl⟩ := Nat.exists_eq_add_one_of_ne_zero (by omega : k ≠ 0)
        rw [loop_succ, loop_succ, ← hsame limit hlimit, ht]
      · have hspends := turn_spends ht
        have hleft : turnsLeft most u < n := by
          simp only [turnsLeft] at hn ⊢
          omega
        rcases ih hleft with hrest | ⟨j, v, w, hturns, hrefused, hloop, hrest⟩
        · refine .inl fun limit hlimit k hk => ?_
          obtain ⟨k, rfl⟩ := Nat.exists_eq_add_one_of_ne_zero (by omega : k ≠ 0)
          rw [loop_succ, loop_succ, ← hsame limit hlimit, ht]
          exact hrest limit hlimit k (by omega)
        · refine .inr ⟨j + 1, v, w, .next ht hturns, hrefused, ?_, fun limit hlimit k hk => ?_⟩
          · rw [loop_succ, ht]
            exact hloop
          · obtain ⟨k, rfl⟩ := Nat.exists_eq_add_one_of_ne_zero (by omega : k ≠ 0)
            obtain ⟨m, hm⟩ := hrest limit hlimit k (by omega)
            refine ⟨m, ?_⟩
            rw [loop_succ, ← hsame limit hlimit, ht]
            exact hm
      · refine .inl fun limit hlimit k hk => ?_
        obtain ⟨k, rfl⟩ := Nat.exists_eq_add_one_of_ne_zero (by omega : k ≠ 0)
        rw [loop_succ, loop_succ, ← hsame limit hlimit, ht]
    · refine .inr ⟨0, s, t, .zero s, hrefused, ?_, fun limit _ k _ => ⟨k, rfl⟩⟩
      rw [loop_succ, hrefused.turn]

-- A turn counts what it executes.
theorem turn_counts {s t : Session σ} (h : turn env limit s = (.ok none, t)) :
    t.steps = s.steps + (deed? env limit s).toList.length := by
  cases hf : s.frames with
  | nil =>
    rw [turn_nil env limit s hf] at h
    cases h
  | cons f rest =>
    obtain ⟨goesOn, u, hc⟩ := checkpoint_ok env s
    have hu : u.steps = s.steps := (confined_checkpoint env).steps_eq hc
    cases goesOn with
    | false =>
      rw [turn_cancelled env limit hf hc] at h
      cases h
    | true =>
      cases hi : f.instructions[f.next]? with
      | none =>
        rw [turn_leave env limit hf hc hi] at h
        obtain ⟨_, v, hclose, h⟩ := Effect.bind_eq_ok h
        cases h
        have hdeed : deed? env limit s = none := by simp only [deed?, hf, hc, hi, Option.bind_none]
        have hsteps := (confined_closeAll env _).steps_eq hclose
        simp [hdeed, hsteps, hu]
      | some i =>
        rw [turn_run env limit hf hc hi] at h
        obtain ⟨_, v, hcount, h⟩ := Effect.bind_eq_ok h
        obtain ⟨_, w, hrun, h⟩ := Effect.bind_eq_ok h
        cases h
        have hcounted := countStep_under limit u (⟨f.instructions, f.next + 1, f.owner⟩ :: rest)
        rw [hcount, Prod.mk.injEq] at hcounted
        obtain ⟨hok, rfl⟩ := hcounted
        have hdeed : deed? env limit s = some ⟨i, i.calls env (openEntry env i u).2.world⟩ := by
          simp only [deed?, hf, hc, hi, Option.bind_some, deedOf?, ← hok]
        have hsteps := leaves_steps_execute env i { u with
          frames := ⟨f.instructions, f.next + 1, f.owner⟩ :: rest
          steps := u.steps + 1 }
        rw [hrun] at hsteps
        simp only at hsteps
        simp [hdeed, hsteps, hu]

-- What some turns have recorded are their deeds, which are as many as have been counted.
theorem Turns.told {n : Nat} {s t : Session σ} (h : Turns env limit n s t) :
    ∃ ds : List Deed, t.steps = s.steps + ds.length ∧
      Records s.entries.size (openEntries s.frames) (ds.flatMap Deed.entries) s.entries t.entries ∧
      ∀ o ∈ openEntries t.frames, o ∈ openEntries s.frames ∨ s.entries.size ≤ o.index := by
  induction h with
  | zero s => exact ⟨[], rfl, .refl _ _ _, fun o ho => .inl ho⟩
  | @next n s t u ht hn ih =>
    obtain ⟨ds, hsteps, hrest, hinside'⟩ := ih
    obtain ⟨told, htells, hfirst, hinside⟩ := turn_records ht
    have hcount := turn_counts ht
    have hall := hfirst.onward hinside hrest hinside'
    rw [htells.eq_of_ok, ← List.flatMap_append] at hall
    refine ⟨(deed? env limit s).toList ++ ds, ?_, hall⟩
    rw [List.length_append]
    omega

theorem Turns.steps_le {n : Nat} {s t : Session σ} (h : Turns env (some most) n s t)
    (hs : (s.steps : Int) ≤ most) : (t.steps : Int) ≤ most := by
  induction h with
  | zero s => exact hs
  | next ht hn ih =>
    apply ih
    rcases turn_spends ht with ⟨hsteps, -⟩ | ⟨-, hsteps, -⟩
    · omega
    · exact hsteps

theorem Turns.reachable {script : List Instruction} {n : Nat} {s t : Session σ}
    (h : Turns env limit n s t) (hs : Reachable env limit script s) :
    Reachable env limit script t := by
  induction h with
  | zero s => exact hs
  | next ht hn ih => exact ih (hs.turn ht)

def Entry.isInstruction : Entry → Bool
  | .instruction .. => true
  | _ => false

@[simp] theorem Entry.isInstruction_bare (e : Entry) : e.bare.isInstruction = e.isInstruction := by
  cases e <;> rfl

-- An instruction and the operations that belong to it.
theorem Deed.countP_entries (d : Deed) : d.entries.countP Entry.isInstruction = 1 := by
  have hcalls : (d.calls.map StoreCall.entry).countP Entry.isInstruction = 0 := by
    rw [List.countP_eq_zero]
    intro e he
    obtain ⟨call, -, rfl⟩ := List.mem_map.mp he
    simp [StoreCall.entry, Entry.isInstruction]
  rw [Deed.entries, List.countP_cons, hcalls]
  rfl

theorem countP_deeds (ds : List Deed) :
    (ds.flatMap Deed.entries).countP Entry.isInstruction = ds.length := by
  induction ds with
  | nil => rfl
  | cons d rest ih =>
    rw [List.flatMap_cons, List.countP_append, ih, d.countP_entries, List.length_cons]
    omega

-- The entries of a run whose open conditions have been settled: those there were, and one for each
-- instruction that was counted, among the operations.
theorem Turns.settled {script : List Instruction} {entries after : Array Entry} {world : σ}
    {n : Nat} {t : Session σ} (h : Turns env limit n (begun env script entries world) t)
    (hsettled : Records t.entries.size (openEntries t.frames) [] t.entries after) :
    ∃ told, after.toList = entries.toList ++ told ∧
      told.countP Entry.isInstruction = t.steps ∧ ∀ e ∈ told, e.isTerminal = false := by
  obtain ⟨ds, hsteps, hrecord, hinside⟩ := h.told
  have hsize : entries.size ≤ t.entries.size := hrecord.size_le
  have hnew : ∀ o ∈ [] ++ openEntries t.frames, entries.size ≤ o.index :=
    fun o ho => (hinside o ho).resolve_left (by rintro ⟨⟩)
  obtain ⟨told, hafter, hbare⟩ := (hrecord.trans (hsettled.before hsize)).split hnew
  rw [List.append_nil] at hbare
  refine ⟨told, hafter, ?_, fun e he => ?_⟩
  · have hcount := congrArg (List.countP Entry.isInstruction) hbare
    rw [List.countP_map, countP_deeds] at hcount
    have hkind : Entry.isInstruction ∘ Entry.bare = Entry.isInstruction :=
      funext Entry.isInstruction_bare
    rw [hkind] at hcount
    rw [hcount, hsteps]
    exact (Nat.zero_add _).symm
  · have hmem : e.bare ∈ ds.flatMap Deed.entries := hbare ▸ List.mem_map_of_mem he
    rw [← isTerminal_bare]
    exact isTerminal_deeds ds _ hmem

theorem conclude_error_apply {e : Failure} (he : e ≠ .unfinished) (started : Seconds)
    {inside : List OpenEntry} {s t : Session σ} (hsettle : settle env inside s = (.ok (), t)) :
    conclude env started inside (.error e) s = (.ok (), { t with
      world := (env.timer t.world).2
      entries := t.entries.push
        (.error e.message (elapsed started (env.timer t.world).1)) }) := by
  rw [conclude_error _ _ _ he, Effect.bind_ok hsettle]
  rfl

-- What a run that was refused an instruction has in common with one that goes on: all but its last
-- entry, and what the conditions that are open get when they are closed.
structure StoppedShort (entries : Array Entry) (most : Nat) (stopped longer : Session (Watched σ)) :
    Prop where
  record : ∃ told duration, stopped.entries.toList =
      entries.toList ++ told ++ [.error (Failure.stepLimit most).message duration] ∧
    told.countP Entry.isInstruction = most ∧ ∀ e ∈ told, e.isTerminal = false
  calls_prefix : stopped.world.calls <+: longer.world.calls
  prefixBut : PrefixBut (openEntries stopped.frames) stopped.entries.pop longer.entries
  inside : ∀ o ∈ openEntries stopped.frames, ∃ test isMet duration, stopped.entries[o.index]? =
    some (.instruction (.condition test isMet) (o.address.map .same) duration)

theorem checkpoint_noted_extends (calls : List Call) :
    Alike (Beside (Extends calls)) (checkpoint env.noted) (checkpoint env.noted) :=
  alike_checkpoint (alike_unnoted_extends calls _) fun _ => alike_unnoted_extends calls _

theorem leaves_calls_checkpoint (env : Environment σ) :
    Leaves (Watched.calls ∘ Session.world) (checkpoint env.noted) :=
  leaves_checkpoint (fun _ => rfl) fun _ _ => rfl

-- The run that was refused an instruction and the one that goes on part at that turn.
theorem stoppedShort {script : List Instruction} {entries : Array Entry} {world : Watched σ}
    {most j : Nat} {u t : Session (Watched σ)}
    (hturns : Turns env.noted (some most) j (begun env.noted script entries world) u)
    (hrefused : Refused env.noted most u t) (limit : Option Int) (m : Nat) (started : Seconds) :
    let refused := conclude env.noted started (openEntries t.frames) (.error (.stepLimit most)) t
    let after := loop env.noted limit m u
    refused.1 = .ok () ∧ StoppedShort entries most refused.2
      (conclude env.noted started (openEntries after.2.frames) after.1 after.2).2 := by
  obtain ⟨-, hexceeded, ⟨v, hcheck, hworld⟩, hentries, hopen⟩ := hrefused
  have hsteps : u.steps = most := by
    have hle := hturns.steps_le (Int.natCast_nonneg most)
    omega
  rcases hsettle : settle env.noted (openEntries t.frames) t with ⟨outcome, w⟩
  obtain ⟨rfl, hsettled⟩ := settle_records u.entries.size hsettle
  have hframes : openEntries w.frames = openEntries u.frames := by
    rw [(confined_settle env.noted _).frames_eq hsettle, hopen]
  have hisOpen := hturns.openInside (openInside_begun script entries world)
  have htimes := settle_isOpen (hopen ▸ hentries ▸ hisOpen.isOpen) (hopen ▸ hisOpen.nested) hsettle
  rw [hentries, hopen] at hsettled
  have hfailure : (Failure.stepLimit most) ≠ .unfinished := nofun
  have hrefused := conclude_error_apply hfailure started hsettle
  have hcalls : w.world.calls = u.world.calls := by
    have hsettles : Leaves (Watched.calls ∘ Session.world)
        (settle env.noted (openEntries t.frames)) := leaves_settle (fun _ => rfl) _
    have hchecks := (leaves_calls_checkpoint env).view_eq hcheck
    exact (hsettles.view_eq hsettle).trans ((congrArg Watched.calls hworld).trans hchecks)
  obtain ⟨told, htold, hcount, hterminal⟩ := hturns.settled hsettled
  obtain ⟨more, hrest⟩ := @rest_records _ env.noted limit m started u
  dsimp only
  rw [hrefused]
  refine ⟨rfl, ⟨told, elapsed started (env.noted.timer w.world).1, ?_, hcount.trans hsteps,
    hterminal⟩, ?_, ?_, fun o ho => ?_⟩
  · rw [Array.toList_push, htold]
  · change w.world.calls <+: _
    rw [hcalls]
    exact calls_onward (noted_alike_extends _ env) (checkpoint_noted_extends _) limit m started
  · rw [hframes, Array.pop_push]
    exact hsettled.prefixBut hrest
  · rw [hframes, ← hopen] at ho
    obtain ⟨test, isMet, n, he⟩ := htimes.2 o ho
    have hlt : o.index < w.entries.size := (Array.getElem?_eq_some_iff.mp he).1
    refine ⟨test, isMet, elapsed o.started (env.noted.timer ((tick env.noted)^[n] t.world)).1, ?_⟩
    rw [Array.getElem?_push_lt hlt, ← Array.getElem?_eq_getElem hlt]
    exact he

-- An environment whose calls come back, with a result or with a failure: looking at pages, and
-- expanding the texts of a script, which goes on for ever if a datum holds its own token. Acting on
-- a page and using the data are not asked to, as what comes of them does not end a run.
structure Environment.Returns (env : Environment σ) (script : List Instruction) : Prop where
  pages : env.pages.FailsWith (· ≠ .unfinished)
  texts : ∀ i ∈ partsOfList script, ∀ text ∈ i.texts,
    Gleaner.FailsWith (· ≠ .unfinished) (env.expand text)

section

variable {script : List Instruction} {P : Failure → Prop}

-- What the calls that are noted fail with, the calls themselves fail with.
theorem FailsWith.noted {α : Type} {work : Effect (Watched σ) α} {other : Effect σ α}
    (ha : Alike (fun w v => w.world = v) work other) (h : FailsWith P other) :
    FailsWith P work := by
  intro w e w' hw
  refine h w.world e (other w.world).2 (Prod.ext ?_ rfl)
  rw [← (ha w w.world rfl).1, hw]

theorem Pages.FailsWith.noted (h : env.pages.FailsWith P) : env.noted.pages.FailsWith P :=
  have ha := (noted_alike env).pages
  { isVisible := fun page selectors => (h.isVisible page selectors).noted (ha.isVisible _ _)
    textOf := fun page selectors => (h.textOf page selectors).noted (ha.textOf _ _)
    attributeOf := fun page selectors name =>
      (h.attributeOf page selectors name).noted (ha.attributeOf _ _ _)
    address := fun page => (h.address page).noted (ha.address _) }

-- Where the calls come back, so does a turn.
theorem turn_returns (h : env.Returns script) {s t : Session σ} {e : Failure}
    (hs : Reachable env limit script s) (ht : turn env limit s = (.error e, t)) :
    e ≠ .unfinished := by
  have hparts : ∀ f rest i, s.frames = f :: rest → f.instructions[f.next]? = some i →
      i.FailsWith env (· ≠ .unfinished) := fun f rest i hf hi =>
    ⟨h.texts i (hs.mem_parts hf hi), fun _ _ _ _ _ => nofun⟩
  rcases turn_fails h.pages hparts ht with he | ⟨_, -, rfl⟩ | ⟨_, _, _, -, -, rfl, -⟩
  · exact he
  · nofun
  · nofun

-- Only the limit and the calls themselves can say that there have been too many steps.
theorem turn_fails_of_returns (h : env.Returns script) (most : Int) {s t : Session (Watched σ)}
    {e : Failure} (hs : Reachable env.noted limit script s)
    (ht : turn env.noted limit s = (.error e, t)) :
    e ≠ .unfinished ∧ (e = .stepLimit most → limit = some most ∨ env.Raises e) := by
  let P : Failure → Prop := fun e => e ≠ .unfinished ∧ (e = .stepLimit most → env.Raises e)
  have hraises := failsWith_raises_of env (.stepLimit most) nofun nofun nofun nofun
  have hpages : env.noted.pages.FailsWith P := (h.pages.and hraises.pages).noted
  have hparts : ∀ f rest i, s.frames = f :: rest → f.instructions[f.next]? = some i →
      i.FailsWith env.noted P := by
    intro f rest i hf hi
    refine ⟨fun text htext => ?_, fun _ _ _ _ _ => ⟨nofun, nofun⟩⟩
    have hexpand := h.texts i (hs.mem_parts hf hi) text htext
    exact (hexpand.and (hraises.expand text)).noted (alike_expand (noted_alike env) text)
  rcases turn_fails hpages hparts ht with ⟨he, hcalls⟩ | ⟨m, hm, rfl⟩ | ⟨_, _, name, -, -, rfl, -⟩
  · exact ⟨he, fun hlimit => .inr (hcalls hlimit)⟩
  · refine ⟨nofun, fun hlimit => .inl ?_⟩
    cases hlimit
    exact hm
  · exact ⟨nofun, nofun⟩

-- The same entries, whether or not the calls are noted.
theorem run_noted (env : Environment σ) (limit : Option Int) (fuel : Nat)
    (script : List Instruction) (entries : Array Entry) (world : σ) :
    (run env limit fuel script entries world).1 =
      let whole := wholeRun env.noted limit fuel script entries (fresh world)
      whole.1.map fun _ => whole.2.entries := by
  have hu : ∀ {α : Type} (work : StateM σ α), Alike (fun (w : Watched σ) v => w.world = v)
      (monadLift (unnoted work) : Effect (Watched σ) α) (monadLift work) := by
    rintro α work w _ rfl
    exact ⟨rfl, rfl⟩
  exact run_of_alike (noted_alike env) (hu _) (fun _ => hu _) (fun _ => hu _) limit fuel script
    entries rfl

end

-- A run that may execute so many instructions, beside one that may execute as many or more. It
-- comes to an end. The runs are the same if the limit is not exceeded, and if it is, the first has
-- stopped short of the second; unless it is a call that says so.
def LimitsTo (env : Environment σ) (most : Nat) (limit : Option Int) (fuel : Nat)
    (script : List Instruction) (entries : Array Entry) (world : σ) : Prop :=
  let start := begun env.noted script entries (fresh world)
  let outcome := (loop env.noted (some most) (turnLimit (some most) fuel) start).1
  let limited := wholeRun env.noted (some most) fuel script entries (fresh world)
  let longer := wholeRun env.noted limit fuel script entries (fresh world)
  (run env (some most) fuel script entries world).1 = .ok limited.2.entries ∧
  (run env limit fuel script entries world).1 = longer.1.map (fun _ => longer.2.entries) ∧
  (outcome ≠ .error (.stepLimit most) → limited = longer) ∧
  (outcome = .error (.stepLimit most) →
    StoppedShort entries most limited.2 longer.2 ∨ env.Raises (.stepLimit most) ∧ limited = longer)

theorem conclude_ok {outcome : Except Failure Ending} (h : outcome ≠ .error .unfinished)
    (started : Seconds) (inside : List OpenEntry) (s : Session σ) :
    (conclude env started inside outcome s).1 = .ok () := by
  rcases hsettle : settle env inside s with ⟨settled, t⟩
  have hsettled := (settle_records 0 hsettle).1
  cases outcome with
  | ok ending =>
    cases ending with
    | completed => rfl
    | cancelled => exact (congrArg Prod.fst hsettle).trans hsettled
  | error e =>
    have he : e ≠ .unfinished := fun he => h (congrArg Except.error he)
    rw [conclude_error_apply he started (hsettled ▸ hsettle)]

-- A limit ends every run whose calls come back, and changes nothing of what comes before it.
theorem run_limited {script : List Instruction} (h : env.Returns script) (most : Nat)
    {limit : Option Int} (hlimit : ∀ m ∈ limit, (most : Int) ≤ m) {fuel : Nat}
    (hfuel : limit = none → 2 * most + 4 ≤ fuel) (entries : Array Entry) (world : σ) :
    LimitsTo env most limit fuel script entries world := by
  have hleft := turnsLeft_begun_lt env.noted most fuel script entries (fresh world)
  have hmore : turnLimit (some (most : Int)) fuel ≤ turnLimit limit fuel := by
    cases limit with
    | none =>
      have hfuel := hfuel rfl
      simp only [turnLimit]
      omega
    | some m =>
      have hm := hlimit m rfl
      simp only [turnLimit]
      omega
  unfold LimitsTo
  rw [run_noted, run_noted]
  dsimp only [wholeRun]
  rcases loop_limit hleft with hsame | ⟨j, u, t, hturns, hrefused, hstops, hrest⟩
  · -- No turn is refused, so the two runs are one.
    rw [← hsame limit hlimit _ hmore]
    rcases hloop : loop env.noted (some most) (turnLimit (some most) fuel)
      (begun env.noted script entries (fresh world)) with ⟨outcome, t⟩
    have hends : outcome ≠ .error .unfinished := by
      rintro rfl
      obtain ⟨n, u, hturns, hturn⟩ := loop_failed_of_limit hleft hloop
      exact (turn_fails_of_returns h most (hturns.reachable (.start _ _)) hturn).1 rfl
    refine ⟨?_, rfl, fun _ => rfl, ?_⟩
    · rw [conclude_ok hends]
      rfl
    · rintro rfl
      -- The same failure without a limit has to be that of a call.
      have hnone : ∀ m ∈ (none : Option Int), (most : Int) ≤ m := by simp
      rw [hsame none hnone _ (Nat.le_refl _)] at hloop
      rcases loop_error (.start _ _) hloop with hnone | ⟨u, hu, hturn⟩
      · cases hnone
      · rcases (turn_fails_of_returns h most hu hturn).2 rfl with hnone | hraises
        · cases hnone
        · exact .inr ⟨hraises, rfl⟩
  · obtain ⟨m, hm⟩ := hrest limit hlimit _ hmore
    obtain ⟨hok, hshort⟩ := stoppedShort hturns hrefused limit m
      (env.noted.timer (restart env.noted (fresh world)).2).1
    rw [hm, hstops]
    refine ⟨?_, rfl, fun hne => absurd rfl hne, fun _ => .inl hshort⟩
    rw [hok]
    rfl

-- Copies a value for ever, as long as there is a link to see.
def copyForever : List Instruction :=
  [.marker "again",
    .condition (.isVisible [.query "a"] none)
      [.saveData "s.b" (.externalData "s.a" none), .jump "again"] none]

-- The run that may execute three instructions stops in the branch, with the condition open.
theorem run_limited_copyForever :
    let env := Rehearsal.environment brokenPages (Rehearsal.KeyedStore.store none)
    env.Returns copyForever ∧ (∀ m ∈ some (5 : Int), (3 : Int) ≤ m) ∧
    LimitsTo env 3 (some 5) 0 copyForever #[] {} ∧
    (run env (some 3) 0 copyForever #[] {}).1.toOption.map (·.toList.map Entry.kind) =
      some ["instruction", "instruction", "instruction", "external-data-operation",
        "external-data-operation", "error"] ∧
    (run env (some 5) 0 copyForever #[] {}).1.toOption.map (·.toList.map Entry.kind) =
      some ["instruction", "instruction", "instruction", "external-data-operation",
        "external-data-operation", "instruction", "instruction", "error"] := by
  intro env
  have hnone : ∀ i ∈ partsOfList copyForever, ∀ text ∈ i.texts,
      Template.first? text.toList = none := by decide
  have hreturns : env.Returns copyForever :=
    ⟨brokenPages_failsWith _, fun i hi text ht => failsWith_expand_of_none (hnone i hi text ht)⟩
  have hmore : ∀ m ∈ some (5 : Int), (3 : Int) ≤ m := by decide
  exact ⟨hreturns, hmore, run_limited hreturns 3 hmore nofun #[] {}, by decide +kernel,
    by decide +kernel⟩

end Gleaner
