import Gleaner.Proofs.Run.Budget
import Gleaner.Proofs.Run.Position
import Mathlib.Data.List.Perm.Subperm

namespace Gleaner

open Instruction Session

variable {σ : Type} {env : Environment σ} {limit : Option Int} {script : List Instruction}

-- How a turn changes the place of a run: it leaves a list, or it goes on to a later instruction.
inductive GoesOn (script : List Instruction) (s t : Session σ) : Prop
  | leaves {f : Frame} {rest : List Frame} (hf : s.frames = f :: rest)
      (hn : f.instructions[f.next]? = none) (ht : t.frames = rest)
      (hle : s.number script ≤ t.number script)
  | ascends (hlt : s.number script < t.number script)

-- A jump that is carried out is one of the script, so its target comes later.
theorem Stands.jump_lt {entries : Array Entry} {f : Frame} {rest left staying : List Frame}
    {b : Block} {around : List Block} {name : String} (hforward : OnlyForward script)
    (h : Stands script entries f rest b around)
    (hi : f.instructions[f.next]? = some (.jump name))
    (hl : land? name (f.advance :: rest) = some (left, staying)) :
    ∃ g below c outer, staying = g :: below ∧ Stands script entries g below c outer ∧
      b.number f.next < c.number g.next := by
  obtain ⟨g, below, c, outer, place, i, hg, hstands, htarget, hnext, hplace⟩ :=
    (h.go_to _).land hl
  refine ⟨g, below, c, outer, hg, hstands, ?_⟩
  have hleap : (b.number f.next, target? name (b :: around)) ∈ leaps script := by
    refine h.mem_leaps (mem_leapsFrom (h.instructions_eq ▸ hi) ?_)
    exact List.mem_singleton.mpr rfl
  have hlt := hforward _ hleap (c.number place) htarget
  have := Block.number_lt_succ hplace
  rw [hnext]
  omega

theorem turn_stands {s t : Session σ} (hforward : OnlyForward script) (hopen : OpenInside s)
    (hs : StandsIn script s.entries s.frames) (h : turn env limit s = (.ok none, t)) :
    StandsIn script t.entries t.frames ∧ GoesOn script s t := by
  obtain ⟨told, -, hrecord, -⟩ := turn_records h
  have htruth : ∀ o ∈ openEntries s.frames, o.truth? t.entries = o.truth? s.entries :=
    fun o ho => hrecord.truth_eq (hopen.isOpen o ho).index_lt
  have hbefore := number_le hs
  cases hf : s.frames with
  | nil =>
    rw [turn_nil env limit s hf] at h
    cases h
  | cons f rest =>
    have hmoves := turn_moves h
    rw [hf] at hs htruth hmoves
    obtain ⟨b, around, hstands⟩ := hs
    have hnumber := hstands.number_eq hf
    have hafter := hstands.of_truth htruth
    generalize ht : t.frames = gs at hmoves
    cases hmoves with
    | leave hn =>
      cases hafter with
      | script next owner =>
        refine ⟨trivial, .leaves hf hn ht ?_⟩
        simpa [number, ht] using hbefore
      | @branch g below c outer place test consequent alternative isMet next o hc hg hi ho =>
        have hle := Block.branch_end_le hi isMet
        have hend := Block.number_end (b := c.branch place consequent alternative isMet) hn
        refine ⟨⟨c, outer, hc⟩, .leaves hf hn ht ?_⟩
        rw [hnumber, hc.number_eq ht, hg]
        exact hend ▸ hle
    | stay hi hc hj =>
      have hnext := hafter.go_to (f.next + 1)
      refine ⟨⟨b, around, hnext⟩, .ascends ?_⟩
      rw [hnumber, hnext.number_eq ht]
      exact Block.number_lt_succ (hafter.instructions_eq ▸ hi)
    | @branch f rest test consequent alternative opened chosen hi hb =>
      obtain ⟨isMet, o, hframes, ho⟩ := turn_condition hf hi h
      have hcondition : b.instructions[f.next]? = some (.condition test consequent alternative) :=
        hafter.instructions_eq ▸ hi
      have hinside := Stands.branch 0 (hafter.go_to (f.next + 1)) rfl hcondition ho
      have hchosen : t.frames = ⟨(b.branch f.next consequent alternative isMet).instructions, 0,
          some o⟩ :: f.advance :: rest := by
        rw [hframes]
        cases isMet <;> rfl
      rw [← ht, hchosen]
      refine ⟨⟨_, _, hinside⟩, .ascends ?_⟩
      rw [hnumber, hinside.number_eq hchosen]
      exact Block.lt_branch_start ..
    | jump hi hl =>
      obtain ⟨g, below, c, outer, rfl, hlanded, hlt⟩ := hafter.jump_lt hforward hi hl
      refine ⟨⟨c, outer, hlanded⟩, .ascends ?_⟩
      rwa [hnumber, hlanded.number_eq ht]

-- What a turn executes is the next instruction of the innermost list.
theorem deed?_takes {s : Session σ} {d : Deed} (hd : deed? env limit s = some d) :
    ∃ f rest, s.frames = f :: rest ∧ f.instructions[f.next]? = some d.instruction := by
  unfold deed? at hd
  split at hd
  · next f rest u hf hc =>
    obtain ⟨i, hi, hd⟩ := Option.bind_eq_some_iff.mp hd
    refine ⟨f, rest, hf, ?_⟩
    unfold deedOf? at hd
    split at hd
    · cases hd
      exact hi
    · cases hd
  · cases hd

theorem GoesOn.number_le {s t : Session σ} (h : GoesOn script s t) :
    s.number script ≤ t.number script := by
  cases h with
  | leaves hf hn ht hle => exact hle
  | ascends hlt => exact Nat.le_of_lt hlt

theorem GoesOn.number_lt {s t : Session σ} {d : Deed} (h : GoesOn script s t)
    (hd : deed? env limit s = some d) : s.number script < t.number script := by
  cases h with
  | leaves hf hn ht hle =>
    obtain ⟨f, rest, hf', hi⟩ := deed?_takes hd
    rw [hf, List.cons.injEq] at hf'
    obtain ⟨rfl, -⟩ := hf'
    rw [hn] at hi
    cases hi
  | ascends hlt => exact hlt

-- The numbers of the instructions that a number of turns execute, in order.
def numbers (env : Environment σ) (limit : Option Int) (script : List Instruction) :
    Nat → Session σ → List Nat
  | 0, _ => []
  | n + 1, s =>
    ((deed? env limit s).map fun _ => s.number script).toList ++
      match turn env limit s with
      | (.ok none, t) => numbers env limit script n t
      | _ => []

-- Some instructions of a script, by ascending numbers that do not come before a given one.
structure Ascending (script : List Instruction) (least : Nat) (executed : List Instruction)
    (ks : List Nat) : Prop where
  pairwise : ks.Pairwise (· < ·)
  le : ∀ k ∈ ks, least ≤ k
  numbered : executed.map some = ks.map ((partsOfList script)[·]?)

namespace Ascending

variable {least : Nat} {executed : List Instruction} {ks : List Nat}

theorem nil (script : List Instruction) (least : Nat) : Ascending script least [] [] :=
  ⟨.nil, nofun, rfl⟩

theorem mono {less : Nat} (h : Ascending script least executed ks) (hle : less ≤ least) :
    Ascending script less executed ks :=
  { h with le := fun k hk => hle.trans (h.le k hk) }

theorem cons {i : Instruction} {number : Nat} (h : Ascending script least executed ks)
    (hlt : number < least) (hi : (partsOfList script)[number]? = some i) :
    Ascending script number (i :: executed) (number :: ks) where
  pairwise := List.pairwise_cons.mpr ⟨fun k hk => Nat.lt_of_lt_of_le hlt (h.le k hk), h.pairwise⟩
  le := List.forall_mem_cons.mpr ⟨Nat.le_refl _, (h.mono (Nat.le_of_lt hlt)).le⟩
  numbered := by rw [List.map_cons, List.map_cons, h.numbered, hi]

theorem length_le (h : Ascending script least executed ks) :
    executed.length ≤ (partsOfList script).length := by
  have hsubset : ks ⊆ List.range (partsOfList script).length := by
    intro k hk
    have hmem : (partsOfList script)[k]? ∈ executed.map some := by
      rw [h.numbered]
      exact List.mem_map_of_mem hk
    obtain ⟨i, -, hi⟩ := List.mem_map.mp hmem
    exact List.mem_range.mpr (List.getElem?_eq_some_iff.mp hi.symm).1
  have hnodup : ks.Nodup := h.pairwise.imp Nat.ne_of_lt
  have hlength : executed.length = ks.length := by
    simpa using congrArg List.length h.numbered
  simpa [hlength] using (hnodup.subperm hsubset).length_le

end Ascending

-- A run that only jumps forward executes one instruction after the other in the order of the text.
theorem ascending_numbers (hforward : OnlyForward script) {n : Nat} {s : Session σ}
    (hopen : OpenInside s) (hs : StandsIn script s.entries s.frames) :
    Ascending script (s.number script) ((deeds env limit n s).map Deed.instruction)
      (numbers env limit script n s) := by
  induction n generalizing s with
  | zero => exact .nil script _
  | succ n ih =>
    have hrest : ∀ t, turn env limit s = (.ok none, t) → GoesOn script s t ∧
        Ascending script (t.number script) ((deeds env limit n t).map Deed.instruction)
          (numbers env limit script n t) := fun t ht =>
      have ⟨hstands, hgoes⟩ := turn_stands hforward hopen hs ht
      ⟨hgoes, ih (turn_openInside hopen ht) hstands⟩
    cases hd : deed? env limit s with
    | none =>
      rw [numbers, deeds, hd]
      rcases ht : turn env limit s with ⟨e | _ | ending, t⟩
      · exact .nil script _
      · obtain ⟨hgoes, hrest⟩ := hrest t ht
        exact hrest.mono hgoes.number_le
      · exact .nil script _
    | some d =>
      obtain ⟨f, rest, hf, hi⟩ := deed?_takes hd
      have hnumber := getElem?_number hs hf hi
      have hlast := (Ascending.nil script (s.number script + 1)).cons (Nat.lt_succ_self _) hnumber
      rw [numbers, deeds, hd]
      rcases ht : turn env limit s with ⟨e | _ | ending, t⟩
      · exact hlast
      · obtain ⟨hgoes, hrest⟩ := hrest t ht
        exact hrest.cons (hgoes.number_lt hd) hnumber
      · exact hlast

-- The turns that are left to a run that only jumps forward: each instruction takes one and may
-- bring another one, that in which its branch is left.
def turnsAhead (script : List Instruction) (s : Session σ) : Nat :=
  2 * ((partsOfList script).length - s.number script) + s.frames.length

theorem turnsAhead_lt {s t : Session σ} (hforward : OnlyForward script) (hopen : OpenInside s)
    (hs : StandsIn script s.entries s.frames) (h : turn env limit s = (.ok none, t)) :
    turnsAhead script t < turnsAhead script s := by
  obtain ⟨hstands, hgoes⟩ := turn_stands hforward hopen hs h
  have hend := Gleaner.number_le hstands
  unfold turnsAhead
  cases hgoes with
  | leaves hf hn ht hle =>
    rw [hf, ht, List.length_cons]
    omega
  | ascends hlt =>
    have := (turn_moves h).length_le
    omega

theorem Turns.le_turnsAhead (hforward : OnlyForward script) {n : Nat} {s t : Session σ}
    (h : Turns env limit n s t) (hopen : OpenInside s) (hs : StandsIn script s.entries s.frames) :
    turnsAhead script t + n ≤ turnsAhead script s := by
  induction h with
  | zero s => exact Nat.le_refl _
  | next ht hn ih =>
    have hless := turnsAhead_lt hforward hopen hs ht
    have hrest := ih (turn_openInside hopen ht) (turn_stands hforward hopen hs ht).1
    omega

theorem standsIn_begun (script : List Instruction) (entries : Array Entry) (world : σ) :
    StandsIn script (begun env script entries world).entries
      (begun env script entries world).frames :=
  ⟨_, _, .script 0 none⟩

theorem turnsAhead_begun (script : List Instruction) (entries : Array Entry) (world : σ) :
    turnsAhead script (begun env script entries world) = 2 * (partsOfList script).length + 1 := rfl

-- With as many turns, the run comes to an end if its calls come back.
theorem loop_ends_forward (hforward : OnlyForward script) (hreturns : env.Returns script)
    {fuel : Nat} (hfuel : 2 * (partsOfList script).length + 2 ≤ fuel) (entries : Array Entry)
    (world : σ) :
    (loop env none fuel (begun env script entries world)).1 ≠ .error .unfinished := by
  rcases hloop : loop env none fuel (begun env script entries world) with ⟨outcome, t⟩
  rintro rfl
  rcases loop_failed hloop with ⟨-, hturns⟩ | ⟨n, u, hturns, ht⟩
  · have hahead := hturns.le_turnsAhead hforward (openInside_begun script entries world)
      (standsIn_begun script entries world)
    rw [turnsAhead_begun] at hahead
    omega
  · exact turn_returns hreturns (hturns.reachable (.start _ entries)) ht rfl

theorem LastEntry.countP_eq {outcome : Except Failure Ending} {s : Session σ} {last : List Entry}
    (h : LastEntry env outcome s last) : last.countP Entry.isInstruction = 0 := by
  cases h <;> rfl

-- So there is in the record of a whole run.
theorem run_counts {fuel : Nat} {entries all : Array Entry} {world : σ}
    (h : (run env limit fuel script entries world).1 = .ok all) :
    ∃ added, all.toList = entries.toList ++ added ∧ added.countP Entry.isInstruction ≤
      (deeds env limit (turnLimit limit fuel) (begun env script entries world)).length := by
  rcases hloop : loop env limit (turnLimit limit fuel) (begun env script entries world) with
    ⟨outcome, t⟩
  obtain ⟨told, ⟨hpart, -⟩, hrecord, hinside⟩ := loop_advances hloop
  have hnew : ∀ o ∈ openEntries t.frames, entries.size ≤ o.index := fun o ho =>
    (hinside o ho).resolve_left (by rintro ⟨⟩)
  rw [run_eq_wholeRun] at h
  rcases wholeRun_records hloop hrecord hnew with
    hwhole | ⟨final, added, last, hwhole, hlast, hadded, hfinal⟩ <;> rw [hwhole] at h
  · cases h
  · cases h
    refine ⟨added ++ last, by rw [hfinal, List.append_assoc], ?_⟩
    have hbare : added.countP Entry.isInstruction = told.countP Entry.isInstruction := by
      rw [← hadded, List.countP_map]
      exact congrArg (added.countP ·) (funext Entry.isInstruction_bare).symm
    rw [List.countP_append, hlast.countP_eq, hbare, Nat.add_zero, ← countP_deeds]
    exact hpart.countP_le

-- A run without a limit that comes to an end. It executes instructions of the script in the order
-- of the text, each of them once at most, so that it records no more than there are.
def OnceEach (env : Environment σ) (fuel : Nat) (script : List Instruction)
    (entries : Array Entry) (world : σ) : Prop :=
  let start := begun env script entries world
  let ks := numbers env none script fuel start
  (ks.Pairwise (· < ·) ∧ (deeds env none fuel start).map (fun d => some d.instruction) =
    ks.map ((partsOfList script)[·]?)) ∧
  ∃ all added, (run env none fuel script entries world).1 = .ok all ∧
    all.toList = entries.toList ++ added ∧
    added.countP Entry.isInstruction ≤ (partsOfList script).length

-- A script whose jumps go forward needs no limit to come to an end, if the calls of its environment
-- come back.
theorem run_forward (hforward : OnlyForward script) (hreturns : env.Returns script) {fuel : Nat}
    (hfuel : 2 * (partsOfList script).length + 2 ≤ fuel) (entries : Array Entry) (world : σ) :
    OnceEach env fuel script entries world := by
  let start := begun env script entries world
  have hascending : Ascending script (start.number script)
      ((deeds env none fuel start).map Deed.instruction) (numbers env none script fuel start) :=
    ascending_numbers hforward (openInside_begun script entries world)
      (standsIn_begun script entries world)
  have hends := loop_ends_forward hforward hreturns hfuel entries world
  obtain ⟨all, hall⟩ : ∃ all, (run env none fuel script entries world).1 = .ok all := by
    rw [run_eq_wholeRun, wholeRun]
    dsimp only [turnLimit]
    rw [conclude_ok hends]
    exact ⟨_, rfl⟩
  obtain ⟨added, hadded, hcount⟩ := run_counts hall
  refine ⟨⟨hascending.pairwise, ?_⟩, all, added, hall, hadded, ?_⟩
  · rw [← hascending.numbered, List.map_map]
    rfl
  · have hlength := hascending.length_le
    rw [List.length_map] at hlength
    exact hcount.trans hlength

-- Leaves two branches at once, and what would come behind them.
def outOfBoth : List Instruction :=
  [.condition (.isVisible [.query "a"] none)
      [.condition (.isVisible [.query "b"] none) [.jump "end", .deleteData "s"] none,
        .marker "between"]
      (some [.jump "end"]),
    .deleteData "t", .marker "end", .saveData "s.a" .null]

theorem run_forward_outOfBoth :
    let env := Rehearsal.environment brokenPages (Rehearsal.KeyedStore.store none)
    OnlyForward outOfBoth ∧ env.Returns outOfBoth ∧
    2 * (partsOfList outOfBoth).length + 2 ≤ 20 ∧ OnceEach env 20 outOfBoth #[] {} ∧
    numbers env none outOfBoth 20 (begun env outOfBoth #[] {}) = [0, 1, 2, 8] := by
  intro env
  have hforward : OnlyForward outOfBoth := by decide
  have hnone : ∀ i ∈ partsOfList outOfBoth, ∀ text ∈ i.texts,
      Template.first? text.toList = none := by decide
  have hreturns : env.Returns outOfBoth :=
    ⟨brokenPages_failsWith _, fun i hi text ht => failsWith_expand_of_none (hnone i hi text ht)⟩
  have hfuel : 2 * (partsOfList outOfBoth).length + 2 ≤ 20 := by decide
  exact ⟨hforward, hreturns, hfuel, run_forward hforward hreturns hfuel #[] {}, by decide +kernel⟩

end Gleaner
