import Gleaner.Proofs.Routine.Stored
import Gleaner.Proofs.Store.Theorems

namespace Gleaner

open Validation

namespace Bounds

-- The distance between two values.
def stride (b : Bounds) : Nat := b.step.getD 1

theorem stride_pos_of_check {v : Value} {b : Bounds} (h : check v = .valid b) : 0 < b.stride := by
  obtain ⟨-, -, fields, hstep⟩ := check_eq_valid h
  unfold stride
  cases hb : b.step with
  | none => exact Nat.one_pos
  | some n =>
    rw [hb] at hstep
    obtain hdefault | ⟨w, -, hw⟩ := optionalPart_eq_valid hstep
    · cases hdefault
    · obtain ⟨m, hm, rfl⟩ := Checked.map_eq_valid (nullable_eq_valid hw)
      have hleast := atLeast_eq_valid hm
      change 0 < m.toNat
      omega

theorem values_take (b : Bounds) (most : Nat) : b.values most = (b.values b.count).take most := by
  rw [values, values, ← List.map_take, List.take_range, Nat.min_self]

variable {b : Bounds}

theorem count_eq (hordered : b.start ≤ b.stop) (hstride : 0 < b.stride) :
    b.count = (b.stop - b.start) / b.stride + 1 := by
  have hsum : b.stop + 1 - b.start + (b.stride - 1) = b.stop - b.start + b.stride := by omega
  change (b.stop + 1 - b.start + (b.stride - 1)) / b.stride = _
  rw [hsum, Nat.add_div_right _ hstride]

theorem length_values : (b.values b.count).length = b.count := by
  rw [values, List.length_map, List.length_range, Nat.min_self]

theorem mem_values (hordered : b.start ≤ b.stop) (hstride : 0 < b.stride) {n : Nat} :
    n ∈ b.values b.count ↔ b.start ≤ n ∧ n ≤ b.stop ∧ b.stride ∣ n - b.start := by
  have hcount : ∀ i, i < b.count ↔ i * b.stride ≤ b.stop - b.start := fun i => by
    rw [count_eq hordered hstride, Nat.lt_succ_iff, Nat.le_div_iff_mul_le hstride]
  have hmem : n ∈ b.values b.count ↔ ∃ i < b.count, b.start + i * b.stride = n := by
    rw [values, Nat.min_self, List.mem_map]
    simp only [List.mem_range, stride]
  rw [hmem]
  constructor
  · rintro ⟨i, hi, rfl⟩
    have hlast := (hcount i).mp hi
    refine ⟨Nat.le_add_right _ _, by omega, i, ?_⟩
    rw [Nat.add_sub_cancel_left, Nat.mul_comm]
  · rintro ⟨hfirst, hlast, i, hi⟩
    rw [Nat.mul_comm] at hi
    exact ⟨i, (hcount i).mpr (by omega), by omega⟩

theorem values_pairwise (hstride : 0 < b.stride) : (b.values b.count).Pairwise (· < ·) := by
  rw [values, List.pairwise_map]
  refine List.pairwise_lt_range.imp fun hij => ?_
  exact Nat.add_lt_add_left (Nat.mul_lt_mul_of_pos_right hij hstride) _

end Bounds

-- The ends of a span and the distance of its values, as they are written.
namespace Span

def first : Span → Nat
  | bounds b => b.start
  | upTo _ => 1

def last : Span → Nat
  | bounds b => b.stop
  | upTo n => n

def stride : Span → Nat
  | bounds b => b.stride
  | upTo _ => 1

theorem resolve_eq (span : Span) : span.resolve.start = span.first ∧
    span.resolve.stop = span.last ∧ span.resolve.stride = span.stride := by
  cases span <;> exact ⟨rfl, rfl, rfl⟩

theorem ordered_of_check {v : Value} {span : Span} (h : check v = .valid span) :
    span.first ≤ span.last ∧ 0 < span.stride := by
  obtain ⟨m, hm, h⟩ := Checked.firstOf_eq_valid h
  simp only [List.mem_cons, List.not_mem_nil, or_false] at hm
  rcases hm with rfl | rfl
  · obtain ⟨b, hb, rfl⟩ := Checked.map_eq_valid h
    exact ⟨(Bounds.check_eq_valid hb).2.1, Bounds.stride_pos_of_check hb⟩
  · obtain ⟨n, hn, rfl⟩ := Checked.map_eq_valid h
    have hleast := atLeast_eq_valid hn
    refine ⟨?_, Nat.one_pos⟩
    change 1 ≤ n.toNat
    omega

-- Contexts for the values of a span: each of them once, upwards, and numbered from one.
structure Covered (source identifier : String) (span : Span) (contexts : List IterationContext) :
    Prop where
  bound : ∀ c ∈ contexts, c.source = source ∧ c.identifier = identifier ∧ c.row = none
  numbers : contexts.map (·.iteration) = List.range' 1 ((span.last - span.first) / span.stride + 1)
  values : ∃ ns : List Nat, contexts.map (·.value) = ns.map (fun n : Nat => .int n) ∧
    ns.Pairwise (· < ·) ∧
    ∀ n, n ∈ ns ↔ span.first ≤ n ∧ n ≤ span.last ∧ span.stride ∣ n - span.first

end Span

namespace ExecutionIterator

theorem span_of_check {v : Value} {source identifier : String} {span : Span}
    (h : check v = .valid (range source identifier span)) : ∃ w, Span.check w = .valid span := by
  obtain ⟨kind, fields, -, h⟩ := tagged_eq_valid h
  split at h
  · obtain ⟨_, _, hnames, hspan, heq⟩ := Checked.ap_eq_valid h
    obtain ⟨_, _, hone, -, rfl⟩ := Checked.ap_eq_valid hnames
    obtain ⟨_, -, rfl⟩ := Checked.map_eq_valid hone
    cases heq
    exact required_eq_valid hspan
  · obtain ⟨_, -, heq⟩ := Checked.map_eq_valid h
    cases heq
  · obtain ⟨_, _, hone, -, heq⟩ := Checked.ap_eq_valid h
    obtain ⟨_, -, rfl⟩ := Checked.map_eq_valid hone
    cases heq

-- The contexts of the values of a range, as passes and previews make them.
def ofValues (source identifier : String) (values : List Nat) : List IterationContext :=
  values.mapIdx fun i (n : Nat) => ⟨i + 1, source, identifier, .int n, none⟩

section

variable (source identifier : String) (values : List Nat)

theorem ofValues_take (most : Nat) :
    ofValues source identifier (values.take most) =
      (ofValues source identifier values).take most := by
  refine List.ext_getElem? fun i => ?_
  simp only [ofValues, List.getElem?_mapIdx, List.getElem?_take]
  split <;> rfl

theorem ofValues_numbers :
    (ofValues source identifier values).map (·.iteration) = List.range' 1 values.length := by
  refine List.ext_getElem (by simp [ofValues]) fun i _ _ => ?_
  simp only [ofValues, List.getElem_map, List.getElem_mapIdx, List.getElem_range', Nat.one_mul]
  exact Nat.add_comm i 1

theorem ofValues_values :
    (ofValues source identifier values).map (·.value) = values.map fun n : Nat => .int n := by
  refine List.ext_getElem (by simp [ofValues]) fun i _ _ => ?_
  simp only [ofValues, List.getElem_map, List.getElem_mapIdx]

end

variable {σ : Type} (store : Warehouse σ)

theorem contexts_range (source identifier : String) (span : Span) (s : σ) :
    (range source identifier span).contexts store s =
      (.ok (ofValues source identifier (span.resolve.values span.resolve.count)), s) := rfl

theorem ofValues_covered (source identifier : String) {span : Span}
    (hordered : span.first ≤ span.last) (hstride : 0 < span.stride) :
    Span.Covered source identifier span
      (ofValues source identifier (span.resolve.values span.resolve.count)) := by
  obtain ⟨hfirst, hlast, hstrides⟩ := span.resolve_eq
  rw [← hfirst, ← hlast] at hordered
  rw [← hstrides] at hstride
  refine ⟨fun c hc => ?_, ?_, _, ofValues_values .., Bounds.values_pairwise hstride, fun n => ?_⟩
  · obtain ⟨i, hi, rfl⟩ := List.mem_mapIdx.mp hc
    exact ⟨rfl, rfl, rfl⟩
  · rw [ofValues_numbers, Bounds.length_values, Bounds.count_eq hordered hstride, hfirst, hlast,
      hstrides]
  · rw [Bounds.mem_values hordered hstride, hfirst, hlast, hstrides]

-- A preview that is asked for something is a cut pass.
theorem preview_eq_take (it : ExecutionIterator) {limit : Int} (hlimit : 0 < limit) :
    it.preview store limit = (do return (← it.contexts store).take limit.toNat) := by
  unfold preview
  rw [if_neg (Int.not_le.mpr hlimit)]
  cases it with
  | range source identifier span =>
    change (pure (ofValues source identifier (span.resolve.values limit.toNat)) : Effect σ _) =
      pure ((ofValues source identifier (span.resolve.values span.resolve.count)).take limit.toNat)
    rw [Bounds.values_take, ofValues_take]
  | entireSet source => rfl
  | filteredSet source filter => rfl

theorem preview_ok {it : ExecutionIterator} {s t : σ} {cs : List IterationContext}
    (hpass : it.contexts store s = (.ok cs, t)) (limit : Int) :
    it.preview store limit s =
      (.ok (cs.take (min (max limit 0) cs.length).toNat), if limit ≤ 0 then s else t) := by
  by_cases hlimit : limit ≤ 0
  · have hnone : (min (max limit 0) cs.length).toNat = 0 := by omega
    unfold preview
    rw [if_pos hlimit, if_pos hlimit, hnone]
    rfl
  · have htake : cs.take (min (max limit 0) cs.length).toNat = cs.take limit.toNat :=
      List.take_eq_take_iff.mpr (by omega)
    rw [preview_eq_take store it (Int.not_le.mp hlimit), Effect.bind_ok hpass, if_neg hlimit, htake]
    rfl

-- A pass over a range that was taken goes upwards through the numbers between its ends that differ
-- from the first by a multiple of the step, at least one, with its contexts numbered from one; it
-- reads nothing. For each kind of iterator a preview gives the first contexts of a pass from the
-- same state, as many as are asked for and there are. It fails as the pass does, and leaves the
-- state the pass leaves, unless nothing is asked for.
theorem contexts_covered_previewed (s : σ) :
    (∀ v source identifier span, check v = .valid (range source identifier span) →
      ∃ cs, (range source identifier span).contexts store s = (.ok cs, s) ∧ cs ≠ [] ∧
        Span.Covered source identifier span cs) ∧
    ∀ (it : ExecutionIterator) (limit : Int),
      (∀ cs t, it.contexts store s = (.ok cs, t) → it.preview store limit s =
        (.ok (cs.take (min (max limit 0) cs.length).toNat), if limit ≤ 0 then s else t)) ∧
      ∀ e t, 0 < limit → it.contexts store s = (.error e, t) →
        it.preview store limit s = (.error e, t) := by
  refine ⟨fun v source identifier span hv => ?_, fun it limit => ⟨fun cs t hpass => ?_, ?_⟩⟩
  · obtain ⟨w, hspan⟩ := span_of_check hv
    obtain ⟨hordered, hstride⟩ := Span.ordered_of_check hspan
    have hcovered := ofValues_covered source identifier hordered hstride
    refine ⟨_, contexts_range store source identifier span s, fun hnil => ?_, hcovered⟩
    have hlength := congrArg List.length hcovered.numbers
    rw [hnil, List.length_map, List.length_range'] at hlength
    cases hlength
  · exact preview_ok store hpass limit
  · intro e t hlimit hpass
    rw [preview_eq_take store it hlimit, Effect.bind_error hpass]

-- Numbers whose last one is below the end, and a set of which one row or none is asked for.
theorem contexts_covered_previewed_thirds :
    let thirds : Value := .object [("type", .text "range"), ("dataSourceName", .text "people"),
      ("identifier", .text "id"), ("range", .object [("start", .int 2), ("end", .int 9),
        ("step", .int 3)])]
    let span : Span := .bounds ⟨2, 9, some 3⟩
    let store := (Rehearsal.tableHost [("people", "people")] "id").warehouse
    check thirds = .valid (range "people" "id" span) ∧
    (∃ cs, (range "people" "id" span).contexts store twoPeople = (.ok cs, twoPeople) ∧
      cs.map (·.iteration) = [1, 2, 3] ∧ Span.Covered "people" "id" span cs) ∧
    ∃ cs t, (entireSet "people").contexts store twoPeople = (.ok cs, t) ∧ cs.length = 2 ∧
      (entireSet "people").preview store 1 twoPeople = (.ok (cs.take 1), t) ∧
      (entireSet "people").preview store (-1) twoPeople = (.ok [], twoPeople) := by
  intro thirds span store
  have hcheck : check thirds = .valid (range "people" "id" span) := by rfl
  obtain ⟨hrange, hpreview⟩ := contexts_covered_previewed store twoPeople
  obtain ⟨cs, hpass, -, hcovered⟩ := hrange _ _ _ _ hcheck
  have hset : ∃ cs t, (entireSet "people").contexts store twoPeople = (.ok cs, t) ∧
      cs.length = 2 := ⟨_, _, rfl, rfl⟩
  obtain ⟨rows, t, hrows, hlength⟩ := hset
  have hone := (hpreview (entireSet "people") 1).1 _ _ hrows
  have hnone := (hpreview (entireSet "people") (-1)).1 _ _ hrows
  rw [hlength] at hone hnone
  exact ⟨hcheck, ⟨cs, hpass, hcovered.numbers.trans (by decide), hcovered⟩, rows, t, hrows, hlength,
    hone, hnone⟩

end ExecutionIterator

end Gleaner
