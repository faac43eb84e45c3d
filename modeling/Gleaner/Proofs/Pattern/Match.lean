import Gleaner.Pattern.Match
import Gleaner.Proofs.Number.Numeral

namespace Gleaner.Pattern

-- A place some characters further on.
def Place.shift (p : Place) (n : Nat) : Place := { p with position := p.position + n }

theorem Place.shift_shift (p : Place) (m n : Nat) : (p.shift m).shift n = p.shift (m + n) := by
  rw [shift, shift, shift, Nat.add_assoc]

-- A part that does not lead out of some positions: if going on from them fails, so does the part.
def Within (inside : Nat → Prop) (part : Matcher) : Prop :=
  ∀ ⦃p next⦄, inside p.position → (∀ q : Place, inside q.position → next q = none) →
    part p next = none

section

variable {text : Array Char} {flags : Flags} {keep : Char → Bool}

-- What stands at a place, by the characters that are left there.
theorem getElem?_of_drop {i : Nat} {c : Char} {rest : List Char}
    (h : text.toList.drop i = c :: rest) : text[i]? = some c := by
  rw [← Array.getElem?_toList, ← List.head?_drop, h]
  rfl

theorem drop_of_getElem? {i : Nat} {c : Char} (h : text[i]? = some c) :
    text.toList.drop i = c :: text.toList.drop (i + 1) := by
  obtain ⟨hi, rfl⟩ := Array.getElem?_eq_some_iff.mp h
  exact List.drop_eq_getElem_cons (by simpa using hi)

theorem drop_add {i : Nat} (cs : List Char) {rest : List Char}
    (h : text.toList.drop i = cs ++ rest) : text.toList.drop (i + cs.length) = rest := by
  rw [← List.drop_drop, h, List.drop_left]

section

variable {p : Place} {next : Place → Option Place}

theorem one_cons {c : Char} {rest : List Char} (h : text.toList.drop p.position = c :: rest)
    (hc : keep c = true) : one text keep p next = next (p.shift 1) := by
  rw [one, getElem?_of_drop h]
  exact if_pos hc

theorem one_of_ends (h : Ends keep (text.toList.drop p.position)) :
    one text keep p next = none := by
  unfold one
  split
  · next c hc => rw [h c _ (drop_of_getElem? hc), if_neg Bool.false_ne_true]
  · rfl

-- What a greedy repetition does at a place: a further part, or else what follows.
theorem repeatGreedy_zero (part : Matcher) (fuel : Nat) (more last : Option Nat) :
    repeatGreedy part (fuel + 1) 0 more last p next =
      if more = some 0 ∨ last = some p.position then next p
      else (part p fun q => repeatGreedy part fuel 0 (more.map (· - 1)) (some p.position) q
        next).or (next p) := by
  rw [repeatGreedy]
  dsimp only
  split
  · rfl
  · split
    · next r h => rw [h, Option.some_or]
    · next h => rw [h, Option.none_or]

theorem repeatGreedy_succ (part : Matcher) (fuel least : Nat) (more last : Option Nat) :
    repeatGreedy part (fuel + 1) (least + 1) more last p next =
      part p fun q => repeatGreedy part fuel least more last q next := rfl

theorem repeatGreedy_further (part : Matcher) (fuel : Nat) {last : Option Nat}
    (hlast : ∀ i ∈ last, i < p.position) :
    repeatGreedy part (fuel + 1) 0 none last p next =
      (part p fun q => repeatGreedy part fuel 0 none (some p.position) q next).or (next p) := by
  rw [repeatGreedy_zero, Option.map_none, if_neg]
  rintro (h | h)
  · cases h
  · exact Nat.lt_irrefl _ (hlast _ h)

-- It first takes all characters of its kind.
theorem repeatGreedy_one {xs rest : List Char} {fuel : Nat} {last : Option Nat} {r : Place}
    (hrun : text.toList.drop p.position = xs ++ rest) (hkeep : ∀ c ∈ xs, keep c = true)
    (hends : Ends keep rest) (hfuel : xs.length < fuel) (hlast : ∀ i ∈ last, i < p.position)
    (hnext : next (p.shift xs.length) = some r) :
    repeatGreedy (one text keep) fuel 0 none last p next = some r := by
  induction xs generalizing p fuel last with
  | nil =>
    obtain ⟨fuel, rfl⟩ : ∃ n, fuel = n + 1 := ⟨fuel - 1, by rw [List.length_nil] at hfuel; omega⟩
    rw [repeatGreedy_further _ _ hlast, one_of_ends (hrun ▸ hends), Option.none_or]
    exact hnext
  | cons c xs ih =>
    obtain ⟨hc, hkeep⟩ := List.forall_mem_cons.mp hkeep
    rw [List.length_cons] at hfuel hnext
    obtain ⟨fuel, rfl⟩ : ∃ n, fuel = n + 1 := ⟨fuel - 1, by omega⟩
    have hlater : ∀ i ∈ some p.position, i < (p.shift 1).position := by
      rintro i hi
      cases hi
      exact Nat.lt_succ_self _
    have hrest : text.toList.drop (p.shift 1).position = xs ++ rest := drop_add [c] hrun
    have hdone : next ((p.shift 1).shift xs.length) = some r := by
      rw [p.shift_shift, Nat.add_comm, hnext]
    rw [repeatGreedy_further _ _ hlast, one_cons hrun hc,
      ih hrest hkeep (Nat.lt_of_succ_lt_succ hfuel) hlater hdone, Option.some_or]

-- Where a match has gone on behind a part, the part has taken characters of its kind.
theorem one_eq_some {r : Place} (h : one text keep p next = some r) :
    ∃ c rest, text.toList.drop p.position = c :: rest ∧ keep c = true ∧
      next (p.shift 1) = some r := by
  unfold one at h
  split at h
  · next c hc =>
    split at h
    · next hkeep => exact ⟨c, _, drop_of_getElem? hc, hkeep, h⟩
    · cases h
  · cases h

theorem run_cons {c : Char} {xs rest rest' : List Char}
    (hdrop : text.toList.drop p.position = c :: rest)
    (hrun : text.toList.drop (p.shift 1).position = xs ++ rest') :
    text.toList.drop p.position = c :: xs ++ rest' ∧
      (p.shift 1).shift xs.length = p.shift (c :: xs).length := by
  have hrest : text.toList.drop (p.shift 1).position = rest := drop_add [c] hdrop
  constructor
  · rw [hdrop, ← hrest, hrun, List.cons_append]
  · rw [p.shift_shift, List.length_cons, Nat.add_comm]

theorem repeatGreedy_eq_some {fuel : Nat} {last : Option Nat} {r : Place}
    (h : repeatGreedy (one text keep) fuel 0 none last p next = some r) :
    ∃ xs rest, text.toList.drop p.position = xs ++ rest ∧ (∀ c ∈ xs, keep c = true) ∧
      next (p.shift xs.length) = some r := by
  induction fuel generalizing p last with
  | zero => exact ⟨[], _, rfl, nofun, h⟩
  | succ fuel ih =>
    rw [repeatGreedy_zero] at h
    split at h
    · exact ⟨[], _, rfl, nofun, h⟩
    · rcases Option.or_eq_some_iff.mp h with hfurther | ⟨-, hdone⟩
      · obtain ⟨c, rest, hdrop, hc, hnext⟩ := one_eq_some hfurther
        obtain ⟨xs, rest', hrun, hkeep, hdone⟩ := ih hnext
        obtain ⟨hall, hshift⟩ := run_cons hdrop hrun
        exact ⟨c :: xs, rest', hall, List.forall_mem_cons.mpr ⟨hc, hkeep⟩, hshift ▸ hdone⟩
      · exact ⟨[], _, rfl, nofun, hdone⟩

section

variable {body : Node}

-- One character of a kind or more, and then as many as there are.
theorem repetition_some (hbody : body.matcher text flags = one text keep) {xs rest : List Char}
    {r : Place} (hrun : text.toList.drop p.position = xs ++ rest) (hne : xs ≠ [])
    (hkeep : ∀ c ∈ xs, keep c = true) (hends : Ends keep rest)
    (hnext : next (p.shift xs.length) = some r) :
    (Node.repetition .greedy 1 none body).matcher text flags p next = some r := by
  have hlength := congrArg List.length hrun
  rw [List.length_drop, List.length_append, Array.length_toList] at hlength
  obtain ⟨c, xs, rfl⟩ := List.exists_cons_of_ne_nil hne
  obtain ⟨hc, hkeep⟩ := List.forall_mem_cons.mp hkeep
  rw [List.length_cons] at hlength hnext
  change repeatGreedy (body.matcher text flags) (1 + (text.size - p.position) + 1 + 1) (0 + 1) none
    none p next = some r
  rw [hbody, repeatGreedy_succ, one_cons hrun hc]
  exact repeatGreedy_one (drop_add [c] hrun) hkeep hends (by omega) nofun
    (by rw [p.shift_shift, Nat.add_comm, hnext])

theorem repetition_eq_some (hbody : body.matcher text flags = one text keep) {r : Place}
    (h : (Node.repetition .greedy 1 none body).matcher text flags p next = some r) :
    ∃ xs rest, xs ≠ [] ∧ text.toList.drop p.position = xs ++ rest ∧ (∀ c ∈ xs, keep c = true) ∧
      next (p.shift xs.length) = some r := by
  change repeatGreedy (body.matcher text flags) (1 + (text.size - p.position) + 1 + 1) (0 + 1) none
    none p next = some r at h
  rw [hbody, repeatGreedy_succ] at h
  obtain ⟨c, rest, hdrop, hc, hnext⟩ := one_eq_some h
  obtain ⟨xs, rest', hrun, hkeep, hdone⟩ := repeatGreedy_eq_some hnext
  obtain ⟨hall, hshift⟩ := run_cons hdrop hrun
  exact ⟨c :: xs, rest', List.cons_ne_nil c xs, hall, List.forall_mem_cons.mpr ⟨hc, hkeep⟩,
    hshift ▸ hdone⟩

theorem repetition_none (hbody : body.matcher text flags = one text keep)
    (hends : Ends keep (text.toList.drop p.position)) :
    (Node.repetition .greedy 1 none body).matcher text flags p next = none := by
  change repeatGreedy (body.matcher text flags) (1 + (text.size - p.position) + 1 + 1) (0 + 1) none
    none p next = none
  rw [hbody, repeatGreedy_succ, one_of_ends hends]

-- A part that may be missing is tried first.
theorem optional_eq (body : Node) :
    (Node.repetition .greedy 0 (some 1) body).matcher text flags p next =
      (body.matcher text flags p next).or (next p) := by
  change repeatGreedy (body.matcher text flags) (0 + (text.size - p.position) + 1 + 1) 0 (some 1)
    none p next = _
  have honce : ∀ q : Place, repeatGreedy (body.matcher text flags)
      (0 + (text.size - p.position) + 1) 0 (some 0) (some p.position) q next = next q := fun q => by
    rw [repeatGreedy_zero, if_pos (.inl rfl)]
  rw [repeatGreedy_zero, if_neg (by rintro (h | h) <;> cases h)]
  simp only [Option.map_some, Nat.sub_self, honce]

end

end

namespace Within

variable {inside : Nat → Prop}

theorem one (h : ∀ i c, inside i → text[i]? = some c → keep c = true → inside (i + 1)) :
    Within inside (Pattern.one text keep) := by
  intro p next hp hnext
  unfold Pattern.one
  split
  · next c hc =>
    split
    · next hkeep => exact hnext _ (h _ c hp hc hkeep)
    · rfl
  · rfl

theorem repeatGreedy {part : Matcher} (hpart : Within inside part) (fuel least : Nat)
    (more last : Option Nat) : Within inside (Pattern.repeatGreedy part fuel least more last) := by
  induction fuel generalizing least more last with
  | zero => exact fun p next hp hnext => hnext p hp
  | succ fuel ih =>
    intro p next hp hnext
    cases least with
    | succ least => exact hpart hp fun q hq => ih least more last hq hnext
    | zero =>
      rw [repeatGreedy_zero]
      split
      · exact hnext p hp
      · rw [hpart hp fun q hq => ih 0 _ _ hq hnext, hnext p hp, Option.none_or]

theorem repetition {body : Node} (hbody : Within inside (body.matcher text flags)) (least : Nat)
    (greatest : Option Nat) :
    Within inside ((Node.repetition .greedy least greatest body).matcher text flags) :=
  fun _ _ hp hnext => hbody.repeatGreedy _ _ _ _ hp hnext

theorem group {body : Node} (hbody : Within inside (body.matcher text flags)) (index : Nat) :
    Within inside ((Node.group index body).matcher text flags) :=
  fun _ _ hp hnext => hbody hp fun _ hq => hnext _ hq

theorem sequence {items : List Node} (h : ∀ n ∈ items, Within inside (n.matcher text flags)) :
    Within inside (sequenceMatcher text flags items) := by
  induction items with
  | nil => exact fun p next hp hnext => hnext p hp
  | cons n items ih =>
    obtain ⟨hn, hitems⟩ := List.forall_mem_cons.mp h
    exact fun p next hp hnext => hn hp fun q hq => ih hitems hq hnext

end Within

end

end Gleaner.Pattern
