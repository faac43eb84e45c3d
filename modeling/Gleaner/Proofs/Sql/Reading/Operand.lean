import Gleaner.Proofs.Sql.Grammar

namespace Gleaner.Sql

theorem Token.begins.not_not {t : Token} (h : t.begins) : isWord "not" t = false := by
  cases t with
  | word w =>
    rw [← Bool.not_eq_true, isWord, beq_iff_eq]
    intro hw
    rcases h with h | h
    · rw [hw] at h
      exact absurd h (by decide)
    · rw [isKeyword, hw] at h
      exact absurd h (by decide)
  | _ => rfl

theorem Token.begins.ne_close {t : Token} (h : t.begins ∨ isWord "not" t = true) :
    t ≠ .symbol ")" := by
  rintro rfl
  rcases h with h | h
  · rcases h with h | h | h <;> exact absurd h (by decide)
  · cases h

-- What the reader of a level makes of words that spell something, with more words behind them. A
-- chain is left open, so that it can be continued; each of its links costs one unit of fuel.
def ReadAs : Level → List Token → List Phrase → Prop
  | .operand, ts, ps => ∃ p, ps = [p] ∧ ∀ rest fuel, Closed Token.extendsOperand rest →
    8 * ts.length + 1 ≤ fuel → readOperand fuel (ts ++ rest) = .ok (p, rest)
  | .order, ts, ps => ∃ p, ps = [p] ∧ ∀ rest fuel, Closed Token.extendsOperand rest →
    8 * ts.length + 2 ≤ fuel → ∃ k, fuel ≤ k + ts.length ∧
      readOrder fuel (ts ++ rest) = moreOrder k p rest
  | .equality, ts, ps => ∃ p, ps = [p] ∧ ∀ rest fuel, Closed Token.extendsOrder rest →
    8 * ts.length + 3 ≤ fuel → ∃ k, fuel ≤ k + ts.length ∧
      readEquality fuel (ts ++ rest) = moreEquality k p rest
  | .negation, ts, ps => ∃ p, ps = [p] ∧ ∀ rest fuel, Closed Token.extendsEquality rest →
    8 * ts.length + 4 ≤ fuel → readNegation fuel (ts ++ rest) = .ok (p, rest)
  | .conjuncts, ts, ps => ∀ rest fuel, Closed Token.extendsConjunction rest →
    8 * ts.length + 5 ≤ fuel → readConjuncts fuel (ts ++ rest) = .ok (ps, rest)
  | .conjunction, ts, ps => ∃ p, ps = [p] ∧ ∀ rest fuel, Closed Token.extendsConjunction rest →
    8 * ts.length + 6 ≤ fuel → readConjunction fuel (ts ++ rest) = .ok (p, rest)
  | .disjuncts, ts, ps => ∀ rest fuel, Closed Token.extendsDisjunction rest →
    8 * ts.length + 7 ≤ fuel → readDisjuncts fuel (ts ++ rest) = .ok (ps, rest)
  | .disjunction, ts, ps => ∃ p, ps = [p] ∧ ∀ rest fuel, Closed Token.extendsDisjunction rest →
    8 * ts.length + 8 ≤ fuel → readDisjunction fuel (ts ++ rest) = .ok (p, rest)
  | .items, ts, ps => ∀ rest fuel, Closed Token.extendsItems rest →
    8 * ts.length + 9 ≤ fuel → readItems fuel (ts ++ rest) = .ok (ps, rest)

-- The fuel of a reader that has to look at something.
theorem fuel_pos {n fuel : Nat} (h : n + 1 ≤ fuel) : ∃ k, fuel = k + 1 := ⟨fuel - 1, by omega⟩

theorem lowerAscii_ne {w name : String} (hk : isKeyword w = false)
    (hn : keywords.contains name = true) : lowerAscii w ≠ name := by
  rintro rfl
  rw [isKeyword, hn] at hk
  cases hk

theorem readPath_append {ts : List Token} {path : List String} (h : SpellsPath ts path)
    {rest : List Token} {fuel : Nat} (hr : Closed Token.extendsOperand rest)
    (hf : ts.length ≤ fuel) : readPath fuel (ts ++ rest) = .ok (path, rest) := by
  induction h generalizing fuel with
  | nil =>
    cases fuel with
    | zero => rfl
    | succ fuel =>
      cases rest with
      | nil => rfl
      | cons t more =>
        have ht := hr t more rfl
        cases t with
        | symbol s =>
          have hs : s ≠ "." := by
            rintro rfl
            exact absurd ht (by decide)
          simp [readPath, hs]
        | _ => rfl
  | word hk h ih =>
    obtain ⟨fuel, rfl⟩ : ∃ n, fuel = n + 1 := ⟨fuel - 1, by simp only [List.length_cons] at hf; omega⟩
    simp only [List.length_cons] at hf
    rw [List.cons_append, List.cons_append, readPath, hk, ih (by omega)]
    rfl
  | quoted w shown h ih =>
    obtain ⟨fuel, rfl⟩ : ∃ n, fuel = n + 1 := ⟨fuel - 1, by simp only [List.length_cons] at hf; omega⟩
    simp only [List.length_cons] at hf
    rw [List.cons_append, List.cons_append, readPath, ih (by omega)]
    rfl

section operand

variable {rest : List Token} {fuel : Nat}

theorem readOperand_null {w : String} (h : lowerAscii w = "null")
    (hr : Closed Token.extendsOperand rest) :
    readOperand (fuel + 1) (.word w :: rest) = .ok (.null, rest) := by
  rw [readOperand]
  · rw [h]
    rfl
  · intro more hm
    exact absurd (hr _ _ hm) (by decide)

theorem readOperand_name {w : String} {ts : List Token} {path : List String}
    (hk : isKeyword w = false) (ho : isOpening w = false) (h : SpellsPath ts path)
    (hr : Closed Token.extendsOperand rest) (hf : ts.length ≤ fuel) :
    readOperand (fuel + 1) (.word w :: (ts ++ rest)) = .ok (.name (w :: path) false, rest) := by
  have hpath := readPath_append h hr hf
  have hopen : ∀ more, ts ++ rest = .symbol "(" :: more → False := by
    intro more hm
    cases h with
    | nil => exact absurd (hr _ _ hm) (by decide)
    | word => exact absurd (List.cons.inj hm).1 (by decide)
    | quoted => exact absurd (List.cons.inj hm).1 (by decide)
  rw [readOperand]
  · split
    · exact absurd ‹_› (lowerAscii_ne hk (by decide))
    · exact absurd ‹_› (lowerAscii_ne hk (by decide))
    · exact absurd ‹_› (lowerAscii_ne hk (by decide))
    · rw [ho, hk, hpath]
      rfl
  · exact hopen

theorem readOperand_quoted {w shown : String} {ts : List Token} {path : List String}
    (h : SpellsPath ts path) (hr : Closed Token.extendsOperand rest) (hf : ts.length ≤ fuel) :
    readOperand (fuel + 1) (.quoted w shown :: (ts ++ rest)) =
      .ok (.name (w :: path) path.isEmpty, rest) := by
  rw [readOperand, readPath_append h hr hf]
  rfl

theorem readOperand_call {f : String} {ts : List Token} {ps : List Phrase}
    (hk : isKeyword f = false) (hp : ∀ more, ts ≠ .symbol ")" :: more)
    (h : readItems fuel ts = .ok (ps, .symbol ")" :: rest)) :
    readOperand (fuel + 1) (.word f :: .symbol "(" :: ts) = .ok (.call f ps, rest) := by
  rw [readOperand, hk]
  · simp only [Bool.false_eq_true, if_false]
    rw [h]
    rfl
  · exact hp

theorem readOperand_negative {ts : List Token} {p : Phrase}
    (hn : ∀ shown more, ts ≠ .number shown :: more) (h : readOperand fuel ts = .ok (p, rest)) :
    readOperand (fuel + 1) (.symbol "-" :: ts) = .ok (.negative p, rest) := by
  rw [readOperand]
  · rw [h]
    rfl
  · exact fun shown more => hn shown more

theorem readOperand_group {ts : List Token} {p : Phrase}
    (hs : ∀ w more, ts = .word w :: more → lowerAscii w ≠ "select")
    (h : readDisjunction fuel ts = .ok (p, .symbol ")" :: rest)) :
    readOperand (fuel + 1) (.symbol "(" :: ts) = .ok (p, rest) := by
  cases ts with
  | nil =>
    rw [readOperand]
    · rw [h]
      rfl
    · intro w more hm
      cases hm
  | cons t more =>
    cases t with
    | word w =>
      rw [readOperand, if_neg (hs w more rfl)]
      simp only [bind, Except.bind, h]
      rfl
    | _ =>
      rw [readOperand]
      · rw [h]
        rfl
      · intro w more hm
        cases hm

end operand

section operand

variable {ts : List Token} {p : Phrase}

theorem readAs_call {f : String} {ps : List Phrase} (hk : isKeyword f = false)
    (hts : Spells .items ts ps) (h : ReadAs .items ts ps) :
    ReadAs .operand (.word f :: .symbol "(" :: (ts ++ [.symbol ")"])) [.call f ps] := by
  refine ⟨_, rfl, fun rest fuel hr hf => ?_⟩
  simp only [List.length_append, List.length_cons, List.length_nil] at hf
  obtain ⟨k, rfl⟩ := fuel_pos hf
  rw [List.cons_append, List.cons_append, List.append_assoc]
  refine readOperand_call hk ?_ (h _ k (closed_cons extendsItems_close) (by omega))
  obtain ⟨u, vs, rfl, hu⟩ := hts.begins
  intro more hm
  exact Token.begins.ne_close (hu.imp id (·.2)) (List.cons.inj hm).1

theorem readAs_negative (hts : Spells .operand ts [p])
    (hn : ∀ shown, ts.head? ≠ some (.number shown))
    (h : ReadAs .operand ts [p]) : ReadAs .operand (.symbol "-" :: ts) [.negative p] := by
  obtain ⟨_, he, h⟩ := h
  cases he
  refine ⟨_, rfl, fun rest fuel hr hf => ?_⟩
  simp only [List.length_cons] at hf
  obtain ⟨k, rfl⟩ := fuel_pos hf
  rw [List.cons_append]
  refine readOperand_negative ?_ (h rest k hr (by omega))
  obtain ⟨u, vs, rfl, -⟩ := hts.begins
  intro shown more hm
  rw [List.cons_append] at hm
  exact hn shown (congrArg some (List.cons.inj hm).1)

theorem readAs_group (hts : Spells .disjunction ts [p]) (h : ReadAs .disjunction ts [p]) :
    ReadAs .operand (.symbol "(" :: (ts ++ [.symbol ")"])) [p] := by
  obtain ⟨_, he, h⟩ := h
  cases he
  refine ⟨_, rfl, fun rest fuel hr hf => ?_⟩
  simp only [List.length_append, List.length_cons, List.length_nil] at hf
  obtain ⟨k, rfl⟩ := fuel_pos hf
  rw [List.cons_append, List.append_assoc]
  refine readOperand_group ?_ (h _ k (closed_cons (by decide)) (by omega))
  obtain ⟨u, vs, rfl, hu⟩ := hts.begins
  intro w more hm
  rw [(List.cons.inj hm).1] at hu
  intro hselect
  rcases hu with hu | ⟨-, hu⟩
  · rcases hu with hu | hu
    · rw [hselect] at hu
      exact absurd hu (by decide)
    · exact lowerAscii_ne hu (by decide) hselect
  · rw [isWord, hselect] at hu
    exact absurd hu (by decide)

end operand

end Gleaner.Sql
