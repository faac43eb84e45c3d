import Gleaner.Proofs.Sql.Reading.Operand
import Gleaner.Proofs.Sql.Reading.Relation

namespace Gleaner.Sql

variable {ts us rest : List Token} {p : Phrase} {ps : List Phrase}

theorem readAs_ofEquality (hts : Spells .equality ts [p]) (h : ReadAs .equality ts [p]) :
    ReadAs .negation ts [p] := by
  refine ⟨p, rfl, fun rest fuel hr hf => ?_⟩
  obtain ⟨k, rfl⟩ := fuel_pos hf
  have hread : readEquality k (ts ++ rest) = .ok (p, rest) := h.equality_done hr (by omega)
  obtain ⟨t, us, rfl, ht⟩ := hts.begins
  have hnot : isWord "not" t = false := by
    rcases ht with ht | ⟨ht, -⟩
    · exact ht.not_not
    · cases ht
  rw [List.cons_append] at hread ⊢
  rw [readNegation, hnot, if_neg (by decide)]
  exact hread

theorem readAs_not {t : Token} (ht : isWord "not" t = true) (h : ReadAs .negation ts [p]) :
    ReadAs .negation (t :: ts) [.not p] := by
  obtain ⟨_, he, h⟩ := h
  cases he
  refine ⟨_, rfl, fun rest fuel hr hf => ?_⟩
  simp only [List.length_cons] at hf
  obtain ⟨k, rfl⟩ := fuel_pos hf
  rw [List.cons_append, readNegation, if_pos ht, h rest k hr (by omega)]
  rfl

theorem readAs_conjunct (h : ReadAs .negation ts [p]) : ReadAs .conjuncts ts [p] := by
  obtain ⟨_, he, h⟩ := h
  cases he
  intro rest fuel hr hf
  obtain ⟨k, rfl⟩ := fuel_pos hf
  rw [readConjuncts, h rest k hr.equality (by omega)]
  cases rest with
  | nil => rfl
  | cons t more =>
    have ht : isWord "and" t = false := (Bool.or_eq_false_iff.mp (hr t more rfl)).2
    simp [bind, Except.bind, ht]

theorem readAs_conjuncts {t : Token} (hp : ReadAs .negation ts [p]) (ht : isWord "and" t = true)
    (hs : ReadAs .conjuncts us ps) : ReadAs .conjuncts (ts ++ t :: us) (p :: ps) := by
  obtain ⟨_, he, hp⟩ := hp
  cases he
  intro rest fuel hr hf
  simp only [List.length_append, List.length_cons] at hf
  obtain ⟨k, rfl⟩ := fuel_pos hf
  have hclosed : Closed Token.extendsEquality (t :: (us ++ rest)) :=
    closed_cons (extendsEquality_of_isWord ht (by decide))
  rw [List.append_assoc, List.cons_append, readConjuncts, hp _ k hclosed (by omega)]
  simp [bind, Except.bind, ht, hs rest k hr (by omega)]

theorem readAs_conjunction (h : ReadAs .conjuncts ts ps) :
    ReadAs .conjunction ts [.allOf ps] := by
  refine ⟨_, rfl, fun rest fuel hr hf => ?_⟩
  obtain ⟨k, rfl⟩ := fuel_pos hf
  rw [readConjunction, h rest k hr (by omega)]
  rfl

theorem readAs_disjunct (h : ReadAs .conjunction ts [p]) : ReadAs .disjuncts ts [p] := by
  obtain ⟨_, he, h⟩ := h
  cases he
  intro rest fuel hr hf
  obtain ⟨k, rfl⟩ := fuel_pos hf
  rw [readDisjuncts, h rest k hr.conjunction (by omega)]
  cases rest with
  | nil => rfl
  | cons t more =>
    have ht : isWord "or" t = false := (Bool.or_eq_false_iff.mp (hr t more rfl)).2
    simp [bind, Except.bind, ht]

theorem readAs_disjuncts {t : Token} (hp : ReadAs .conjunction ts [p]) (ht : isWord "or" t = true)
    (hs : ReadAs .disjuncts us ps) : ReadAs .disjuncts (ts ++ t :: us) (p :: ps) := by
  obtain ⟨_, he, hp⟩ := hp
  cases he
  intro rest fuel hr hf
  simp only [List.length_append, List.length_cons] at hf
  obtain ⟨k, rfl⟩ := fuel_pos hf
  have hclosed : Closed Token.extendsConjunction (t :: (us ++ rest)) := by
    refine closed_cons ?_
    rw [Token.extendsConjunction, extendsEquality_of_isWord ht (by decide),
      isWord_eq_false ht (by decide)]
    rfl
  rw [List.append_assoc, List.cons_append, readDisjuncts, hp _ k hclosed (by omega)]
  simp [bind, Except.bind, ht, hs rest k hr (by omega)]

theorem readAs_disjunction (h : ReadAs .disjuncts ts ps) :
    ReadAs .disjunction ts [.anyOf ps] := by
  refine ⟨_, rfl, fun rest fuel hr hf => ?_⟩
  obtain ⟨k, rfl⟩ := fuel_pos hf
  rw [readDisjunction, h rest k hr (by omega)]
  rfl

theorem readAs_item (h : ReadAs .disjunction ts [p]) : ReadAs .items ts [p] := by
  obtain ⟨_, he, h⟩ := h
  cases he
  intro rest fuel hr hf
  obtain ⟨k, rfl⟩ := fuel_pos hf
  rw [readItems, h rest k hr.disjunction (by omega)]
  cases rest with
  | nil => rfl
  | cons t more =>
    have ht : (t == .symbol ",") = false := (Bool.or_eq_false_iff.mp (hr t more rfl)).2
    simp only [bind, Except.bind]
    split
    · rename_i hm
      cases hm
      exact absurd ht (by decide)
    · rfl

theorem readAs_items (hp : ReadAs .disjunction ts [p]) (hs : ReadAs .items us ps) :
    ReadAs .items (ts ++ .symbol "," :: us) (p :: ps) := by
  obtain ⟨_, he, hp⟩ := hp
  cases he
  intro rest fuel hr hf
  simp only [List.length_append, List.length_cons] at hf
  obtain ⟨k, rfl⟩ := fuel_pos hf
  rw [List.append_assoc, List.cons_append, readItems,
    hp _ k (closed_cons extendsDisjunction_comma) (by omega)]
  simp [bind, Except.bind, hs rest k hr (by omega)]

-- The reader follows the grammar: whatever words spell is what they are read as.
theorem Spells.readAs {level : Level} {ts : List Token} {ps : List Phrase}
    (h : Spells level ts ps) : ReadAs level ts ps := by
  induction h with
  | null h =>
    refine ⟨_, rfl, fun rest fuel hr hf => ?_⟩
    obtain ⟨k, rfl⟩ := fuel_pos hf
    exact readOperand_null h hr
  | number shown =>
    refine ⟨_, rfl, fun rest fuel hr hf => ?_⟩
    obtain ⟨k, rfl⟩ := fuel_pos hf
    rfl
  | signed shown =>
    refine ⟨_, rfl, fun rest fuel hr hf => ?_⟩
    obtain ⟨k, rfl⟩ := fuel_pos hf
    rfl
  | string content shown =>
    refine ⟨_, rfl, fun rest fuel hr hf => ?_⟩
    obtain ⟨k, rfl⟩ := fuel_pos hf
    rfl
  | name hk ho h =>
    refine ⟨_, rfl, fun rest fuel hr hf => ?_⟩
    simp only [List.length_cons] at hf
    obtain ⟨k, rfl⟩ := fuel_pos hf
    exact readOperand_name hk ho h hr (by omega)
  | quoted w shown h =>
    refine ⟨_, rfl, fun rest fuel hr hf => ?_⟩
    simp only [List.length_cons] at hf
    obtain ⟨k, rfl⟩ := fuel_pos hf
    exact readOperand_quoted h hr (by omega)
  | callNone hk =>
    refine ⟨_, rfl, fun rest fuel hr hf => ?_⟩
    obtain ⟨k, rfl⟩ := fuel_pos hf
    simp [readOperand, hk]
  | call hk h ih => exact readAs_call hk h ih
  | negative h hn ih => exact readAs_negative h hn ih
  | positive h ih =>
    obtain ⟨_, he, h⟩ := ih
    cases he
    refine ⟨_, rfl, fun rest fuel hr hf => ?_⟩
    simp only [List.length_cons] at hf
    obtain ⟨k, rfl⟩ := fuel_pos hf
    rw [List.cons_append, readOperand]
    exact h rest k hr (by omega)
  | group h ih => exact readAs_group h ih
  | ofOperand h ih =>
    obtain ⟨t, us, rfl, -⟩ := h.begins
    exact readAs_ofOperand (by simp) ih
  | order hs _ _ ihp ihq => exact readAs_order hs ihp ihq
  | ofOrder h ih =>
    obtain ⟨t, us, rfl, -⟩ := h.begins
    exact readAs_ofOrder (by simp) ih
  | equality hs _ _ ihp ihq => exact readAs_equality hs ihp ihq
  | isNull _ ht hn hnull ih => exact readAs_isNull ih ht hn hnull
  | isnull _ ht ih => exact readAs_suffix ih ht fun _ _ => moreEquality_isnull ht
  | notnull _ ht ih => exact readAs_suffix ih ht fun _ _ => moreEquality_notnull ht
  | notNull _ ht hn ih => exact readAs_notNull ih ht hn
  | like _ hn ht _ ihp ihq => exact readAs_like ihp hn ht ihq
  | memberNone _ hn ht ih => exact readAs_memberNone ih hn ht
  | member _ hn ht hus ihp ihq => exact readAs_member ihp hn ht hus ihq
  | range _ hn ht _ hu _ ihp ihq ihr => exact readAs_range ihp hn ht ihq hu ihr
  | ofEquality h ih => exact readAs_ofEquality h ih
  | not ht _ ih => exact readAs_not ht ih
  | conjunct _ ih => exact readAs_conjunct ih
  | conjuncts _ ht _ ihp ihs => exact readAs_conjuncts ihp ht ihs
  | conjunction _ ih => exact readAs_conjunction ih
  | disjunct _ ih => exact readAs_disjunct ih
  | disjuncts _ ht _ ihp ihs => exact readAs_disjuncts ihp ht ihs
  | disjunction _ ih => exact readAs_disjunction ih
  | item _ ih => exact readAs_item ih
  | items _ _ ihp ihs => exact readAs_items ihp ihs

theorem Reads.read {text : String} {p : Phrase} (h : Reads text p) :
    Phrase.read text = .ok p := by
  obtain ⟨_, he, hread⟩ := Spells.readAs h
  cases he
  have := hread [] (8 * (tokensOf text).length + 16) (closed_nil _) (by omega)
  rw [List.append_nil] at this
  simp [Phrase.read, this, bind, Except.bind]

-- A text has one reading at most.
theorem Reads.unique {text : String} {p q : Phrase} (hp : Reads text p) (hq : Reads text q) :
    p = q :=
  Except.ok.inj (hp.read.symm.trans hq.read)

end Gleaner.Sql
