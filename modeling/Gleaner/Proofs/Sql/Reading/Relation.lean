import Gleaner.Proofs.Sql.Reading.Operand

namespace Gleaner.Sql

variable {ts us rest : List Token} {p q : Phrase} {fuel k : Nat}

theorem moreOrder_closed (hr : Closed Token.extendsOrder rest) :
    moreOrder (k + 1) p rest = .ok (p, rest) := by
  cases rest with
  | nil => rfl
  | cons t more =>
    have ht := hr t more rfl
    cases t with
    | symbol s =>
      have hs : comparator? s = none := by
        rw [← Option.not_isSome_iff_eq_none, Bool.not_eq_true]
        exact (Bool.or_eq_false_iff.mp ht).2
      rw [moreOrder, hs]
    | _ => rfl

theorem moreOrder_comparator {s : String} {op : Comparator} (hs : comparator? s = some op)
    (h : readOperand k us = .ok (q, rest)) :
    moreOrder (k + 1) p (.symbol s :: us) = moreOrder k (.compare op p q) rest := by
  rw [moreOrder, hs]
  dsimp only
  rw [h]
  rfl

theorem readAs_ofOperand (hlen : 1 ≤ ts.length) (h : ReadAs .operand ts [p]) :
    ReadAs .order ts [p] := by
  obtain ⟨_, hp, h⟩ := h
  cases hp
  refine ⟨p, rfl, fun rest fuel hr hf => ?_⟩
  obtain ⟨k, rfl⟩ := fuel_pos hf
  refine ⟨k, by omega, ?_⟩
  rw [readOrder, h rest k hr (by omega)]
  rfl

theorem readAs_order {s : String} {op : Comparator} (hs : comparator? s = some op)
    (hp : ReadAs .order ts [p]) (hq : ReadAs .operand us [q]) :
    ReadAs .order (ts ++ .symbol s :: us) [.compare op p q] := by
  obtain ⟨_, he, hp⟩ := hp
  cases he
  obtain ⟨_, he, hq⟩ := hq
  cases he
  refine ⟨_, rfl, fun rest fuel hr hf => ?_⟩
  simp only [List.length_append, List.length_cons] at hf ⊢
  obtain ⟨k, hk, hread⟩ := hp (.symbol s :: (us ++ rest)) fuel
    (closed_cons (extendsOperand_of_comparator hs)) (by omega)
  obtain ⟨k, rfl⟩ : ∃ m, k = m + 1 := ⟨k - 1, by omega⟩
  refine ⟨k, by omega, ?_⟩
  rw [List.append_assoc, List.cons_append, hread]
  exact moreOrder_comparator hs (hq rest k hr (by omega))

-- A chain ends where nothing continues it.
theorem ReadAs.order_done (h : ReadAs .order ts [p]) (hr : Closed Token.extendsOrder rest)
    (hf : 8 * ts.length + 2 ≤ fuel) : readOrder fuel (ts ++ rest) = .ok (p, rest) := by
  obtain ⟨_, he, h⟩ := h
  cases he
  obtain ⟨k, hk, hread⟩ := h rest fuel hr.operand hf
  obtain ⟨k, rfl⟩ : ∃ m, k = m + 1 := ⟨k - 1, by omega⟩
  rw [hread]
  exact moreOrder_closed hr

theorem moreEquality_closed (hr : Closed Token.extendsEquality rest) :
    moreEquality (k + 1) p rest = .ok (p, rest) := by
  cases rest with
  | nil => rfl
  | cons t more =>
    have ht := hr t more rfl
    cases t with
    | symbol s =>
      have hs : equality? s = none := by
        rw [← Option.not_isSome_iff_eq_none, Bool.not_eq_true]
        exact (Bool.or_eq_false_iff.mp ht).2
      rw [moreEquality, hs]
    | word w =>
      have hw : relationWords.contains (lowerAscii w) = false := ht
      simp only [relationWords, List.contains_cons, List.contains_nil, Bool.or_false,
        Bool.or_eq_false_iff] at hw
      simp [moreEquality, isWord, hw]
    | _ => simp [moreEquality, isWord]

theorem moreEquality_equality {s : String} {op : Comparator} (hs : equality? s = some op)
    (h : readOrder k us = .ok (q, rest)) :
    moreEquality (k + 1) p (.symbol s :: us) = moreEquality k (.compare op p q) rest := by
  rw [moreEquality, hs]
  dsimp only
  rw [h]
  rfl

theorem moreEquality_isNull {t n : Token} {ns : List Token} {negated : Bool}
    (ht : isWord "is" t = true) (hn : SpellsNot negated ns) (hnull : isWord "null" n = true) :
    moreEquality (k + 1) p (t :: (ns ++ n :: rest)) = moreEquality k (.isNull negated p) rest := by
  obtain ⟨w, rfl, hw⟩ := isWord_iff.mp ht
  cases hn with
  | plain =>
    have hnot : isWord "not" n = false := isWord_eq_false hnull (by decide)
    cases rest with
    | nil => simp [moreEquality, ht, hnull]
    | cons u more => simp [moreEquality, ht, hnull, hnot]
  | @negated u hu => simp [moreEquality, ht, hu, hnull]

theorem moreEquality_isnull {t : Token} (ht : isWord "isnull" t = true) :
    moreEquality (k + 1) p (t :: rest) = moreEquality k (.isNull false p) rest := by
  have his : isWord "is" t = false := isWord_eq_false ht (by decide)
  obtain ⟨w, rfl, hw⟩ := isWord_iff.mp ht
  simp [moreEquality, his, ht]

theorem moreEquality_notnull {t : Token} (ht : isWord "notnull" t = true) :
    moreEquality (k + 1) p (t :: rest) = moreEquality k (.isNull true p) rest := by
  have his : isWord "is" t = false := isWord_eq_false ht (by decide)
  have hisnull : isWord "isnull" t = false := isWord_eq_false ht (by decide)
  obtain ⟨w, rfl, hw⟩ := isWord_iff.mp ht
  simp [moreEquality, his, hisnull, ht]

theorem moreEquality_not {t : Token} (ht : isWord "not" t = true)
    (h : readRelation k true p us = .ok (q, rest)) :
    moreEquality (k + 1) p (t :: us) = moreEquality k q rest := by
  have his : isWord "is" t = false := isWord_eq_false ht (by decide)
  have hisnull : isWord "isnull" t = false := isWord_eq_false ht (by decide)
  have hnotnull : isWord "notnull" t = false := isWord_eq_false ht (by decide)
  obtain ⟨w, rfl, hw⟩ := isWord_iff.mp ht
  simp only [moreEquality, his, hisnull, hnotnull, ht, Bool.false_eq_true, if_false, if_true]
  rw [h]
  rfl

-- A relation of a given word, with or without `NOT` in front.
theorem moreEquality_relation {name : String} {t : Token} {ns : List Token} {negated : Bool}
    (hn : SpellsNot negated ns) (ht : isWord name t = true)
    (hname : name = "in" ∨ name = "like" ∨ name = "between")
    (h : readRelation k negated p (t :: us) = .ok (q, rest)) :
    moreEquality (k + 1) p (ns ++ t :: us) = moreEquality k q rest := by
  cases hn with
  | plain =>
    have hne : ∀ other, name ≠ other → isWord other t = false := fun _ => isWord_eq_false ht
    have hrelation : (isWord "in" t || isWord "like" t || isWord "between" t) = true := by
      rcases hname with rfl | rfl | rfl <;> simp [ht]
    have his : isWord "is" t = false := hne _ (by rcases hname with rfl | rfl | rfl <;> decide)
    have hisnull : isWord "isnull" t = false :=
      hne _ (by rcases hname with rfl | rfl | rfl <;> decide)
    have hnotnull : isWord "notnull" t = false :=
      hne _ (by rcases hname with rfl | rfl | rfl <;> decide)
    have hnot : isWord "not" t = false := hne _ (by rcases hname with rfl | rfl | rfl <;> decide)
    obtain ⟨w, rfl, hw⟩ := isWord_iff.mp ht
    rw [List.nil_append]
    simp only [moreEquality, his, hisnull, hnotnull, hnot, hrelation, Bool.false_eq_true, if_false,
      if_true]
    rw [h]
    rfl
  | negated hu => exact moreEquality_not hu h

theorem readRelation_like {t : Token} {negated : Bool} (ht : isWord "like" t = true)
    (h : readOrder k us = .ok (q, rest)) :
    readRelation (k + 1) negated p (t :: us) = .ok (.like negated p q, rest) := by
  have hin : isWord "in" t = false := isWord_eq_false ht (by decide)
  simp only [readRelation, hin, ht, Bool.false_eq_true, if_false, if_true]
  rw [h]
  rfl

theorem readRelation_range {t u : Token} {negated : Bool} {vs : List Token} {r : Phrase}
    (ht : isWord "between" t = true) (hu : isWord "and" u = true)
    (hq : readOrder k us = .ok (q, u :: vs)) (hr : readOrder k vs = .ok (r, rest)) :
    readRelation (k + 1) negated p (t :: us) = .ok (.range negated p q r, rest) := by
  have hin : isWord "in" t = false := isWord_eq_false ht (by decide)
  have hlike : isWord "like" t = false := isWord_eq_false ht (by decide)
  have hexpect : expectWord "and" (u :: vs) = .ok ((), vs) := by rw [expectWord, if_pos hu]
  simp only [readRelation, hin, hlike, ht, Bool.false_eq_true, if_false, if_true, bind,
    Except.bind, hq, hexpect, hr]

theorem readRelation_memberNone {t : Token} {negated : Bool} (ht : isWord "in" t = true) :
    readRelation (k + 1) negated p (t :: .symbol "(" :: .symbol ")" :: rest) =
      .ok (.member negated p [], rest) := by
  simp only [readRelation, ht, if_true]
  rfl

theorem readRelation_member {t : Token} {negated : Bool} {qs : List Phrase}
    (ht : isWord "in" t = true) (hp : ∀ more, us ≠ .symbol ")" :: more)
    (h : readItems k us = .ok (qs, .symbol ")" :: rest)) :
    readRelation (k + 1) negated p (t :: .symbol "(" :: us) = .ok (.member negated p qs, rest) := by
  have hopen : expect "(" (.symbol "(" :: us) = .ok ((), us) := rfl
  simp only [readRelation, ht, if_true, bind, Except.bind, hopen, h]
  rfl

theorem readRelation_notNull {t : Token} (ht : isWord "null" t = true) :
    readRelation (k + 1) true p (t :: rest) = .ok (.isNull true p, rest) := by
  have hin : isWord "in" t = false := isWord_eq_false ht (by decide)
  have hlike : isWord "like" t = false := isWord_eq_false ht (by decide)
  have hbetween : isWord "between" t = false := isWord_eq_false ht (by decide)
  simp [readRelation, hin, hlike, hbetween, ht]

theorem readAs_ofOrder (hlen : 1 ≤ ts.length) (h : ReadAs .order ts [p]) :
    ReadAs .equality ts [p] := by
  refine ⟨p, rfl, fun rest fuel hr hf => ?_⟩
  obtain ⟨k, rfl⟩ := fuel_pos hf
  refine ⟨k, by omega, ?_⟩
  rw [readEquality, h.order_done hr (by omega)]
  rfl

-- One more link of a chain of relations.
theorem readAs_link {link : List Token} (h : ReadAs .equality ts [p])
    (hc : ∀ rest, Closed Token.extendsOrder (link ++ rest)) (hlen : 1 ≤ link.length)
    (hlink : ∀ rest k, Closed Token.extendsOrder rest → 8 * link.length ≤ k →
      ∃ k', k ≤ k' + link.length ∧ moreEquality k p (link ++ rest) = moreEquality k' q rest) :
    ReadAs .equality (ts ++ link) [q] := by
  obtain ⟨_, he, h⟩ := h
  cases he
  refine ⟨q, rfl, fun rest fuel hr hf => ?_⟩
  simp only [List.length_append] at hf ⊢
  obtain ⟨k, hk, hread⟩ := h (link ++ rest) fuel (hc rest) (by omega)
  obtain ⟨k', hk', hmore⟩ := hlink rest k hr (by omega)
  refine ⟨k', by omega, ?_⟩
  rw [List.append_assoc, hread, hmore]

theorem readAs_equality {s : String} {op : Comparator} (hs : equality? s = some op)
    (hp : ReadAs .equality ts [p]) (hq : ReadAs .order us [q]) :
    ReadAs .equality (ts ++ .symbol s :: us) [.compare op p q] := by
  refine readAs_link hp (fun rest => closed_cons (extendsOrder_of_equality hs)) ?_ ?_
  · simp only [List.length_cons]
    omega
  · intro rest k hr hk
    simp only [List.length_cons] at hk ⊢
    obtain ⟨k, rfl⟩ := fuel_pos (show 0 + 1 ≤ k by omega)
    exact ⟨k, by omega, moreEquality_equality hs (hq.order_done hr (by omega))⟩

-- A relation as a link: what it is read as is all that differs.
theorem readAs_relation {name : String} {t : Token} {ns : List Token} {negated : Bool}
    (hp : ReadAs .equality ts [p]) (hn : SpellsNot negated ns) (ht : isWord name t = true)
    (hname : name = "in" ∨ name = "like" ∨ name = "between")
    (h : ∀ rest k, Closed Token.extendsOrder rest → 8 * us.length + 6 ≤ k →
      readRelation k negated p (t :: us ++ rest) = .ok (q, rest)) :
    ReadAs .equality (ts ++ (ns ++ t :: us)) [q] := by
  refine readAs_link hp (fun rest => ?_) ?_ ?_
  · cases hn with
    | plain => exact closed_cons (extendsOrder_of_isWord ht)
    | negated hu => exact closed_cons (extendsOrder_of_isWord hu)
  · simp only [List.length_append, List.length_cons]
    omega
  · intro rest k hr hk
    simp only [List.length_append, List.length_cons] at hk ⊢
    obtain ⟨k, rfl⟩ := fuel_pos (show 0 + 1 ≤ k by omega)
    refine ⟨k, by omega, ?_⟩
    rw [List.append_assoc]
    exact moreEquality_relation hn ht hname (h rest k hr (by omega))

theorem readAs_like {t : Token} {ns : List Token} {negated : Bool}
    (hp : ReadAs .equality ts [p]) (hn : SpellsNot negated ns) (ht : isWord "like" t = true)
    (hq : ReadAs .order us [q]) :
    ReadAs .equality (ts ++ (ns ++ t :: us)) [.like negated p q] := by
  refine readAs_relation hp hn ht (.inr (.inl rfl)) fun rest k hr hk => ?_
  obtain ⟨k, rfl⟩ := fuel_pos (show 0 + 1 ≤ k by omega)
  exact readRelation_like ht (hq.order_done hr (by omega))

theorem readAs_range {t u : Token} {ns vs : List Token} {negated : Bool} {r : Phrase}
    (hp : ReadAs .equality ts [p]) (hn : SpellsNot negated ns) (ht : isWord "between" t = true)
    (hq : ReadAs .order us [q]) (hu : isWord "and" u = true) (hr : ReadAs .order vs [r]) :
    ReadAs .equality (ts ++ (ns ++ t :: (us ++ u :: vs))) [.range negated p q r] := by
  refine readAs_relation hp hn ht (.inr (.inr rfl)) fun rest k hrest hk => ?_
  simp only [List.length_append, List.length_cons] at hk
  obtain ⟨k, rfl⟩ := fuel_pos (show 0 + 1 ≤ k by omega)
  rw [List.cons_append, List.append_assoc, List.cons_append]
  exact readRelation_range ht hu
    (hq.order_done (closed_cons (extendsOrder_of_isWord hu)) (by omega))
    (hr.order_done hrest (by omega))

theorem readAs_memberNone {t : Token} {ns : List Token} {negated : Bool}
    (hp : ReadAs .equality ts [p]) (hn : SpellsNot negated ns) (ht : isWord "in" t = true) :
    ReadAs .equality (ts ++ (ns ++ [t, .symbol "(", .symbol ")"])) [.member negated p []] := by
  refine readAs_relation hp hn ht (.inl rfl) fun rest k hr hk => ?_
  obtain ⟨k, rfl⟩ := fuel_pos (show 0 + 1 ≤ k by omega)
  exact readRelation_memberNone ht

theorem readAs_member {t : Token} {ns : List Token} {negated : Bool} {qs : List Phrase}
    (hp : ReadAs .equality ts [p]) (hn : SpellsNot negated ns) (ht : isWord "in" t = true)
    (hus : Spells .items us qs) (hq : ReadAs .items us qs) :
    ReadAs .equality (ts ++ (ns ++ t :: .symbol "(" :: (us ++ [.symbol ")"])))
      [.member negated p qs] := by
  refine readAs_relation hp hn ht (.inl rfl) fun rest k hr hk => ?_
  simp only [List.length_append, List.length_cons, List.length_nil] at hk
  obtain ⟨k, rfl⟩ := fuel_pos (show 0 + 1 ≤ k by omega)
  rw [List.cons_append, List.cons_append, List.append_assoc]
  refine readRelation_member ht ?_ (hq _ k (closed_cons extendsItems_close) (by omega))
  obtain ⟨u, vs, rfl, hu⟩ := hus.begins
  intro more hm
  exact Token.begins.ne_close (hu.imp id (·.2)) (List.cons.inj hm).1

theorem readAs_isNull {t n : Token} {ns : List Token} {negated : Bool}
    (hp : ReadAs .equality ts [p]) (ht : isWord "is" t = true) (hn : SpellsNot negated ns)
    (hnull : isWord "null" n = true) :
    ReadAs .equality (ts ++ t :: (ns ++ [n])) [.isNull negated p] := by
  refine readAs_link hp (fun rest => closed_cons (extendsOrder_of_isWord ht)) ?_ ?_
  · simp only [List.length_cons]
    omega
  · intro rest k hr hk
    simp only [List.length_append, List.length_cons] at hk ⊢
    obtain ⟨k, rfl⟩ := fuel_pos (show 0 + 1 ≤ k by omega)
    refine ⟨k, by omega, ?_⟩
    rw [List.cons_append, List.append_assoc]
    exact moreEquality_isNull ht hn hnull

-- A link of one word.
theorem readAs_suffix {t : Token} {name : String} (hp : ReadAs .equality ts [p])
    (ht : isWord name t = true)
    (h : ∀ rest k, moreEquality (k + 1) p (t :: rest) = moreEquality k q rest) :
    ReadAs .equality (ts ++ [t]) [q] := by
  refine readAs_link hp (fun rest => closed_cons (extendsOrder_of_isWord ht)) (by simp) ?_
  intro rest k hr hk
  simp only [List.length_cons, List.length_nil] at hk ⊢
  obtain ⟨k, rfl⟩ := fuel_pos (show 0 + 1 ≤ k by omega)
  exact ⟨k, by omega, h rest k⟩

theorem readAs_notNull {t n : Token} (hp : ReadAs .equality ts [p]) (ht : isWord "not" t = true)
    (hn : isWord "null" n = true) : ReadAs .equality (ts ++ [t, n]) [.isNull true p] := by
  refine readAs_link hp (fun rest => closed_cons (extendsOrder_of_isWord ht)) (by simp) ?_
  intro rest k hr hk
  simp only [List.length_cons, List.length_nil] at hk ⊢
  obtain ⟨k, rfl⟩ : ∃ m, k = m + 2 := ⟨k - 2, by omega⟩
  exact ⟨k + 1, by omega, moreEquality_not ht (readRelation_notNull hn)⟩

theorem ReadAs.equality_done (h : ReadAs .equality ts [p])
    (hr : Closed Token.extendsEquality rest) (hf : 8 * ts.length + 3 ≤ fuel) :
    readEquality fuel (ts ++ rest) = .ok (p, rest) := by
  obtain ⟨_, he, h⟩ := h
  cases he
  obtain ⟨k, hk, hread⟩ := h rest fuel hr.order hf
  obtain ⟨k, rfl⟩ := fuel_pos (show 0 + 1 ≤ k by omega)
  rw [hread]
  exact moreEquality_closed hr

end Gleaner.Sql
