import Gleaner.Sql.Phrase

namespace Gleaner.Sql

-- The levels of expressions, from the tightest to the loosest, and the series of expressions that
-- `AND`, `OR` and commas put together.
inductive Level
  | operand | order | equality | negation | conjuncts | conjunction | disjuncts | disjunction | items
deriving DecidableEq, Repr

-- Further parts of a name, each behind a point.
inductive SpellsPath : List Token → List String → Prop
  | nil : SpellsPath [] []
  | word {w : String} {ts : List Token} {path : List String} (hk : isKeyword w = false)
      (h : SpellsPath ts path) : SpellsPath (.symbol "." :: .word w :: ts) (w :: path)
  | quoted (w shown : String) {ts : List Token} {path : List String} (h : SpellsPath ts path) :
      SpellsPath (.symbol "." :: .quoted w shown :: ts) (w :: path)

-- `NOT` in front of a relation, or nothing.
inductive SpellsNot : Bool → List Token → Prop
  | plain : SpellsNot false []
  | negated {t : Token} (h : isWord "not" t) : SpellsNot true [t]

-- The grammar of expressions: which tokens spell which phrases. Each level takes in the one below
-- it. Comparisons and relations associate to the left; a minus in front of a numeral belongs to it.
inductive Spells : Level → List Token → List Phrase → Prop
  | null {w : String} (h : lowerAscii w = "null") : Spells .operand [.word w] [.null]
  | number (shown : String) : Spells .operand [.number shown] [.number false shown]
  | signed (shown : String) : Spells .operand [.symbol "-", .number shown] [.number true shown]
  | string (content shown : String) : Spells .operand [.string content shown] [.string content]
  | name {w : String} {ts : List Token} {path : List String} (hk : isKeyword w = false)
      (ho : isOpening w = false) (h : SpellsPath ts path) :
      Spells .operand (.word w :: ts) [.name (w :: path) false]
  | quoted (w shown : String) {ts : List Token} {path : List String} (h : SpellsPath ts path) :
      Spells .operand (.quoted w shown :: ts) [.name (w :: path) path.isEmpty]
  | callNone {f : String} (hk : isKeyword f = false) :
      Spells .operand [.word f, .symbol "(", .symbol ")"] [.call f []]
  | call {f : String} {ts : List Token} {ps : List Phrase} (hk : isKeyword f = false)
      (h : Spells .items ts ps) :
      Spells .operand (.word f :: .symbol "(" :: (ts ++ [.symbol ")"])) [.call f ps]
  | negative {ts : List Token} {p : Phrase} (h : Spells .operand ts [p])
      (hn : ∀ shown, ts.head? ≠ some (.number shown)) :
      Spells .operand (.symbol "-" :: ts) [.negative p]
  | positive {ts : List Token} {p : Phrase} (h : Spells .operand ts [p]) :
      Spells .operand (.symbol "+" :: ts) [p]
  | group {ts : List Token} {p : Phrase} (h : Spells .disjunction ts [p]) :
      Spells .operand (.symbol "(" :: (ts ++ [.symbol ")"])) [p]
  | ofOperand {ts : List Token} {p : Phrase} (h : Spells .operand ts [p]) : Spells .order ts [p]
  | order {s : String} {op : Comparator} {ts us : List Token} {p q : Phrase}
      (hs : comparator? s = some op) (hp : Spells .order ts [p]) (hq : Spells .operand us [q]) :
      Spells .order (ts ++ .symbol s :: us) [.compare op p q]
  | ofOrder {ts : List Token} {p : Phrase} (h : Spells .order ts [p]) : Spells .equality ts [p]
  | equality {s : String} {op : Comparator} {ts us : List Token} {p q : Phrase}
      (hs : equality? s = some op) (hp : Spells .equality ts [p]) (hq : Spells .order us [q]) :
      Spells .equality (ts ++ .symbol s :: us) [.compare op p q]
  | isNull {t n : Token} {ts ns : List Token} {p : Phrase} {negated : Bool}
      (hp : Spells .equality ts [p]) (ht : isWord "is" t) (hn : SpellsNot negated ns)
      (hnull : isWord "null" n) : Spells .equality (ts ++ t :: (ns ++ [n])) [.isNull negated p]
  | isnull {t : Token} {ts : List Token} {p : Phrase} (hp : Spells .equality ts [p])
      (ht : isWord "isnull" t) : Spells .equality (ts ++ [t]) [.isNull false p]
  | notnull {t : Token} {ts : List Token} {p : Phrase} (hp : Spells .equality ts [p])
      (ht : isWord "notnull" t) : Spells .equality (ts ++ [t]) [.isNull true p]
  | notNull {t n : Token} {ts : List Token} {p : Phrase} (hp : Spells .equality ts [p])
      (ht : isWord "not" t) (hn : isWord "null" n) :
      Spells .equality (ts ++ [t, n]) [.isNull true p]
  | like {t : Token} {ts ns us : List Token} {p q : Phrase} {negated : Bool}
      (hp : Spells .equality ts [p]) (hn : SpellsNot negated ns) (ht : isWord "like" t)
      (hq : Spells .order us [q]) : Spells .equality (ts ++ (ns ++ t :: us)) [.like negated p q]
  | memberNone {t : Token} {ts ns : List Token} {p : Phrase} {negated : Bool}
      (hp : Spells .equality ts [p]) (hn : SpellsNot negated ns) (ht : isWord "in" t) :
      Spells .equality (ts ++ (ns ++ [t, .symbol "(", .symbol ")"])) [.member negated p []]
  | member {t : Token} {ts ns us : List Token} {p : Phrase} {qs : List Phrase} {negated : Bool}
      (hp : Spells .equality ts [p]) (hn : SpellsNot negated ns) (ht : isWord "in" t)
      (hq : Spells .items us qs) :
      Spells .equality (ts ++ (ns ++ t :: .symbol "(" :: (us ++ [.symbol ")"])))
        [.member negated p qs]
  | range {t u : Token} {ts ns us vs : List Token} {p q r : Phrase} {negated : Bool}
      (hp : Spells .equality ts [p]) (hn : SpellsNot negated ns) (ht : isWord "between" t)
      (hq : Spells .order us [q]) (hu : isWord "and" u) (hr : Spells .order vs [r]) :
      Spells .equality (ts ++ (ns ++ t :: (us ++ u :: vs))) [.range negated p q r]
  | ofEquality {ts : List Token} {p : Phrase} (h : Spells .equality ts [p]) :
      Spells .negation ts [p]
  | not {t : Token} {ts : List Token} {p : Phrase} (ht : isWord "not" t)
      (h : Spells .negation ts [p]) : Spells .negation (t :: ts) [.not p]
  | conjunct {ts : List Token} {p : Phrase} (h : Spells .negation ts [p]) : Spells .conjuncts ts [p]
  | conjuncts {t : Token} {ts us : List Token} {p : Phrase} {ps : List Phrase}
      (hp : Spells .negation ts [p]) (ht : isWord "and" t) (hs : Spells .conjuncts us ps) :
      Spells .conjuncts (ts ++ t :: us) (p :: ps)
  | conjunction {ts : List Token} {ps : List Phrase} (h : Spells .conjuncts ts ps) :
      Spells .conjunction ts [.allOf ps]
  | disjunct {ts : List Token} {p : Phrase} (h : Spells .conjunction ts [p]) :
      Spells .disjuncts ts [p]
  | disjuncts {t : Token} {ts us : List Token} {p : Phrase} {ps : List Phrase}
      (hp : Spells .conjunction ts [p]) (ht : isWord "or" t) (hs : Spells .disjuncts us ps) :
      Spells .disjuncts (ts ++ t :: us) (p :: ps)
  | disjunction {ts : List Token} {ps : List Phrase} (h : Spells .disjuncts ts ps) :
      Spells .disjunction ts [.anyOf ps]
  | item {ts : List Token} {p : Phrase} (h : Spells .disjunction ts [p]) : Spells .items ts [p]
  | items {ts us : List Token} {p : Phrase} {ps : List Phrase} (hp : Spells .disjunction ts [p])
      (hs : Spells .items us ps) : Spells .items (ts ++ .symbol "," :: us) (p :: ps)

-- The readings of a whole text.
def Reads (text : String) (p : Phrase) : Prop := Spells .disjunction (tokensOf text) [p]

-- Which words would be taken into an expression that ends in front of them, level by level.
def Token.extendsOperand : Token → Bool
  | .symbol s => s == "(" || s == "."
  | _ => false

def Token.extendsOrder (t : Token) : Bool :=
  t.extendsOperand || match t with
    | .symbol s => (comparator? s).isSome
    | _ => false

def relationWords : List String := ["is", "isnull", "notnull", "not", "in", "like", "between"]

def Token.extendsEquality (t : Token) : Bool :=
  t.extendsOrder || match t with
    | .symbol s => (equality? s).isSome
    | .word w => relationWords.contains (lowerAscii w)
    | _ => false

def Token.extendsConjunction (t : Token) : Bool := t.extendsEquality || isWord "and" t

def Token.extendsDisjunction (t : Token) : Bool := t.extendsConjunction || isWord "or" t

def Token.extendsItems (t : Token) : Bool := t.extendsDisjunction || t == .symbol ","

-- Nothing that follows would be taken in.
def Closed (takes : Token → Bool) (rest : List Token) : Prop :=
  ∀ t more, rest = t :: more → takes t = false

theorem closed_nil (takes : Token → Bool) : Closed takes [] := by
  intro t more h
  cases h

theorem closed_cons {takes : Token → Bool} {t : Token} {rest : List Token} (h : takes t = false) :
    Closed takes (t :: rest) := by
  intro u more hu
  cases hu
  exact h

section

variable {rest : List Token}

theorem Closed.operand (h : Closed Token.extendsOrder rest) : Closed Token.extendsOperand rest :=
  fun t more ht => (Bool.or_eq_false_iff.mp (h t more ht)).1

theorem Closed.order (h : Closed Token.extendsEquality rest) : Closed Token.extendsOrder rest :=
  fun t more ht => (Bool.or_eq_false_iff.mp (h t more ht)).1

theorem Closed.equality (h : Closed Token.extendsConjunction rest) :
    Closed Token.extendsEquality rest :=
  fun t more ht => (Bool.or_eq_false_iff.mp (h t more ht)).1

theorem Closed.conjunction (h : Closed Token.extendsDisjunction rest) :
    Closed Token.extendsConjunction rest :=
  fun t more ht => (Bool.or_eq_false_iff.mp (h t more ht)).1

theorem Closed.disjunction (h : Closed Token.extendsItems rest) :
    Closed Token.extendsDisjunction rest :=
  fun t more ht => (Bool.or_eq_false_iff.mp (h t more ht)).1

end

theorem isWord_iff {name : String} {t : Token} :
    isWord name t = true ↔ ∃ w, t = .word w ∧ lowerAscii w = name := by
  cases t with
  | word w => simp [isWord]
  | _ => simp [isWord]

-- Two words with different meanings.
theorem isWord_eq_false {name other : String} {t : Token} (h : isWord name t = true)
    (hne : name ≠ other) : isWord other t = false := by
  obtain ⟨w, rfl, hw⟩ := isWord_iff.mp h
  simp [isWord, hw, hne]

theorem extendsOrder_word (w : String) : Token.extendsOrder (.word w) = false := rfl

theorem extendsItems_close : Token.extendsItems (.symbol ")") = false := by decide

theorem extendsDisjunction_comma : Token.extendsDisjunction (.symbol ",") = false := by decide

theorem extendsOperand_of_comparator {s : String} {op : Comparator} (h : comparator? s = some op) :
    Token.extendsOperand (.symbol s) = false := by
  unfold comparator? at h
  split at h
  · rfl
  · rfl
  · rfl
  · rfl
  · cases h

theorem extendsOrder_of_equality {s : String} {op : Comparator} (h : equality? s = some op) :
    Token.extendsOrder (.symbol s) = false := by
  unfold equality? at h
  split at h
  · rfl
  · rfl
  · rfl
  · rfl
  · cases h

theorem extendsEquality_of_isWord {name : String} {t : Token} (h : isWord name t = true)
    (hn : relationWords.contains name = false) : t.extendsEquality = false := by
  obtain ⟨w, rfl, rfl⟩ := isWord_iff.mp h
  rw [Token.extendsEquality, extendsOrder_word]
  exact hn

theorem extendsOrder_of_isWord {name : String} {t : Token} (h : isWord name t = true) :
    t.extendsOrder = false := by
  obtain ⟨w, rfl, -⟩ := isWord_iff.mp h
  exact extendsOrder_word w

-- The words that expressions begin with.
def Token.begins : Token → Prop
  | .word w => lowerAscii w = "null" ∨ isKeyword w = false
  | .symbol s => s = "-" ∨ s = "+" ∨ s = "("
  | .illegal _ => False
  | _ => True

-- Expressions that do not begin with `NOT`.
def Level.isTight : Level → Bool
  | .operand => true
  | .order => true
  | .equality => true
  | _ => false

theorem Spells.begins {level : Level} {ts : List Token} {ps : List Phrase}
    (h : Spells level ts ps) :
    ∃ t us, ts = t :: us ∧ (t.begins ∨ level.isTight = false ∧ isWord "not" t = true) := by
  have hextend : ∀ {level level' : Level} {ts us : List Token},
      (∃ t vs, ts = t :: vs ∧ (t.begins ∨ level.isTight = false ∧ isWord "not" t = true)) →
      (level.isTight = false → level'.isTight = false) →
      ∃ t vs, ts ++ us = t :: vs ∧ (t.begins ∨ level'.isTight = false ∧ isWord "not" t = true) := by
    intro level level' ts us h hl
    obtain ⟨t, vs, rfl, ht⟩ := h
    exact ⟨t, vs ++ us, rfl, ht.imp id fun ht => ⟨hl ht.1, ht.2⟩⟩
  induction h with
  | null h => exact ⟨_, _, rfl, .inl (.inl h)⟩
  | number => exact ⟨_, _, rfl, .inl trivial⟩
  | signed => exact ⟨_, _, rfl, .inl (.inl rfl)⟩
  | string => exact ⟨_, _, rfl, .inl trivial⟩
  | name hk => exact ⟨_, _, rfl, .inl (.inr hk)⟩
  | quoted => exact ⟨_, _, rfl, .inl trivial⟩
  | callNone hk => exact ⟨_, _, rfl, .inl (.inr hk)⟩
  | call hk => exact ⟨_, _, rfl, .inl (.inr hk)⟩
  | negative => exact ⟨_, _, rfl, .inl (.inl rfl)⟩
  | positive => exact ⟨_, _, rfl, .inl (.inr (.inl rfl))⟩
  | group => exact ⟨_, _, rfl, .inl (.inr (.inr rfl))⟩
  | not ht => exact ⟨_, _, rfl, .inr ⟨rfl, ht⟩⟩
  | ofOperand _ ih => exact ih
  | ofOrder _ ih => exact ih
  | order _ _ _ ih => exact hextend ih id
  | equality _ _ _ ih => exact hextend ih id
  | isNull _ _ _ _ ih => exact hextend ih id
  | isnull _ _ ih => exact hextend ih id
  | notnull _ _ ih => exact hextend ih id
  | notNull _ _ _ ih => exact hextend ih id
  | like _ _ _ _ ih => exact hextend ih id
  | memberNone _ _ _ ih => exact hextend ih id
  | member _ _ _ _ ih => exact hextend ih id
  | range _ _ _ _ _ _ ih => exact hextend ih id
  | ofEquality _ ih => exact ih.imp fun t h => h.imp fun us h => ⟨h.1, h.2.imp id fun h => ⟨rfl, h.2⟩⟩
  | conjunct _ ih => exact ih
  | conjuncts _ _ _ ih => exact hextend ih id
  | conjunction _ ih => exact ih
  | disjunct _ ih => exact ih
  | disjuncts _ _ _ ih => exact hextend ih id
  | disjunction _ ih => exact ih
  | item _ ih => exact ih
  | items _ _ ih => exact hextend ih id

end Gleaner.Sql
