import Gleaner.Proofs.Number.Numeral
import Gleaner.Sql.Token
import Gleaner.Where.Literal

namespace Gleaner.Sql

-- The words at the front of a text, up to where the rest begins. Each takes a character at least,
-- so that the length of a text is fuel enough for its words.
def Scans (input : List Char) (ts : List Token) (rest : List Char) : Prop :=
  ts.length + rest.length ≤ input.length ∧
    ∀ fuel, tokens (fuel + ts.length) input = ts ++ tokens fuel rest

theorem Scans.nil (input : List Char) : Scans input [] input := ⟨by simp, fun _ => rfl⟩

section

variable {input middle rest : List Char} {ts us : List Token}

theorem Scans.append (h : Scans input ts middle) (h' : Scans middle us rest) :
    Scans input (ts ++ us) rest := by
  refine ⟨?_, fun fuel => ?_⟩
  · have := h.1
    have := h'.1
    rw [List.length_append]
    omega
  · rw [List.length_append, Nat.add_comm ts.length, ← Nat.add_assoc, h.2, h'.2, List.append_assoc]

theorem tokens_space (fuel : Nat) (cs : List Char) : tokens fuel (' ' :: cs) = tokens fuel cs := by
  cases fuel with
  | zero => rfl
  | succ fuel =>
    unfold tokens
    rw [List.dropWhile_cons_of_pos (by decide)]

theorem Scans.space (h : Scans input ts rest) : Scans (' ' :: input) ts rest := by
  refine ⟨Nat.le_succ_of_le h.1, fun fuel => ?_⟩
  rw [tokens_space, h.2]

theorem Scans.beforeSpace (h : Scans input ts (' ' :: rest)) : Scans input ts rest := by
  refine ⟨?_, fun fuel => ?_⟩
  · have := h.1
    rw [List.length_cons] at this
    omega
  · rw [h.2, tokens_space]

theorem Scans.tokensOf {text : String} (h : Scans text.toList ts []) : tokensOf text = ts := by
  have hlen : ts.length ≤ text.length := h.1
  have := h.2 (text.length - ts.length)
  rw [Nat.sub_add_cancel hlen] at this
  rw [Sql.tokensOf, this]
  cases text.length - ts.length <;> simp [tokens]

end

def Token.isLegal : Token → Bool
  | .illegal _ => false
  | _ => true

theorem scans_token {c : Char} {cs rest : List Char} {t : Token} (hc : isSpace c = false)
    (ht : nextToken (c :: cs) = (t, rest)) (hl : t.isLegal = true)
    (hlen : rest.length ≤ cs.length) : Scans (c :: cs) [t] rest := by
  refine ⟨by simpa [Nat.add_comm] using hlen, fun fuel => ?_⟩
  simp only [List.length_singleton, tokens]
  rw [List.dropWhile_cons_of_neg (by simp [hc])]
  dsimp only
  rw [ht]
  cases t with
  | illegal shown => cases hl
  | _ => rfl

theorem isSpace_of_toNat {c : Char} (h : 33 ≤ c.toNat) : isSpace c = false := by
  have hne : c ≠ ' ' := by
    rintro rfl
    exact absurd h (by decide)
  simp only [isSpace, hne, decide_false, Bool.false_or, Bool.and_eq_false_iff, decide_eq_false_iff_not]
  omega

theorem isNameChar_of_isNameStart {c : Char} (h : isNameStart c = true) : isNameChar c = true := by
  simp only [isNameStart, Bool.or_eq_true, decide_eq_true_eq] at h
  simp only [isNameChar, Char.isAlphanum, Bool.or_eq_true, decide_eq_true_eq]
  tauto

theorem toNat_of_isAlpha {c : Char} (h : c.isAlpha = true) : 65 ≤ c.toNat := by
  rcases Bool.or_eq_true_iff.mp h with h | h
  · exact UInt32.le_iff_toNat_le.mp (of_decide_eq_true h).1
  · have : 97 ≤ c.toNat := UInt32.le_iff_toNat_le.mp (of_decide_eq_true (Bool.and_eq_true_iff.mp h).1)
    omega

theorem isSpace_of_isNameStart {c : Char} (h : isNameStart c = true) : isSpace c = false := by
  refine isSpace_of_toNat ?_
  simp only [isNameStart, Bool.or_eq_true, decide_eq_true_eq] at h
  rcases h with (h | rfl) | h
  · have := toNat_of_isAlpha h
    omega
  · decide
  · omega

-- Names and keywords.
theorem scans_word {c : Char} {cs rest : List Char} (hc : isNameStart c = true)
    (hcs : ∀ d ∈ cs, isNameChar d = true) (hr : Ends isNameChar rest) :
    Scans (c :: cs ++ rest) [.word (String.ofList (c :: cs))] rest := by
  have hall : ∀ d ∈ c :: cs, isNameChar d = true := by
    intro d hd
    rcases List.mem_cons.mp hd with rfl | hd
    · exact isNameChar_of_isNameStart hc
    · exact hcs d hd
  rw [List.cons_append]
  refine scans_token (isSpace_of_isNameStart hc) ?_ rfl (by simp)
  unfold nextToken
  dsimp only
  rw [if_pos hc, ← List.cons_append, hr.takeWhile_append hall, hr.dropWhile_append hall]

-- Whether characters make up one name or keyword.
def isBareWord : List Char → Bool
  | [] => false
  | c :: cs => isNameStart c && cs.all isNameChar

theorem scans_bareWord {w : String} {rest : List Char} (hw : isBareWord w.toList = true)
    (hr : Ends isNameChar rest) : Scans (w.toList ++ rest) [.word w] rest := by
  cases hcs : w.toList with
  | nil =>
    rw [hcs] at hw
    cases hw
  | cons c cs =>
    rw [hcs, isBareWord, Bool.and_eq_true, List.all_eq_true] at hw
    have hword : w = String.ofList (c :: cs) := by rw [← hcs, String.ofList_toList]
    rw [hword]
    exact scans_word hw.1 hw.2 hr

-- Texts in quotes: whatever stands between them is kept.
theorem readQuoted_escaped (content : List Char) {rest : List Char}
    (hr : Ends (· = '\'') rest) :
    readQuoted '\'' (Where.escapedQuotes content ++ '\'' :: rest) = some (content, rest) := by
  induction content with
  | nil =>
    cases rest with
    | nil => rfl
    | cons c more =>
      have hc : c ≠ '\'' := by simpa using hr c more rfl
      simp [Where.escapedQuotes, readQuoted, hc]
  | cons c content ih =>
    by_cases hc : c = '\''
    · subst hc
      change readQuoted '\'' ('\'' :: '\'' :: (Where.escapedQuotes content ++ '\'' :: rest)) = _
      rw [readQuoted, if_pos rfl, if_pos rfl, ih]
      rfl
    · have hcons : Where.escapedQuotes (c :: content) = c :: Where.escapedQuotes content := by
        simp [Where.escapedQuotes, hc]
      rw [hcons, List.cons_append, readQuoted.eq_def]
      dsimp only
      rw [if_neg hc, ih]
      rfl

theorem scans_string (content : List Char) {rest : List Char} (hr : Ends (· = '\'') rest) :
    Scans ('\'' :: Where.escapedQuotes content ++ '\'' :: rest)
      [.string (String.ofList content)
        (String.ofList ('\'' :: Where.escapedQuotes content ++ ['\'']))] rest := by
  have hshown : shownPart ('\'' :: (Where.escapedQuotes content ++ '\'' :: rest)) rest =
      String.ofList ('\'' :: Where.escapedQuotes content ++ ['\'']) := by
    have hlen : ('\'' :: (Where.escapedQuotes content ++ '\'' :: rest)).length - rest.length =
        ('\'' :: Where.escapedQuotes content ++ ['\'']).length := by
      simp only [List.length_append, List.length_cons, List.length_nil]
      omega
    have htext : '\'' :: (Where.escapedQuotes content ++ '\'' :: rest) =
        ('\'' :: Where.escapedQuotes content ++ ['\'']) ++ rest := by simp
    unfold shownPart
    rw [hlen, htext, List.take_left]
  rw [List.cons_append]
  refine scans_token (by decide) ?_ rfl (by simp; omega)
  unfold nextToken
  dsimp only
  rw [if_neg (by decide), if_neg (by simp), if_pos rfl, readQuoted_escaped content hr]
  dsimp only
  rw [hshown]

-- Numerals end where neither a digit nor a point nor a letter stands.
def endsNumeral (c : Char) : Bool := isNameChar c || c = '.'

theorem isNameChar_of_isDigit {c : Char} (h : c.isDigit = true) : isNameChar c = true := by
  simp [isNameChar, Char.isAlphanum, h]

theorem isNameStart_of_isDigit {c : Char} (h : c.isDigit = true) : isNameStart c = false := by
  have hhigh : c.toNat ≤ 57 := (Char.isDigit_iff_toNat.mp h).2
  have halpha : c.isAlpha = false := by
    by_contra halpha
    have := toNat_of_isAlpha (Bool.not_eq_false _ ▸ halpha)
    omega
  have hline : c ≠ '_' := by
    rintro rfl
    exact absurd h (by decide)
  simp only [isNameStart, halpha, hline, decide_false, Bool.false_or, decide_eq_false_iff_not]
  omega

theorem isSpace_of_isDigit {c : Char} (h : c.isDigit = true) : isSpace c = false := by
  refine isSpace_of_toNat ?_
  have : 48 ≤ c.toNat := (Char.isDigit_iff_toNat.mp h).1
  omega

section

variable {n : Numeral} {rest : List Char}

theorem ends_of_endsNumeral (hr : Ends endsNumeral rest) : Ends Char.isDigit rest :=
  hr.mono fun c h => by simp [endsNumeral, isNameChar_of_isDigit h]

theorem readExponent_chars (hn : n.IsProper) (hr : Ends endsNumeral rest) :
    readExponent (n.exponentChars ++ rest) = (n.exponentChars, rest) := by
  obtain ⟨whole, fraction, exponent⟩ := n
  cases exponent with
  | none =>
    cases rest with
    | nil => rfl
    | cons c more =>
      have hc : ¬(c = 'e' ∨ c = 'E') := by
        rintro (rfl | rfl)
        · exact absurd (hr _ _ rfl) (by decide)
        · exact absurd (hr _ _ rfl) (by decide)
      simp [Numeral.exponentChars, readExponent, hc]
  | some e =>
    obtain ⟨negative, ds⟩ := e
    obtain ⟨hd, hne⟩ := hn.exponent negative ds rfl
    have htake := (ends_of_endsNumeral hr).takeWhile_append hd
    have hdrop := (ends_of_endsNumeral hr).dropWhile_append hd
    cases negative
    · simp [Numeral.exponentChars, readExponent, htake, hdrop, hne]
    · simp [Numeral.exponentChars, readExponent, htake, hdrop, hne]

theorem readFraction_chars (hn : n.IsProper) (hr : Ends endsNumeral rest) :
    readFraction (n.fractionChars ++ (n.exponentChars ++ rest)) =
      (n.fractionChars, n.exponentChars ++ rest) := by
  have hends : Ends Char.isDigit (n.exponentChars ++ rest) := by
    unfold Numeral.exponentChars
    split
    · exact ends_of_endsNumeral hr
    · exact ends_cons rfl
  obtain ⟨whole, fraction, exponent⟩ := n
  cases fraction with
  | none =>
    have hpoint : ∀ more, (⟨whole, none, exponent⟩ : Numeral).exponentChars ++ rest ≠
        '.' :: more := by
      intro more h
      cases exponent with
      | none => exact absurd (hr '.' more h) (by decide)
      | some e => exact absurd (List.cons.inj h).1 (by decide)
    unfold Numeral.fractionChars readFraction
    dsimp only
    rw [List.nil_append]
    split
    · rename_i more h
      exact absurd h (hpoint more)
    · rfl
  | some ds =>
    have hd := hn.fraction ds rfl
    simp [Numeral.fractionChars, readFraction, hends.takeWhile_append hd, hends.dropWhile_append hd]

theorem readNumber_chars (hn : n.IsProper) (hr : Ends endsNumeral rest) :
    readNumber (n.chars ++ rest) = (n.chars, rest) := by
  have hends : Ends Char.isDigit (n.fractionChars ++ (n.exponentChars ++ rest)) := by
    unfold Numeral.fractionChars Numeral.exponentChars
    split
    · split
      · exact ends_of_endsNumeral hr
      · exact ends_cons rfl
    · exact ends_cons rfl
  unfold readNumber
  rw [Numeral.chars, List.append_assoc, List.append_assoc, hends.span_append hn.whole]
  dsimp only
  rw [readFraction_chars hn hr]
  dsimp only
  rw [readExponent_chars hn hr, List.append_assoc]

theorem scans_number (hn : n.IsProper) (hr : Ends endsNumeral rest) :
    Scans (n.chars ++ rest) [.number (String.ofList n.chars)] rest := by
  have hread := readNumber_chars hn hr
  have hafter : rest.head?.any isNameChar = false := by
    cases rest with
    | nil => rfl
    | cons c more =>
      have := hr c more rfl
      simp only [endsNumeral, Bool.or_eq_false_iff] at this
      simpa using this.1
  obtain ⟨c, cs, hcs⟩ := List.exists_cons_of_ne_nil hn.whole_ne_nil
  have hc : c.isDigit = true := hn.whole c (by simp [hcs])
  have hchars : n.chars ++ rest = c :: (cs ++ (n.fractionChars ++ n.exponentChars) ++ rest) := by
    simp [Numeral.chars, hcs]
  rw [hchars] at hread ⊢
  refine scans_token (isSpace_of_isDigit hc) ?_ rfl (by simp; omega)
  unfold nextToken
  dsimp only
  rw [if_neg (by simp [isNameStart_of_isDigit hc]), if_pos (by simp [hc]), hread]
  dsimp only
  rw [hafter]
  rfl

end

-- Marks in front of which no other mark begins.
theorem scans_symbol {s : String} {c : Char} {cs rest : List Char}
    (hs : symbol? (c :: cs) = some (s, rest)) (hlen : rest.length ≤ cs.length)
    (hstart : isNameStart c = false) (hdigit : c.isDigit = false)
    (hpoint : c = '.' → Ends Char.isDigit cs) (hquote : c ≠ '\'' ∧ c ≠ '"' ∧ c ≠ '\x60' ∧ c ≠ '[')
    (hspace : isSpace c = false) : Scans (c :: cs) [.symbol s] rest := by
  obtain ⟨hsingle, hdouble, hback, hopen⟩ := hquote
  have hnumber : (c.isDigit || (c = '.' && cs.head?.any Char.isDigit)) = false := by
    by_cases hc : c = '.'
    · cases cs with
      | nil => simp [hdigit]
      | cons d more => simp [hdigit, hpoint hc d more rfl]
    · simp [hdigit, hc]
  refine scans_token hspace ?_ rfl hlen
  unfold nextToken
  dsimp only
  rw [if_neg (by simp [hstart]), if_neg (by simp [hnumber]), if_neg hsingle,
    if_neg (by simp [hdouble, hback]), if_neg (by simp [hopen]), hs]

section

variable (rest : List Char)

theorem scans_open : Scans ('(' :: rest) [.symbol "("] rest :=
  scans_symbol rfl (Nat.le_refl _) (by decide) (by decide) nofun (by decide) (by decide)

theorem scans_close : Scans (')' :: rest) [.symbol ")"] rest :=
  scans_symbol rfl (Nat.le_refl _) (by decide) (by decide) nofun (by decide) (by decide)

theorem scans_comma : Scans (',' :: rest) [.symbol ","] rest :=
  scans_symbol rfl (Nat.le_refl _) (by decide) (by decide) nofun (by decide) (by decide)

theorem scans_minus : Scans ('-' :: rest) [.symbol "-"] rest :=
  scans_symbol rfl (Nat.le_refl _) (by decide) (by decide) nofun (by decide) (by decide)

theorem scans_point {rest : List Char} (hr : Ends Char.isDigit rest) :
    Scans ('.' :: rest) [.symbol "."] rest :=
  scans_symbol rfl (Nat.le_refl _) (by decide) (by decide) (fun _ => hr) (by decide) (by decide)

-- The marks of comparisons, with a space behind.
theorem scans_comparator {s : String} {cs : List Char} (hs : s ∈ ["=", "!=", ">", ">=", "<", "<="])
    (hcs : s.toList = cs) : Scans (cs ++ ' ' :: rest) [.symbol s] (' ' :: rest) := by
  subst hcs
  simp only [List.mem_cons, List.not_mem_nil, or_false] at hs
  rcases hs with rfl | rfl | rfl | rfl | rfl | rfl
  · exact scans_symbol rfl (by simp) (by decide) (by decide) nofun (by decide) (by decide)
  · exact scans_symbol rfl (by simp) (by decide) (by decide) nofun (by decide) (by decide)
  · exact scans_symbol rfl (by simp) (by decide) (by decide) nofun (by decide) (by decide)
  · exact scans_symbol rfl (by simp) (by decide) (by decide) nofun (by decide) (by decide)
  · exact scans_symbol rfl (by simp) (by decide) (by decide) nofun (by decide) (by decide)
  · exact scans_symbol rfl (by simp) (by decide) (by decide) nofun (by decide) (by decide)

end

end Gleaner.Sql
