import Gleaner.Json.Reader
import Gleaner.Json.Writer
import Gleaner.Proofs.Number.Shortest

namespace Gleaner.Json

theorem hexValue?_hexDigit : ∀ n < 16, hexValue? (Text.hexDigit n) = some n := by decide

-- The four digits of a unit are read as that unit.
theorem exists_hexChars {n : Nat} (h : n < 65536) :
    ∃ a b c d, Text.hexChars 4 n = [a, b, c, d] ∧ unit? a b c d = some n := by
  refine ⟨_, _, _, _, rfl, ?_⟩
  unfold unit?
  simp only [hexValue?_hexDigit _ (Nat.mod_lt _ (by decide : 16 > 0)), Option.bind_eq_bind,
    Option.bind_some, Option.some.injEq]
  omega

variable {ε : Type} {opening : Nat} {acc : List Char}

theorem readString_plain {c : Char} {rest : List Char} (hq : c ≠ '"') (hb : c ≠ '\\')
    (hc : 32 ≤ c.toNat) :
    readString (ε := ε) opening acc (c :: rest) = readString opening (c :: acc) rest := by
  rw [readString, if_neg (by omega)] <;> simp [hq, hb]

theorem readString_short {c d : Char} {rest : List Char} (hu : c ≠ 'u')
    (hc : plainEscape? c = some d) :
    readString (ε := ε) opening acc ('\\' :: c :: rest) = readString opening (d :: acc) rest := by
  rw [readString, hc] <;> simp [hu]

-- A unit that is not the first half of a pair stands for itself, whatever comes behind it.
theorem readString_unit {n : Nat} (hn : n < 65536) (hh : isHighUnit n = false) (next : Char)
    (rest : List Char) :
    readString (ε := ε) opening acc (unitEscape n ++ next :: rest) =
      readString opening (unitChar n :: acc) (next :: rest) := by
  obtain ⟨a, b, c, d, hchars, hunit⟩ := exists_hexChars hn
  rw [unitEscape, hchars]
  simp only [List.cons_append, List.nil_append]
  by_cases hpair : ∃ e f g h last more, next :: rest = '\\' :: 'u' :: e :: f :: g :: h :: last :: more
  · obtain ⟨e, f, g, h, last, more, hpair⟩ := hpair
    rw [hpair, readString, hunit]
    simp [hh]
  · rw [readString, hunit]
    rintro e f g h last more rfl rfl
    exact hpair ⟨e, f, g, h, last, more, rfl⟩

theorem readString_pair {high low : Nat} (hh : isHighUnit high = true) (hl : isLowUnit low = true)
    (next : Char) (rest : List Char) :
    readString (ε := ε) opening acc (unitEscape high ++ (unitEscape low ++ next :: rest)) =
      readString opening (joinUnits high low :: acc) (next :: rest) := by
  have hhigh : high < 65536 := by
    simp only [isHighUnit, Bool.and_eq_true, decide_eq_true_eq] at hh
    omega
  have hlow : low < 65536 := by
    simp only [isLowUnit, Bool.and_eq_true, decide_eq_true_eq] at hl
    omega
  obtain ⟨a, b, c, d, hchars, hunit⟩ := exists_hexChars hhigh
  obtain ⟨e, f, g, h, hchars', hunit'⟩ := exists_hexChars hlow
  rw [unitEscape, hchars, unitEscape, hchars']
  simp only [List.cons_append, List.nil_append]
  rw [readString, hunit]
  simp [hh, hunit', hl]

-- The code points of the halves of pairs belong to no characters.
theorem unitChar_toNat (c : Char) (h : c.toNat < 65536) :
    isHighUnit c.toNat = false ∧ unitChar c.toNat = c := by
  have hvalid : c.toNat < 55296 ∨ 57343 < c.toNat ∧ c.toNat < 1114112 := c.valid
  have hhigh : isHighUnit c.toNat = false := by
    simp only [isHighUnit, Bool.and_eq_false_iff, decide_eq_false_iff_not]
    omega
  have hlow : isLowUnit c.toNat = false := by
    simp only [isLowUnit, Bool.and_eq_false_iff, decide_eq_false_iff_not]
    omega
  rw [unitChar, hhigh, hlow]
  exact ⟨rfl, Char.ofNat_toNat c⟩

theorem joinUnits_toNat (c : Char) (h : ¬c.toNat < 65536) :
    isHighUnit (55296 + (c.toNat - 65536) / 1024) = true ∧
      isLowUnit (56320 + (c.toNat - 65536) % 1024) = true ∧
      joinUnits (55296 + (c.toNat - 65536) / 1024) (56320 + (c.toNat - 65536) % 1024) = c := by
  have hvalid : c.toNat < 55296 ∨ 57343 < c.toNat ∧ c.toNat < 1114112 := c.valid
  simp only [isHighUnit, isLowUnit, Bool.and_eq_true, decide_eq_true_eq]
  refine ⟨by omega, by omega, ?_⟩
  rw [joinUnits]
  have hsame : 65536 + (55296 + (c.toNat - 65536) / 1024 - 55296) * 1024 +
      (56320 + (c.toNat - 65536) % 1024 - 56320) = c.toNat := by omega
  rw [hsame, Char.ofNat_toNat]

theorem plainEscape?_shortForm {c letter : Char} (h : shortForm? c = some letter) :
    letter ≠ 'u' ∧ plainEscape? letter = some c := by
  unfold shortForm? at h
  split at h
  · cases h
    decide
  · cases h
    decide
  · unfold Text.shortForm? at h
    split at h <;> cases h <;> decide

-- A character is read back as it was escaped.
theorem readString_escapedChar (c next : Char) (rest : List Char) :
    readString (ε := ε) opening acc (escapedChar c ++ next :: rest) =
      readString opening (c :: acc) (next :: rest) := by
  unfold escapedChar
  split
  · next hc =>
    obtain rfl | rfl := hc <;> exact readString_short (by decide) rfl
  · next hc =>
    rw [not_or] at hc
    split
    · next letter hletter =>
      obtain ⟨hu, hplain⟩ := plainEscape?_shortForm hletter
      exact readString_short hu hplain
    · dsimp only
      split
      · next hshown => exact readString_plain hc.1 hc.2 hshown.1
      · split
        · next hplane =>
          obtain ⟨hhigh, hchar⟩ := unitChar_toNat c hplane
          rw [readString_unit hplane hhigh, hchar]
        · next hplane =>
          obtain ⟨hhigh, hlow, hchar⟩ := joinUnits_toNat c hplane
          rw [List.append_assoc, readString_pair hhigh hlow, hchar]

theorem readString_escaped (cs rest : List Char) :
    readString (ε := ε) opening acc (cs.flatMap escapedChar ++ '"' :: rest) =
      .ok (String.ofList (acc.reverse ++ cs), rest) := by
  induction cs generalizing acc with
  | nil => rw [List.flatMap_nil, List.nil_append, List.append_nil, readString]
  | cons c cs ih =>
    -- some character follows, if only the quote at the end
    obtain ⟨next, more, hnext⟩ : ∃ next more,
        cs.flatMap escapedChar ++ '"' :: rest = next :: more :=
      List.exists_cons_of_ne_nil (by simp)
    rw [List.flatMap_cons, List.append_assoc, hnext, readString_escapedChar, ← hnext, ih]
    simp

-- A text is read back as it was written.
theorem readString_stringText (s : String) (rest : List Char) :
    ∃ cs, (stringText s).toList ++ rest = '"' :: cs ∧
      ∀ opening, readString (ε := ε) opening [] cs = .ok (s, rest) := by
  refine ⟨s.toList.flatMap escapedChar ++ '"' :: rest, by simp [stringText], fun opening => ?_⟩
  rw [readString_escaped, List.reverse_nil, List.nil_append, String.ofList_toList]

end Gleaner.Json

namespace Gleaner

open Binary64

theorem digitChar_ne_zero : ∀ n < 10, n ≠ 0 → Nat.digitChar n ≠ '0' := by decide

-- No number begins with a zero that can be left out.
theorem toDigits_head?_ne {n : Nat} (h : n ≠ 0) : (Nat.toDigits 10 n).head? ≠ some '0' := by
  induction n using Nat.strongRecOn with
  | _ n ih =>
    rw [Nat.toDigits_eq_if (by decide)]
    split
    · next hlt =>
      rw [List.head?_cons, ne_eq, Option.some.injEq]
      exact digitChar_ne_zero n hlt h
    · next hge =>
      rw [List.head?_append_of_ne_nil _ Nat.toDigits_ne_nil]
      exact ih (n / 10) (by omega) (by omega)

namespace Json

variable {ε : Type} {rest : List Char}

-- What goes on with a number that has begun.
def isNumberChar (c : Char) : Bool := c.isDigit || c == '.' || c == 'e' || c == 'E'

theorem ends_digit (h : Ends isNumberChar rest) : Ends Char.isDigit rest :=
  h.mono fun c hc => by simp [isNumberChar, hc]

-- The two parts of the tail of a number.
def readFraction (cs : List Char) : List Nat × List Char :=
  match cs with
  | '.' :: rest => match takeDigits rest with
    | ([], _) => ([], cs)
    | (ds, tail) => (ds, tail)
  | _ => ([], cs)

def readExponent (cs : List Char) : Option Int × List Char :=
  match cs with
  | c :: rest =>
    if c = 'e' ∨ c = 'E' then
      match takeDigits (Integer.sign rest).2 with
      | ([], _) => (none, cs)
      | (ds, tail) =>
        (some (if (Integer.sign rest).1 then -(Integer.ofDigits ds : Int) else Integer.ofDigits ds),
          tail)
    else (none, cs)
  | [] => (none, cs)

theorem readTail_eq (cs : List Char) :
    readTail cs = ((readFraction cs).1, readExponent (readFraction cs).2) := by
  unfold readTail
  split
  next fraction tail heq =>
    have hfraction : readFraction cs = (fraction, tail) := heq
    rw [hfraction]
    cases tail with
    | nil => rfl
    | cons c more =>
      dsimp only [readExponent]
      split
      · rcases takeDigits (Integer.sign more).2 with ⟨_ | ⟨d, ds⟩, rest⟩ <;> rfl
      · rfl

theorem readFraction_end (h : rest.head? ≠ some '.') : readFraction rest = ([], rest) := by
  unfold readFraction
  split
  · simp at h
  · rfl

theorem readFraction_digits {ds : List Char} (hd : AllDigits ds) (hne : ds ≠ [])
    (h : Ends Char.isDigit rest) :
    readFraction ('.' :: (ds ++ rest)) = (ds.map (·.toNat - 48), rest) := by
  change (match takeDigits (ds ++ rest) with
    | ([], _) => ([], '.' :: (ds ++ rest))
    | (ds, tail) => (ds, tail)) = _
  rw [takeDigits_append hd h]
  cases ds with
  | nil => exact absurd rfl hne
  | cons c ds => rfl

theorem readExponent_end (h : Ends isNumberChar rest) : readExponent rest = (none, rest) := by
  cases rest with
  | nil => rfl
  | cons c more =>
    have hc := h c more rfl
    simp only [isNumberChar, Bool.or_eq_false_iff, beq_eq_false_iff_ne] at hc
    exact if_neg (by simp [hc])

theorem readExponent_digits (negative : Bool) {ds : List Char} (hd : AllDigits ds) (hne : ds ≠ [])
    (h : Ends Char.isDigit rest) :
    readExponent ('e' :: (if negative then '-' else '+') :: (ds ++ rest)) =
      (some (if negative then -(Nat.ofDigitChars 10 ds 0 : Int) else Nat.ofDigitChars 10 ds 0),
        rest) := by
  unfold readExponent
  dsimp only
  rw [if_pos (.inl rfl), Numeral.sign_exponent, takeDigits_append hd h, ← ofDigits_map]
  cases ds with
  | nil => exact absurd rfl hne
  | cons c ds => rfl

end Json

namespace Numeral

-- A numeral as JSON has it: the whole part is a zero or begins with another digit, and a point is
-- followed by digits.
structure IsStrict (n : Numeral) : Prop extends n.IsProper where
  lead : n.whole = ['0'] ∨ n.whole.head? ≠ some '0'
  fraction_ne_nil : n.fraction ≠ some []

-- The digits behind the point and the exponent.
def exponent? (n : Numeral) : Option Int := n.exponent.map fun _ => n.power

theorem ends_exponentChars_append (n : Numeral) {rest : List Char}
    (h : Ends Json.isNumberChar rest) : Ends Char.isDigit (n.exponentChars ++ rest) := by
  unfold exponentChars
  split
  · exact Json.ends_digit h
  · exact ends_cons rfl

theorem exponentChars_append_head? (n : Numeral) {rest : List Char}
    (h : Ends Json.isNumberChar rest) : (n.exponentChars ++ rest).head? ≠ some '.' := by
  unfold exponentChars
  split
  · intro hhead
    obtain ⟨more, rfl⟩ := List.head?_eq_some_iff.mp hhead
    cases h '.' more rfl
  · simp

theorem readTail_chars {n : Numeral} (hn : n.IsStrict) {rest : List Char}
    (h : Ends Json.isNumberChar rest) :
    Json.readTail (n.fractionChars ++ (n.exponentChars ++ rest)) =
      ((n.fraction.getD []).map (·.toNat - 48), n.exponent?, rest) := by
  have hexponent : Json.readExponent (n.exponentChars ++ rest) = (n.exponent?, rest) := by
    cases he : n.exponent with
    | none =>
      rw [exponentChars, exponent?, he]
      exact Json.readExponent_end h
    | some e =>
      obtain ⟨hd, hne⟩ := hn.exponent e.1 e.2 he
      rw [exponentChars, exponent?, power, he]
      exact Json.readExponent_digits e.1 hd hne (Json.ends_digit h)
  have hfraction : Json.readFraction (n.fractionChars ++ (n.exponentChars ++ rest)) =
      ((n.fraction.getD []).map (·.toNat - 48), n.exponentChars ++ rest) := by
    cases hf : n.fraction with
    | none =>
      rw [fractionChars, hf]
      exact Json.readFraction_end (n.exponentChars_append_head? h)
    | some ds =>
      have hne : ds ≠ [] := by
        rintro rfl
        exact hn.fraction_ne_nil hf
      rw [fractionChars, hf]
      exact Json.readFraction_digits (hn.fraction ds hf) hne (n.ends_exponentChars_append h)
  rw [Json.readTail_eq, hfraction, hexponent]

end Numeral

namespace Json

variable {ε : Type}

-- The digits up to the point; a zero in front stands alone.
theorem readNumber_whole {whole tail : List Char} (negative : Bool) (hd : AllDigits whole)
    (hne : whole ≠ []) (hlead : whole = ['0'] ∨ whole.head? ≠ some '0')
    (htail : Ends Char.isDigit tail) :
    readNumber (ε := ε) negative (whole ++ tail) =
      match readTail tail with
      | ([], none, rest) =>
        .ok (.int (if negative then -(Nat.ofDigitChars 10 whole 0 : Int)
          else Nat.ofDigitChars 10 whole 0), rest)
      | (fraction, exponent, rest) =>
        .ok (.float ((⟨whole.map (·.toNat - 48), fraction, exponent.getD 0⟩ :
          Binary64.Literal).toBinary64 negative), rest) := by
  rw [← ofDigits_map]
  unfold readNumber
  split
  next digits rest heq =>
    have hdigits : digits = whole.map (·.toNat - 48) ∧ rest = tail := by
      rcases hlead with rfl | hlead
      · cases heq
        exact ⟨rfl, rfl⟩
      · split at heq
        · next hzero =>
          obtain ⟨c, more, rfl⟩ := List.exists_cons_of_ne_nil hne
          cases hzero
          exact absurd rfl hlead
        · cases heq.symm.trans (takeDigits_append hd htail)
          exact ⟨rfl, rfl⟩
    obtain ⟨rfl, rfl⟩ := hdigits
    rfl

-- A number without a point and an exponent is an integer.
theorem readNumber_digits {m : Nat} {rest : List Char} (negative : Bool)
    (h : Ends isNumberChar rest) :
    readNumber (ε := ε) negative (Nat.toDigits 10 m ++ rest) =
      .ok (.int (if negative then -(m : Int) else m), rest) := by
  have hlead : Nat.toDigits 10 m = ['0'] ∨ (Nat.toDigits 10 m).head? ≠ some '0' := by
    by_cases hzero : m = 0
    · rw [hzero]
      exact .inl rfl
    · exact .inr (toDigits_head?_ne hzero)
  have htail : readTail rest = ([], none, rest) := by
    have hpoint : rest.head? ≠ some '.' := by
      intro hhead
      obtain ⟨more, rfl⟩ := List.head?_eq_some_iff.mp hhead
      cases h '.' more rfl
    rw [readTail_eq, readFraction_end hpoint, readExponent_end h]
  rw [readNumber_whole negative (allDigits_toDigits m) Nat.toDigits_ne_nil hlead (ends_digit h),
    htail, Nat.ofDigitChars_ten_toDigits]

theorem readNumber_numeral {n : Numeral} (hn : n.IsStrict)
    (hplain : n.fraction ≠ none ∨ n.exponent ≠ none) (negative : Bool) {rest : List Char}
    (h : Ends isNumberChar rest) :
    readNumber (ε := ε) negative (n.chars ++ rest) =
      .ok (.float (ofDecimal negative (Nat.ofDigitChars 10 n.digits 0) n.places), rest) := by
  have htail : Ends Char.isDigit (n.fractionChars ++ (n.exponentChars ++ rest)) := by
    unfold Numeral.fractionChars
    split
    · exact n.ends_exponentChars_append h
    · exact ends_cons rfl
  rw [Numeral.chars, List.append_assoc, List.append_assoc,
    readNumber_whole negative hn.whole hn.whole_ne_nil hn.lead htail, Numeral.readTail_chars hn h]
  have hfloat : (⟨n.whole.map (·.toNat - 48), (n.fraction.getD []).map (·.toNat - 48),
      n.exponent?.getD 0⟩ : Binary64.Literal).toBinary64 negative =
      ofDecimal negative (Nat.ofDigitChars 10 n.digits 0) n.places := by
    have hpower : n.exponent?.getD 0 = n.power := by
      unfold Numeral.exponent? Numeral.power
      cases n.exponent <;> rfl
    rw [Literal.toBinary64, hpower, ← List.map_append, ofDigits_map, List.length_map]
    rfl
  rw [← hfloat]
  cases hf : n.fraction with
  | none =>
    obtain ⟨e, he⟩ := Option.ne_none_iff_exists'.mp (hplain.resolve_left (absurd hf))
    simp [Numeral.exponent?, he]
  | some ds =>
    obtain ⟨d, more, rfl⟩ := List.exists_cons_of_ne_nil fun hnil : ds = [] =>
      hn.fraction_ne_nil (hnil ▸ hf)
    rfl

end Json

namespace Binary64

theorem dropTrailingZeros_head?_ne {value : Nat} (h : value ≠ 0) :
    (dropTrailingZeros (Nat.toDigits 10 value)).head? ≠ some '0' := by
  obtain ⟨hne, k, hk⟩ := dropTrailingZeros_eq h
  have hhead := toDigits_head?_ne h
  rwa [hk, List.head?_append_of_ne_nil _ hne] at hhead

section

variable {digits : List Char} (hd : AllDigits digits) (hne : digits ≠ [])
  (hlead : digits.head? ≠ some '0')
include hd hne hlead

theorem positionalNumeral_isStrict (point : Int) : (positionalNumeral digits point).IsStrict := by
  refine ⟨positionalNumeral_isProper hd hne point, ?_, ?_⟩
  · unfold positionalNumeral
    split
    · split
      · exact .inl rfl
      · split
        · refine .inr ?_
          rwa [List.head?_append_of_ne_nil _ hne]
        · next n hn _ =>
          refine .inr ?_
          rwa [List.head?_take, if_neg hn]
    · exact .inl rfl
  · unfold positionalNumeral
    split
    · split
      · simpa using hne
      · split
        · simp
        · next n _ hlen =>
          simp only [ne_eq, Option.some.injEq, List.drop_eq_nil_iff]
          omega
    · simp [zeros]

theorem scientificNumeral_isStrict (layout : Layout) (exponent : Int) :
    (scientificNumeral layout digits exponent).IsStrict := by
  refine ⟨scientificNumeral_isProper layout hd hne exponent, .inr ?_, ?_⟩
  · rwa [scientificNumeral, List.head?_take, if_neg one_ne_zero]
  · simp only [scientificNumeral]
    split
    · simp
    · simp only [ne_eq, Option.some.injEq, List.drop_eq_nil_iff]
      omega

end

theorem Layout.numeral_isStrict (layout : Layout) {value : Nat} (h : value ≠ 0) (places : Int) :
    (layout.numeral value places).IsStrict := by
  have hd := allDigits_dropTrailingZeros h
  have hne := (dropTrailingZeros_eq h).1
  have hlead := dropTrailingZeros_head?_ne h
  unfold Layout.numeral
  dsimp only
  split
  · exact positionalNumeral_isStrict hd hne hlead _
  · exact scientificNumeral_isStrict hd hne hlead _ _

theorem eq_zero_of_significand {exponent : Fin 2047} {fraction : Fin 4503599627370496}
    (h : significand exponent fraction = 0) : exponent = 0 ∧ fraction = 0 := by
  unfold significand at h
  split at h
  · next he => exact ⟨Fin.ext he, Fin.ext h⟩
  · omega

-- A finite number is written as its sign and a numeral that is read as the number again.
theorem json_text (negative : Bool) (exponent : Fin 2047) (fraction : Fin 4503599627370496) :
    ∃ n : Numeral, n.IsStrict ∧ (n.fraction ≠ none ∨ n.exponent ≠ none) ∧
      ((Binary64.finite negative exponent fraction).textWith jsonLayout).toList =
        (if negative then ['-'] else []) ++ n.chars ∧
      ofDecimal negative (Nat.ofDigitChars 10 n.digits 0) n.places =
        .finite negative exponent fraction := by
  by_cases hs : significand exponent fraction = 0
  · obtain ⟨rfl, rfl⟩ := eq_zero_of_significand hs
    refine ⟨⟨['0'], some ['0'], none⟩, ⟨⟨allDigits_zero, by simp, ?_, nofun⟩, .inl rfl, by simp⟩,
      .inl (by simp), ?_, rfl⟩
    · intro ds hds
      cases hds
      exact allDigits_zero
    · cases negative <;> rfl
  · have hne := ne_zero_of_readsBack hs (readsBack_shortestDigits exponent fraction)
    refine ⟨shortestNumeral exponent fraction, Layout.numeral_isStrict _ hne _,
      Layout.numeral_not_plain _ _, ?_, (shortestNumeral_spec hs negative).2⟩
    unfold textWith textBy
    dsimp only
    rw [if_neg hs, Layout.chars_eq rfl hne]
    cases negative <;> simp <;> rfl

end Binary64

theorem toList_toString_int (n : Int) :
    (toString n).toList =
      (if decide (n < 0) then ['-'] else []) ++ Nat.toDigits 10 n.natAbs := by
  rw [Int.toString_eq_repr, Int.repr_eq_if]
  by_cases h : n < 0
  · have habs : (-n).toNat = n.natAbs := by omega
    rw [if_neg (by omega), decide_eq_true h, Nat.repr_eq_ofList_toDigits, habs]
    simp
  · have habs : n.toNat = n.natAbs := by omega
    rw [if_pos (by omega), decide_eq_false h, Nat.repr_eq_ofList_toDigits, habs]
    simp

end Gleaner
