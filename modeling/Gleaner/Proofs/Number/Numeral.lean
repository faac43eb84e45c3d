import Gleaner.Number.Integer
import Gleaner.Number.Literal
import Gleaner.Proofs.Number.Decimal

namespace Gleaner

open Binary64

def AllDigits (cs : List Char) : Prop := ∀ c ∈ cs, c.isDigit = true

-- A series of characters ends where one of another kind stands, or at the end of the text.
def Ends (p : Char → Bool) (rest : List Char) : Prop := ∀ c more, rest = c :: more → p c = false

-- A number as it is written: digits, perhaps a point and more digits, and perhaps an exponent
-- with its sign.
structure Numeral where
  whole : List Char
  fraction : Option (List Char)
  exponent : Option (Bool × List Char)

namespace Numeral

def fractionChars (n : Numeral) : List Char :=
  match n.fraction with
  | none => []
  | some ds => '.' :: ds

def exponentChars (n : Numeral) : List Char :=
  match n.exponent with
  | none => []
  | some (negative, ds) => 'e' :: (if negative then '-' else '+') :: ds

def chars (n : Numeral) : List Char := n.whole ++ (n.fractionChars ++ n.exponentChars)

structure IsProper (n : Numeral) : Prop where
  whole : AllDigits n.whole
  whole_ne_nil : n.whole ≠ []
  fraction : ∀ ds, n.fraction = some ds → AllDigits ds
  exponent : ∀ negative ds, n.exponent = some (negative, ds) → AllDigits ds ∧ ds ≠ []

def digits (n : Numeral) : List Char := n.whole ++ n.fraction.getD []

def power (n : Numeral) : Int :=
  match n.exponent with
  | none => 0
  | some (negative, ds) =>
    if negative then -(Nat.ofDigitChars 10 ds 0 : Int) else (Nat.ofDigitChars 10 ds 0 : Int)

-- The places of the digits behind the point, counted in powers of ten.
def places (n : Numeral) : Int := n.power - (n.fraction.getD []).length

def value (n : Numeral) : ℚ := Nat.ofDigitChars 10 n.digits 0 * 10 ^ n.places

end Numeral

theorem isDigit_iff (c : Char) : c.isDigit = true ↔ '0' ≤ c ∧ c ≤ '9' := by
  simp [Char.isDigit, Char.le_def]

theorem AllDigits.append {cs ds : List Char} (hc : AllDigits cs) (hd : AllDigits ds) :
    AllDigits (cs ++ ds) := by
  intro c h
  rcases List.mem_append.mp h with h | h
  · exact hc c h
  · exact hd c h

theorem ends_nil (p : Char → Bool) : Ends p [] := by
  intro c more h
  cases h

theorem ends_cons {p : Char → Bool} {c : Char} {rest : List Char} (h : p c = false) :
    Ends p (c :: rest) := by
  intro d more hd
  cases hd
  exact h

theorem ends_dropWhile (keep : Char → Bool) (cs : List Char) : Ends keep (cs.dropWhile keep) := by
  intro c more h
  have hhead := List.head?_dropWhile_not keep cs
  rw [h] at hhead
  exact hhead

theorem Ends.mono {p q : Char → Bool} {rest : List Char} (h : Ends p rest)
    (hpq : ∀ c, q c = true → p c = true) : Ends q rest := by
  intro c more hc
  by_contra hq
  rw [Bool.not_eq_false] at hq
  have := h c more hc
  rw [hpq c hq] at this
  cases this

section

variable {p : Char → Bool} {cs rest : List Char}

theorem Ends.takeWhile_append (h : Ends p rest) (hcs : ∀ c ∈ cs, p c = true) :
    (cs ++ rest).takeWhile p = cs := by
  rw [List.takeWhile_append_of_pos hcs]
  cases rest with
  | nil => simp
  | cons c more => simp [h c more rfl]

theorem Ends.dropWhile_append (h : Ends p rest) (hcs : ∀ c ∈ cs, p c = true) :
    (cs ++ rest).dropWhile p = rest := by
  rw [List.dropWhile_append_of_pos hcs]
  cases rest with
  | nil => rfl
  | cons c more => simp [h c more rfl]

theorem Ends.span_append (h : Ends p rest) (hcs : ∀ c ∈ cs, p c = true) :
    (cs ++ rest).span p = (cs, rest) := by
  rw [List.span_eq_takeWhile_dropWhile, h.takeWhile_append hcs, h.dropWhile_append hcs]

end

theorem takeDigits_append {ds rest : List Char} (hd : AllDigits ds) (hr : Ends Char.isDigit rest) :
    takeDigits (ds ++ rest) = (ds.map (·.toNat - 48), rest) := by
  induction ds with
  | nil =>
    cases rest with
    | nil => rfl
    | cons c more =>
      have hc : ¬('0' ≤ c ∧ c ≤ '9') := by
        rw [← isDigit_iff, hr c more rfl]
        decide
      rw [List.nil_append, takeDigits, if_neg hc]
      rfl
  | cons c ds ih =>
    have hc := (isDigit_iff c).mp (hd c (List.mem_cons_self ..))
    rw [List.cons_append, takeDigits, if_pos hc, ih fun d h => hd d (List.mem_cons_of_mem _ h)]
    rfl

theorem ofDigits_map (ds : List Char) :
    Integer.ofDigits (ds.map (·.toNat - 48)) = Nat.ofDigitChars 10 ds 0 := by
  have hfold : ∀ acc, (ds.map (·.toNat - 48)).foldl (fun n d => n * 10 + d) acc =
      Nat.ofDigitChars 10 ds acc := by
    induction ds with
    | nil =>
      intro acc
      rw [Nat.ofDigitChars_nil]
      rfl
    | cons c ds ih =>
      intro acc
      rw [Nat.ofDigitChars_cons, ← ih, List.map_cons, List.foldl_cons, Nat.mul_comm]
      rfl
  exact hfold 0

namespace Numeral

theorem ends_exponentChars (n : Numeral) : Ends Char.isDigit n.exponentChars := by
  unfold exponentChars
  split
  · exact ends_nil _
  · exact ends_cons rfl

theorem ends_tail (n : Numeral) : Ends Char.isDigit (n.fractionChars ++ n.exponentChars) := by
  unfold fractionChars
  split
  · exact n.ends_exponentChars
  · exact ends_cons rfl

theorem sign_exponent (negative : Bool) (ds : List Char) :
    Integer.sign ((if negative then '-' else '+') :: ds) = (negative, ds) := by
  cases negative <;> rfl

theorem exponent?_chars (negative : Bool) {ds : List Char} (hd : AllDigits ds) (hne : ds ≠ []) :
    exponent? ((if negative then '-' else '+') :: ds) =
      some (if negative then -(Nat.ofDigitChars 10 ds 0 : Int) else Nat.ofDigitChars 10 ds 0) := by
  have htake := takeDigits_append hd (ends_nil _)
  rw [List.append_nil] at htake
  unfold exponent?
  rw [sign_exponent]
  dsimp only
  rw [htake, ← ofDigits_map]
  cases ds with
  | nil => exact absurd rfl hne
  | cons c ds => rfl

-- A numeral is taken apart into its three parts.
theorem literal?_chars {n : Numeral} (hn : n.IsProper) :
    literal? n.chars = some ⟨n.whole.map (·.toNat - 48), (n.fraction.getD []).map (·.toNat - 48),
      n.power⟩ := by
  have htake := takeDigits_append hn.whole n.ends_tail
  have hempty : (n.whole.map (·.toNat - 48)).isEmpty = false := by
    simpa using hn.whole_ne_nil
  obtain ⟨whole, fraction, exponent⟩ := n
  unfold literal?
  rw [chars, htake]
  dsimp only at hempty ⊢
  cases fraction with
  | none =>
    cases exponent with
    | none => simp [fractionChars, exponentChars, hempty, power]
    | some e =>
      obtain ⟨hd, hne⟩ := hn.exponent e.1 e.2 rfl
      simp [fractionChars, exponentChars, hempty, power, exponent?_chars e.1 hd hne]
  | some ds =>
    have hfraction := takeDigits_append (hn.fraction ds rfl)
      (ends_exponentChars ⟨whole, some ds, exponent⟩)
    cases exponent with
    | none =>
      simp only [exponentChars, List.append_nil] at hfraction
      simp [fractionChars, exponentChars, hempty, power, hfraction]
    | some e =>
      obtain ⟨hd, hne⟩ := hn.exponent e.1 e.2 rfl
      simp only [exponentChars] at hfraction
      simp [fractionChars, exponentChars, hempty, power, hfraction, exponent?_chars e.1 hd hne]

-- The number that a numeral is read as.
theorem toBinary64_chars {n : Numeral} (hn : n.IsProper) (negative : Bool) :
    (literal? n.chars).map (·.toBinary64 negative) =
      some (ofDecimal negative (Nat.ofDigitChars 10 n.digits 0) n.places) := by
  rw [literal?_chars hn, Option.map_some, Literal.toBinary64, ← List.map_append, ofDigits_map,
    List.length_map]
  rfl

end Numeral

end Gleaner

namespace Gleaner.Binary64

theorem allDigits_zeros (n : Nat) : AllDigits (zeros n) := by
  intro c h
  rw [List.eq_of_mem_replicate h]
  rfl

theorem allDigits_toDigits (n : Nat) : AllDigits (Nat.toDigits 10 n) :=
  fun _ h => Nat.isDigit_of_mem_toDigits (by decide) (by decide) h

theorem ofDigitChars_append_zeros (ds : List Char) (k : Nat) :
    Nat.ofDigitChars 10 (ds ++ zeros k) 0 = Nat.ofDigitChars 10 ds 0 * 10 ^ k := by
  rw [Nat.ofDigitChars_append, zeros, Nat.ofDigitChars_replicate_zero, Nat.mul_comm]

theorem ofDigitChars_zeros_append (ds : List Char) (k : Nat) :
    Nat.ofDigitChars 10 (zeros k ++ ds) 0 = Nat.ofDigitChars 10 ds 0 := by
  rw [Nat.ofDigitChars_append, zeros, Nat.ofDigitChars_replicate_zero, Nat.mul_zero]

-- The zeros that are dropped at the end.
theorem exists_zeros (ds : List Char) :
    ∃ k, ds = (ds.reverse.dropWhile (· = '0')).reverse ++ zeros k := by
  have hzeros : ∀ cs : List Char, (cs.takeWhile (· = '0')).reverse = zeros (cs.takeWhile (· = '0')).length := by
    intro cs
    refine List.eq_replicate_iff.mpr ⟨List.length_reverse, fun c h => ?_⟩
    simpa using List.all_eq_true.mp List.all_takeWhile c (List.mem_reverse.mp h)
  refine ⟨(ds.reverse.takeWhile (· = '0')).length, ?_⟩
  rw [← hzeros, ← List.reverse_append, List.takeWhile_append_dropWhile, List.reverse_reverse]

theorem dropTrailingZeros_eq {value : Nat} (h : value ≠ 0) :
    dropTrailingZeros (Nat.toDigits 10 value) ≠ [] ∧
      ∃ k, Nat.toDigits 10 value = dropTrailingZeros (Nat.toDigits 10 value) ++ zeros k := by
  obtain ⟨k, hk⟩ := exists_zeros (Nat.toDigits 10 value)
  have hne : ((Nat.toDigits 10 value).reverse.dropWhile (· = '0')).reverse ≠ [] := by
    intro hnil
    rw [hnil, List.nil_append] at hk
    have := Nat.ofDigitChars_ten_toDigits (n := value)
    rw [hk, ← List.nil_append (zeros k), ofDigitChars_append_zeros] at this
    simp at this
    omega
  have hdrop : dropTrailingZeros (Nat.toDigits 10 value) =
      ((Nat.toDigits 10 value).reverse.dropWhile (· = '0')).reverse := by
    unfold dropTrailingZeros
    split
    · rename_i hnil
      exact absurd hnil hne
    · rfl
  rw [hdrop]
  exact ⟨hne, k, hk⟩

-- The parts of a decimal as it is laid out.
def positionalNumeral (digits : List Char) : Int → Numeral
  | .ofNat n =>
    if n = 0 then ⟨['0'], some digits, none⟩
    else if digits.length ≤ n then ⟨digits ++ zeros (n - digits.length), some ['0'], none⟩
    else ⟨digits.take n, some (digits.drop n), none⟩
  | .negSucc n => ⟨['0'], some (zeros (n + 1) ++ digits), none⟩

def scientificNumeral (layout : Layout) (digits : List Char) (exponent : Int) : Numeral :=
  let shown := Nat.toDigits 10 exponent.natAbs
  ⟨digits.take 1, if digits.length ≤ 1 then none else some (digits.drop 1),
    some (exponent < 0, zeros (layout.exponentDigits - shown.length) ++ shown)⟩

section

variable {digits : List Char}

theorem positional_eq (point : Int) :
    positional digits point = (positionalNumeral digits point).chars := by
  cases point with
  | ofNat n =>
    by_cases hn : n = 0
    · simp [positional, positionalNumeral, hn, Numeral.chars, Numeral.fractionChars,
        Numeral.exponentChars]
    · by_cases hlen : digits.length ≤ n <;>
        simp [positional, positionalNumeral, hn, hlen, Numeral.chars, Numeral.fractionChars,
          Numeral.exponentChars]
  | negSucc n =>
    simp [positional, positionalNumeral, Numeral.chars, Numeral.fractionChars,
      Numeral.exponentChars]

theorem isProper_of_fraction {whole ds : List Char} (hw : AllDigits whole) (hne : whole ≠ [])
    (hd : AllDigits ds) : (⟨whole, some ds, none⟩ : Numeral).IsProper where
  whole := hw
  whole_ne_nil := hne
  fraction := by
    intro es h
    cases h
    exact hd
  exponent := by
    intro _ _ h
    cases h

theorem allDigits_zero : AllDigits ['0'] := allDigits_zeros 1

theorem positionalNumeral_isProper (hd : AllDigits digits) (hne : digits ≠ []) (point : Int) :
    (positionalNumeral digits point).IsProper := by
  unfold positionalNumeral
  split
  · split
    · exact isProper_of_fraction allDigits_zero (by simp) hd
    · split
      · exact isProper_of_fraction (hd.append (allDigits_zeros _)) (by simp [hne]) allDigits_zero
      · rename_i n hn _
        refine isProper_of_fraction (fun c h => hd c (List.mem_of_mem_take h)) ?_
          (fun c h => hd c (List.mem_of_mem_drop h))
        simp [hne, hn]
  · exact isProper_of_fraction allDigits_zero (by simp) ((allDigits_zeros _).append hd)

-- The value of digits with the point after the first `point` of them.
def valueAt (digits : List Char) (point : Int) : ℚ :=
  Nat.ofDigitChars 10 digits 0 * 10 ^ (point - digits.length)

theorem positionalNumeral_value (digits : List Char) (point : Int) :
    (positionalNumeral digits point).value = valueAt digits point := by
  have hzero : ∀ ds, Nat.ofDigitChars 10 ('0' :: ds) 0 = Nat.ofDigitChars 10 ds 0 :=
    fun ds => ofDigitChars_zeros_append ds 1
  unfold positionalNumeral
  split
  · rename_i n
    split
    · rename_i hn
      subst hn
      simp [Numeral.value, Numeral.digits, Numeral.places, Numeral.power, valueAt, hzero]
    · split
      · rename_i hn hlen
        have hdigits : (digits ++ zeros (n - digits.length)) ++ ['0'] =
            digits ++ zeros (n - digits.length + 1) := by
          simp [zeros, List.replicate_succ']
        have hplaces : (Int.ofNat n - digits.length : Int) =
            ((n - digits.length + 1 : Nat) : Int) + -1 := by
          simp only [Int.ofNat_eq_natCast]
          omega
        simp only [Numeral.value, Numeral.digits, Numeral.places, Numeral.power, valueAt,
          Option.getD_some, hdigits, ofDigitChars_append_zeros, hplaces]
        rw [zpow_add₀ (by norm_num), zpow_natCast]
        push_cast
        simp [mul_assoc]
      · rename_i hn hlen
        simp only [Numeral.value, Numeral.digits, Numeral.places, Numeral.power, valueAt,
          Option.getD_some, List.take_append_drop, List.length_drop]
        congr 2
        simp only [Int.ofNat_eq_natCast]
        omega
  · rename_i n
    simp only [Numeral.value, Numeral.digits, Numeral.places, Numeral.power, valueAt,
      Option.getD_some, List.cons_append, List.nil_append, hzero, ofDigitChars_zeros_append,
      List.length_append]
    congr 2
    simp only [zeros, List.length_replicate, Int.negSucc_eq]
    push_cast
    ring

theorem scientific_eq {layout : Layout} (hl : layout.pointed = false) (hne : digits ≠ [])
    (exponent : Int) :
    scientific layout digits exponent = (scientificNumeral layout digits exponent).chars := by
  cases digits with
  | nil => exact absurd rfl hne
  | cons c rest =>
    cases rest with
    | nil =>
      simp [scientific, scientificNumeral, Numeral.chars, Numeral.fractionChars,
        Numeral.exponentChars, hl]
    | cons d rest =>
      simp [scientific, scientificNumeral, Numeral.chars, Numeral.fractionChars,
        Numeral.exponentChars]

theorem scientificNumeral_isProper (layout : Layout) (hd : AllDigits digits) (hne : digits ≠ [])
    (exponent : Int) : (scientificNumeral layout digits exponent).IsProper where
  whole := fun c h => hd c (List.mem_of_mem_take h)
  whole_ne_nil := by simp [scientificNumeral, hne]
  fraction := by
    intro ds h
    simp only [scientificNumeral] at h
    split at h
    · cases h
    · cases h
      exact fun c h => hd c (List.mem_of_mem_drop h)
  exponent := by
    intro negative ds h
    cases h
    refine ⟨(allDigits_zeros _).append (allDigits_toDigits _), ?_⟩
    simp [Nat.toDigits_ne_nil]

theorem scientificNumeral_value (layout : Layout) (hne : digits ≠ []) (exponent : Int) :
    (scientificNumeral layout digits exponent).value = valueAt digits (exponent + 1) := by
  have hpower : (scientificNumeral layout digits exponent).power = exponent := by
    simp only [scientificNumeral, Numeral.power, ofDigitChars_zeros_append,
      Nat.ofDigitChars_ten_toDigits, decide_eq_true_eq]
    split <;> omega
  have hdigits : (scientificNumeral layout digits exponent).digits = digits := by
    simp only [scientificNumeral, Numeral.digits]
    split
    · rename_i h
      simp [List.take_of_length_le h]
    · exact List.take_append_drop 1 digits
  have hfraction : ((scientificNumeral layout digits exponent).fraction.getD []).length =
      digits.length - 1 := by
    simp only [scientificNumeral]
    split
    · rename_i h
      simp only [Option.getD_none, List.length_nil]
      omega
    · simp
  have hlen : 0 < digits.length := List.length_pos_iff.mpr hne
  unfold Numeral.value Numeral.places valueAt
  rw [hpower, hdigits, hfraction]
  congr 2
  omega

end

end Gleaner.Binary64

namespace Gleaner.Integer

theorem digits?_of_allDigits {ds : List Char} (hd : AllDigits ds) {afterDigit : Bool}
    (hfirst : ds = [] → afterDigit = true) (acc : List Nat) :
    digits? ds afterDigit acc = some (acc.reverse ++ ds.map (·.toNat - 48)) := by
  induction ds generalizing afterDigit acc with
  | nil => rw [digits?, if_pos (hfirst rfl), List.map_nil, List.append_nil]
  | cons c ds ih =>
    have hc := hd c (List.mem_cons_self ..)
    have hvalue : Text.decimalValue? c = some (c.toNat - 48) := by
      rw [Text.decimalValue?, if_pos ((isDigit_iff c).mp hc)]
    have hline : c ≠ '_' := by
      rintro rfl
      cases hc
    simp only [digits?, if_neg hline, hvalue]
    rw [ih (fun d h => hd d (List.mem_cons_of_mem _ h)) (fun _ => rfl), List.reverse_cons,
      List.append_assoc]
    rfl

theorem isBlank_digit {c : Char} (h : c.isDigit = true) : Text.isBlank c = false := by
  have hlow : 48 ≤ c.toNat := (Char.isDigit_iff_toNat.mp h).1
  have hhigh : c.toNat ≤ 57 := (Char.isDigit_iff_toNat.mp h).2
  simp only [Text.isBlank, Bool.or_eq_false_iff, Bool.and_eq_false_iff, decide_eq_false_iff_not,
    beq_eq_false_iff_ne]
  omega

theorem isSpace_digit {c : Char} (h : c.isDigit = true) : Text.isSpace c = false := by
  rw [Text.isSpace, isBlank_digit h, Bool.false_and]

theorem trimChars_digits {ds : List Char} (hd : AllDigits ds) {drop : Char → Bool}
    (hdrop : ∀ {c : Char}, c.isDigit = true → drop c = false) : Text.trimChars drop ds = ds := by
  have hkeep : ∀ cs : List Char, AllDigits cs → cs.dropWhile drop = cs := by
    intro cs hcs
    cases cs with
    | nil => rfl
    | cons c cs =>
      exact List.dropWhile_cons_of_neg (by simp [hdrop (hcs c (List.mem_cons_self ..))])
  rw [Text.trimChars, hkeep ds hd, hkeep _ fun c h => hd c (List.mem_reverse.mp h),
    List.reverse_reverse]

theorem sign_digits {ds : List Char} (hd : AllDigits ds) : sign ds = (false, ds) := by
  unfold sign
  split
  · cases hd _ (List.mem_cons_self ..)
  · cases hd _ (List.mem_cons_self ..)
  · rfl

-- A number that does not have too many digits is read back as it is written.
theorem read_toDigits {n : Nat} (h : n < 10 ^ maximumDigits) :
    read (String.ofList (Nat.toDigits 10 n)) = .ok (n : Int) := by
  have hd := Binary64.allDigits_toDigits n
  have hlength : (Nat.toDigits 10 n).length ≤ maximumDigits :=
    (Nat.length_toDigits_le_iff (by decide) (by decide)).mpr h
  have hdigits : digits? (Nat.toDigits 10 n) false [] =
      some ((Nat.toDigits 10 n).map (·.toNat - 48)) :=
    digits?_of_allDigits hd (fun hnil => absurd hnil Nat.toDigits_ne_nil) []
  have hvalue : ofDigits ((Nat.toDigits 10 n).map (·.toNat - 48)) = n := by
    rw [ofDigits_map, Nat.ofDigitChars_toDigits (by decide) (by decide)]
  simp only [read, String.toList_ofList, trimChars_digits hd isBlank_digit, sign_digits hd, hdigits,
    List.length_map, if_neg (Nat.not_lt.mpr hlength), hvalue]
  rfl

end Gleaner.Integer
