import Gleaner.Proofs.Number.Numeral

namespace Gleaner.Binary64

theorem scaleDecimal_one_pos (digits : Nat) (places : Int) :
    0 < (scaleDecimal digits 1 places).2 := scaleDecimal_pos Nat.one_pos places

section

variable {exponent : Fin 2047} {fraction : Fin 4503599627370496}

-- Whatever stands on a grid reads back.
theorem readsBack_onGrid {places : Int} {value : Nat}
    (h : onGrid exponent fraction places = some value) :
    readsBack exponent fraction value places = true := by
  unfold onGrid at h
  dsimp only at h
  split at h
  · rename_i hlow hhigh
    split at h
    · cases h
      exact hlow
    · cases h
      exact hhigh
  · rename_i hlow _
    cases h
    exact hlow
  · rename_i _ hhigh
    cases h
    exact hhigh
  · cases h

theorem readsBack_iff {digits : Nat} {places : Int} :
    readsBack exponent fraction digits places = true ↔
      roundMagnitude (scaleDecimal digits 1 (-places)).1 (scaleDecimal digits 1 (-places)).2 =
        some (exponent, fraction) := by
  unfold readsBack
  exact beq_iff_eq

theorem readsBack_of_value {digits : Nat} {places : Int}
    (h : digits * (10 : ℚ) ^ (-places) = significand exponent fraction * 2 ^ scale exponent) :
    readsBack exponent fraction digits places = true := by
  rw [readsBack_iff, ← roundMagnitude_quotient exponent fraction]
  refine roundMagnitude_congr (scaleDecimal_one_pos _ _) (quotient_pos _ _) ?_
  rw [ratio_scaleDecimal, ratio_quotient, ← h]
  simp

theorem readsBack_exactDigits :
    readsBack exponent fraction (exactDigits exponent fraction).1
      (exactDigits exponent fraction).2 = true := by
  refine readsBack_of_value ?_
  unfold exactDigits
  split
  · rename_i n h
    simp [h]
  · rename_i n h
    have hten : (10 : ℚ) ^ (n + 1) = 5 ^ (n + 1) * 2 ^ (n + 1) := by
      rw [← mul_pow]
      norm_num
    simp only [h, zpow_neg, zpow_negSucc, zpow_natCast, hten, Nat.pow_eq]
    push_cast
    field_simp

theorem readsBack_shortestDigits (exponent : Fin 2047) (fraction : Fin 4503599627370496) :
    readsBack exponent fraction (shortestDigits exponent fraction).1
      (shortestDigits exponent fraction).2 = true := by
  unfold shortestDigits
  dsimp only
  generalize hfound : List.findSome? _ (List.range 17) = found
  cases found with
  | none => exact readsBack_exactDigits
  | some p =>
    obtain ⟨i, -, hi⟩ := List.exists_of_findSome?_eq_some hfound
    obtain ⟨value, hvalue, rfl⟩ := Option.map_eq_some_iff.mp hi
    exact readsBack_onGrid hvalue

-- Digits that read back are not zero, unless the magnitude is.
theorem ne_zero_of_readsBack {digits : Nat} {places : Int}
    (hs : significand exponent fraction ≠ 0)
    (h : readsBack exponent fraction digits places = true) : digits ≠ 0 := by
  rintro rfl
  have hzero : (scaleDecimal 0 1 (-places)).1 = 0 := by
    cases -places with
    | ofNat n => exact Nat.zero_mul _
    | negSucc n => rfl
  rw [readsBack_iff, roundMagnitude, if_pos hzero] at h
  cases h
  exact hs rfl

end

-- The numeral for the decimal `value * 10 ^ -places`.
def Layout.numeral (layout : Layout) (value : Nat) (places : Int) : Numeral :=
  let point : Int := (Nat.toDigits 10 value).length - places
  let digits := dropTrailingZeros (Nat.toDigits 10 value)
  if layout.lowest ≤ point - 1 ∧ point - 1 < layout.highest then positionalNumeral digits point
  else scientificNumeral layout digits (point - 1)

section

variable {layout : Layout} {value : Nat}

theorem allDigits_dropTrailingZeros (h : value ≠ 0) :
    AllDigits (dropTrailingZeros (Nat.toDigits 10 value)) := by
  obtain ⟨-, k, hk⟩ := dropTrailingZeros_eq h
  have hall := allDigits_toDigits value
  rw [hk] at hall
  exact fun c hc => hall c (List.mem_append_left _ hc)

theorem Layout.chars_eq (hl : layout.pointed = false) (h : value ≠ 0) (places : Int) :
    layout.chars value places = (layout.numeral value places).chars := by
  unfold Layout.chars Layout.numeral
  dsimp only
  split
  · exact positional_eq _
  · exact scientific_eq hl (dropTrailingZeros_eq h).1 _

theorem Layout.numeral_isProper (h : value ≠ 0) (places : Int) :
    (layout.numeral value places).IsProper := by
  have hd := allDigits_dropTrailingZeros h
  have hne := (dropTrailingZeros_eq h).1
  unfold Layout.numeral
  dsimp only
  split
  · exact positionalNumeral_isProper hd hne _
  · exact scientificNumeral_isProper _ hd hne _

theorem Layout.numeral_value (h : value ≠ 0) (places : Int) :
    (layout.numeral value places).value = value * 10 ^ (-places) := by
  obtain ⟨hne, k, hk⟩ := dropTrailingZeros_eq h
  have hvalueAt : valueAt (dropTrailingZeros (Nat.toDigits 10 value))
      ((Nat.toDigits 10 value).length - places) = value * 10 ^ (-places) := by
    have hvalue : Nat.ofDigitChars 10 (dropTrailingZeros (Nat.toDigits 10 value)) 0 * 10 ^ k =
        value := by
      rw [← ofDigitChars_append_zeros, ← hk, Nat.ofDigitChars_ten_toDigits]
    have hplaces : ((Nat.toDigits 10 value).length : Int) - places -
        (dropTrailingZeros (Nat.toDigits 10 value)).length = k + -places := by
      have := congrArg List.length hk
      simp only [List.length_append, zeros, List.length_replicate] at this
      omega
    unfold valueAt
    rw [hplaces, zpow_add₀ (by norm_num), zpow_natCast, ← mul_assoc]
    congr 1
    exact_mod_cast hvalue
  unfold Layout.numeral
  dsimp only
  split
  · rw [positionalNumeral_value, hvalueAt]
  · rw [scientificNumeral_value _ hne, Int.sub_add_cancel, hvalueAt]

-- A laid out decimal shows that it is not written as an integer.
theorem Layout.numeral_not_plain (value : Nat) (places : Int) :
    (layout.numeral value places).fraction ≠ none ∨
      (layout.numeral value places).exponent ≠ none := by
  unfold Layout.numeral
  dsimp only
  split
  · refine .inl ?_
    unfold positionalNumeral
    split
    · split
      · simp
      · split <;> simp
    · simp
  · exact .inr (by simp [scientificNumeral])

end

-- What digits with the value of a decimal are read as.
theorem ofDecimal_of_readsBack {exponent : Fin 2047} {fraction : Fin 4503599627370496}
    {digits value : Nat} {power places : Int} (negative : Bool) (hv : value ≠ 0)
    (hvalue : digits * (10 : ℚ) ^ power = value * 10 ^ (-places))
    (h : readsBack exponent fraction value places = true) :
    ofDecimal negative digits power = .finite negative exponent fraction := by
  have hd : digits ≠ 0 := by
    rintro rfl
    have : (0 : ℚ) < value * 10 ^ (-places) := by
      have : (0 : ℚ) < value := by exact_mod_cast Nat.pos_of_ne_zero hv
      positivity
    rw [← hvalue] at this
    simp at this
  have hround : roundMagnitude (scaleDecimal digits 1 power).1 (scaleDecimal digits 1 power).2 =
      some (exponent, fraction) := by
    rw [← readsBack_iff.mp h]
    refine roundMagnitude_congr (scaleDecimal_one_pos _ _) (scaleDecimal_one_pos _ _) ?_
    rw [ratio_scaleDecimal, ratio_scaleDecimal]
    simpa using hvalue
  rw [ofDecimal_eq negative hd, ofQuotient, hround]

-- The numeral that the text of a number shows behind its sign.
def shortestNumeral (exponent : Fin 2047) (fraction : Fin 4503599627370496) : Numeral :=
  plainLayout.numeral (shortestDigits exponent fraction).1 (shortestDigits exponent fraction).2

-- The text of a number reads back as that number.
theorem shortestNumeral_spec {exponent : Fin 2047} {fraction : Fin 4503599627370496}
    (hs : significand exponent fraction ≠ 0) (negative : Bool) :
    (shortestNumeral exponent fraction).IsProper ∧
      ofDecimal negative (Nat.ofDigitChars 10 (shortestNumeral exponent fraction).digits 0)
          (shortestNumeral exponent fraction).places = .finite negative exponent fraction := by
  have hback := readsBack_shortestDigits exponent fraction
  have hne := ne_zero_of_readsBack hs hback
  refine ⟨Layout.numeral_isProper hne _, ?_⟩
  exact ofDecimal_of_readsBack negative hne (Layout.numeral_value hne _) hback

theorem text_eq {exponent : Fin 2047} {fraction : Fin 4503599627370496}
    (hs : significand exponent fraction ≠ 0) (negative : Bool) :
    (Binary64.finite negative exponent fraction).text =
      String.ofList (if negative then '-' :: (shortestNumeral exponent fraction).chars
        else (shortestNumeral exponent fraction).chars) := by
  have hne := ne_zero_of_readsBack hs (readsBack_shortestDigits exponent fraction)
  unfold text textWith textBy
  dsimp only
  rw [if_neg hs, Layout.chars_eq rfl hne]
  rfl

end Gleaner.Binary64
