import Gleaner.Number.Shortest
import Gleaner.Proofs.Number.Rounding

namespace Gleaner.Binary64

theorem le_divideToEven {m n d : Nat} (hd : 0 < d) (h : m * d ≤ n) : m ≤ divideToEven n d := by
  have hfloor : m ≤ n / d := (Nat.le_div_iff_mul_le hd).mpr h
  unfold divideToEven
  dsimp only
  split
  · exact hfloor
  · split
    · omega
    · split <;> omega

theorem divideToEven_eq_zero {n d : Nat} (h : 2 * n < d) : divideToEven n d = 0 := by
  have hmod : n % d = n := Nat.mod_eq_of_lt (by omega)
  unfold divideToEven
  dsimp only
  rw [hmod, if_pos h, Nat.div_eq_of_lt (by omega)]

-- Magnitudes beyond the range.
theorem roundMagnitude_eq_none {n d : Nat} (hd : 0 < d) (h : (2 : ℚ) ^ (1024 : Int) ≤ (n : ℚ) / d) :
    roundMagnitude n d = none := by
  have hr : (0 : ℚ) < (n : ℚ) / d := lt_of_lt_of_le (by positivity) h
  have hn : 0 < n := by
    by_contra hn
    rw [Nat.eq_zero_of_not_pos hn] at hr
    simp at hr
  have hlog : 1024 ≤ Int.log 2 ((n : ℚ) / d) :=
    (Int.zpow_le_iff_le_log (by norm_num) hr).mp (by exact_mod_cast h)
  obtain ⟨s, hs⟩ : ∃ s, s = roundingScale n d := ⟨_, rfl⟩
  have hs' := hs
  rw [roundingScale_eq hn hd] at hs'
  have hscale : 972 ≤ s := by omega
  have hlow : (4503599627370496 : Nat) * (scaleDown n d s).2 ≤ (scaleDown n d s).1 := by
    have hpos : (0 : ℚ) < (scaleDown n d s).2 := by exact_mod_cast scaleDown_pos hd s
    have hratio := ratio_scaleDown n d s
    unfold ratio at hratio
    have hself : (2 : ℚ) ^ (s + 52) ≤ (n : ℚ) / d := by
      have : s + 52 = Int.log 2 ((n : ℚ) / d) := by omega
      rw [this]
      exact_mod_cast Int.zpow_log_le_self (R := ℚ) (b := 2) (by norm_num) hr
    have : (4503599627370496 : ℚ) ≤ (scaleDown n d s).1 / (scaleDown n d s).2 := by
      rw [hratio, le_div_iff₀ (by positivity)]
      refine le_trans (le_of_eq ?_) hself
      rw [zpow_add₀ (by norm_num), mul_comm]
      norm_num
    rw [le_div_iff₀ hpos] at this
    exact_mod_cast this
  have hq := le_divideToEven (scaleDown_pos hd s) hlow
  by_cases hmax : divideToEven (scaleDown n d s).1 (scaleDown n d s).2 = 9007199254740992
  · unfold roundMagnitude
    rw [if_neg (by omega)]
    dsimp only
    rw [← hs, if_pos hmax]
    dsimp only
    rw [if_neg (by omega), if_pos (by omega)]
  · rw [roundMagnitude_eq (by omega) hs.symm rfl hmax, if_neg (by omega), if_pos (by omega)]

-- Magnitudes that round to zero.
theorem roundMagnitude_eq_zero {n d : Nat} (hn : 0 < n) (hd : 0 < d)
    (h : (n : ℚ) / d < 2 ^ (-1075 : Int)) : roundMagnitude n d = some (0, 0) := by
  have hhalf : (2 : ℚ) ^ (-1075 : Int) * 2 = 2 ^ (-1074 : Int) := by
    rw [← zpow_add_one₀ (by norm_num)]
    norm_num
  have hround : roundingScale n d = -1074 := by
    refine roundingScale_of_small hn hd (m := 1) ?_ (by omega)
    have : (0 : ℚ) < 2 ^ (-1075 : Int) := by positivity
    rw [Nat.cast_one]
    linarith
  have hdivide : divideToEven (scaleDown n d (-1074)).1 (scaleDown n d (-1074)).2 = 0 := by
    refine divideToEven_eq_zero ?_
    have hpos : (0 : ℚ) < (scaleDown n d (-1074)).2 := by exact_mod_cast scaleDown_pos hd (-1074)
    have hratio := ratio_scaleDown n d (-1074)
    unfold ratio at hratio
    have : 2 * ((scaleDown n d (-1074)).1 / (scaleDown n d (-1074)).2 : ℚ) < 1 := by
      rw [hratio, ← mul_div_assoc, div_lt_one (by positivity)]
      linarith
    rw [← mul_div_assoc, div_lt_one hpos] at this
    exact_mod_cast this
  rw [roundMagnitude_eq (by omega) hround hdivide (by omega), if_pos (by omega)]
  rfl

theorem ratio_scaleDecimal (n d : Nat) (e : Int) :
    ratio (scaleDecimal n d e) = (n : ℚ) / d * 10 ^ e := by
  cases e with
  | ofNat k =>
    simp only [scaleDecimal, ratio, Nat.pow_eq, Int.ofNat_eq_natCast, zpow_natCast]
    push_cast
    ring
  | negSucc k =>
    simp only [scaleDecimal, ratio, Nat.pow_eq, zpow_negSucc]
    push_cast
    rw [div_mul_eq_div_div, div_eq_mul_inv ((n : ℚ) / d)]

theorem scaleDecimal_pos {n d : Nat} (hd : 0 < d) (e : Int) : 0 < (scaleDecimal n d e).2 := by
  cases e with
  | ofNat k => exact hd
  | negSucc k => exact Nat.mul_pos hd (Nat.pow_pos (by omega))

-- Digits stand for at least, and for less than, the powers of ten their length in bits tells.
theorem pow_ten_le_of_log2 {digits : Nat} (h : digits ≠ 0) :
    10 ^ (3 * Nat.log2 digits / 10) ≤ digits := by
  calc 10 ^ (3 * Nat.log2 digits / 10) ≤ 2 ^ Nat.log2 digits := by
        have hpow : (10 ^ (3 * Nat.log2 digits / 10)) ^ 10 ≤ (2 ^ Nat.log2 digits) ^ 10 := by
          calc (10 ^ (3 * Nat.log2 digits / 10)) ^ 10
              = 10 ^ (3 * Nat.log2 digits / 10 * 10) := by rw [← pow_mul]
            _ ≤ 10 ^ (3 * Nat.log2 digits) := Nat.pow_le_pow_right (by omega) (by omega)
            _ = (10 ^ 3) ^ Nat.log2 digits := by rw [← pow_mul]
            _ ≤ (2 ^ 10) ^ Nat.log2 digits := Nat.pow_le_pow_left (by norm_num) _
            _ = (2 ^ Nat.log2 digits) ^ 10 := by rw [← pow_mul, ← pow_mul, Nat.mul_comm]
        exact (Nat.pow_le_pow_iff_left (by omega)).mp hpow
    _ ≤ digits := Nat.log2_self_le h

theorem lt_pow_ten_of_log2 (digits : Nat) : digits < 10 ^ (Nat.log2 digits / 3 + 1) := by
  calc digits < 2 ^ (Nat.log2 digits + 1) := Nat.lt_log2_self
    _ ≤ 2 ^ (3 * (Nat.log2 digits / 3 + 1)) := Nat.pow_le_pow_right (by omega) (by omega)
    _ = (2 ^ 3) ^ (Nat.log2 digits / 3 + 1) := by rw [← pow_mul]
    _ ≤ 10 ^ (Nat.log2 digits / 3 + 1) := Nat.pow_le_pow_left (by norm_num) _

theorem two_pow_le_ten_pow : 2 ^ 1024 ≤ 10 ^ 309 ∧ 2 ^ 1075 ≤ 10 ^ 324 := by decide +kernel

-- Reading a decimal rounds its exact value, however long it is and whatever its exponent.
theorem ofDecimal_eq (negative : Bool) {digits : Nat} (hd : digits ≠ 0) (exponent : Int) :
    ofDecimal negative digits exponent =
      ofQuotient negative (scaleDecimal digits 1 exponent).1
        (scaleDecimal digits 1 exponent).2 := by
  have hpos := scaleDecimal_pos (n := digits) Nat.one_pos exponent
  have hratio := ratio_scaleDecimal digits 1 exponent
  unfold ratio at hratio
  rw [Nat.cast_one, div_one] at hratio
  unfold ofDecimal
  rw [if_neg hd]
  split
  · rename_i hlarge
    have hbig : (2 : ℚ) ^ (1024 : Int) ≤
        (scaleDecimal digits 1 exponent).1 / (scaleDecimal digits 1 exponent).2 := by
      rw [hratio]
      calc (2 : ℚ) ^ (1024 : Int) ≤ 10 ^ (309 : Int) := by
            rw [zpow_ofNat, zpow_ofNat]
            exact_mod_cast two_pow_le_ten_pow.1
        _ ≤ 10 ^ (((3 * Nat.log2 digits / 10 : Nat) : Int) + exponent) :=
          zpow_le_zpow_right₀ (by norm_num) hlarge
        _ = 10 ^ (3 * Nat.log2 digits / 10) * 10 ^ exponent := by
          rw [zpow_add₀ (by norm_num), zpow_natCast]
        _ ≤ digits * 10 ^ exponent := by
          gcongr
          exact_mod_cast pow_ten_le_of_log2 hd
    rw [ofQuotient, roundMagnitude_eq_none hpos hbig]
  · split
    · rename_i hsmall
      have hn : 0 < (scaleDecimal digits 1 exponent).1 := by
        cases exponent with
        | ofNat k => exact Nat.mul_pos (by omega) (Nat.pow_pos (by omega))
        | negSucc k => exact Nat.pos_of_ne_zero hd
      have htiny : ((scaleDecimal digits 1 exponent).1 : ℚ) / (scaleDecimal digits 1 exponent).2 <
          2 ^ (-1075 : Int) := by
        rw [hratio]
        calc digits * (10 : ℚ) ^ exponent < 10 ^ (Nat.log2 digits / 3 + 1) * 10 ^ exponent := by
              gcongr
              exact_mod_cast lt_pow_ten_of_log2 digits
          _ = 10 ^ (((Nat.log2 digits / 3 + 1 : Nat) : Int) + exponent) := by
            rw [zpow_add₀ (by norm_num), zpow_natCast]
          _ ≤ 10 ^ (-324 : Int) := zpow_le_zpow_right₀ (by norm_num) hsmall
          _ ≤ 2 ^ (-1075 : Int) := by
            rw [zpow_neg, zpow_neg, zpow_ofNat, zpow_ofNat]
            exact inv_anti₀ (by positivity) (by exact_mod_cast two_pow_le_ten_pow.2)
      rw [ofQuotient, roundMagnitude_eq_zero hn hpos htiny]
    · cases exponent with
      | ofNat k => rfl
      | negSucc k =>
        simp only [scaleDecimal, Nat.one_mul]

end Gleaner.Binary64
