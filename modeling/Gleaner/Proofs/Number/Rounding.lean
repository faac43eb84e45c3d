import Gleaner.Number.Binary64
import Mathlib.Algebra.Order.Field.Power
import Mathlib.Algebra.Order.Floor.Semifield
import Mathlib.Data.Int.Log
import Mathlib.Data.Rat.Floor
import Mathlib.Tactic.FieldSimp
import Mathlib.Tactic.Linarith
import Mathlib.Tactic.Positivity
import Mathlib.Tactic.Ring

namespace Gleaner.Binary64

-- The value of a quotient of natural numbers.
def ratio (p : Nat × Nat) : ℚ := (p.1 : ℚ) / p.2

theorem scaleDown_pos {n d : Nat} (hd : 0 < d) (e : Int) : 0 < (scaleDown n d e).2 := by
  cases e with
  | ofNat k => exact Nat.mul_pos hd (Nat.pow_pos (by omega))
  | negSucc k => exact hd

theorem ratio_scaleDown (n d : Nat) (e : Int) :
    ratio (scaleDown n d e) = (n : ℚ) / d / 2 ^ e := by
  cases e with
  | ofNat k =>
    simp only [scaleDown, ratio, Nat.pow_eq, Int.ofNat_eq_natCast, zpow_natCast]
    push_cast
    rw [div_div]
  | negSucc k =>
    simp only [scaleDown, ratio, Nat.pow_eq, zpow_negSucc]
    push_cast
    rw [div_inv_eq_mul]
    ring

theorem ratio_eq_iff {p q : Nat × Nat} (hp : 0 < p.2) (hq : 0 < q.2) :
    ratio p = ratio q ↔ p.1 * q.2 = q.1 * p.2 := by
  have hp' : (p.2 : ℚ) ≠ 0 := by positivity
  have hq' : (q.2 : ℚ) ≠ 0 := by positivity
  unfold ratio
  rw [div_eq_div_iff hp' hq']
  norm_cast

theorem divideToEven_mul {k : Nat} (hk : 0 < k) (n d : Nat) :
    divideToEven (n * k) (d * k) = divideToEven n d := by
  have hlt : ∀ a b : Nat, a * k < b * k ↔ a < b := fun a b => Nat.mul_lt_mul_right hk
  unfold divideToEven
  simp only [Nat.mul_div_mul_right n d hk, Nat.mul_mod_mul_right, ← Nat.mul_assoc, hlt]

-- Rounding a quotient depends on its value only.
theorem divideToEven_congr {p q : Nat × Nat} (hp : 0 < p.2) (hq : 0 < q.2)
    (h : ratio p = ratio q) : divideToEven p.1 p.2 = divideToEven q.1 q.2 := by
  rw [ratio_eq_iff hp hq] at h
  rw [← divideToEven_mul hq p.1 p.2, ← divideToEven_mul hp q.1 q.2, h, Nat.mul_comm p.2 q.2]

theorem divideToEven_of_dvd {m d : Nat} (hd : 0 < d) : divideToEven (m * d) d = m := by
  unfold divideToEven
  rw [Nat.mul_div_cancel m hd, Nat.mul_mod_left]
  simp [hd]

theorem divideToEven_one (n : Nat) : divideToEven n 1 = n := by
  have h := divideToEven_of_dvd (m := n) Nat.one_pos
  rwa [Nat.mul_one] at h

-- The exponent of a quotient is found from the lengths of its sides.
theorem roundingScale_eq {n d : Nat} (hn : 0 < n) (hd : 0 < d) :
    roundingScale n d = max (Int.log 2 ((n : ℚ) / d) - 52) (-1074) := by
  have hn' : (0 : ℚ) < n := by positivity
  have hd' : (0 : ℚ) < d := by positivity
  have hr : (0 : ℚ) < (n : ℚ) / d := by positivity
  let g : Int := (Nat.log2 n : Int) - Nat.log2 d
  have hlow : (n : ℚ) / d < 2 ^ (g + 1) := by
    have h₁ : (n : ℚ) < 2 ^ (Nat.log2 n + 1) := by exact_mod_cast Nat.lt_log2_self
    have h₂ : (2 : ℚ) ^ Nat.log2 d ≤ d := by exact_mod_cast Nat.log2_self_le (by omega)
    rw [div_lt_iff₀ hd']
    calc (n : ℚ) < 2 ^ (Nat.log2 n + 1) := h₁
      _ = 2 ^ (g + 1) * 2 ^ Nat.log2 d := by
        rw [← zpow_natCast, ← zpow_natCast, ← zpow_add₀ (by norm_num)]
        congr 1
        simp only [g]
        push_cast
        ring
      _ ≤ 2 ^ (g + 1) * d := by gcongr
  have hhigh : (2 : ℚ) ^ (g - 1) ≤ (n : ℚ) / d := by
    have h₁ : (2 : ℚ) ^ Nat.log2 n ≤ n := by exact_mod_cast Nat.log2_self_le (by omega)
    have h₂ : (d : ℚ) ≤ 2 ^ (Nat.log2 d + 1) := by exact_mod_cast Nat.lt_log2_self.le
    rw [le_div_iff₀ hd']
    calc (2 : ℚ) ^ (g - 1) * d ≤ 2 ^ (g - 1) * 2 ^ (Nat.log2 d + 1) := by gcongr
      _ = 2 ^ Nat.log2 n := by
        rw [← zpow_natCast, ← zpow_natCast, ← zpow_add₀ (by norm_num)]
        congr 1
        simp only [g]
        push_cast
        ring
      _ ≤ n := h₁
  have hcompare : (scaleDown n d g).1 < (scaleDown n d g).2 ↔ (n : ℚ) / d < 2 ^ g := by
    have hpos : (0 : ℚ) < (scaleDown n d g).2 := by exact_mod_cast scaleDown_pos hd g
    have hratio := ratio_scaleDown n d g
    unfold ratio at hratio
    rw [← Nat.cast_lt (α := ℚ), ← div_lt_one hpos, hratio, div_lt_one (by positivity)]
  have hlog₁ : Int.log 2 ((n : ℚ) / d) < g + 1 :=
    (Int.lt_zpow_iff_log_lt (by norm_num) hr).mp (by exact_mod_cast hlow)
  have hlog₂ : g - 1 ≤ Int.log 2 ((n : ℚ) / d) :=
    (Int.zpow_le_iff_le_log (by norm_num) hr).mp (by exact_mod_cast hhigh)
  have hlog₃ : (n : ℚ) / d < 2 ^ g ↔ Int.log 2 ((n : ℚ) / d) < g := by
    exact_mod_cast Int.lt_zpow_iff_log_lt (by norm_num) hr (b := 2) (x := g)
  unfold roundingScale
  dsimp only
  change max (if (scaleDown n d g).1 < (scaleDown n d g).2 then g - 53 else g - 52) (-1074) = _
  by_cases h : (n : ℚ) / d < 2 ^ g
  · rw [if_pos (hcompare.mpr h)]
    have := hlog₃.mp h
    congr 1
    omega
  · rw [if_neg (fun hc => h (hcompare.mp hc))]
    have : ¬ Int.log 2 ((n : ℚ) / d) < g := fun hc => h (hlog₃.mpr hc)
    congr 1
    omega

-- Magnitudes of the same value are rounded alike.
theorem roundMagnitude_congr {p q : Nat × Nat} (hp : 0 < p.2) (hq : 0 < q.2)
    (h : ratio p = ratio q) : roundMagnitude p.1 p.2 = roundMagnitude q.1 q.2 := by
  have hcross := (ratio_eq_iff hp hq).mp h
  by_cases hp₀ : p.1 = 0
  · have hq₀ : q.1 = 0 := by
      rw [hp₀, Nat.zero_mul] at hcross
      rcases Nat.mul_eq_zero.mp hcross.symm with h | h
      · exact h
      · omega
    unfold roundMagnitude
    rw [if_pos hp₀, if_pos hq₀]
  · have hq₀ : q.1 ≠ 0 := by
      intro hq₀
      rw [hq₀, Nat.zero_mul] at hcross
      rcases Nat.mul_eq_zero.mp hcross with h | h <;> omega
    have hscale : roundingScale p.1 p.2 = roundingScale q.1 q.2 := by
      rw [roundingScale_eq (by omega) hp, roundingScale_eq (by omega) hq]
      unfold ratio at h
      rw [h]
    have hdivide : divideToEven (scaleDown p.1 p.2 (roundingScale q.1 q.2)).1
          (scaleDown p.1 p.2 (roundingScale q.1 q.2)).2 =
        divideToEven (scaleDown q.1 q.2 (roundingScale q.1 q.2)).1
          (scaleDown q.1 q.2 (roundingScale q.1 q.2)).2 := by
      refine divideToEven_congr (scaleDown_pos hp _) (scaleDown_pos hq _) ?_
      unfold ratio at h
      rw [ratio_scaleDown, ratio_scaleDown, h]
    unfold roundMagnitude
    rw [if_neg hp₀, if_neg hq₀]
    dsimp only
    rw [hscale, hdivide]

theorem quotient_pos (exponent : Fin 2047) (fraction : Fin 4503599627370496) :
    0 < (quotient exponent fraction).2 := by
  unfold quotient
  split
  · exact Nat.one_pos
  · exact Nat.pow_pos (by omega)

theorem ratio_quotient (exponent : Fin 2047) (fraction : Fin 4503599627370496) :
    ratio (quotient exponent fraction) =
      significand exponent fraction * 2 ^ scale exponent := by
  unfold quotient ratio
  split <;> rename_i n h
  · simp only [h, Nat.pow_eq, Int.ofNat_eq_natCast, zpow_natCast]
    push_cast
    rw [div_one]
  · simp only [h, Nat.pow_eq, zpow_negSucc]
    push_cast
    rw [div_eq_mul_inv]

-- A magnitude is normalized where the exponent is not the least one.
theorem scale_le (exponent : Fin 2047) : -1074 ≤ scale exponent ∧ scale exponent ≤ 971 := by
  have := exponent.isLt
  unfold scale
  split <;> omega

theorem roundingScale_of_normal {n d m : Nat} {s : Int} (hn : 0 < n) (hd : 0 < d)
    (h : (n : ℚ) / d = m * 2 ^ s) (hm : 4503599627370496 ≤ m) (hm' : m < 9007199254740992)
    (hs : -1074 ≤ s) : roundingScale n d = s := by
  have hr : (0 : ℚ) < (n : ℚ) / d := by positivity
  have hpow : ∀ k : Nat, (2 : ℚ) ^ (s + k) = (2 ^ k : Nat) * 2 ^ s := by
    intro k
    rw [zpow_add₀ (by norm_num), zpow_natCast, mul_comm]
    norm_cast
  have hlow : s + 52 ≤ Int.log 2 ((n : ℚ) / d) := by
    rw [← Int.zpow_le_iff_le_log (by norm_num) hr, h]
    have := hpow 52
    push_cast at this ⊢
    rw [this]
    gcongr
    exact_mod_cast hm
  have hhigh : Int.log 2 ((n : ℚ) / d) < s + 53 := by
    rw [← Int.lt_zpow_iff_log_lt (by norm_num) hr, h]
    have := hpow 53
    push_cast at this ⊢
    rw [this]
    gcongr
    exact_mod_cast hm'
  rw [roundingScale_eq hn hd]
  omega

theorem roundingScale_of_small {n d m : Nat} (hn : 0 < n) (hd : 0 < d)
    (h : (n : ℚ) / d ≤ m * 2 ^ (-1074 : Int)) (hm : m < 4503599627370496) :
    roundingScale n d = -1074 := by
  have hr : (0 : ℚ) < (n : ℚ) / d := by positivity
  have hhigh : Int.log 2 ((n : ℚ) / d) < -1022 := by
    rw [← Int.lt_zpow_iff_log_lt (by norm_num) hr]
    refine lt_of_le_of_lt h ?_
    have : (2 : ℚ) ^ (-1022 : Int) = 4503599627370496 * 2 ^ (-1074 : Int) := by
      rw [show (-1022 : Int) = 52 + -1074 by norm_num, zpow_add₀ (by norm_num)]
      norm_num
    rw [Nat.cast_ofNat, this]
    gcongr
    exact_mod_cast hm
  rw [roundingScale_eq hn hd]
  omega

theorem divideToEven_scaleDown {n d m : Nat} {s : Int} (hd : 0 < d)
    (h : (n : ℚ) / d = m * 2 ^ s) :
    divideToEven (scaleDown n d s).1 (scaleDown n d s).2 = m := by
  have hratio : ratio (scaleDown n d s) = ratio (m, 1) := by
    rw [ratio_scaleDown, h, mul_div_assoc, div_self (by positivity), mul_one]
    simp [ratio]
  rw [divideToEven_congr (scaleDown_pos hd s) Nat.one_pos hratio, divideToEven_one]

-- The fields of a rounded magnitude, from its significand and exponent.
theorem roundMagnitude_eq {n d q : Nat} {s : Int} (hn : n ≠ 0) (hs : roundingScale n d = s)
    (hq : divideToEven (scaleDown n d s).1 (scaleDown n d s).2 = q) (hmax : q ≠ 9007199254740992) :
    roundMagnitude n d =
      if q < 4503599627370496 then some (0, Fin.ofNat _ q)
      else if 971 < s then none
      else some (Fin.ofNat _ (s + 1075).toNat, Fin.ofNat _ (q - 4503599627370496)) := by
  subst hs
  subst hq
  unfold roundMagnitude
  rw [if_neg hn]
  dsimp only
  rw [if_neg hmax]

-- A magnitude is rounded to itself.
theorem roundMagnitude_quotient (exponent : Fin 2047) (fraction : Fin 4503599627370496) :
    roundMagnitude (quotient exponent fraction).1 (quotient exponent fraction).2 =
      some (exponent, fraction) := by
  have hd := quotient_pos exponent fraction
  have hratio := ratio_quotient exponent fraction
  unfold ratio at hratio
  have hf := fraction.isLt
  have he := exponent.isLt
  by_cases hzero : significand exponent fraction = 0
  · have hn : (quotient exponent fraction).1 = 0 := by
      unfold quotient
      rw [hzero]
      split <;> simp
    unfold significand at hzero
    unfold roundMagnitude
    rw [if_pos hn]
    split at hzero
    · rename_i h
      congr 1
      exact Prod.ext (Fin.ext h.symm) (Fin.ext hzero.symm)
    · omega
  · have hm : (0 : ℚ) < significand exponent fraction := by
      exact_mod_cast Nat.pos_of_ne_zero hzero
    have hn : 0 < (quotient exponent fraction).1 := by
      have hpos : (0 : ℚ) < (quotient exponent fraction).1 / (quotient exponent fraction).2 := by
        rw [hratio]
        positivity
      have hd' : (0 : ℚ) < (quotient exponent fraction).2 := by exact_mod_cast hd
      exact_mod_cast (div_pos_iff_of_pos_right hd').mp hpos
    have hdivide := divideToEven_scaleDown hd hratio
    have hscale := scale_le exponent
    by_cases h : exponent.val = 0
    · have hs : scale exponent = -1074 := by rw [scale, if_pos h]
      have hsig : significand exponent fraction = fraction.val := by rw [significand, if_pos h]
      have hround : roundingScale (quotient exponent fraction).1 (quotient exponent fraction).2 =
          scale exponent := by
        rw [hs]
        refine roundingScale_of_small hn hd (m := fraction.val) ?_ hf
        rw [hratio, hs, hsig]
      rw [roundMagnitude_eq (by omega) hround hdivide (by omega), if_pos (by omega), hsig]
      congr 1
      refine Prod.ext (Fin.ext h.symm) (Fin.ext ?_)
      simp only [Fin.ofNat, Nat.mod_eq_of_lt hf]
    · have hs : scale exponent = (exponent.val : Int) - 1075 := by rw [scale, if_neg h]
      have hsig : significand exponent fraction = fraction.val + 4503599627370496 := by
        rw [significand, if_neg h]
      have hround : roundingScale (quotient exponent fraction).1 (quotient exponent fraction).2 =
          scale exponent :=
        roundingScale_of_normal hn hd hratio (by omega) (by omega) hscale.1
      rw [roundMagnitude_eq (by omega) hround hdivide (by omega), if_neg (by omega),
        if_neg (by omega), hsig]
      congr 1
      refine Prod.ext (Fin.ext ?_) (Fin.ext ?_)
      · simp only [Fin.ofNat]
        omega
      · simp only [Fin.ofNat]
        omega

end Gleaner.Binary64
