import Gleaner.Proofs.Number.Rounding

namespace Gleaner.Binary64

-- A number that is not above another one.
def AtMost (x y : Binary64) : Prop := x.compare? y = some .lt ∨ x.compare? y = some .eq

instance (x y : Binary64) : Decidable (x.AtMost y) := inferInstanceAs (Decidable (_ ∨ _))

-- What a finite number stands for.
def value : Binary64 → ℚ
  | .finite negative exponent fraction =>
    if negative then -ratio (quotient exponent fraction) else ratio (quotient exponent fraction)
  | _ => 0

-- The place of a magnitude among all of them.
def rank (exponent : Fin 2047) (fraction : Fin 4503599627370496) : Nat :=
  exponent.val * 4503599627370496 + fraction.val

theorem significand_lt (exponent : Fin 2047) (fraction : Fin 4503599627370496) :
    significand exponent fraction < 9007199254740992 := by
  have := fraction.isLt
  unfold significand
  split <;> omega

-- A greater exponent outweighs any fraction.
theorem ratio_quotient_lt {e e' : Fin 2047} (h : e.val < e'.val)
    (f f' : Fin 4503599627370496) : ratio (quotient e f) ≤ ratio (quotient e' f') := by
  rw [ratio_quotient, ratio_quotient]
  have hfirst : (significand e f : ℚ) * 2 ^ scale e ≤ 4503599627370496 * 2 ^ scale e' := by
    have hf := f.isLt
    by_cases he : e.val = 0
    · have hs : scale e ≤ scale e' := by
        unfold scale
        split <;> split <;> omega
      have hm : significand e f ≤ 4503599627370496 := by
        rw [significand, if_pos he]
        omega
      have hp : (2 : ℚ) ^ scale e ≤ 2 ^ scale e' := zpow_le_zpow_right₀ (by norm_num) hs
      exact mul_le_mul (by exact_mod_cast hm) hp (by positivity) (by positivity)
    · have hs : scale e + 1 ≤ scale e' := by
        unfold scale
        split <;> split <;> omega
      have hm := (significand_lt e f).le
      calc (significand e f : ℚ) * 2 ^ scale e ≤ 9007199254740992 * 2 ^ scale e := by
            gcongr
            exact_mod_cast hm
        _ = 4503599627370496 * 2 ^ (scale e + 1) := by
            rw [zpow_add_one₀ (by norm_num)]
            ring
        _ ≤ 4503599627370496 * 2 ^ scale e' := by
            gcongr
            norm_num
  refine hfirst.trans ?_
  have hm : 4503599627370496 ≤ significand e' f' := by
    rw [significand, if_neg (by omega)]
    omega
  gcongr
  exact_mod_cast hm

theorem ratio_quotient_le {e e' : Fin 2047} {f f' : Fin 4503599627370496}
    (h : rank e f ≤ rank e' f') : ratio (quotient e f) ≤ ratio (quotient e' f') := by
  have hf := f.isLt
  have hf' := f'.isLt
  unfold rank at h
  rcases Nat.lt_or_ge e.val e'.val with he | he
  · exact ratio_quotient_lt he f f'
  · have hsame : e = e' := Fin.ext (by omega)
    subst hsame
    have hm : significand e f ≤ significand e f' := by
      unfold significand
      split <;> omega
    rw [ratio_quotient, ratio_quotient]
    gcongr

theorem cast_crossed (negative : Bool) {p q : Nat × Nat} (hp : 0 < p.2) :
    (crossed negative p q : ℚ) = (if negative then -ratio p else ratio p) * (p.2 * q.2) := by
  have hne : (p.2 : ℚ) ≠ 0 := by positivity
  cases negative <;> simp [crossed, ratio] <;> field_simp

theorem crossed_le_iff {a b : Bool} {p q : Nat × Nat} (hp : 0 < p.2) (hq : 0 < q.2) :
    crossed a p q ≤ crossed b q p ↔
      (if a then -ratio p else ratio p) ≤ if b then -ratio q else ratio q := by
  have hpos : (0 : ℚ) < p.2 * q.2 := by positivity
  rw [← Int.cast_le (R := ℚ), cast_crossed a hp, cast_crossed b hq, mul_comm (q.2 : ℚ)]
  exact mul_le_mul_iff_left₀ hpos

-- Finite numbers are ordered by their values.
theorem atMost_iff {x y : Binary64} (hx : x.isFinite = true) (hy : y.isFinite = true) :
    x.AtMost y ↔ x.value ≤ y.value := by
  cases x with
  | finite sa ea fa =>
    cases y with
    | finite sb eb fb =>
      have hle := crossed_le_iff (a := sa) (b := sb) (quotient_pos ea fa) (quotient_pos eb fb)
      rw [value, value, ← hle, le_iff_lt_or_eq, AtMost, compare?, Option.some.injEq,
        Option.some.injEq]
      exact or_congr compare_lt_iff_lt compare_eq_iff_eq
    | infinite | nan => cases hy
  | infinite | nan => cases hx

theorem divideToEven_bounds (n d : Nat) :
    n / d ≤ divideToEven n d ∧ divideToEven n d ≤ n / d + 1 := by
  unfold divideToEven
  dsimp only
  repeat' split
  all_goals omega

theorem divideToEven_le_of_le {n m : Nat} (h : n ≤ m) (d : Nat) :
    divideToEven n d ≤ divideToEven m d := by
  have hquotient := Nat.div_le_div_right (c := d) h
  rcases Nat.lt_or_eq_of_le hquotient with hlt | heq
  · have := divideToEven_bounds n d
    have := divideToEven_bounds m d
    omega
  · have hn := Nat.div_add_mod n d
    have hm := Nat.div_add_mod m d
    rw [heq] at hn
    have hrest : n % d ≤ m % d := by omega
    unfold divideToEven
    rw [heq]
    dsimp only
    repeat' split
    all_goals omega

theorem ratio_le_iff {p q : Nat × Nat} (hp : 0 < p.2) (hq : 0 < q.2) :
    ratio p ≤ ratio q ↔ p.1 * q.2 ≤ q.1 * p.2 := by
  unfold ratio
  rw [div_le_div_iff₀ (by exact_mod_cast hp) (by exact_mod_cast hq)]
  norm_cast

-- Quotients are rounded to natural numbers in order.
theorem divideToEven_le {p q : Nat × Nat} (hp : 0 < p.2) (hq : 0 < q.2)
    (h : ratio p ≤ ratio q) : divideToEven p.1 p.2 ≤ divideToEven q.1 q.2 := by
  rw [← divideToEven_mul hq p.1 p.2, ← divideToEven_mul hp q.1 q.2, Nat.mul_comm q.2 p.2]
  exact divideToEven_le_of_le ((ratio_le_iff hp hq).mp h) _

-- The sides of a quotient when it is scaled for rounding.
def scaled (p : Nat × Nat) : Nat × Nat := scaleDown p.1 p.2 (roundingScale p.1 p.2)

def scaledRounded (p : Nat × Nat) : Nat := divideToEven (scaled p).1 (scaled p).2

section

variable {p : Nat × Nat} (hn : 0 < p.1) (hd : 0 < p.2)
include hn hd

theorem scaledRounded_le : scaledRounded p ≤ 9007199254740992 := by
  have hr : (0 : ℚ) < (p.1 : ℚ) / p.2 := by positivity
  have hscale := roundingScale_eq hn hd
  have hlog : (p.1 : ℚ) / p.2 < 2 ^ (roundingScale p.1 p.2 + 53) := by
    have h : Int.log 2 ((p.1 : ℚ) / p.2) < roundingScale p.1 p.2 + 53 := by omega
    exact_mod_cast (Int.lt_zpow_iff_log_lt (by norm_num) hr).mpr h
  have hle : ratio (scaled p) ≤ ratio (9007199254740992, 1) := by
    rw [scaled, ratio_scaleDown, div_le_iff₀ (by positivity)]
    refine hlog.le.trans_eq ?_
    rw [zpow_add₀ (by norm_num), mul_comm]
    norm_num [ratio]
  exact (divideToEven_le (scaleDown_pos hd _) Nat.one_pos hle).trans_eq (divideToEven_one _)

-- Only the least magnitudes have less than 53 bits.
theorem le_scaledRounded (hs : -1074 < roundingScale p.1 p.2) :
    4503599627370496 ≤ scaledRounded p := by
  have hr : (0 : ℚ) < (p.1 : ℚ) / p.2 := by positivity
  have hscale := roundingScale_eq hn hd
  have hlog : (2 : ℚ) ^ (roundingScale p.1 p.2 + 52) ≤ (p.1 : ℚ) / p.2 := by
    have h : roundingScale p.1 p.2 + 52 ≤ Int.log 2 ((p.1 : ℚ) / p.2) := by omega
    exact_mod_cast (Int.zpow_le_iff_le_log (by norm_num) hr).mpr h
  have hle : ratio (4503599627370496, 1) ≤ ratio (scaled p) := by
    rw [scaled, ratio_scaleDown, le_div_iff₀ (by positivity)]
    refine Eq.trans_le ?_ hlog
    rw [zpow_add₀ (by norm_num), mul_comm]
    norm_num [ratio]
  exact (divideToEven_one _).symm.trans_le
    (divideToEven_le Nat.one_pos (scaleDown_pos hd _) hle)

end

theorem le_roundingScale {p : Nat × Nat} (hn : 0 < p.1) (hd : 0 < p.2) :
    -1074 ≤ roundingScale p.1 p.2 := by
  rw [roundingScale_eq hn hd]
  exact le_max_right _ _

-- Where a quotient belongs among the magnitudes when it is rounded, also if that is beyond the
-- last one.
def place (p : Nat × Nat) : Nat :=
  if p.1 = 0 then 0
  else (roundingScale p.1 p.2 + 1074).toNat * 4503599627370496 + scaledRounded p

theorem place_le {p q : Nat × Nat} (hp : 0 < p.2) (hq : 0 < q.2) (h : ratio p ≤ ratio q) :
    place p ≤ place q := by
  rcases Nat.eq_zero_or_pos p.1 with hp₀ | hp₀
  · rw [place, if_pos hp₀]
    exact Nat.zero_le _
  · have hq₀ : 0 < q.1 := by
      have hcross := (ratio_le_iff hp hq).mp h
      exact Nat.pos_of_mul_pos_right ((Nat.mul_pos hp₀ hq).trans_le hcross)
    have hfirst := scaledRounded_le hp₀ hp
    have hleast := le_roundingScale hp₀ hp
    have hscale : roundingScale p.1 p.2 ≤ roundingScale q.1 q.2 := by
      have hlog : Int.log 2 ((p.1 : ℚ) / p.2) ≤ Int.log 2 ((q.1 : ℚ) / q.2) :=
        Int.log_mono_right (by positivity) h
      rw [roundingScale_eq hp₀ hp, roundingScale_eq hq₀ hq]
      omega
    rw [place, if_neg (by omega), place, if_neg (by omega)]
    rcases hscale.lt_or_eq with hlt | heq
    · have hlast := le_scaledRounded hq₀ hq (by omega)
      omega
    · have hrounded : scaledRounded p ≤ scaledRounded q := by
        refine divideToEven_le (scaleDown_pos hp _) (scaleDown_pos hq _) ?_
        rw [scaled, scaled, ratio_scaleDown, ratio_scaleDown, heq]
        exact div_le_div_of_nonneg_right h (by positivity)
      rw [heq]
      exact Nat.add_le_add_left hrounded _

-- A quotient is rounded to the magnitude of its place, if there is one.
theorem roundMagnitude_place {p : Nat × Nat} (hd : 0 < p.2) :
    match roundMagnitude p.1 p.2 with
    | some (exponent, fraction) => rank exponent fraction = place p
    | none => 2047 * 4503599627370496 ≤ place p := by
  by_cases hn : p.1 = 0
  · rw [place, if_pos hn, roundMagnitude, if_pos hn]
    rfl
  · have hpos := Nat.pos_of_ne_zero hn
    have hscale := le_roundingScale hpos hd
    have hhigh := scaledRounded_le hpos hd
    have hlow := le_scaledRounded hpos hd
    rw [place, if_neg hn]
    by_cases hq : scaledRounded p = 9007199254740992
    · -- The magnitude is rounded up to the next power of two.
      have hround : roundMagnitude p.1 p.2 = if 971 < roundingScale p.1 p.2 + 1 then none
          else some (Fin.ofNat _ (roundingScale p.1 p.2 + 1 + 1075).toNat, 0) := by
        unfold roundMagnitude
        rw [if_neg hn]
        dsimp only
        rw [← scaled, ← scaledRounded, if_pos hq]
        dsimp only
        rw [if_neg (by omega), Nat.sub_self]
        simp
      rw [hround, hq]
      split_ifs
      · dsimp only
        omega
      · simp only [rank, Fin.ofNat]
        omega
    · rw [roundMagnitude_eq hn rfl rfl hq, ← scaled, ← scaledRounded]
      split_ifs
      · simp only [rank, Fin.ofNat]
        omega
      · dsimp only
        omega
      · simp only [rank, Fin.ofNat]
        omega

-- Quotients are rounded in order.
theorem ofQuotient_atMost {p q : Nat × Nat} (hp : 0 < p.2) (hq : 0 < q.2)
    (h : ratio p ≤ ratio q) : AtMost (ofQuotient false p.1 p.2) (ofQuotient false q.1 q.2) := by
  have hplace := place_le hp hq h
  have ha := roundMagnitude_place hp
  have hb := roundMagnitude_place hq
  unfold ofQuotient
  rcases hra : roundMagnitude p.1 p.2 with _ | ⟨e, f⟩ <;> rw [hra] at ha <;>
    rcases hrb : roundMagnitude q.1 q.2 with _ | ⟨e', f'⟩ <;> rw [hrb] at hb <;>
    dsimp only at ha hb ⊢
  · exact .inr rfl
  · have := e'.isLt
    have := f'.isLt
    unfold rank at hb
    omega
  · exact .inl rfl
  · exact (atMost_iff rfl rfl).mpr (ratio_quotient_le (by omega))

theorem quotient_zero : (quotient 0 0).1 = 0 := by
  unfold quotient
  split <;> simp [significand]

theorem value_zero (negative : Bool) : (finite negative 0 0).value = 0 := by
  rw [value, ratio, quotient_zero, Nat.cast_zero, zero_div, neg_zero, ite_self]

theorem compareInt?_zero (negative : Bool) : (finite negative 0 0).compareInt? 0 = some .eq := by
  simp only [compareInt?, quotient_zero, Int.natCast_zero, Int.neg_zero, ite_self, Int.zero_mul]
  rfl

theorem scaledBy_zero (negative : Bool) (factor : Nat) :
    (finite negative 0 0).scaledBy factor = finite negative 0 0 := by
  change ofQuotient negative ((quotient 0 0).1 * factor) (quotient 0 0).2 = _
  rw [quotient_zero, Nat.zero_mul]
  rfl

theorem isNegative_ofQuotient (negative : Bool) (n d : Nat) :
    (ofQuotient negative n d).isNegative = negative := by
  unfold ofQuotient
  split <;> rfl

theorem isNegative_scaledBy (x : Binary64) (factor : Nat) :
    (x.scaledBy factor).isNegative = x.isNegative := by
  cases x with
  | finite negative exponent fraction => exact isNegative_ofQuotient _ _ _
  | infinite | nan => rfl

theorem compareInt?_of_isNegative {x : Binary64} (hx : x.isNegative = false) :
    x.compareInt? 0 ≠ some .lt := by
  cases x with
  | finite negative exponent fraction =>
    cases hx
    simp only [compareInt?, Bool.false_eq_true, if_false, Int.zero_mul, ne_eq, Option.some.injEq,
      compare_lt_iff_lt]
    omega
  | infinite negative =>
    cases hx
    decide
  | nan => decide

-- What has a sign and is not below zero is a zero.
theorem value_of_compareInt? {x : Binary64} (hx : x.isNegative = true)
    (h : x.compareInt? 0 ≠ some .lt) : x.isFinite = true ∧ x.value = 0 := by
  cases x with
  | finite negative exponent fraction =>
    cases hx
    simp only [compareInt?, if_true, Int.zero_mul, ne_eq, Option.some.injEq,
      compare_lt_iff_lt] at h
    have hn : (quotient exponent fraction).1 = 0 := by omega
    simp [value, ratio, hn, isFinite]
  | infinite negative =>
    cases hx
    exact absurd rfl h
  | nan => cases hx

-- Multiples of numbers that are not negative are ordered as these are.
theorem scaledBy_atMost {x y : Binary64} (hx : x.isNegative = false) (hy : y.isNegative = false)
    (h : x.AtMost y) (factor : Nat) : (x.scaledBy factor).AtMost (y.scaledBy factor) := by
  have hnan : ∀ z : Binary64, ¬ z.AtMost .nan := fun z hz => by
    cases z <;> rcases hz with hz | hz <;> cases hz
  cases x with
  | finite sa ea fa =>
    cases hx
    cases y with
    | finite sb eb fb =>
      cases hy
      refine ofQuotient_atMost (p := (_, _)) (q := (_, _)) (quotient_pos ea fa)
        (quotient_pos eb fb) ?_
      have hle : ratio (quotient ea fa) ≤ ratio (quotient eb fb) := (atMost_iff rfl rfl).mp h
      have hmul := mul_le_mul_of_nonneg_right hle (Nat.cast_nonneg (α := ℚ) factor)
      unfold ratio at hmul ⊢
      rw [div_mul_eq_mul_div, div_mul_eq_mul_div] at hmul
      exact_mod_cast hmul
    | infinite negative =>
      cases hy
      unfold scaledBy ofQuotient
      dsimp only
      split
      · exact .inl rfl
      · exact .inr rfl
    | nan => exact absurd h (hnan _)
  | infinite negative =>
    cases hx
    cases y with
    | finite sb eb fb => rcases h with h | h <;> cases h
    | infinite negative => exact h
    | nan => exact absurd h (hnan _)
  | nan => rcases h with h | h <;> cases h

-- A finite number is where another one of its value is.
theorem AtMost.of_value {x y z : Binary64} (h : x.AtMost y) (hx : x.isFinite = true)
    (hz : z.isFinite = true) (hvalue : z.value = x.value) : z.AtMost y := by
  by_cases hy : y.isFinite = true
  · rw [atMost_iff hz hy, hvalue]
    exact (atMost_iff hx hy).mp h
  · cases x with
    | finite =>
      cases z with
      | finite =>
        cases y with
        | finite => exact absurd rfl hy
        | infinite | nan => exact h
      | infinite | nan => cases hz
    | infinite | nan => cases hx

-- The difference of two numbers is a zero if they are equal, and otherwise rounded from the one of
-- their values.
theorem minus_cases {x y : Binary64} (hx : x.isFinite = true) (hy : y.isFinite = true) :
    (x.value = y.value ∧ ∃ negative, x.minus y = .finite negative 0 0) ∨
    (x.value < y.value ∧ ∃ p : Nat × Nat, 0 < p.2 ∧ x.minus y = ofQuotient true p.1 p.2) ∨
    (y.value < x.value ∧ ∃ p : Nat × Nat, 0 < p.2 ∧ ratio p = x.value - y.value ∧
      x.minus y = ofQuotient false p.1 p.2) := by
  cases x with
  | finite sa ea fa =>
    cases y with
    | finite sb eb fb =>
      have hp := quotient_pos ea fa
      have hq := quotient_pos eb fb
      have hD : (0 : ℚ) < (quotient ea fa).2 * (quotient eb fb).2 := by positivity
      have hx : (crossed sa (quotient ea fa) (quotient eb fb) : ℚ) =
          (finite sa ea fa).value * ((quotient ea fa).2 * (quotient eb fb).2) := cast_crossed sa hp
      have hy : (crossed sb (quotient eb fb) (quotient ea fa) : ℚ) =
          (finite sb eb fb).value * ((quotient ea fa).2 * (quotient eb fb).2) := by
        rw [mul_comm ((quotient ea fa).2 : ℚ)]
        exact cast_crossed sb hq
      rw [minus]
      generalize crossed sa (quotient ea fa) (quotient eb fb) = a at hx ⊢
      generalize crossed sb (quotient eb fb) (quotient ea fa) = b at hy ⊢
      rcases lt_trichotomy a b with hlt | rfl | hlt
      · have hcast : (a : ℚ) < b := by exact_mod_cast hlt
        rw [hx, hy, mul_lt_mul_iff_left₀ hD] at hcast
        rw [if_neg hlt.ne, decide_eq_true hlt]
        exact .inr (.inl ⟨hcast, (_, _), Nat.mul_pos hp hq, rfl⟩)
      · rw [if_pos rfl]
        exact .inl ⟨mul_right_cancel₀ hD.ne' (hx.symm.trans hy), _, rfl⟩
      · have hcast : (b : ℚ) < a := by exact_mod_cast hlt
        have hratio : ratio ((a - b).natAbs, (quotient ea fa).2 * (quotient eb fb).2) =
            (finite sa ea fa).value - (finite sb eb fb).value := by
          have habs : (((a - b).natAbs : Nat) : ℚ) = a - b := by
            rw [Nat.cast_natAbs, abs_of_nonneg (by omega)]
            push_cast
            rfl
          rw [ratio, habs, hx, hy, ← sub_mul]
          push_cast
          rw [mul_div_cancel_right₀ _ hD.ne']
        rw [hx, hy, mul_lt_mul_iff_left₀ hD] at hcast
        rw [if_neg hlt.ne', decide_eq_false (by omega)]
        exact .inr (.inr ⟨hcast, (_, _), Nat.mul_pos hp hq, hratio, rfl⟩)
    | infinite | nan => cases hy
  | infinite | nan => cases hx

end Gleaner.Binary64
