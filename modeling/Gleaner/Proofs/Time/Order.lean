import Gleaner.Proofs.Time.Theorems

namespace Gleaner

open Text

namespace Date

theorem isLeap_iff (year : Nat) : isLeap year = true ↔ 4 ∣ year ∧ (100 ∣ year → 400 ∣ year) := by
  simp only [isLeap, Bool.and_eq_true, Bool.or_eq_true, decide_eq_true_eq, ne_eq]
  omega

-- Every year adds its own days.
theorem daysBeforeYear_succ {year : Nat} (hyear : 1 ≤ year) :
    daysBeforeYear (year + 1) = daysBeforeYear year + daysBeforeMonth year 13 := by
  obtain ⟨y, rfl⟩ : ∃ y, year = y + 1 := ⟨year - 1, by omega⟩
  have hleap := isLeap_iff (y + 1)
  have hless : y / 100 ≤ y / 4 := by omega
  rw [daysBeforeMonth_thirteen]
  unfold daysBeforeYear
  simp only [Nat.add_sub_cancel, Nat.succ_div, hleap]
  split_ifs <;> omega

theorem daysBeforeYear_mono {year later : Nat} (hyear : 1 ≤ year) (h : year ≤ later) :
    daysBeforeYear year ≤ daysBeforeYear later := by
  induction later, h using Nat.le_induction with
  | base => exact Nat.le_refl _
  | succ later hle ih =>
    rw [daysBeforeYear_succ (Nat.le_trans hyear hle)]
    omega

theorem daysBeforeMonth_mono (year : Nat) : Monotone (daysBeforeMonth year) := by
  refine monotone_nat_of_le_succ fun month => ?_
  cases month with
  | zero => exact Nat.le_refl _
  | succ month => exact Nat.le_add_right _ _

-- The day written as one number, year before month before day.
def number (d : Date) : Nat := d.year * 10000 + (d.month * 100 + d.day)

section

variable {d e : Date}

theorem ordinal_le (hd : d.isValid = true) :
    d.ordinal ≤ daysBeforeYear d.year + daysBeforeMonth d.year (d.month + 1) := by
  simp only [isValid, Bool.and_eq_true, decide_eq_true_eq] at hd
  rw [daysBeforeMonth_succ (by omega), ordinal]
  omega

-- A day that is written as a smaller number comes before.
theorem ordinal_lt_of_number (hd : d.isValid = true) (he : e.isValid = true)
    (h : d.number < e.number) : d.ordinal < e.ordinal := by
  have hlast := ordinal_le hd
  obtain ⟨hyear, hmonth, hday⟩ := lt_of_isValid hd
  obtain ⟨-, hmonth', hday'⟩ := lt_of_isValid he
  simp only [isValid, Bool.and_eq_true, decide_eq_true_eq] at hd he
  unfold number at h
  have hordinal : e.ordinal = daysBeforeYear e.year + daysBeforeMonth e.year e.month + e.day := rfl
  obtain hlt | ⟨hsame, hlt⟩ : d.year < e.year ∨ d.year = e.year ∧
      d.month * 100 + d.day < e.month * 100 + e.day := by omega
  · have hend := daysBeforeMonth_mono d.year (show d.month + 1 ≤ 13 by omega)
    have hnext := daysBeforeYear_succ (show 1 ≤ d.year by omega)
    have hlater := daysBeforeYear_mono (Nat.le_add_left 1 _) (Nat.succ_le_of_lt hlt)
    omega
  rw [← hsame] at hordinal
  obtain hlt | ⟨hmonths, hlt⟩ : d.month < e.month ∨ d.month = e.month ∧ d.day < e.day := by omega
  · have hlater := daysBeforeMonth_mono d.year (Nat.succ_le_of_lt hlt)
    dsimp only [Nat.succ_eq_add_one] at hlater
    omega
  · rw [← hmonths] at hordinal
    rw [ordinal]
    omega

theorem eq_of_number (hd : d.isValid = true) (he : e.isValid = true) (h : d.number = e.number) :
    d = e := by
  obtain ⟨-, hmonth, hday⟩ := lt_of_isValid hd
  obtain ⟨-, hmonth', hday'⟩ := lt_of_isValid he
  unfold number at h
  obtain ⟨year, month, day⟩ := d
  obtain ⟨year', month', day'⟩ := e
  dsimp only at *
  obtain rfl : year = year' := by omega
  obtain rfl : month = month' := by omega
  obtain rfl : day = day' := by omega
  rfl

-- Days come after each other as the numbers they are written as.
theorem number_lt_iff (hd : d.isValid = true) (he : e.isValid = true) :
    d.number < e.number ↔ d.ordinal < e.ordinal := by
  refine ⟨ordinal_lt_of_number hd he, fun h => ?_⟩
  rcases Nat.lt_trichotomy d.number e.number with hlt | heq | hgt
  · exact hlt
  · rw [eq_of_number hd he heq] at h
    exact absurd h (Nat.lt_irrefl _)
  · exact absurd h (Nat.lt_asymm (ordinal_lt_of_number he hd hgt))

end

end Date

-- Two texts of one length that stand in the order of two numbers.
structure Ranked (cs ds : List Char) (m n : Nat) : Prop where
  length : cs.length = ds.length
  lt : m < n → cs < ds
  eq : m = n → cs = ds

theorem append_lt {cs ds : List Char} (hlength : cs.length = ds.length) (h : cs < ds)
    (x y : List Char) : cs ++ x < ds ++ y := by
  induction cs generalizing ds with
  | nil =>
    cases ds with
    | nil => exact absurd h (List.lt_irrefl _)
    | cons d ds => cases hlength
  | cons c cs ih =>
    cases ds with
    | nil => cases hlength
    | cons d ds =>
      rw [List.cons_append, List.cons_append, List.cons_lt_cons_iff]
      rcases List.cons_lt_cons_iff.mp h with hc | ⟨rfl, hrest⟩
      · exact .inl hc
      · exact .inr ⟨rfl, ih (Nat.succ.inj hlength) hrest⟩

namespace Ranked

variable {cs ds : List Char} {m n : Nat}

-- A further part counts less than what stands before it.
theorem append (h : Ranked cs ds m n) {xs ys : List Char} {i j k : Nat} (hnext : Ranked xs ys i j)
    (hi : i < k) (hj : j < k) : Ranked (cs ++ xs) (ds ++ ys) (m * k + i) (n * k + j) := by
  have hstep : ∀ {a b x y : Nat}, a < b → x < k → a * k + x < b * k + y := fun {a b x y} hab hx => by
    have hmul := Nat.mul_le_mul_right k (Nat.succ_le_of_lt hab)
    rw [Nat.succ_mul] at hmul
    omega
  refine ⟨by rw [List.length_append, List.length_append, h.length, hnext.length], ?_, ?_⟩
  · intro hlt
    rcases Nat.lt_trichotomy m n with hmn | rfl | hnm
    · exact append_lt h.length (h.lt hmn) xs ys
    · rw [h.eq rfl]
      exact List.append_left_lt (hnext.lt (Nat.lt_of_add_lt_add_left hlt))
    · exact absurd hlt (Nat.lt_asymm (hstep hnm hj))
  · intro heq
    rcases Nat.lt_trichotomy m n with hmn | rfl | hnm
    · exact absurd heq (Nat.ne_of_lt (hstep hmn hi))
    · rw [h.eq rfl, hnext.eq (Nat.add_left_cancel heq)]
    · exact absurd heq (Nat.ne_of_gt (hstep hnm hj))

theorem append_left (h : Ranked cs ds m n) (front : List Char) :
    Ranked (front ++ cs) (front ++ ds) m n where
  length := by rw [List.length_append, List.length_append, h.length]
  lt hlt := List.append_left_lt (h.lt hlt)
  eq heq := by rw [h.eq heq]

theorem cons (c : Char) (h : Ranked cs ds m n) : Ranked (c :: cs) (c :: ds) m n :=
  h.append_left [c]

theorem append_right (h : Ranked cs ds m n) (tail : List Char) :
    Ranked (cs ++ tail) (ds ++ tail) m n where
  length := by rw [List.length_append, List.length_append, h.length]
  lt hlt := append_lt h.length (h.lt hlt) tail tail
  eq heq := by rw [h.eq heq]

theorem of_imp (h : Ranked cs ds m n) {i j : Nat} (hlt : i < j → m < n) (heq : i = j → m = n) :
    Ranked cs ds i j := ⟨h.length, h.lt ∘ hlt, h.eq ∘ heq⟩

-- The texts tell the order of the numbers.
theorem iff (h : Ranked cs ds m n) (hback : Ranked ds cs n m) :
    (cs < ds ↔ m < n) ∧ (cs = ds ↔ m = n) := by
  have hne : m ≠ n → cs ≠ ds := by
    rintro hmn rfl
    rcases Nat.lt_or_gt_of_ne hmn with hlt | hgt
    · exact List.lt_irrefl _ (h.lt hlt)
    · exact List.lt_irrefl _ (hback.lt hgt)
  refine ⟨⟨fun hlt => ?_, h.lt⟩, fun heq => by_contra fun hmn => hne hmn heq, h.eq⟩
  rcases Nat.lt_trichotomy m n with hmn | hmn | hnm
  · exact hmn
  · rw [h.eq hmn] at hlt
    exact absurd hlt (List.lt_irrefl _)
  · exact absurd (hback.lt hnm) (List.lt_asymm hlt)

theorem digits {m n : Nat} (hm : m < 10) (hn : n < 10) :
    Ranked [Nat.digitChar m] [Nat.digitChar n] m n := by
  refine ⟨rfl, fun hlt => ?_, fun heq => by rw [heq]⟩
  interval_cases n <;> interval_cases m <;> decide

theorem padded {w m n : Nat} (hw : 1 ≤ w) (hm : m < 10 ^ w) (hn : n < 10 ^ w) :
    Ranked (paddedChars w m) (paddedChars w n) m n := by
  induction w, hw using Nat.le_induction generalizing m n with
  | base =>
    rw [paddedChars_one hm, paddedChars_one hn]
    exact digits hm hn
  | succ w hw ih =>
    rw [Nat.pow_succ] at hm hn
    have hlast := (ih (m := m / 10) (n := n / 10) (by omega) (by omega)).append
      (digits (Nat.mod_lt m (by decide)) (Nat.mod_lt n (by decide)))
      (Nat.mod_lt m (by decide)) (Nat.mod_lt n (by decide))
    rw [Nat.div_add_mod', Nat.div_add_mod'] at hlast
    rw [paddedChars_succ hw, paddedChars_succ hw]
    exact hlast

end Ranked

-- Written days stand in the order of the days.
theorem Date.ranked {d e : Date} (hd : d.isValid = true) (he : e.isValid = true) :
    Ranked d.chars e.chars d.ordinal e.ordinal := by
  obtain ⟨hyear, hmonth, hday⟩ := lt_of_isValid hd
  obtain ⟨hyear', hmonth', hday'⟩ := lt_of_isValid he
  have hmonths := (Ranked.padded (by decide) hmonth hmonth').append
    ((Ranked.padded (by decide) hday hday').cons '-') (k := 100) (by omega) (by omega)
  have hyears := (Ranked.padded (by decide) hyear hyear').append (hmonths.cons '-') (k := 10000)
    (by omega) (by omega)
  refine hyears.of_imp (number_lt_iff hd he).mpr fun heq => ?_
  have hless := number_lt_iff hd he
  have hmore := number_lt_iff he hd
  change d.number = e.number
  omega

namespace DateTime

-- The time of an instant, cut to milliseconds.
def milliseconds (t : DateTime) : Int := t.instant / 1000

-- The time on the clock, cut to milliseconds.
def thousandthChars (t : DateTime) : List Char :=
  t.clockChars ++ '.' :: paddedChars 3 (t.microsecond / 1000)

def clockThousandths (t : DateTime) : Nat :=
  (t.hour * 3600 + (t.minute * 60 + t.second)) * 1000 + t.microsecond / 1000

section

variable {t u : DateTime}

theorem clockThousandths_lt (ht : t.IsShown) : t.clockThousandths < 86400000 := by
  obtain ⟨-, hhour, hminute, hsecond, hmicro⟩ := ht
  unfold clockThousandths
  omega

theorem thousandths_ranked (ht : t.IsShown) (hu : u.IsShown) :
    Ranked t.thousandthChars u.thousandthChars t.clockThousandths u.clockThousandths := by
  obtain ⟨-, hhour, hminute, hsecond, hmicro⟩ := ht
  obtain ⟨-, hhour', hminute', hsecond', hmicro'⟩ := hu
  have htwo : ∀ {m n : Nat}, m < 60 → n < 60 → Ranked (paddedChars 2 m) (paddedChars 2 n) m n :=
    fun hm hn => .padded (by decide) (by omega) (by omega)
  have hminutes : Ranked (paddedChars 2 t.minute ++ ':' :: paddedChars 2 t.second)
      (paddedChars 2 u.minute ++ ':' :: paddedChars 2 u.second)
      (t.minute * 60 + t.second) (u.minute * 60 + u.second) :=
    (htwo (by omega) (by omega)).append ((htwo (by omega) (by omega)).cons ':') (by omega)
      (by omega)
  have hclock : Ranked t.clockChars u.clockChars (t.hour * 3600 + (t.minute * 60 + t.second))
      (u.hour * 3600 + (u.minute * 60 + u.second)) :=
    (htwo (by omega) (by omega)).append (hminutes.cons ':') (by omega) (by omega)
  have hcut : Ranked (paddedChars 3 (t.microsecond / 1000)) (paddedChars 3 (u.microsecond / 1000))
      (t.microsecond / 1000) (u.microsecond / 1000) :=
    .padded (by decide) (by omega) (by omega)
  exact hclock.append (hcut.cons '.') (by omega) (by omega)

-- The milliseconds of a UTC moment, counted by days.
theorem milliseconds_eq (ht : t.IsShown) (hutc : t.offset = some 0) :
    1 ≤ t.date.ordinal ∧
    t.milliseconds = ((t.date.ordinal - 1) * 86400000 + t.clockThousandths : Nat) := by
  have hday : 1 ≤ t.date.ordinal := by
    have hdate := ht.date
    simp only [Date.isValid, Bool.and_eq_true, decide_eq_true_eq] at hdate
    unfold Date.ordinal
    omega
  refine ⟨hday, ?_⟩
  rw [milliseconds, instant, hutc]
  unfold clockMicroseconds microsecondsPerDay clockThousandths
  change ((_ : Nat) - (0 : Int)) / 1000 = _
  omega

-- Written UTC moments stand in the order of their milliseconds.
theorem ranked (ht : t.IsShown) (htutc : t.offset = some 0) (hu : u.IsShown)
    (huutc : u.offset = some 0) :
    Ranked (t.date.chars ++ 'T' :: t.thousandthChars) (u.date.chars ++ 'T' :: u.thousandthChars)
      t.milliseconds.toNat u.milliseconds.toNat := by
  obtain ⟨hday, hmillis⟩ := milliseconds_eq ht htutc
  obtain ⟨hday', hmillis'⟩ := milliseconds_eq hu huutc
  refine ((Date.ranked ht.date hu.date).append ((thousandths_ranked ht hu).cons 'T')
    (clockThousandths_lt ht) (clockThousandths_lt hu)).of_imp ?_ ?_ <;> omega

end

end DateTime

end Gleaner
