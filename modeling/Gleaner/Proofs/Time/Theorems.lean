import Mathlib.Data.List.Basic
import Mathlib.Tactic.IntervalCases
import Gleaner.Json.Dates

namespace Gleaner

open Text

namespace Date

theorem daysBeforeMonth_succ {month : Nat} (hm : 1 ≤ month) (year : Nat) :
    daysBeforeMonth year (month + 1) = daysBeforeMonth year month + daysInMonth year month := by
  cases month with
  | zero => omega
  | succ month => rfl

-- The days of a whole year.
theorem daysBeforeMonth_thirteen (year : Nat) :
    daysBeforeMonth year 13 = if isLeap year then 366 else 365 := by
  simp only [daysBeforeMonth, daysInMonth]
  cases isLeap year <;> decide

-- The days of a year are told apart by month and day.
theorem monthAndDay_spec (year fuel : Nat) : ∀ (month left : Nat), month + fuel = 12 →
    1 ≤ month → daysBeforeMonth year month + left < daysBeforeMonth year 13 →
    let found := monthAndDay year fuel month left
    1 ≤ found.1 ∧ found.1 ≤ 12 ∧ 1 ≤ found.2 ∧ found.2 ≤ daysInMonth year found.1 ∧
      daysBeforeMonth year found.1 + found.2 = daysBeforeMonth year month + left + 1 := by
  induction fuel with
  | zero =>
    intro month left hfuel hmonth hleft
    obtain rfl : month = 12 := by omega
    have hlast : daysBeforeMonth year 13 = daysBeforeMonth year 12 + daysInMonth year 12 := rfl
    dsimp only [monthAndDay]
    omega
  | succ fuel ih =>
    intro month left hfuel hmonth hleft
    have hnext := daysBeforeMonth_succ hmonth year
    dsimp only [monthAndDay]
    split
    · dsimp only
      omega
    · obtain ⟨h1, h2, h3, h4, h5⟩ := ih (month + 1)
        (left - daysInMonth year month) (by omega) (by omega) (by omega)
      exact ⟨h1, h2, h3, h4, by omega⟩

-- The years before some year, counted in cycles of 400, 100, 4 and 1 years.
theorem daysBeforeYear_cycles {a b c d : Nat} (hb : b ≤ 3) (hc : c ≤ 24) (hd : d ≤ 3) :
    daysBeforeYear (a * 400 + b * 100 + c * 4 + d + 1) =
      a * 146097 + b * 36524 + c * 1461 + d * 365 := by
  unfold daysBeforeYear
  dsimp only
  omega

-- A year that ends a cycle of 4 is a leap year unless it ends one of 100 and none of 400.
theorem isLeap_cycles {a b c d : Nat} (hb : b ≤ 3) (hc : c ≤ 24) (hd : d ≤ 3) :
    isLeap (a * 400 + b * 100 + c * 4 + d + 1) = (d == 3 && (c != 24 || b == 3)) := by
  rw [Bool.eq_iff_iff]
  simp only [isLeap, Bool.and_eq_true, Bool.or_eq_true, decide_eq_true_eq, beq_iff_eq,
    bne_iff_ne, ne_eq]
  omega

-- The cycles that are taken off a day number, and the day of the year that is left.
theorem ofOrdinal_cycles (n : Nat) : ∃ a b c d left, b ≤ 3 ∧ c ≤ 24 ∧ d ≤ 3 ∧
    n - 1 = a * 146097 + b * 36524 + c * 1461 + d * 365 + left ∧
    (left < 365 ∨ (left = 365 ∧ d = 3 ∧ (c ≠ 24 ∨ b = 3))) ∧
    ∃ year, year = a * 400 + b * 100 + c * 4 + d + 1 ∧
      ofOrdinal n = ⟨year, (monthAndDay year 11 1 left).1, (monthAndDay year 11 1 left).2⟩ := by
  obtain ⟨r, hr⟩ : ∃ r, (n - 1) % 146097 = r := ⟨_, rfl⟩
  obtain ⟨b, hb⟩ : ∃ b, min (r / 36524) 3 = b := ⟨_, rfl⟩
  obtain ⟨s, hs⟩ : ∃ s, r - b * 36524 = s := ⟨_, rfl⟩
  obtain ⟨t, ht⟩ : ∃ t, s % 1461 = t := ⟨_, rfl⟩
  obtain ⟨d, hd⟩ : ∃ d, min (t / 365) 3 = d := ⟨_, rfl⟩
  obtain ⟨left, hleft⟩ : ∃ left, t - d * 365 = left := ⟨_, rfl⟩
  refine ⟨(n - 1) / 146097, b, s / 1461, d, left, by omega, by omega, by omega, by omega,
    by omega, _, rfl, ?_⟩
  subst hr hb hs ht hd hleft
  rfl

-- A day number counts the years before it and the days of its own year.
theorem ofOrdinal_spec (n : Nat) :
    let d := ofOrdinal n
    1 ≤ d.year ∧ 1 ≤ d.month ∧ d.month ≤ 12 ∧ 1 ≤ d.day ∧ d.day ≤ daysInMonth d.year d.month ∧
      daysBeforeYear d.year + daysBeforeMonth d.year d.month + d.day = n - 1 + 1 := by
  obtain ⟨a, b, c, d, left, hb, hc, hd, hn, hleft, year, hyear, heq⟩ := ofOrdinal_cycles n
  have hbefore : daysBeforeYear year = a * 146097 + b * 36524 + c * 1461 + d * 365 := by
    rw [hyear, daysBeforeYear_cycles hb hc hd]
  have hleap : isLeap year = (d == 3 && (c != 24 || b == 3)) := by
    rw [hyear, isLeap_cycles hb hc hd]
  have hfits : daysBeforeMonth year 1 + left < daysBeforeMonth year 13 := by
    rw [daysBeforeMonth_thirteen, hleap, show daysBeforeMonth year 1 = 0 from rfl]
    split
    · omega
    · next h =>
      simp only [Bool.and_eq_true, Bool.or_eq_true, beq_iff_eq, bne_iff_ne, ne_eq] at h
      omega
  obtain ⟨hmonth, htwelve, hday, hlength, hplace⟩ :=
    monthAndDay_spec year 11 _ _ rfl (Nat.le_refl 1) hfits
  have hfirst : daysBeforeMonth year 1 = 0 := rfl
  rw [heq]
  dsimp only at hplace ⊢
  exact ⟨by omega, hmonth, htwelve, hday, hlength, by omega⟩

-- Each day number is the number of its day.
theorem ordinal_ofOrdinal {n : Nat} (hn : 1 ≤ n) : (ofOrdinal n).ordinal = n := by
  obtain ⟨-, -, -, -, -, hplace⟩ := ofOrdinal_spec n
  rw [ordinal]
  omega

-- No day up to the last one of the year 9999 lies in a later year.
theorem year_le {year : Nat} (left : Nat) (h : daysBeforeYear year + left < 3652059) :
    year ≤ 9999 := by
  unfold daysBeforeYear at h
  dsimp only at h
  omega

-- The numbers up to the last day of the year 9999 are those of days of the calendar.
theorem isValid_ofOrdinal {n : Nat} (hlast : n ≤ 3652059) : (ofOrdinal n).isValid = true := by
  obtain ⟨hyear, hmonth, htwelve, hday, hlength, hplace⟩ := ofOrdinal_spec n
  have hend : (ofOrdinal n).year ≤ 9999 := year_le
    (daysBeforeMonth (ofOrdinal n).year (ofOrdinal n).month + (ofOrdinal n).day - 1) (by omega)
  simp only [isValid, Bool.and_eq_true, decide_eq_true_eq]
  exact ⟨⟨⟨⟨⟨hyear, hend⟩, hmonth⟩, htwelve⟩, hday⟩, hlength⟩

end Date

namespace DateTime

-- A moment that a calendar and a clock can show.
structure IsShown (t : DateTime) : Prop where
  date : t.date.isValid = true
  hour : t.hour ≤ 23
  minute : t.minute ≤ 59
  second : t.second ≤ 59
  microsecond : t.microsecond < 1000000

theorem isShown_ofClockMicroseconds {n : Nat} (hn : n < horizon) (offset : Option Int) :
    (ofClockMicroseconds n offset).IsShown := by
  unfold horizon at hn
  have hday : n / microsecondsPerDay + 1 ≤ 3652059 := by
    have := Nat.div_lt_of_lt_mul (Nat.mul_comm 3652059 microsecondsPerDay ▸ hn)
    omega
  have hrest : n % microsecondsPerDay < 86400000000 := Nat.mod_lt n (by decide)
  constructor
  · exact Date.isValid_ofOrdinal hday
  all_goals
    dsimp only [ofClockMicroseconds]
    omega

theorem clockMicroseconds_ofClockMicroseconds (n : Nat) (offset : Option Int) :
    (ofClockMicroseconds n offset).clockMicroseconds = n := by
  have hordinal := Date.ordinal_ofOrdinal (Nat.le_add_left 1 (n / microsecondsPerDay))
  have hsplit := Nat.div_add_mod n microsecondsPerDay
  rw [Nat.mul_comm] at hsplit
  dsimp only [ofClockMicroseconds, clockMicroseconds]
  rw [hordinal, Nat.add_sub_cancel]
  omega

-- The UTC form of a moment is a moment of the same instant, and its own UTC form.
theorem toUtc?_eq_some {t u : DateTime} (h : t.toUtc? = some u) :
    u.IsShown ∧ u.offset = some 0 ∧ u.instant = t.instant ∧ u.toUtc? = some u := by
  unfold toUtc? at h
  dsimp only at h
  split at h
  · next hrange =>
    cases h
    obtain ⟨hlow, hhigh⟩ := hrange
    have hinstant : (ofClockMicroseconds t.instant.toNat (some 0)).instant = t.instant := by
      rw [instant, clockMicroseconds_ofClockMicroseconds]
      change ((t.instant.toNat : Nat) : Int) - 0 = _
      omega
    refine ⟨isShown_ofClockMicroseconds (by omega) _, rfl, hinstant, ?_⟩
    unfold toUtc?
    rw [hinstant]
    exact if_pos ⟨hlow, hhigh⟩
  · cases h

end DateTime

-- One more digit comes off the end.
theorem paddedChars_succ {w n : Nat} (hw : 1 ≤ w) :
    paddedChars (w + 1) n = paddedChars w (n / 10) ++ [Nat.digitChar (n % 10)] := by
  unfold paddedChars
  dsimp only
  by_cases hn : n < 10
  · have hfront : n / 10 = 0 := by omega
    have hlast : n % 10 = n := by omega
    obtain ⟨v, rfl⟩ : ∃ v, w = v + 1 := ⟨w - 1, by omega⟩
    rw [hfront, hlast, Nat.toDigits_of_lt_base hn, Nat.toDigits_of_lt_base (by decide)]
    simp only [List.length_singleton, Nat.add_sub_cancel]
    rw [List.replicate_succ']
    rfl
  · rw [Nat.toDigits_eq_if (b := 10) (n := n) (by decide), if_neg hn, ← List.append_assoc,
      List.length_append]
    simp

theorem paddedChars_one {n : Nat} (hn : n < 10) : paddedChars 1 n = [Nat.digitChar n] := by
  unfold paddedChars
  rw [Nat.toDigits_of_lt_base hn]
  rfl

-- A number that fits is written in exactly so many digits.
theorem paddedChars_spec {w n : Nat} (hw : 1 ≤ w) (hn : n < 10 ^ w) :
    (paddedChars w n).length = w ∧ ∀ c ∈ paddedChars w n, ∃ d < 10, c = Nat.digitChar d := by
  induction w generalizing n with
  | zero => omega
  | succ w ih =>
    by_cases hone : w = 0
    · subst hone
      have hdigit : n < 10 := by simpa using hn
      rw [paddedChars_one hdigit]
      exact ⟨rfl, by simpa using ⟨n, hdigit, rfl⟩⟩
    · obtain ⟨hlength, hdigits⟩ := ih (n := n / 10) (by omega) (by rw [Nat.pow_succ] at hn; omega)
      rw [paddedChars_succ (by omega)]
      refine ⟨by simp [hlength], fun c hc => ?_⟩
      rcases List.mem_append.mp hc with hc | hc
      · exact hdigits c hc
      · exact ⟨n % 10, by omega, List.mem_singleton.mp hc⟩

-- What holds of digits holds of all that is written for a number that fits.
theorem forall_mem_paddedChars {P : Char → Prop} (hdigit : ∀ k < 10, P (Nat.digitChar k))
    {w n : Nat} (hw : 1 ≤ w) (hn : n < 10 ^ w) : ∀ c ∈ paddedChars w n, P c := by
  intro c hc
  obtain ⟨k, hk, rfl⟩ := (paddedChars_spec hw hn).2 c hc
  exact hdigit k hk

namespace DateTime.Iso

variable {s : Source} {i : Nat} {rest : List Char}

theorem at'_eq {c : Char} (h : s.toList.drop i = c :: rest) : at' s i = c := by
  have hget : s[i]? = some c := by
    rw [← Array.getElem?_toList, ← List.head?_drop, h]
    rfl
  rw [at', Array.getD_eq_getD_getElem?, hget]
  rfl

theorem at'_end (h : s.toList.drop i = []) : at' s i = '\x00' := by
  have hget : s[i]? = none := by
    rw [← Array.getElem?_toList, ← List.head?_drop, h]
    rfl
  rw [at', Array.getD_eq_getD_getElem?, hget]
  rfl

theorem drop_add (cs : List Char) (h : s.toList.drop i = cs ++ rest) :
    s.toList.drop (i + cs.length) = rest := by
  rw [← List.drop_drop, h, List.drop_left]

theorem digit?_digitChar {d : Nat} (hd : d < 10) : digit? (Nat.digitChar d) = some d := by
  interval_cases d <;> rfl

theorem digits?_succ (count acc : Nat) : digits? s i (count + 1) acc =
    (digits? s i count acc).bind fun n => (digit? (at' s (i + count))).map (n * 10 + ·) := by
  induction count generalizing i acc with
  | zero =>
    simp only [digits?, Nat.add_zero]
    cases digit? (at' s i) <;> rfl
  | succ count ih =>
    rw [digits?, digits?]
    cases digit? (at' s i) with
    | none => rfl
    | some d =>
      have hplace : i + (count + 1) = i + 1 + count := by omega
      simp only [Option.bind_eq_bind, Option.bind_some]
      rw [ih, hplace]

-- A written number is read again as it was.
theorem digits?_padded {w n : Nat} (hw : 1 ≤ w) (hn : n < 10 ^ w)
    (h : s.toList.drop i = paddedChars w n ++ rest) : digits? s i w 0 = some n := by
  induction w generalizing n rest with
  | zero => omega
  | succ w ih =>
    by_cases hone : w = 0
    · subst hone
      have hdigit : n < 10 := by simpa using hn
      rw [paddedChars_one hdigit] at h
      simp only [digits?]
      rw [at'_eq h, digit?_digitChar hdigit]
      simp
    · have hfront : n / 10 < 10 ^ w := by
        rw [Nat.pow_succ] at hn
        omega
      rw [paddedChars_succ (by omega), List.append_assoc] at h
      have hlast := drop_add _ h
      rw [(paddedChars_spec (by omega) hfront).1] at hlast
      rw [digits?_succ, ih (by omega) hfront h, at'_eq hlast, digit?_digitChar (by omega)]
      simp only [Option.bind_some, Option.map_some, Option.some.injEq]
      omega

end DateTime.Iso

def Date.chars (d : Date) : List Char :=
  paddedChars 4 d.year ++ '-' :: (paddedChars 2 d.month ++ '-' :: paddedChars 2 d.day)

-- The parts of a day have four and two digits.
theorem Date.lt_of_isValid {d : Date} (h : d.isValid = true) :
    d.year < 10 ^ 4 ∧ d.month < 10 ^ 2 ∧ d.day < 10 ^ 2 := by
  simp only [isValid, Bool.and_eq_true, decide_eq_true_eq] at h
  obtain ⟨⟨⟨⟨⟨-, hyear⟩, -⟩, hmonth⟩, -⟩, hlength⟩ := h
  refine ⟨by omega, by omega, Nat.lt_of_le_of_lt hlength ?_⟩
  unfold daysInMonth
  split
  · split <;> decide
  · split <;> decide

theorem Date.forall_mem_chars {P : Char → Prop} (hdigit : ∀ k < 10, P (Nat.digitChar k))
    (hdash : P '-') {d : Date} (hd : d.isValid = true) : ∀ c ∈ d.chars, P c := by
  obtain ⟨hyear, hmonth, hday⟩ := lt_of_isValid hd
  have hdigits : ∀ {w n}, 1 ≤ w → n < 10 ^ w → ∀ c ∈ paddedChars w n, P c :=
    forall_mem_paddedChars hdigit
  exact List.forall_mem_append.mpr ⟨hdigits (by decide) hyear, List.forall_mem_cons.mpr
    ⟨hdash, List.forall_mem_append.mpr ⟨hdigits (by decide) hmonth, List.forall_mem_cons.mpr
      ⟨hdash, hdigits (by decide) hday⟩⟩⟩⟩

namespace DateTime

def clockChars (t : DateTime) : List Char :=
  paddedChars 2 t.hour ++ ':' :: (paddedChars 2 t.minute ++ ':' :: paddedChars 2 t.second)

def fractionChars (t : DateTime) : List Char :=
  if t.microsecond = 0 then [] else '.' :: paddedChars 6 t.microsecond

theorem forall_mem_clockChars {P : Char → Prop} (hdigit : ∀ k < 10, P (Nat.digitChar k))
    (hcolon : P ':') {t : DateTime} (ht : t.IsShown) : ∀ c ∈ t.clockChars, P c := by
  obtain ⟨-, hhour, hminute, hsecond, -⟩ := ht
  have htwo : ∀ {n}, n ≤ 59 → ∀ c ∈ paddedChars 2 n, P c := fun hn =>
    forall_mem_paddedChars hdigit (by decide) (by omega)
  exact List.forall_mem_append.mpr ⟨htwo (by omega), List.forall_mem_cons.mpr
    ⟨hcolon, List.forall_mem_append.mpr ⟨htwo hminute, List.forall_mem_cons.mpr
      ⟨hcolon, htwo hsecond⟩⟩⟩⟩

theorem forall_mem_fractionChars {P : Char → Prop} (hdigit : ∀ k < 10, P (Nat.digitChar k))
    (hpoint : P '.') {t : DateTime} (ht : t.IsShown) : ∀ c ∈ t.fractionChars, P c := by
  unfold fractionChars
  split
  · exact List.forall_mem_nil _
  · exact List.forall_mem_cons.mpr
      ⟨hpoint, forall_mem_paddedChars hdigit (by decide) ht.microsecond⟩

theorem toList_text {t : DateTime} (hutc : t.offset = some 0) : t.text.toList =
    t.date.chars ++ 'T' :: (t.clockChars ++ (t.fractionChars ++ "+00:00".toList)) := by
  have hoffset : (t.offset.map offsetText).getD "" = "+00:00" := by
    rw [hutc]
    decide
  rw [DateTime.text, hoffset, Date.text, clockText, fractionText, Date.chars, clockChars,
    fractionChars]
  by_cases h : t.microsecond = 0 <;> simp [h, padded]

namespace Iso

variable {s : Source} {i : Nat} {rest : List Char}

theorem findZone_eq {cs : List Char} {z : Char} (hcs : ∀ c ∈ cs, isZone c = false)
    (hz : isZone z = true) (h : s.toList.drop i = cs ++ z :: rest) {fuel : Nat}
    (hfuel : cs.length < fuel) : findZone s fuel i = i + cs.length := by
  induction cs generalizing i fuel with
  | nil =>
    obtain ⟨fuel, rfl⟩ : ∃ n, fuel = n + 1 := ⟨fuel - 1, by simp at hfuel; omega⟩
    rw [findZone, at'_eq h, if_pos hz]
    rfl
  | cons c cs ih =>
    obtain ⟨hc, hcs⟩ := List.forall_mem_cons.mp hcs
    rw [List.length_cons] at hfuel
    obtain ⟨fuel, rfl⟩ : ∃ n, fuel = n + 1 := ⟨fuel - 1, by omega⟩
    have hnext : s.toList.drop (i + 1) = cs ++ z :: rest := drop_add [c] h
    rw [findZone, at'_eq h, if_neg (by simp [hc]), ih hcs hnext (by omega), List.length_cons]
    omega

theorem at'_mem {cs : List Char} (hcs : cs ≠ []) (h : s.toList.drop i = cs ++ rest) :
    at' s i ∈ cs := by
  cases cs with
  | nil => exact absurd rfl hcs
  | cons c cs =>
    rw [at'_eq h]
    exact List.mem_cons_self

theorem lt_size {c : Char} (h : s.toList.drop i = c :: rest) : i < s.size := by
  by_contra hend
  rw [List.drop_eq_nil_of_le (by simpa using hend)] at h
  cases h

-- The date in front of a moment.
theorem date?_chars {d : Date} (hd : d.isValid = true) {c : Char}
    (h : s.toList = d.chars ++ c :: rest) :
    10 < s.size ∧ separator? s = some 10 ∧ date? s 10 = some d ∧ s.toList.drop 11 = rest := by
  obtain ⟨hyear, hmonth, hday⟩ := Date.lt_of_isValid hd
  rw [Date.chars, List.append_assoc, List.cons_append, List.append_assoc, List.cons_append] at h
  have hyears : (paddedChars 4 d.year).length = 4 :=
    (paddedChars_spec (by decide) hyear).1
  have hmonths : (paddedChars 2 d.month).length = 2 :=
    (paddedChars_spec (by decide) hmonth).1
  have hdays : (paddedChars 2 d.day).length = 2 :=
    (paddedChars_spec (by decide) hday).1
  have h0 : s.toList.drop 0 = _ := h
  have h4 : s.toList.drop 4 = _ := hyears ▸ drop_add _ h0
  have h5 : s.toList.drop 5 = _ := drop_add ['-'] h4
  have h7 : s.toList.drop 7 = _ := hmonths ▸ drop_add _ h5
  have h8 : s.toList.drop 8 = _ := drop_add ['-'] h7
  have h10 : s.toList.drop 10 = _ := hdays ▸ drop_add _ h8
  have hsize := lt_size h10
  have hweek : at' s 5 ≠ 'W' :=
    forall_mem_paddedChars (P := (· ≠ 'W')) (by decide) (by decide) hmonth _
      (at'_mem (by rw [← List.length_pos_iff, hmonths]; decide) h5)
  refine ⟨hsize, ?_, ?_, drop_add [c] h10⟩
  · rw [separator?, at'_eq h4, if_neg (by omega), if_pos rfl, if_neg hweek]
  · rw [date?, digits?_padded (by decide) hyear h0, at'_eq h4]
    simp only [Option.bind_eq_bind, Option.bind_some]
    rw [if_neg (by simpa using hweek)]
    simp only [if_true, Nat.reduceAdd]
    rw [digits?_padded (by decide) hmonth h5, at'_eq h7]
    simp only [Option.bind_some]
    rw [digits?_padded (by decide) hday h8]
    rfl

section

variable {stop todo n : Nat} {colons : Bool} {f : ClockFields}

-- A component with a colon behind it.
theorem clockFrom?_colon (hn : n < 100) (h : s.toList.drop i = paddedChars 2 n ++ ':' :: rest)
    (hstop : i + 3 < stop) (hcolons : todo = 2 ∨ colons = true) :
    clockFrom? s stop (todo + 1) i colons f =
      clockFrom? s stop todo (i + 3) true (f.set (2 - todo) n) := by
  have hnext : s.toList.drop (i + 2) = ':' :: rest :=
    (paddedChars_spec (by decide) (show n < 10 ^ 2 by omega)).1 ▸ drop_add _ h
  have htrue : (if todo = 2 then True else colons = true) := by
    rcases hcolons with rfl | rfl
    · trivial
    · split <;> trivial
  rw [clockFrom?, digits?_padded (by decide) (by omega) h, at'_eq hnext]
  simp only [Option.bind_eq_bind, Option.bind_some]
  rw [if_neg (by omega), if_pos ⟨htrue, trivial⟩, decide_eq_true htrue]

-- The last component.
theorem clockFrom?_last (hn : n < 100) (h : s.toList.drop i = paddedChars 2 n ++ rest)
    (hstop : stop ≤ i + 3) : clockFrom? s stop (todo + 1) i colons f =
      some (f.set (2 - todo) n, decide (at' s (i + 2) ≠ '\x00')) := by
  rw [clockFrom?, digits?_padded (by decide) (by omega) h]
  simp only [Option.bind_eq_bind, Option.bind_some]
  rw [if_pos hstop]

-- The seconds with a fraction behind them.
theorem clockFrom?_fraction {micro : Nat} (hn : n < 100) (hmicro : micro < 1000000)
    (h : s.toList.drop i = paddedChars 2 n ++ '.' :: (paddedChars 6 micro ++ '+' :: rest)) :
    clockFrom? s (i + 9) 1 i true f =
      some ({ f with second := n, microsecond := micro }, true) := by
  have hpoint : s.toList.drop (i + 2) = _ :=
    (paddedChars_spec (by decide) (show n < 10 ^ 2 by omega)).1 ▸ drop_add _ h
  have hdigits : s.toList.drop (i + 3) = _ := drop_add ['.'] hpoint
  have hend : s.toList.drop (i + 3 + 6) = _ :=
    (paddedChars_spec (by decide) (show micro < 10 ^ 6 by omega)).1 ▸ drop_add _ hdigits
  have hsix : min (i + 9 - (i + 3)) 6 = 6 := by omega
  have hstays : ∀ fuel, countDigits s fuel (i + 3 + 6) = i + 3 + 6 := by
    intro fuel
    cases fuel with
    | zero => rfl
    | succ fuel =>
      rw [countDigits, at'_eq hend]
      rfl
  rw [clockFrom?, digits?_padded (by decide) (by omega) h, at'_eq hpoint]
  simp only [Option.bind_eq_bind, Option.bind_some]
  rw [if_neg (by omega), if_neg (by decide), if_pos (.inl trivial), fraction?]
  simp only [hsix]
  rw [digits?_padded (by decide) (by omega) hdigits, hstays, at'_eq hend]
  simp [ClockFields.set]

end

-- The clock of a moment, up to the sign of its offset.
theorem clock?_chars {t : DateTime} (ht : t.IsShown)
    (h : s.toList.drop i = t.clockChars ++ (t.fractionChars ++ '+' :: rest)) :
    clock? s i (i + (t.clockChars ++ t.fractionChars).length) =
      some (⟨t.hour, t.minute, t.second, t.microsecond⟩, true) := by
  obtain ⟨-, hhour, hminute, hsecond, hmicro⟩ := ht
  have htwo : ∀ n < 100, (paddedChars 2 n).length = 2 :=
    fun n hn => (paddedChars_spec (by decide) (show n < 10 ^ 2 by omega)).1
  have hlength : (t.clockChars ++ t.fractionChars).length = 8 + t.fractionChars.length := by
    rw [clockChars]
    simp only [List.length_append, List.length_cons, htwo t.hour (by omega),
      htwo t.minute (by omega), htwo t.second (by omega)]
  rw [clockChars, List.append_assoc, List.cons_append, List.append_assoc, List.cons_append] at h
  have hminutes : s.toList.drop (i + 3) = _ :=
    drop_add [':'] (htwo t.hour (by omega) ▸ drop_add _ h)
  have hseconds : s.toList.drop (i + 6) = _ :=
    drop_add [':'] (htwo t.minute (by omega) ▸ drop_add _ hminutes)
  rw [hlength, clock?, clockFrom?_colon (by omega) h (by omega) (.inl rfl),
    clockFrom?_colon (by omega) hminutes (by omega) (.inr rfl)]
  by_cases hzero : t.microsecond = 0
  · have hnone : t.fractionChars = [] := if_pos hzero
    rw [hnone] at hseconds ⊢
    have hsign : s.toList.drop (i + 8) = _ := htwo t.second (by omega) ▸ drop_add _ hseconds
    refine (clockFrom?_last (by omega) hseconds (Nat.le_succ _)).trans ?_
    rw [at'_eq hsign, hzero]
    rfl
  · have hsome : t.fractionChars = '.' :: paddedChars 6 t.microsecond := if_neg hzero
    have hsix : (paddedChars 6 t.microsecond).length = 6 :=
      (paddedChars_spec (by decide) (show t.microsecond < 10 ^ 6 by omega)).1
    rw [hsome] at hseconds ⊢
    rw [List.length_cons, hsix]
    exact clockFrom?_fraction (by omega) (by omega) hseconds

-- Neither a sign nor the letter Z stands in a clock.
theorem isZone_clock {t : DateTime} (ht : t.IsShown) :
    ∀ c ∈ t.clockChars ++ t.fractionChars, isZone c = false := by
  have hclock : ∀ c ∈ t.clockChars, isZone c = false :=
    forall_mem_clockChars (P := (isZone · = false)) (by decide) rfl ht
  have hfraction : ∀ c ∈ t.fractionChars, isZone c = false :=
    forall_mem_fractionChars (P := (isZone · = false)) (by decide) rfl ht
  exact List.forall_mem_append.mpr ⟨hclock, hfraction⟩

-- The clock and the offset of a UTC moment.
theorem time?_chars {t : DateTime} (ht : t.IsShown)
    (h : s.toList.drop i = t.clockChars ++ (t.fractionChars ++ "+00:00".toList)) :
    time? s i = some (⟨t.hour, t.minute, t.second, t.microsecond⟩, some 0) := by
  have hclock := clock?_chars ht h
  rw [← List.append_assoc] at h
  have hsign : s.toList.drop (i + (t.clockChars ++ t.fractionChars).length) = _ := drop_add _ h
  have hzone : findZone s (s.size - i) i = i + (t.clockChars ++ t.fractionChars).length := by
    refine findZone_eq (isZone_clock ht) rfl h ?_
    have hlength := congrArg List.length h
    simp at hlength ⊢
    omega
  generalize i + (t.clockChars ++ t.fractionChars).length = zone at hclock hsign hzone
  have hhours : s.toList.drop (zone + 1) = paddedChars 2 0 ++ ':' :: paddedChars 2 0 :=
    drop_add ['+'] hsign
  have hminutes : s.toList.drop (zone + 1 + 3) = paddedChars 2 0 ++ [] :=
    drop_add ['0', '0', ':'] hhours
  have hend : s.toList.drop (zone + 1 + 3 + 2) = [] := drop_add ['0', '0'] hminutes
  have hsize : s.size = zone + 6 := by
    have := congrArg List.length hsign
    simp at this
    omega
  have hoffset : clock? s (zone + 1) s.size = some ({}, false) := by
    rw [clock?, clockFrom?_colon (by decide) hhours (by omega) (.inl rfl),
      clockFrom?_last (by decide) hminutes (by omega), at'_end hend]
    rfl
  rw [time?, hzone]
  simp only
  rw [hclock]
  simp only [Option.bind_eq_bind, Option.bind_some]
  rw [if_neg (by omega), at'_eq hsign, if_neg (by decide), hoffset]
  rfl

theorem fields?_chars {t : DateTime} (ht : t.IsShown)
    (h : s.toList = t.date.chars ++
      'T' :: (t.clockChars ++ (t.fractionChars ++ "+00:00".toList))) :
    fields? s = some (t.date, ⟨t.hour, t.minute, t.second, t.microsecond⟩, some 0) := by
  obtain ⟨hsize, hseparator, hdate, hrest⟩ := date?_chars ht.date h
  have htime := time?_chars ht hrest
  rw [fields?, if_neg (by omega), hseparator]
  simp only [Option.bind_eq_bind, Option.bind_some]
  rw [hdate]
  simp only [Option.bind_some]
  rw [if_pos hsize, htime]
  rfl

theorem check_eq {t : DateTime} (ht : t.IsShown) (hutc : t.offset = some 0) :
    check t.date ⟨t.hour, t.minute, t.second, t.microsecond⟩ (some 0) = .ok t := by
  obtain ⟨hdate, hhour, hminute, hsecond, -⟩ := ht
  simp only [Date.isValid, Bool.and_eq_true, decide_eq_true_eq] at hdate
  rw [check, if_neg (by decide), if_neg (by omega), if_neg (by omega), if_neg (by omega),
    if_neg (by simpa using hhour), if_neg (by simpa using hminute),
    if_neg (by simpa using hsecond)]
  obtain ⟨date, hour, minute, second, microsecond, offset⟩ := t
  cases hutc
  rfl

end Iso

-- A moment of the UTC clock is read again as it was written.
theorem read_text {t : DateTime} (ht : t.IsShown) (hutc : t.offset = some 0) :
    DateTime.read t.text = .ok t := by
  have h : t.text.toList.toArray.toList = t.date.chars ++
      'T' :: (t.clockChars ++ (t.fractionChars ++ "+00:00".toList)) := by
    rw [List.toList_toArray, toList_text hutc]
  rw [DateTime.read, Iso.fields?_chars ht h]
  exact Iso.check_eq ht hutc

-- A UTC moment is written without the letter Z.
theorem expandZulu_text {t : DateTime} (ht : t.IsShown) (hutc : t.offset = some 0) :
    Json.expandZulu t.text = t.text := by
  have hdate : ∀ c ∈ t.date.chars, c ≠ 'Z' :=
    Date.forall_mem_chars (by decide) (by decide) ht.date
  have hclock : ∀ c ∈ t.clockChars ++ t.fractionChars, c ≠ 'Z' := List.forall_mem_append.mpr
    ⟨forall_mem_clockChars (by decide) (by decide) ht,
      forall_mem_fractionChars (by decide) (by decide) ht⟩
  have hzone : ∀ c ∈ "+00:00".toList, c ≠ 'Z' := by simp
  have hplain : ∀ c ∈ t.text.toList, c ≠ 'Z' := by
    rw [toList_text hutc, ← List.append_assoc t.clockChars]
    exact List.forall_mem_append.mpr ⟨hdate, List.forall_mem_cons.mpr
      ⟨by decide, List.forall_mem_append.mpr ⟨hclock, hzone⟩⟩⟩
  have hsame : (t.text.toList.flatMap fun c => if c = 'Z' then "+00:00".toList else [c]) =
      t.text.toList :=
    (List.flatMap_congr fun c hc => if_neg (hplain c hc)).trans (List.flatMap_singleton' _)
  rw [Json.expandZulu, hsame, String.ofList_toList]

-- The tagged text of a UTC moment stands for that moment.
theorem untag_text {t : DateTime} (ht : t.IsShown) (hutc : t.offset = some 0) :
    Json.untag [(Json.dateTag, .text t.text)] = .ok (.moment t) := by
  rw [Json.untag, if_pos rfl, expandZulu_text ht hutc, read_text ht hutc]
  rfl

end DateTime

end Gleaner
