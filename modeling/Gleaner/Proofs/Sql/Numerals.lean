import Gleaner.Proofs.Number.Shortest
import Gleaner.Proofs.Sql.Scanning
import Gleaner.Sql.Expression

namespace Gleaner.Sql

open Binary64

-- The characters of a number with its sign in front.
def signed (negative : Bool) (cs : List Char) : List Char := if negative then '-' :: cs else cs

theorem trimmed_eq {s : String} (h : ∀ c ∈ s.toList, isSpace c = false) :
    Cell.trimmed s = s.toList := by
  have hdrop : ∀ cs : List Char, (∀ c ∈ cs, isSpace c = false) → cs.dropWhile isSpace = cs := by
    intro cs hcs
    cases cs with
    | nil => rfl
    | cons c cs => exact List.dropWhile_cons_of_neg (by simp [hcs c])
  unfold Cell.trimmed
  rw [hdrop _ h, hdrop _ fun c hc => h c (List.mem_reverse.mp hc), List.reverse_reverse]

section

variable {n : Numeral}

-- What a numeral is written with.
theorem mem_chars (hn : n.IsProper) {c : Char} (h : c ∈ n.chars) :
    c.isDigit = true ∨ c ∈ ['.', 'e', '-', '+'] := by
  simp only [Numeral.chars, List.mem_append] at h
  rcases h with h | h | h
  · exact .inl (hn.whole c h)
  · unfold Numeral.fractionChars at h
    split at h
    · cases h
    · rename_i ds hds
      rcases List.mem_cons.mp h with rfl | h
      · exact .inr (by decide)
      · exact .inl (hn.fraction ds hds c h)
  · unfold Numeral.exponentChars at h
    split at h
    · cases h
    · rename_i negative ds hds
      rcases List.mem_cons.mp h with rfl | h
      · exact .inr (by decide)
      · rcases List.mem_cons.mp h with rfl | h
        · exact .inr (by cases negative <;> decide)
        · exact .inl ((hn.exponent negative ds hds).1 c h)

theorem isSpace_of_mem_chars (hn : n.IsProper) {c : Char} (h : c ∈ n.chars) :
    isSpace c = false := by
  have hsigns : ∀ d ∈ ['.', 'e', '-', '+'], isSpace d = false := by simp [isSpace]
  exact (mem_chars hn h).elim isSpace_of_isDigit (hsigns c)

theorem unsigned_signed (hn : n.IsProper) (negative : Bool) :
    Cell.unsigned (signed negative n.chars) = n.chars ∧
      ((signed negative n.chars).head? = some '-' ↔ negative = true) := by
  obtain ⟨c, cs, hcs⟩ := List.exists_cons_of_ne_nil hn.whole_ne_nil
  have hchars : n.chars = c :: (cs ++ (n.fractionChars ++ n.exponentChars)) := by
    simp [Numeral.chars, hcs]
  have hc := hn.whole c (by simp [hcs])
  have hminus : c ≠ '-' := by
    rintro rfl
    exact absurd hc (by decide)
  have hplus : c ≠ '+' := by
    rintro rfl
    exact absurd hc (by decide)
  cases negative with
  | true => exact ⟨rfl, by simp [signed]⟩
  | false =>
    simp only [signed, Bool.false_eq_true, if_false, hchars]
    refine ⟨?_, by simp [hminus]⟩
    unfold Cell.unsigned
    split
    · rename_i h
      exact absurd (List.cons.inj h).1 hplus
    · rename_i h
      exact absurd (List.cons.inj h).1 hminus
    · rfl

theorem trimmed_signed (hn : n.IsProper) (negative : Bool) :
    Cell.trimmed (String.ofList (signed negative n.chars)) = signed negative n.chars := by
  rw [trimmed_eq, String.toList_ofList]
  intro c hc
  rw [String.toList_ofList] at hc
  unfold signed at hc
  split at hc
  · rcases List.mem_cons.mp hc with rfl | hc
    · decide
    · exact isSpace_of_mem_chars hn hc
  · exact isSpace_of_mem_chars hn hc

-- What the text of a number stands for: an integer where it has digits only and fits.
theorem number?_signed (hn : n.IsProper) (negative : Bool) {x : Binary64} {m : Int}
    (hx : ofDecimal negative (Nat.ofDigitChars 10 n.digits 0) n.places = x)
    (hm : (if negative then -(Nat.ofDigitChars 10 n.chars 0 : Int)
      else Nat.ofDigitChars 10 n.chars 0) = m) :
    Cell.number? (String.ofList (signed negative n.chars)) =
      some (if n.chars.all Char.isDigit && fitsInteger m then .int m else .real x) := by
  obtain ⟨hunsigned, hhead⟩ := unsigned_signed hn negative
  obtain ⟨l, hl, hreal⟩ := Option.map_eq_some_iff.mp (n.toBinary64_chars hn negative)
  have hfold : ∀ (cs : List Char) (acc : Nat),
      cs.foldl (fun (k : Int) c => k * 10 + (c.toNat - 48 : Nat)) acc =
        Nat.ofDigitChars 10 cs acc := by
    intro cs
    induction cs with
    | nil =>
      intro acc
      rw [Nat.ofDigitChars_nil]
      rfl
    | cons c cs ih =>
      intro acc
      rw [Nat.ofDigitChars_cons, ← ih, List.foldl_cons, Nat.mul_comm]
      congr 1
  have hzero := hfold n.chars 0
  rw [Nat.cast_zero] at hzero
  unfold Cell.number?
  simp only [trimmed_signed hn, hunsigned, hhead, hl, Bool.decide_eq_true, hreal, hx, hzero, hm]
  cases n.chars.all Char.isDigit <;> rfl

-- A numeral with a point or an exponent.
theorem numberCell_real (hn : n.IsProper) (hplain : n.fraction ≠ none ∨ n.exponent ≠ none)
    (negative : Bool) :
    numberCell (String.ofList (signed negative n.chars)) =
      .real (ofDecimal negative (Nat.ofDigitChars 10 n.digits 0) n.places) := by
  have hall : n.chars.all Char.isDigit = false := by
    rw [List.all_eq_false]
    rcases hplain with h | h
    · obtain ⟨ds, hds⟩ := Option.ne_none_iff_exists'.mp h
      exact ⟨'.', by simp [Numeral.chars, Numeral.fractionChars, hds], by decide⟩
    · obtain ⟨e, he⟩ := Option.ne_none_iff_exists'.mp h
      exact ⟨'e', by simp [Numeral.chars, Numeral.exponentChars, he], by decide⟩
  rw [numberCell, number?_signed hn negative rfl rfl, hall]
  rfl

end

-- The digits of a natural number as a numeral.
def plainNumeral (m : Nat) : Numeral := ⟨Nat.toDigits 10 m, none, none⟩

theorem plainNumeral_isProper (m : Nat) : (plainNumeral m).IsProper where
  whole := allDigits_toDigits m
  whole_ne_nil := Nat.toDigits_ne_nil
  fraction := nofun
  exponent := nofun

theorem plainNumeral_chars (m : Nat) : (plainNumeral m).chars = Nat.toDigits 10 m := by
  simp [plainNumeral, Numeral.chars, Numeral.fractionChars, Numeral.exponentChars]

-- The cell of an integer literal: an integer beyond 64 bits is the nearest real.
def integerCell (m : Int) : Cell := if fitsInteger m then .int m else .real (.ofInt m)

theorem numberCell_int (m : Int) :
    numberCell (String.ofList (signed (m < 0) (Nat.toDigits 10 m.natAbs))) = integerCell m := by
  have hvalue : (if decide (m < 0) then -(Nat.ofDigitChars 10 (plainNumeral m.natAbs).chars 0 : Int)
      else Nat.ofDigitChars 10 (plainNumeral m.natAbs).chars 0) = m := by
    rw [plainNumeral_chars, Nat.ofDigitChars_ten_toDigits]
    split
    · rename_i h
      have := of_decide_eq_true h
      omega
    · rename_i h
      have : ¬m < 0 := by simpa using h
      omega
  have hall : (plainNumeral m.natAbs).chars.all Char.isDigit = true := by
    rw [plainNumeral_chars, List.all_eq_true]
    exact allDigits_toDigits _
  have hnumber := number?_signed (plainNumeral_isProper m.natAbs) (m < 0) rfl hvalue
  rw [hall, plainNumeral_chars] at hnumber
  rw [numberCell, hnumber, integerCell, Bool.true_and]
  split
  · rfl
  · rename_i hfits
    have hne : m.natAbs ≠ 0 := by
      intro h
      have : m = 0 := by omega
      subst this
      exact hfits rfl
    have hdigits : Nat.ofDigitChars 10 (plainNumeral m.natAbs).digits 0 = m.natAbs := by
      simp [plainNumeral, Numeral.digits]
    have hplaces : (plainNumeral m.natAbs).places = 0 := rfl
    rw [hdigits, hplaces, ofDecimal_eq _ hne]
    simp [scaleDecimal, ofInt]

end Gleaner.Sql
