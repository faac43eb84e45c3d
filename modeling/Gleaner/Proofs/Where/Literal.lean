import Gleaner.Proofs.Sql.Grammar
import Gleaner.Proofs.Sql.Numerals
import Gleaner.Where.Filter

namespace Gleaner

open Sql

-- What a literal shows: a number with its sign and its numeral, or a text in quotes.
inductive Written
  | number (negative : Bool) (numeral : Numeral)
  | string (content : String)

namespace Written

def text : Written → String
  | number negative numeral => String.ofList (signed negative numeral.chars)
  | string content => Where.stringLiteral content

def tokens : Written → List Token
  | number negative numeral =>
    if negative then [.symbol "-", .number (String.ofList numeral.chars)]
    else [.number (String.ofList numeral.chars)]
  | string content => [.string content (Where.stringLiteral content)]

def phrase : Written → Phrase
  | number negative numeral => .number negative (String.ofList numeral.chars)
  | string content => .string content

def IsProper : Written → Prop
  | number _ numeral => numeral.IsProper
  | string _ => True

end Written

-- Literals end where neither a quote nor a part of a number stands.
def endsLiteral (c : Char) : Bool := endsNumeral c || c = '\''

theorem Written.scans {w : Written} (hw : w.IsProper) {rest : List Char}
    (hr : Ends endsLiteral rest) : Scans (w.text.toList ++ rest) w.tokens rest := by
  cases w with
  | number negative numeral =>
    have hnumeral : Ends endsNumeral rest := hr.mono fun c h => by simp [endsLiteral, h]
    rw [text, String.toList_ofList]
    cases negative with
    | false => exact scans_number hw hnumeral
    | true =>
      exact (scans_minus _).append (scans_number hw hnumeral)
  | string content =>
    have hquote : Ends (· = '\'') rest := hr.mono fun c h => by simp [endsLiteral, h]
    have := scans_string content.toList hquote
    rw [String.ofList_toList] at this
    simpa [text, tokens, Where.stringLiteral] using this

theorem Written.spells (w : Written) : Spells .operand w.tokens [w.phrase] := by
  cases w with
  | number negative numeral =>
    cases negative with
    | false => exact .number _
    | true => exact .signed _
  | string content => exact .string _ _

namespace Scalar

-- Moments outside the years of the calendar have no UTC form.
def hasInstant : Scalar → Bool
  | moment t => t.toUtc?.isSome
  | _ => true

def isFinite : Scalar → Bool
  | float x => x.isFinite
  | _ => true

def integerWritten (n : Int) : Written := .number (n < 0) (plainNumeral n.natAbs)

def realWritten : Binary64 → Written
  | .finite negative exponent fraction =>
    .number negative (Binary64.shortestNumeral exponent fraction)
  | x => .number false ⟨x.text.toList, none, none⟩

def written : Scalar → Written
  | bool b => integerWritten (if b then 1 else 0)
  | int n => integerWritten n
  | float x =>
    match x.integer? with
    | some n => integerWritten n
    | none => realWritten x
  | moment t => .string (Where.momentText (t.toUtc?.getD t))
  | text s => .string s

-- The cell a value is compared as. Truth values are numbers, moments are texts of the UTC clock,
-- and a number without a fraction is an integer where it fits.
def cell : Scalar → Cell
  | bool b => .int (if b then 1 else 0)
  | int n => integerCell n
  | float x =>
    match x.integer? with
    | some n => if fitsInteger n then .int n else .real x
    | none => .real x
  | moment t => .text (Where.momentText (t.toUtc?.getD t))
  | text s => .text s

theorem check_value (s : Scalar) : check s.value = .valid s := by
  cases s <;> rfl

theorem integerWritten_text (n : Int) : (integerWritten n).text = toString n := by
  rw [integerWritten, Written.text, plainNumeral_chars, Int.toString_eq_repr, Int.repr_eq_if]
  by_cases h : n < 0
  · have habs : (-n).toNat = n.natAbs := by omega
    rw [if_neg (by omega), habs, Nat.repr_eq_ofList_toDigits, decide_eq_true h, signed, if_pos rfl,
      ← String.toList_inj]
    simp
  · have habs : n.toNat = n.natAbs := by omega
    rw [if_pos (by omega), habs, Nat.repr_eq_ofList_toDigits, decide_eq_false h, signed]
    rfl

theorem significand_ne_zero {negative : Bool} {exponent : Fin 2047}
    {fraction : Fin 4503599627370496}
    (h : (Binary64.finite negative exponent fraction).integer? = none) :
    Binary64.significand exponent fraction ≠ 0 := by
  intro hzero
  have hn : (Binary64.quotient exponent fraction).1 = 0 := by
    unfold Binary64.quotient
    rw [hzero]
    split <;> simp
  simp [Binary64.integer?, hn] at h

theorem realWritten_text {x : Binary64} (h : x.integer? = none) :
    (realWritten x).text = x.text := by
  cases x with
  | finite negative exponent fraction =>
    rw [Binary64.text_eq (significand_ne_zero h)]
    rfl
  | infinite negative => simp [realWritten, Written.text, signed, Numeral.chars,
      Numeral.fractionChars, Numeral.exponentChars]
  | nan => simp [realWritten, Written.text, signed, Numeral.chars, Numeral.fractionChars,
      Numeral.exponentChars]

-- The literal of a value is the text of what is written for it.
theorem literal_value (s : Scalar) :
    Where.literal s.value = if s.hasInstant then .ok s.written.text else .error .instant := by
  cases s with
  | bool b => cases b <;> rfl
  | int n => simp [value, Where.literal, hasInstant, written, integerWritten_text]
  | float x =>
    simp only [value, Where.literal, hasInstant, written, Where.floatLiteral, if_true]
    cases h : x.integer? with
    | some n => simp [integerWritten_text]
    | none => simp [realWritten_text h]
  | moment t => cases h : t.toUtc? <;> simp [value, Where.literal, hasInstant, written, h, Written.text]
  | text s => rfl

theorem integerWritten_isProper (n : Int) : (integerWritten n).IsProper :=
  plainNumeral_isProper n.natAbs

theorem written_isProper {s : Scalar} (hs : s.isFinite = true) : s.written.IsProper := by
  cases s with
  | bool b => exact integerWritten_isProper _
  | int n => exact integerWritten_isProper n
  | float x =>
    simp only [written]
    split
    · exact integerWritten_isProper _
    · rename_i h
      cases x with
      | finite negative exponent fraction =>
        exact (Binary64.shortestNumeral_spec (significand_ne_zero h) negative).1
      | infinite negative => cases hs
      | nan => cases hs
  | moment t => trivial
  | text s => trivial

theorem ofNumeral_signed (negative : Bool) (cs : List Char) {c : Cell}
    (h : numberCell (String.ofList (signed negative cs)) = c)
    (hc : negative = true → c ≠ .int 0) :
    Expr.ofNumeral negative (String.ofList cs) = .cell c := by
  cases negative with
  | false =>
    rw [signed] at h
    simpa [Expr.ofNumeral] using h
  | true =>
    have htext : "-" ++ String.ofList cs = String.ofList (signed true cs) := by
      rw [← String.toList_inj]
      simp [signed]
    simp only [Expr.ofNumeral, if_true, htext, h]
    rw [if_neg (hc rfl)]

theorem integerWritten_expr (n : Int) : (integerWritten n).phrase.expr = .cell (integerCell n) := by
  have hcell := numberCell_int n
  rw [integerWritten, Written.phrase, Phrase.expr, plainNumeral_chars]
  refine ofNumeral_signed _ _ hcell fun hneg hzero => ?_
  have hn := of_decide_eq_true hneg
  unfold integerCell at hzero
  split at hzero
  · cases hzero
    omega
  · cases hzero

-- Numbers that are integers are rounded to themselves.
theorem ofInt_integer {x : Binary64} {n : Int} (h : x.integer? = some n) (hn : n ≠ 0) :
    Binary64.ofInt n = x := by
  cases x with
  | finite negative exponent fraction =>
    have hpos := Binary64.quotient_pos exponent fraction
    simp only [Binary64.integer?] at h
    split at h
    · rename_i hmod
      obtain ⟨habs, hsign⟩ : n.natAbs = (Binary64.quotient exponent fraction).1 /
          (Binary64.quotient exponent fraction).2 ∧ decide (n < 0) = negative := by
        generalize (Binary64.quotient exponent fraction).1 /
          (Binary64.quotient exponent fraction).2 = k at h ⊢
        cases negative <;> simp only [Option.some.injEq, Bool.false_eq_true, if_false, if_true] at h
        · exact ⟨by omega, by simp; omega⟩
        · exact ⟨by omega, by simp; omega⟩
      have hround : Binary64.roundMagnitude n.natAbs 1 = some (exponent, fraction) := by
        rw [← Binary64.roundMagnitude_quotient exponent fraction]
        refine Binary64.roundMagnitude_congr (p := (n.natAbs, 1)) Nat.one_pos hpos ?_
        rw [Binary64.ratio_eq_iff Nat.one_pos hpos, habs, Nat.mul_one]
        exact Nat.div_mul_cancel (Nat.dvd_of_mod_eq_zero hmod)
      rw [Binary64.ofInt, Binary64.ofQuotient, hround, hsign]
    · cases h
  | infinite negative => cases h
  | nan => cases h

-- A literal is worked out to the cell of its value.
theorem written_expr {s : Scalar} (hs : s.isFinite = true) :
    s.written.phrase.expr = .cell s.cell := by
  cases s with
  | bool b => cases b <;> exact integerWritten_expr _
  | int n => exact integerWritten_expr n
  | float x =>
    simp only [written, cell]
    split
    · rename_i n h
      rw [integerWritten_expr, integerCell]
      split
      · rfl
      · rename_i hfits
        rw [ofInt_integer h]
        rintro rfl
        exact hfits rfl
    · rename_i h
      cases x with
      | finite negative exponent fraction =>
        obtain ⟨hproper, hvalue⟩ := Binary64.shortestNumeral_spec (significand_ne_zero h) negative
        rw [realWritten, Written.phrase, Phrase.expr]
        refine ofNumeral_signed _ _ ?_ fun _ h => by cases h
        rw [numberCell_real hproper (Binary64.Layout.numeral_not_plain _ _), hvalue]
      | infinite negative => cases hs
      | nan => cases hs
  | moment t => rfl
  | text s => rfl

end Scalar

end Gleaner
