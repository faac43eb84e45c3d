import Mathlib.Data.List.Basic
import Gleaner.Proofs.Run.Effects
import Gleaner.Proofs.Template.Tokens
import Gleaner.Rehearsal.KeyedStore
import Gleaner.Rehearsal.ScriptedPages

namespace Gleaner.Template

-- A value that cannot become a part of a token.
structure IsPlain (value : String) : Prop where
  ne_empty : value ≠ ""
  no_opening : '{' ∉ value.toList
  no_closing : '}' ∉ value.toList

instance (value : String) : Decidable (IsPlain value) :=
  decidable_of_iff (value ≠ "" ∧ '{' ∉ value.toList ∧ '}' ∉ value.toList)
    ⟨fun ⟨h, h', h''⟩ => ⟨h, h', h''⟩, fun ⟨h, h', h''⟩ => ⟨h, h', h''⟩⟩

theorem IsPlain.head {value : String} (h : IsPlain value) :
    ∃ c rest, value.toList = c :: rest ∧ c ≠ '{' ∧ c ≠ '}' := by
  cases hv : value.toList with
  | nil => exact absurd (String.toList_eq_nil_iff.mp hv) h.ne_empty
  | cons c rest =>
    refine ⟨c, rest, rfl, ?_, ?_⟩
    · rintro rfl
      exact h.no_opening (by simp [hv])
    · rintro rfl
      exact h.no_closing (by simp [hv])

-- No token opens in a text, whatever follows it.
def Sealed : List Char → Prop
  | [] => True
  | c :: rest => (∀ back, opensAt? (c :: rest ++ back) = none) ∧ Sealed rest

theorem Sealed.append {front back : List Char} (hf : Sealed front) (hb : Sealed back) :
    Sealed (front ++ back) := by
  induction front with
  | nil => exact hb
  | cons c rest ih =>
    refine ⟨fun more => ?_, ih hf.2⟩
    have h := hf.1 (back ++ more)
    rwa [← List.append_assoc] at h

theorem opensAt?_ne_brace {c : Char} (h : c ≠ '{') (rest : List Char) :
    opensAt? (c :: rest) = none := by
  cases hopen : opensAt? (c :: rest) with
  | none => rfl
  | some o =>
    obtain ⟨-, -, hsplit⟩ := opensAt?_eq_some_iff.mp hopen
    exact absurd (List.cons_eq_cons.mp hsplit).1 h

theorem sealed_of_no_opening {cs : List Char} (h : '{' ∉ cs) : Sealed cs := by
  induction cs with
  | nil => trivial
  | cons c rest ih =>
    obtain ⟨hc, hrest⟩ := not_or.mp (mt List.mem_cons.mpr h)
    exact ⟨fun back => opensAt?_ne_brace (Ne.symm hc) _, ih hrest⟩

-- The search passes over a sealed text.
theorem first?_sealed {front : List Char} (h : Sealed front) (back : List Char) :
    first? (front ++ back) = (first? back).map fun o => { o with before := front ++ o.before } := by
  induction front with
  | nil => simp
  | cons c rest ih =>
    rw [List.cons_append, first?_cons, ← List.cons_append, h.1 back, ih h.2, Option.map_map]
    rfl

-- A token that does not open in front of another one does not open there either once that one has
-- given way to a plain value: where its closing braces would be is settled by what is in front of
-- the value, or by the first character of the value.
theorem opensAt?_before {front token after : List Char} {value : String}
    (h : opensAt? (front ++ token ++ after) = none) (hfront : front ≠ []) (ht : IsToken token)
    (hv : IsPlain value) (back : List Char) :
    opensAt? (front ++ value.toList ++ back) = none := by
  cases hopen : opensAt? (front ++ value.toList ++ back) with
  | none => rfl
  | some o =>
    exfalso
    obtain ⟨-, hinside, hsplit⟩ := opensAt?_eq_some_iff.mp hopen
    obtain ⟨v, more, hvalue, hbrace, hclose⟩ := hv.head
    obtain ⟨inner, hinner, rfl⟩ := isToken_iff.mp ht
    simp only [Occurrence.written, hvalue] at hsplit
    rcases front with _ | ⟨c, _ | ⟨d, front⟩⟩
    · exact hfront rfl
    · simp only [List.cons_append, List.nil_append, List.cons.injEq] at hsplit
      exact hbrace hsplit.2.1
    · simp only [List.cons_append, List.append_assoc, List.nil_append, List.cons.injEq] at hsplit
      obtain ⟨rfl, rfl, hsplit⟩ := hsplit
      have hclosing : '}' ∉ o.inside := hinside.no_closing
      by_cases hmem : '}' ∈ front
      case pos =>
        -- The braces behind what is inside are both in front of the value, or neither is.
        obtain ⟨a, b, rfl, ha⟩ := List.eq_append_cons_of_mem hmem
        rw [List.append_assoc, List.cons_append] at hsplit
        have hwhile := congrArg (List.takeWhile (· ≠ '}')) hsplit
        rw [takeWhile_closing ha, takeWhile_closing hclosing] at hwhile
        subst hwhile
        obtain ⟨-, hback⟩ := List.cons_eq_cons.mp (List.append_cancel_left hsplit)
        cases b with
        | nil => exact hclose (List.cons_eq_cons.mp hback).1
        | cons d b =>
          obtain ⟨rfl, -⟩ := List.cons_eq_cons.mp hback
          have hcloses := opensAt?_inside hinside (b ++ '{' :: '{' :: (inner ++ '}' :: '}' :: after))
          simp only [List.cons_append, List.append_assoc, List.nil_append] at h hcloses
          rw [hcloses] at h
          cases h
      case neg =>
        -- Without the value the token in its place would close what opens in front of it.
        have hwhole : IsInside (front ++ '{' :: '{' :: inner) := by
          obtain ⟨e, rest, hhead, hcomma, -⟩ := hinside
          have hno : ∀ d ∈ front ++ '{' :: '{' :: inner, d ≠ '}' := by
            rintro d hd rfl
            simp [hmem, hinner.no_closing] at hd
          cases front with
          | nil => exact ⟨'{', '{' :: inner, rfl, by decide, hno⟩
          | cons f front =>
            rw [hhead] at hsplit
            obtain ⟨rfl, -⟩ := List.cons_eq_cons.mp hsplit
            exact ⟨f, front ++ '{' :: '{' :: inner, rfl, hcomma, hno⟩
        have hcloses := opensAt?_inside hwhole after
        simp only [List.cons_append, List.append_assoc, List.nil_append] at h hcloses
        rw [hcloses] at h
        cases h

-- What is in front of the first token of a text, with a plain value in its place.
theorem sealed_first? {text : List Char} {o : Occurrence} (h : first? text = some o)
    {value : String} (hv : IsPlain value) : Sealed (o.before ++ value.toList) := by
  induction text generalizing o with
  | nil => cases h
  | cons c rest ih =>
    rw [first?_cons] at h
    cases hopen : opensAt? (c :: rest) with
    | some p =>
      rw [hopen] at h
      cases h
      rw [(opensAt?_eq_some_iff.mp hopen).1]
      exact sealed_of_no_opening hv.no_opening
    | none =>
      rw [hopen] at h
      obtain ⟨p, hp, rfl⟩ := Option.map_eq_some_iff.mp h
      obtain ⟨hsplit, htoken, -, -, -⟩ := first?_leftmost hp
      refine ⟨fun back => ?_, ih hp⟩
      rw [hsplit, ← List.cons_append, ← List.cons_append] at hopen
      exact opensAt?_before hopen (List.cons_ne_nil _ _) htoken hv back

section

variable {σ : Type} (context : Context σ)

-- The value of a token as it is written in a text.
def Occurrence.value (o : Occurrence) : Effect σ String := do
  let token ← Effect.ofExcept .token o.token
  resolve context token

-- The values of tokens that are resolved one after the other, up to the first that is not.
def values : List Occurrence → σ → List String
  | [], _ => []
  | o :: os, world =>
    match o.value context world with
    | (.ok value, world) => value :: values os world
    | (.error _, _) => []

-- A text with a value in the place of each of its tokens.
def filled : List Occurrence → List String → List Char → List Char
  | o :: os, value :: more, rest => o.before ++ value.toList ++ filled os more rest
  | _, _, rest => rest

-- A single pass over a text: its tokens are resolved from left to right, once each.
def singlePass (text : List Char) : Effect σ (List Char) := do
  let (os, rest) := split text
  return filled os (← os.mapM fun o => o.value context) rest

end

section

variable {σ : Type} {context : Context σ}

theorem expandChars_of_none {text : List Char} (h : first? text = none) (fuel : Nat) :
    expandChars context (fuel + 1) text = pure text := by
  rw [expandChars, h]

-- A text without tokens stays as it is.
theorem expand_of_none {text : String} (h : first? text.toList = none) :
    expand context text = pure text := by
  obtain ⟨fuel, hfuel⟩ : ∃ fuel, limit + text.length = fuel + 1 :=
    ⟨limit - 1 + text.length, by
      unfold limit
      omega⟩
  rw [expand, hfuel, expandChars_of_none h, pure_bind, String.ofList_toList]

theorem expandChars_of_some {text : List Char} {o : Occurrence} (h : first? text = some o)
    (fuel : Nat) :
    expandChars context (fuel + 1) text = (o.value context >>= fun value =>
      expandChars context fuel (o.before ++ value.toList ++ o.after)) := by
  simp only [expandChars, h, replaceFirst_first? h, Occurrence.value, bind_assoc]

theorem singlePass_of_none {text : List Char} (h : first? text = none) :
    singlePass context text = pure text := by
  simp [singlePass, split_of_none h, filled]

theorem singlePass_of_some {text : List Char} {o : Occurrence} (h : first? text = some o) :
    singlePass context text = (o.value context >>= fun value =>
      singlePass context o.after >>= fun rest =>
      pure (o.before ++ value.toList ++ rest)) := by
  simp [singlePass, split_of_some h, filled]

-- What is in front of a text and sealed is left alone.
theorem expandChars_sealed {front text : List Char} (hfront : Sealed front) {fuel : Nat}
    (hfuel : (split text).1.length < fuel) {world : σ}
    (plain : ∀ value ∈ values context (split text).1 world, IsPlain value) :
    expandChars context fuel (front ++ text) world =
      (singlePass context text >>= fun rest => pure (front ++ rest)) world := by
  obtain ⟨fuel, rfl⟩ := Nat.exists_eq_succ_of_ne_zero (Nat.ne_zero_of_lt hfuel)
  have hsearch := first?_sealed hfront text
  cases h : first? text with
  | none =>
    rw [h] at hsearch
    rw [expandChars_of_none hsearch, singlePass_of_none h]
    rfl
  | some o =>
    rw [h] at hsearch
    rw [split_of_some h] at hfuel plain
    rw [expandChars_of_some hsearch, singlePass_of_some h]
    rw [Effect.bind_assoc_apply]
    change (o.value context >>= fun value =>
      expandChars context fuel (front ++ o.before ++ value.toList ++ o.after)) world = _
    rw [values] at plain
    rcases hvalue : o.value context world with ⟨e | value, after⟩
    · rw [Effect.bind_error hvalue, Effect.bind_error hvalue]
    · rw [hvalue] at plain
      rw [Effect.bind_ok hvalue, Effect.bind_ok hvalue]
      have hv : IsPlain value := plain value List.mem_cons_self
      have hsealed := hfront.append (sealed_first? h hv)
      have ih := expandChars_sealed hsealed (Nat.lt_of_succ_lt_succ hfuel)
        fun v hm => plain v (List.mem_cons_of_mem _ hm)
      simpa using ih
termination_by text.length
decreasing_by exact after_lt h

end

theorem Splits.filled_written {text : List Char} {os : List Occurrence} {rest : List Char}
    (h : Splits text os rest) : filled os (os.map fun o => String.ofList o.written) rest = text := by
  induction h with
  | rest none => rfl
  | token leftmost more ih =>
    rw [List.map_cons, filled, ih, leftmost.split]
    simp

-- Where all values are plain, replacing the first token until there is none left comes to an end,
-- and is the same as a single pass over the tokens of the text as it was: the leftmost ones, none
-- inside or across another, each resolved once and in order, and nothing else of the text changed.
-- A token that does not resolve ends both, with what was done for the tokens in front of it done.
theorem expand_eq_singlePass {σ : Type} (context : Context σ) (text : String) (world : σ)
    (plain : ∀ value ∈ values context (split text.toList).1 world, IsPlain value) :
    Splits text.toList (split text.toList).1 (split text.toList).2 ∧
      filled (split text.toList).1
        ((split text.toList).1.map fun o => String.ofList o.written) (split text.toList).2 =
          text.toList ∧
      expand context text world =
        (do return String.ofList (← singlePass context text.toList) : Effect σ String) world := by
  have hsplits := split_splits text.toList
  have hfuel : (split text.toList).1.length < limit + text.length := by
    have hle := split_length_le text.toList
    rw [String.length_toList] at hle
    unfold limit
    omega
  have hfront : Sealed [] := trivial
  have hpass := expandChars_sealed hfront hfuel plain
  simp only [List.nil_append, bind_pure] at hpass
  refine ⟨hsplits, hsplits.filled_written, ?_⟩
  rw [expand, Effect.bind_apply, Effect.bind_apply, hpass]

-- Braces and commas that belong to no token stay. The second token does not resolve, and the third
-- is not reached.
theorem expand_eq_singlePass_strayBraces :
    let context := (Rehearsal.environment Rehearsal.scriptedPages
      (Rehearsal.KeyedStore.store none)).templates
    let text := "{{,}} {, {{DataKey, people.name }}}, {{DataKey}}{{RandomString,3}}"
    let world : Rehearsal.World := { values := [("people.name", .text "Ada, Countess")] }
    (∀ value ∈ values context (split text.toList).1 world, IsPlain value) ∧
      values context (split text.toList).1 world = ["Ada, Countess"] ∧
      Splits text.toList (split text.toList).1 (split text.toList).2 ∧
      filled (split text.toList).1
        ((split text.toList).1.map fun o => String.ofList o.written) (split text.toList).2 =
          text.toList ∧
      expand context text world =
        (do return String.ofList (← singlePass context text.toList) : Effect _ String) world := by
  intro context text world
  have hplain : ∀ value ∈ values context (split text.toList).1 world, IsPlain value := by
    decide +kernel
  have hvalues : values context (split text.toList).1 world = ["Ada, Countess"] := by
    decide +kernel
  exact ⟨hplain, hvalues, expand_eq_singlePass context text world hplain⟩

end Gleaner.Template
