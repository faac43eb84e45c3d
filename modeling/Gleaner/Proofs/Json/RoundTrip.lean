import Gleaner.Proofs.Json.Dates
import Gleaner.Proofs.Json.Scalars

namespace Gleaner

namespace Value

mutual

-- What JSON can hold: no moments, and objects whose fields have different names.
def isJson : Value → Bool
  | .moment _ | .day _ => false
  | .list items => areJson items
  | .object fields => decide (fields.map (·.1)).Nodup && haveJson fields
  | _ => true

def areJson : List Value → Bool
  | [] => true
  | v :: rest => isJson v && areJson rest

def haveJson : List (String × Value) → Bool
  | [] => true
  | (_, v) :: rest => isJson v && haveJson rest

end

end Value

namespace Json

variable {ε : Type} (accept : List (String × Value) → Except ε Value)

mutual

-- What some data becomes when the caller is handed each object in it, inner ones first.
def Becomes : Value → Value → Prop
  | .list items, w => ∃ ws, ItemsBecome items ws ∧ w = .list ws
  | .object fields, w => ∃ ws, FieldsBecome fields ws ∧ accept ws = .ok w
  | v, w => w = v

def ItemsBecome : List Value → List Value → Prop
  | [], ws => ws = []
  | v :: rest, ws => ∃ w more, Becomes v w ∧ ItemsBecome rest more ∧ ws = w :: more

def FieldsBecome : List (String × Value) → List (String × Value) → Prop
  | [], ws => ws = []
  | (k, v) :: rest, ws => ∃ w more, Becomes v w ∧ FieldsBecome rest more ∧ ws = (k, w) :: more

end

variable {accept} {rest : List Char}

-- Characters that begin a value: no blank, no bracket that ends a list, and no mark in front of a
-- file.
def isFirstChar (c : Char) : Bool := !isSpace c && c != ']' && c != '\ufeff'

def Begins (cs : List Char) : Prop := ∃ c more, cs = c :: more ∧ isFirstChar c = true

theorem Begins.append {cs : List Char} (h : Begins cs) (rest : List Char) :
    Begins (cs ++ rest) := by
  obtain ⟨c, more, rfl, hc⟩ := h
  exact ⟨c, more ++ rest, rfl, hc⟩

theorem Begins.ends {cs : List Char} (h : Begins cs) : Ends isSpace cs := by
  obtain ⟨c, more, rfl, hc⟩ := h
  simp only [isFirstChar, Bool.and_eq_true, Bool.not_eq_true'] at hc
  exact ends_cons hc.1.1

theorem begins_digits {ds : List Char} (h : ds.head?.any Char.isDigit = true) : Begins ds := by
  obtain ⟨c, hc, hdigit⟩ := (Option.any_eq_true _ _).mp h
  obtain ⟨more, rfl⟩ := List.head?_eq_some_iff.mp hc
  have hne : ∀ d, d.isDigit = false → c ≠ d := by
    rintro d hd rfl
    rw [hd] at hdigit
    cases hdigit
  refine ⟨c, more, rfl, ?_⟩
  simp [isFirstChar, isSpace, hne ' ' rfl, hne '\t' rfl, hne '\n' rfl, hne '\r' rfl, hne ']' rfl,
    hne '\ufeff' rfl]

theorem begins_signed (negative : Bool) {ds : List Char} (h : ds.head?.any Char.isDigit = true) :
    Begins ((if negative then ['-'] else []) ++ ds) := by
  cases negative with
  | true => exact ⟨'-', ds, rfl, rfl⟩
  | false => exact begins_digits h

theorem readValue_digit {c : Char} (hc : c.isDigit = true) (fuel : Nat) (cs : List Char) :
    readValue accept (fuel + 1) (c :: cs) = readNumber false (c :: cs) := by
  rw [readValue]
  · exact if_pos hc
  all_goals
    rintro rest heq
    cases heq
    cases hc

theorem readValue_minus {c : Char} (hc : c.isDigit = true) (fuel : Nat) (cs : List Char) :
    readValue accept (fuel + 1) ('-' :: c :: cs) = readNumber true (c :: cs) := by
  rw [readValue]
  exact if_pos hc

-- A number is read by its digits, with its sign.
theorem readValue_signed (negative : Bool) {ds : List Char} (hd : ds.head?.any Char.isDigit = true)
    (fuel : Nat) :
    readValue accept (fuel + 1) ((if negative then ['-'] else []) ++ ds) = readNumber negative ds := by
  cases ds with
  | nil => cases hd
  | cons c ds =>
    cases negative with
    | true => exact readValue_minus hd fuel ds
    | false => exact readValue_digit hd fuel ds

theorem head?_digits {ds : List Char} (hd : AllDigits ds) (hne : ds ≠ []) (more : List Char) :
    (ds ++ more).head?.any Char.isDigit = true := by
  obtain ⟨c, rest, rfl⟩ := List.exists_cons_of_ne_nil hne
  exact hd c List.mem_cons_self

theorem head?_toDigits (m : Nat) (more : List Char) :
    (Nat.toDigits 10 m ++ more).head?.any Char.isDigit = true :=
  head?_digits (Binary64.allDigits_toDigits m) Nat.toDigits_ne_nil more

theorem head?_chars {n : Numeral} (hn : n.IsProper) (more : List Char) :
    (n.chars ++ more).head?.any Char.isDigit = true := by
  rw [Numeral.chars, List.append_assoc]
  exact head?_digits hn.whole hn.whole_ne_nil _

theorem readValue_int (n : Int) (fuel : Nat) (h : Ends isNumberChar rest) :
    readValue accept (fuel + 1) ((toString n).toList ++ rest) = .ok (.int n, rest) := by
  rw [toList_toString_int, List.append_assoc, readValue_signed _ (head?_toDigits _ _),
    readNumber_digits _ h]
  congr 3
  by_cases hneg : n < 0
  · rw [decide_eq_true hneg, if_pos rfl]
    omega
  · rw [decide_eq_false hneg, if_neg Bool.false_ne_true]
    omega

theorem readValue_float (x : Binary64) (fuel : Nat) (h : Ends isNumberChar rest) :
    readValue accept (fuel + 1) ((x.textWith Binary64.jsonLayout).toList ++ rest) =
      .ok (.float x, rest) := by
  cases x with
  | finite negative exponent fraction =>
    obtain ⟨n, hn, hplain, htext, hvalue⟩ := Binary64.json_text negative exponent fraction
    rw [htext, List.append_assoc, readValue_signed _ (head?_chars hn.toIsProper _),
      readNumber_numeral hn hplain negative h, hvalue]
  | infinite negative => cases negative <;> rfl
  | nan => rfl

theorem begins_int (n : Int) : Begins (toString n).toList := by
  have hdigits := head?_toDigits n.natAbs []
  rw [List.append_nil] at hdigits
  rw [toList_toString_int]
  exact begins_signed _ hdigits

theorem begins_float (x : Binary64) : Begins (x.textWith Binary64.jsonLayout).toList := by
  cases x with
  | finite negative exponent fraction =>
    obtain ⟨n, hn, -, htext, -⟩ := Binary64.json_text negative exponent fraction
    have hdigits := head?_chars hn.toIsProper []
    rw [List.append_nil] at hdigits
    rw [htext]
    exact begins_signed negative hdigits
  | infinite negative => cases negative <;> exact ⟨_, _, rfl, rfl⟩
  | nan => exact ⟨_, _, rfl, rfl⟩

-- Blanks in front of a value, and between its items, are skipped.
theorem isSpace_lineBreak (indent : Option Nat) (depth : Nat) :
    ∀ c ∈ (lineBreak indent depth).toList, isSpace c = true := by
  cases indent with
  | none => nofun
  | some n =>
    intro c hc
    simp only [lineBreak, String.toList_append, String.toList_ofList, List.mem_append,
      List.mem_replicate] at hc
    obtain hc | ⟨-, rfl⟩ := hc
    · obtain rfl : c = '\n' := by simpa using hc
      rfl
    · rfl

theorem skipSpace_append {spaces : List Char} (hs : ∀ c ∈ spaces, isSpace c = true)
    {cs : List Char} (h : Ends isSpace cs) : skipSpace (spaces ++ cs) = cs :=
  h.dropWhile_append hs

theorem skipSpace_blank {cs : List Char} (h : Ends isSpace cs) : skipSpace (' ' :: cs) = cs :=
  skipSpace_append (List.forall_mem_singleton.mpr rfl) h

theorem itemSeparator_eq (indent : Option Nat) (depth : Nat) :
    ∃ spaces, (itemSeparator indent depth).toList = ',' :: spaces ∧
      ∀ c ∈ spaces, isSpace c = true := by
  cases indent with
  | none => exact ⟨[' '], by simp [itemSeparator], by simp [isSpace]⟩
  | some n =>
    refine ⟨(lineBreak (some n) depth).toList, ?_, isSpace_lineBreak _ _⟩
    simp [itemSeparator]

-- No number goes on with what stands behind a value.
theorem ends_closing {closing : List Char} (hc : ∀ c ∈ closing, isSpace c = true) {bracket : Char}
    (hb : isNumberChar bracket = false) (rest : List Char) :
    Ends isNumberChar (closing ++ bracket :: rest) := by
  cases closing with
  | nil => exact ends_cons hb
  | cons c closing =>
    refine ends_cons ?_
    have hspace := hc c List.mem_cons_self
    simp only [isSpace, Bool.or_eq_true, decide_eq_true_eq] at hspace
    obtain ((rfl | rfl) | rfl) | rfl := hspace <;> rfl

section

variable {indent : Option Nat} {depth : Nat}

theorem writeAt_list (v : Value) (items : List Value) :
    (writeAt indent depth (.list (v :: items))).toList = '[' ::
      ((lineBreak indent (depth + 1)).toList ++
        ((Value.joined (itemSeparator indent (depth + 1))
          (writeItems indent (depth + 1) (v :: items))).toList ++
          ((lineBreak indent depth).toList ++ [']']))) := by
  rw [writeAt]
  · simp
  · nofun

theorem writeAt_object (field : String × Value) (fields : List (String × Value)) :
    (writeAt indent depth (.object (field :: fields))).toList = '{' ::
      ((lineBreak indent (depth + 1)).toList ++
        ((Value.joined (itemSeparator indent (depth + 1))
          (writeFields indent (depth + 1) (field :: fields))).toList ++
          ((lineBreak indent depth).toList ++ ['}']))) := by
  rw [writeAt]
  · simp
  · nofun

theorem begins_writeAt (indent : Option Nat) (depth : Nat) {v : Value} (hv : v.isJson = true) :
    Begins (writeAt indent depth v).toList := by
  cases v with
  | null => exact ⟨'n', ['u', 'l', 'l'], by simp [writeAt], rfl⟩
  | bool b =>
    cases b with
    | true => exact ⟨'t', ['r', 'u', 'e'], by simp [writeAt], rfl⟩
    | false => exact ⟨'f', ['a', 'l', 's', 'e'], by simp [writeAt], rfl⟩
  | int n => exact begins_int n
  | float x => exact begins_float x
  | text s =>
    obtain ⟨cs, hcs, -⟩ := @readString_stringText Empty s []
    rw [List.append_nil] at hcs
    exact ⟨'"', cs, by rw [writeAt, hcs], rfl⟩
  | moment t => cases hv
  | day d => cases hv
  | list items =>
    cases items with
    | nil => exact ⟨'[', [']'], by simp [writeAt], rfl⟩
    | cons v items => exact ⟨_, _, writeAt_list v items, rfl⟩
  | object fields =>
    cases fields with
    | nil => exact ⟨'{', ['}'], by simp [writeAt], rfl⟩
    | cons field fields => exact ⟨_, _, writeAt_object field fields, rfl⟩

theorem joined_cons (separator s : String) (t : String) (more : List String) :
    (Value.joined separator (s :: t :: more)).toList =
      s.toList ++ (separator.toList ++ (Value.joined separator (t :: more)).toList) := by
  rw [Value.joined]
  · simp
  · nofun

end

-- One step of each reader.
section

variable {fuel : Nat} {cs next spaces : List Char} {v : Value} {acc : List Value}
  {fields : List (String × Value)} {name : String}

theorem readValue_list (h : Begins (skipSpace cs)) :
    readValue accept (fuel + 1) ('[' :: cs) = readItems accept fuel [] (skipSpace cs) := by
  obtain ⟨c, more, heq, hc⟩ := h
  rw [readValue, heq]
  split
  · next hbracket =>
    cases hbracket
    cases hc
  · rfl

theorem readValue_object (h : skipSpace cs = '"' :: next) :
    readValue accept (fuel + 1) ('{' :: cs) = readFields accept fuel [] ('"' :: next) := by
  rw [readValue, h]
  rfl

theorem readValue_text (s : String) :
    readValue accept (fuel + 1) ((stringText s).toList ++ rest) = .ok (.text s, rest) := by
  obtain ⟨cs, hcs, hread⟩ := readString_stringText (ε := ε) s rest
  rw [hcs, readValue, hread]
  rfl

variable (hs : ∀ c ∈ spaces, isSpace c = true)
include hs

theorem readItems_last (hread : readValue accept fuel cs = .ok (v, spaces ++ ']' :: rest)) :
    readItems accept (fuel + 1) acc cs = .ok (.list (acc.reverse ++ [v]), rest) := by
  have hskip : skipSpace (spaces ++ ']' :: rest) = ']' :: rest :=
    skipSpace_append hs (ends_cons rfl)
  rw [readItems, hread]
  simp only [bind, Except.bind, hskip, List.reverse_cons]

theorem readItems_more (hread : readValue accept fuel cs = .ok (v, ',' :: (spaces ++ next)))
    (hn : Ends isSpace next) :
    readItems accept (fuel + 1) acc cs = readItems accept fuel (v :: acc) next := by
  have hskip : skipSpace (',' :: (spaces ++ next)) = ',' :: (spaces ++ next) := rfl
  rw [readItems, hread]
  simp only [bind, Except.bind, hskip, skipSpace_append hs hn]

theorem readFields_last (hv : Ends isSpace cs)
    (hread : readValue accept fuel cs = .ok (v, spaces ++ '}' :: rest)) :
    readFields accept (fuel + 1) fields ((stringText name).toList ++ ':' :: ' ' :: cs) =
      finish accept ((name, v) :: fields) rest := by
  obtain ⟨named, hnamed, hname⟩ := readString_stringText (ε := ε) name (':' :: ' ' :: cs)
  have hcolon : skipSpace (':' :: ' ' :: cs) = ':' :: ' ' :: cs := rfl
  have hblank : skipSpace (' ' :: cs) = cs := skipSpace_blank hv
  have hskip : skipSpace (spaces ++ '}' :: rest) = '}' :: rest :=
    skipSpace_append hs (ends_cons rfl)
  rw [hnamed, readFields, hname]
  simp only [bind, Except.bind, hcolon, hblank, hread, hskip]

theorem readFields_more (hv : Ends isSpace cs)
    (hread : readValue accept fuel cs = .ok (v, ',' :: (spaces ++ next)))
    (hn : Ends isSpace next) :
    readFields accept (fuel + 1) fields ((stringText name).toList ++ ':' :: ' ' :: cs) =
      readFields accept fuel ((name, v) :: fields) next := by
  obtain ⟨named, hnamed, hname⟩ := readString_stringText (ε := ε) name (':' :: ' ' :: cs)
  have hcolon : skipSpace (':' :: ' ' :: cs) = ':' :: ' ' :: cs := rfl
  have hblank : skipSpace (' ' :: cs) = cs := skipSpace_blank hv
  have hskip : skipSpace (',' :: (spaces ++ next)) = ',' :: (spaces ++ next) := rfl
  rw [hnamed, readFields, hname]
  simp only [bind, Except.bind, hcolon, hblank, hread, hskip, skipSpace_append hs hn]

end

section

variable (accept) {indent : Option Nat}

-- An allowance with which every value that can be written in so many characters is read back.
def ReadsBack (indent : Option Nat) (fuel : Nat) : Prop :=
  ∀ ⦃v w depth rest⦄, v.isJson = true → Becomes accept v w →
    2 * (writeAt indent depth v).toList.length ≤ fuel → Ends isNumberChar rest →
    readValue accept fuel ((writeAt indent depth v).toList ++ rest) = .ok (w, rest)

variable {accept} {depth fuel : Nat} {closing : List Char}

theorem begins_joinedItems (indent : Option Nat) (depth : Nat) (separator : String) {v : Value}
    (hv : v.isJson = true) (items : List Value) :
    Begins (Value.joined separator (writeItems indent depth (v :: items))).toList := by
  have hbegins := begins_writeAt indent depth hv
  cases items with
  | nil => exact hbegins
  | cons w items =>
    rw [writeItems, writeItems, joined_cons]
    exact hbegins.append _

theorem readItems_writeItems (hread : ∀ f < fuel, ReadsBack accept indent f)
    (hclosing : ∀ c ∈ closing, isSpace c = true) {v : Value} {items ws acc : List Value}
    (hv : Value.areJson (v :: items) = true) (hb : ItemsBecome accept (v :: items) ws)
    (hfuel : 2 * (Value.joined (itemSeparator indent depth)
      (writeItems indent depth (v :: items))).toList.length < fuel) :
    readItems accept fuel acc ((Value.joined (itemSeparator indent depth)
      (writeItems indent depth (v :: items))).toList ++ (closing ++ ']' :: rest)) =
      .ok (.list (acc.reverse ++ ws), rest) := by
  induction items generalizing v ws acc fuel with
  | nil =>
    obtain ⟨fuel, rfl⟩ : ∃ f, fuel = f + 1 := ⟨fuel - 1, by omega⟩
    obtain ⟨w, more, hw, hmore, rfl⟩ := hb
    obtain rfl : more = [] := hmore
    rw [Value.areJson, Bool.and_eq_true] at hv
    simp only [writeItems, Value.joined] at hfuel
    exact readItems_last hclosing
      (hread fuel (by omega) hv.1 hw (by omega) (ends_closing hclosing rfl rest))
  | cons next items ih =>
    obtain ⟨fuel, rfl⟩ : ∃ f, fuel = f + 1 := ⟨fuel - 1, by omega⟩
    obtain ⟨w, more, hw, hmore, rfl⟩ := hb
    rw [Value.areJson, Bool.and_eq_true] at hv
    obtain ⟨spaces, hseparator, hspaces⟩ := itemSeparator_eq indent depth
    have hnext := begins_joinedItems indent depth (itemSeparator indent depth)
      (Bool.and_eq_true_iff.mp hv.2).1 items
    rw [writeItems, writeItems, joined_cons, ← writeItems, hseparator] at hfuel ⊢
    simp only [List.length_append, List.length_cons] at hfuel
    simp only [List.append_assoc, List.cons_append]
    rw [readItems_more hspaces (hread fuel (by omega) hv.1 hw (by omega) (ends_cons rfl))
      (hnext.append _).ends, ih (fun f hf => hread f (by omega)) hv.2 hmore (by omega)]
    simp

-- Fields begin with the quote of the first name.
theorem joinedFields_eq (indent : Option Nat) (depth : Nat) (separator name : String) (v : Value)
    (fields : List (String × Value)) :
    ∃ cs, (Value.joined separator (writeFields indent depth ((name, v) :: fields))).toList =
      '"' :: cs := by
  obtain ⟨cs, hcs, -⟩ := @readString_stringText Empty name []
  rw [List.append_nil] at hcs
  cases fields with
  | nil =>
    rw [writeFields, writeFields, Value.joined, String.toList_append, String.toList_append, hcs]
    exact ⟨_, rfl⟩
  | cons field fields =>
    rw [writeFields, writeFields, joined_cons, String.toList_append, String.toList_append, hcs]
    exact ⟨_, rfl⟩

theorem readFields_writeFields (hread : ∀ f < fuel, ReadsBack accept indent f)
    (hclosing : ∀ c ∈ closing, isSpace c = true) {name : String} {v : Value}
    {fields ws acc : List (String × Value)}
    (hv : Value.haveJson ((name, v) :: fields) = true)
    (hb : FieldsBecome accept ((name, v) :: fields) ws)
    (hfuel : 2 * (Value.joined (itemSeparator indent depth)
      (writeFields indent depth ((name, v) :: fields))).toList.length < fuel) :
    readFields accept fuel acc ((Value.joined (itemSeparator indent depth)
      (writeFields indent depth ((name, v) :: fields))).toList ++ (closing ++ '}' :: rest)) =
      finish accept (ws.reverse ++ acc) rest := by
  have hcolon : (": " : String).toList = [':', ' '] := rfl
  induction fields generalizing name v ws acc fuel with
  | nil =>
    obtain ⟨fuel, rfl⟩ : ∃ f, fuel = f + 1 := ⟨fuel - 1, by omega⟩
    obtain ⟨w, more, hw, hmore, rfl⟩ := hb
    obtain rfl : more = [] := hmore
    rw [Value.haveJson, Bool.and_eq_true] at hv
    simp only [writeFields, Value.joined, String.toList_append, hcolon, List.length_append] at hfuel
    simp only [writeFields, Value.joined, String.toList_append, hcolon, List.append_assoc,
      List.cons_append, List.nil_append]
    exact readFields_last hclosing ((begins_writeAt indent depth hv.1).append _).ends
      (hread fuel (by omega) hv.1 hw (by omega) (ends_closing hclosing rfl rest))
  | cons field fields ih =>
    obtain ⟨other, u⟩ := field
    obtain ⟨fuel, rfl⟩ : ∃ f, fuel = f + 1 := ⟨fuel - 1, by omega⟩
    obtain ⟨w, more, hw, hmore, rfl⟩ := hb
    rw [Value.haveJson, Bool.and_eq_true] at hv
    obtain ⟨spaces, hseparator, hspaces⟩ := itemSeparator_eq indent depth
    obtain ⟨next, hnext⟩ := joinedFields_eq indent depth (itemSeparator indent depth) other u fields
    have hends : Ends isSpace ((Value.joined (itemSeparator indent depth)
        (writeFields indent depth ((other, u) :: fields))).toList ++ (closing ++ '}' :: rest)) := by
      rw [hnext]
      exact ends_cons rfl
    rw [writeFields, writeFields, joined_cons, ← writeFields, hseparator] at hfuel ⊢
    simp only [String.toList_append, hcolon, List.length_append, List.length_cons] at hfuel
    simp only [String.toList_append, hcolon, List.append_assoc, List.cons_append, List.nil_append]
    rw [readFields_more hspaces ((begins_writeAt indent depth hv.1).append _).ends
      (hread fuel (by omega) hv.1 hw (by omega) (ends_cons rfl)) hends,
      ih (fun f hf => hread f (by omega)) hv.2 hmore (by omega)]
    simp

-- Fields with different names are all that is left of them.
theorem ofPairs_of_nodup {fields : List (String × Value)} (h : (fields.map (·.1)).Nodup) :
    Fields.ofPairs fields = fields := by
  have hfold : ∀ (more front : List (String × Value)), ((front ++ more).map (·.1)).Nodup →
      more.foldl (fun fields p => Fields.set fields p.1 p.2) front = front ++ more := by
    intro more
    induction more with
    | nil => exact fun front _ => (List.append_nil front).symm
    | cons p more ih =>
      intro front hnodup
      have hnew : front.any (·.1 == p.1) = false := by
        rw [List.map_append, List.map_cons, List.nodup_append] at hnodup
        rw [List.any_eq_false]
        intro q hq
        simpa using hnodup.2.2 q.1 (List.mem_map_of_mem hq) p.1 List.mem_cons_self
      rw [List.foldl_cons, Fields.set, hnew, if_neg Bool.false_ne_true, ih _ (by simpa using hnodup)]
      simp
  exact hfold fields [] h

theorem finish_of_nodup {fields : List (String × Value)} (h : (fields.map (·.1)).Nodup) {w : Value}
    (ha : accept fields = .ok w) (rest : List Char) :
    finish accept fields.reverse rest = .ok (w, rest) := by
  rw [finish, List.reverse_reverse, ofPairs_of_nodup h, ha]

-- Fields keep their names.
theorem names_of_become {fields ws : List (String × Value)} (h : FieldsBecome accept fields ws) :
    ws.map (·.1) = fields.map (·.1) := by
  induction fields generalizing ws with
  | nil =>
    obtain rfl : ws = [] := h
    rfl
  | cons field fields ih =>
    obtain ⟨w, more, -, hmore, rfl⟩ := h
    rw [List.map_cons, List.map_cons, ih hmore]

theorem readsBack (accept : List (String × Value) → Except ε Value) (indent : Option Nat)
    (fuel : Nat) : ReadsBack accept indent fuel := by
  induction fuel using Nat.strongRecOn with
  | _ fuel ih =>
    intro v w depth rest hv hb hfuel h
    have hpos : 0 < (writeAt indent depth v).toList.length := by
      obtain ⟨c, more, hcs, -⟩ := begins_writeAt indent depth hv
      simp [hcs]
    obtain ⟨fuel, rfl⟩ : ∃ f, fuel = f + 1 := ⟨fuel - 1, by omega⟩
    cases v with
    | null =>
      obtain rfl : w = .null := hb
      have htext : (writeAt indent depth .null).toList = ['n', 'u', 'l', 'l'] := by simp [writeAt]
      rw [htext]
      rfl
    | bool b =>
      obtain rfl : w = .bool b := hb
      cases b with
      | true =>
        have htext : (writeAt indent depth (.bool true)).toList = ['t', 'r', 'u', 'e'] := by
          simp [writeAt]
        rw [htext]
        rfl
      | false =>
        have htext : (writeAt indent depth (.bool false)).toList = ['f', 'a', 'l', 's', 'e'] := by
          simp [writeAt]
        rw [htext]
        rfl
    | int n =>
      obtain rfl : w = .int n := hb
      rw [writeAt]
      exact readValue_int n fuel h
    | float x =>
      obtain rfl : w = .float x := hb
      rw [writeAt]
      exact readValue_float x fuel h
    | text s =>
      obtain rfl : w = .text s := hb
      rw [writeAt]
      exact readValue_text s
    | moment t => cases hv
    | day d => cases hv
    | list items =>
      obtain ⟨ws, hitems, rfl⟩ := hb
      cases items with
      | nil =>
        obtain rfl : ws = [] := hitems
        have htext : (writeAt indent depth (.list [])).toList = ['[', ']'] := by simp [writeAt]
        rw [htext]
        rfl
      | cons v items =>
        rw [Value.isJson] at hv
        rw [writeAt_list] at hfuel ⊢
        simp only [List.length_append, List.length_cons] at hfuel
        simp only [List.append_assoc, List.cons_append, List.nil_append]
        have hbegins := (begins_joinedItems indent (depth + 1) (itemSeparator indent (depth + 1))
          (Bool.and_eq_true_iff.mp hv).1 items).append
            ((lineBreak indent depth).toList ++ ']' :: rest)
        have hskip := skipSpace_append (isSpace_lineBreak indent (depth + 1)) hbegins.ends
        rw [readValue_list (by rwa [hskip]), hskip,
          readItems_writeItems (fun f hf => ih f (by omega)) (isSpace_lineBreak indent depth) hv
            hitems (by omega)]
        rfl
    | object fields =>
      obtain ⟨ws, hfields, haccept⟩ := hb
      rw [Value.isJson, Bool.and_eq_true, decide_eq_true_eq] at hv
      have hnodup : (ws.map (·.1)).Nodup := names_of_become hfields ▸ hv.1
      cases fields with
      | nil =>
        obtain rfl : ws = [] := hfields
        have htext : (writeAt indent depth (.object [])).toList = ['{', '}'] := by simp [writeAt]
        rw [htext]
        exact finish_of_nodup hnodup haccept rest
      | cons field fields =>
        obtain ⟨name, v⟩ := field
        rw [writeAt_object] at hfuel ⊢
        simp only [List.length_append, List.length_cons] at hfuel
        simp only [List.append_assoc, List.cons_append, List.nil_append]
        obtain ⟨next, hnext⟩ := joinedFields_eq indent (depth + 1)
          (itemSeparator indent (depth + 1)) name v fields
        have hread : readFields accept fuel [] ((Value.joined (itemSeparator indent (depth + 1))
            (writeFields indent (depth + 1) ((name, v) :: fields))).toList ++
              ((lineBreak indent depth).toList ++ '}' :: rest)) =
            finish accept (ws.reverse ++ []) rest :=
          readFields_writeFields (fun f hf => ih f (by omega)) (isSpace_lineBreak indent depth)
            hv.2 hfields (by omega)
        rw [hnext, List.cons_append] at hread ⊢
        rw [readValue_object (skipSpace_append (isSpace_lineBreak indent (depth + 1))
          (ends_cons rfl)), hread, List.append_nil, finish_of_nodup hnodup haccept]

end

-- JSON text of some data is read as what becomes of this data.
theorem readWith_write (indent : Option Nat) {v w : Value} (hv : v.isJson = true)
    (hb : Becomes accept v w) : readWith accept (write indent v) = .ok w := by
  have hread : readValue accept (2 * (write indent v).toList.length + 2)
      ((write indent v).toList ++ []) = .ok (w, []) :=
    readsBack accept indent _ hv hb (Nat.le_add_right _ _) (ends_nil _)
  obtain ⟨c, more, hcs, hc⟩ := begins_writeAt indent 0 hv
  have hbegins : Begins (write indent v).toList := ⟨c, more, hcs, hc⟩
  have hskip : skipSpace (write indent v).toList = (write indent v).toList :=
    skipSpace_append (List.forall_mem_nil _) hbegins.ends
  have hmark : (write indent v).toList.head? ≠ some '\ufeff' := by
    rw [write, hcs]
    rintro ⟨⟩
    cases hc
  rw [List.append_nil] at hread
  unfold readWith
  dsimp only
  rw [if_neg hmark, hskip, hread]
  rfl

mutual

-- Data stays as it is if the caller leaves every object as it is.
theorem becomes_self (h : ∀ fields, accept fields = .ok (.object fields)) :
    ∀ v, Becomes accept v v
  | .list items => ⟨items, itemsBecome_self h items, rfl⟩
  | .object fields => ⟨fields, fieldsBecome_self h fields, h fields⟩
  | .null | .bool _ | .int _ | .float _ | .text _ | .moment _ | .day _ => rfl

theorem itemsBecome_self (h : ∀ fields, accept fields = .ok (.object fields)) :
    ∀ items, ItemsBecome accept items items
  | [] => rfl
  | v :: rest => ⟨v, rest, becomes_self h v, itemsBecome_self h rest, rfl⟩

theorem fieldsBecome_self (h : ∀ fields, accept fields = .ok (.object fields)) :
    ∀ fields, FieldsBecome accept fields fields
  | [] => rfl
  | (_, v) :: rest => ⟨v, rest, becomes_self h v, fieldsBecome_self h rest, rfl⟩

end

theorem read_write (indent : Option Nat) {v : Value} (hv : v.isJson = true) :
    read (write indent v) = .ok v :=
  readWith_write indent hv (becomes_self (fun _ => rfl) v)

mutual

-- Restoring the moments of data is handing its objects over one by one.
theorem becomes_of_decode : ∀ {v w : Value}, decode v = .ok w → Becomes untag v w
  | .list items, w, h => by
    rw [decode] at h
    cases hitems : decodeItems items with
    | error e =>
      rw [hitems] at h
      cases h
    | ok ws =>
      rw [hitems] at h
      cases h
      exact ⟨ws, itemsBecome_of_decodeItems hitems, rfl⟩
  | .object fields, w, h => by
    rw [decode] at h
    cases hfields : decodeFields fields with
    | error e =>
      rw [hfields] at h
      cases h
    | ok ws =>
      rw [hfields] at h
      exact ⟨ws, fieldsBecome_of_decodeFields hfields, h⟩
  | .null, _, h | .bool _, _, h | .int _, _, h | .float _, _, h | .text _, _, h | .moment _, _, h
  | .day _, _, h => (Except.ok.inj h).symm

theorem itemsBecome_of_decodeItems : ∀ {items ws : List Value}, decodeItems items = .ok ws →
    ItemsBecome untag items ws
  | [], _, h => (Except.ok.inj h).symm
  | v :: items, ws, h => by
    obtain ⟨w, more, hw, hmore, rfl⟩ := decodeItems_eq_cons h
    exact ⟨w, more, becomes_of_decode hw, itemsBecome_of_decodeItems hmore, rfl⟩

theorem fieldsBecome_of_decodeFields : ∀ {fields ws : List (String × Value)},
    decodeFields fields = .ok ws → FieldsBecome untag fields ws
  | [], _, h => (Except.ok.inj h).symm
  | (k, v) :: fields, ws, h => by
    obtain ⟨w, more, hw, hmore, rfl⟩ := decodeFields_cons h
    exact ⟨w, more, becomes_of_decode hw, fieldsBecome_of_decodeFields hmore, rfl⟩

end

-- The same where moments are restored, as they are in data that is not text.
theorem load_write (indent : Option Nat) {v w : Value} (hv : v.isJson = true)
    (hb : Becomes untag v w) : load (write indent v) = .ok w := readWith_write indent hv hb

end Json

end Gleaner
