import Gleaner.Proofs.Number.Numeral
import Gleaner.Sql.Statement
import Gleaner.Text.Alphanumeric
import Mathlib.Data.List.TakeWhile

namespace Gleaner.Sql.Markup

-- What a backslash in front of a colon is dropped from is known by its first two characters.
theorem unescapeChars_escaped (cs : List Char) :
    unescapeChars ('\\' :: ':' :: cs) = ':' :: unescapeChars cs := rfl

theorem unescapeChars_plain {c : Char} {cs : List Char} (h : c = '\\' → cs.head? ≠ some ':') :
    unescapeChars (c :: cs) = c :: unescapeChars cs := by
  rw [unescapeChars]
  rintro rest rfl rfl
  exact h rfl rfl

theorem escapeChars_colon (cs : List Char) :
    escapeChars (':' :: cs) = '\\' :: ':' :: escapeChars cs := rfl

theorem escapeChars_plain {c : Char} (h : c ≠ ':') (cs : List Char) :
    escapeChars (c :: cs) = c :: escapeChars cs := by
  rw [escapeChars, List.flatMap_cons, if_neg h]
  rfl

-- An escaped text never begins with a colon.
theorem head?_escapeChars (cs : List Char) : (escapeChars cs).head? ≠ some ':' := by
  cases cs with
  | nil => nofun
  | cons c cs =>
    by_cases h : c = ':'
    · subst h
      rw [escapeChars_colon]
      simp
    · rw [escapeChars_plain h]
      simpa using h

theorem unescapeChars_escapeChars (cs : List Char) : unescapeChars (escapeChars cs) = cs := by
  induction cs with
  | nil => rfl
  | cons c cs ih =>
    by_cases h : c = ':'
    · subst h
      rw [escapeChars_colon, unescapeChars_escaped, ih]
    · rw [escapeChars_plain h, unescapeChars_plain fun _ => head?_escapeChars cs, ih]

theorem unescape_escape (text : String) : unescape (escape text) = text := by
  rw [unescape, escape, String.toList_ofList, unescapeChars_escapeChars, String.ofList_toList]

-- Other characters are neither lost nor added.
theorem mem_unescapeChars_iff {c : Char} (hc : c ≠ '\\') {cs : List Char} :
    c ∈ unescapeChars cs ↔ c ∈ cs := by
  induction cs using unescapeChars.induct with
  | case1 => rfl
  | case2 rest ih => simp [unescapeChars_escaped, ih, hc]
  | case3 d rest h ih =>
    have hplain : d = '\\' → rest.head? ≠ some ':' := by
      rintro rfl hhead
      obtain ⟨more, rfl⟩ := List.head?_eq_some_iff.mp hhead
      exact h more rfl rfl
    rw [unescapeChars_plain hplain, List.mem_cons, List.mem_cons, ih]

-- A colon marks a name unless it stands behind a backslash, another colon or a part of a word.
def Marks (text name : List Char) : Prop :=
  ∃ front back, text = front ++ ':' :: (name ++ back) ∧
    ∀ c ∈ front.getLast?, c ≠ '\\' ∧ c ≠ ':' ∧ Text.isWord c = false

-- A backslash in front of a colon and a word is dropped; the colon and the word stay.
inductive Unescapes : List Char → List Char → Prop
  | done : Unescapes [] []
  | escaped {word rest out : List Char} : (∀ c ∈ word, Text.isWord c = true) →
      Ends Text.isWord rest → Unescapes rest out →
      Unescapes ('\\' :: ':' :: (word ++ rest)) (':' :: (word ++ out))
  | plain {c : Char} {rest out : List Char} : (c = '\\' → rest.head? ≠ some ':') →
      Unescapes rest out → Unescapes (c :: rest) (c :: out)

-- All colons stand behind backslashes.
def IsEscaped (cs : List Char) : Prop :=
  ∀ front back, cs = front ++ ':' :: back → front.getLast? = some '\\'

-- Whatever takes the text of a statement: the names of the parameters it finds there, and the text
-- that is carried out.
structure Reader where
  parameters : String → List String
  executed : String → String

-- Parameters are found only where a colon marks them. What is carried out is known of a text whose
-- colons all stand behind backslashes.
structure Reader.IsConventional (reader : Reader) : Prop where
  marks : ∀ text, ∀ name ∈ reader.parameters text, Marks text.toList name.toList
  unescapes : ∀ text, IsEscaped text.toList →
    Unescapes text.toList (reader.executed text).toList

theorem unescapeChars_word {word : List Char} (h : ∀ c ∈ word, Text.isWord c = true)
    (rest : List Char) : unescapeChars (word ++ rest) = word ++ unescapeChars rest := by
  have hbackslash : Text.isWord '\\' = false := by decide +kernel
  induction word with
  | nil => rfl
  | cons c word ih =>
    obtain ⟨hc, hword⟩ := List.forall_mem_cons.mp h
    have hplain : c = '\\' → (word ++ rest).head? ≠ some ':' := by
      rintro rfl
      rw [hbackslash] at hc
      cases hc
    rw [List.cons_append, unescapeChars_plain hplain, ih hword]
    rfl

theorem Unescapes.eq {cs out : List Char} (h : Unescapes cs out) : out = unescapeChars cs := by
  induction h with
  | done => rfl
  | escaped hword _ _ ih => rw [unescapeChars_escaped, unescapeChars_word hword, ih]
  | plain hplain _ ih => rw [unescapeChars_plain hplain, ih]

theorem unescapes_unescapeChars (cs : List Char) : Unescapes cs (unescapeChars cs) := by
  -- The word behind a colon is passed at once, so the induction is on the length.
  induction hn : cs.length using Nat.strong_induction_on generalizing cs with
  | _ n ih =>
    subst hn
    cases cs with
    | nil => exact .done
    | cons c rest =>
      by_cases hescaped : c = '\\' ∧ rest.head? = some ':'
      · obtain ⟨rfl, hhead⟩ := hescaped
        obtain ⟨more, rfl⟩ := List.head?_eq_some_iff.mp hhead
        have hword : ∀ c ∈ more.takeWhile Text.isWord, Text.isWord c = true :=
          fun c hc => List.mem_takeWhile_imp hc
        have hshorter := (List.dropWhile_suffix Text.isWord (l := more)).length_le
        have hrest := ih _ (by simp only [List.length_cons]; omega)
          (more.dropWhile Text.isWord) rfl
        have hwhole := Unescapes.escaped hword (ends_dropWhile Text.isWord more) hrest
        rw [← unescapeChars_word hword, List.takeWhile_append_dropWhile] at hwhole
        exact hwhole
      · have hplain : c = '\\' → rest.head? ≠ some ':' := fun hc hhead =>
          hescaped ⟨hc, hhead⟩
        rw [unescapeChars_plain hplain]
        exact .plain hplain (ih _ (Nat.lt_succ_self _) rest rfl)

namespace IsEscaped

theorem append {cs ds : List Char} (hc : IsEscaped cs) (hd : IsEscaped ds) :
    IsEscaped (cs ++ ds) := by
  intro front back h
  rcases List.append_eq_append_iff.mp h with ⟨middle, rfl, hback⟩ | ⟨middle, hcs, hback⟩
  · rw [List.getLast?_append, hd middle back hback]
    rfl
  · cases middle with
    | nil =>
      have hlast := hd [] back (by simpa using hback.symm)
      cases hlast
    | cons c middle =>
      obtain ⟨rfl, -⟩ := List.cons.inj hback
      exact hc front middle hcs

theorem of_notMem {cs : List Char} (h : ':' ∉ cs) : IsEscaped cs := by
  rintro front back rfl
  simp at h

theorem pair : IsEscaped ['\\', ':'] := by
  intro front back h
  match front, h with
  | [_], h =>
    cases h
    rfl
  | _ :: _ :: _, h => simp at h

theorem escapeChars (cs : List Char) : IsEscaped (escapeChars cs) := by
  induction cs with
  | nil => exact of_notMem (by simp [Markup.escapeChars])
  | cons c cs ih =>
    by_cases h : c = ':'
    · subst h
      exact pair.append ih
    · rw [escapeChars_plain h]
      exact (of_notMem fun hmem => h (List.mem_singleton.mp hmem).symm).append ih

-- Where every colon stands behind a backslash, none marks a name.
theorem not_marks {text : List Char} (h : IsEscaped text) (name : List Char) :
    ¬Marks text name := by
  rintro ⟨front, back, htext, hfront⟩
  exact (hfront '\\' (h front _ htext)).1 rfl

end IsEscaped

-- Of a text in front of the escaped one nothing is dropped, as it has no colons.
theorem unescapeChars_append {front : List Char} (h : ':' ∉ front) (cs : List Char) :
    unescapeChars (front ++ escapeChars cs) = front ++ cs := by
  induction front with
  | nil => exact unescapeChars_escapeChars cs
  | cons c front ih =>
    obtain ⟨-, hfront⟩ := not_or.mp (mt List.mem_cons.mpr h)
    have hplain : (front ++ escapeChars cs).head? ≠ some ':' := by
      cases front with
      | nil => exact head?_escapeChars cs
      | cons d front =>
        rw [List.cons_append, List.head?_cons]
        rintro heq
        exact hfront (by simp [Option.some.inj heq])
    rw [List.cons_append, unescapeChars_plain fun _ => hplain, ih hfront, List.cons_append]

theorem unescape_append {front : String} (h : ':' ∉ front.toList) (text : String) :
    unescape (front ++ escape text) = front ++ text := by
  rw [unescape, escape, String.toList_append, String.toList_ofList, unescapeChars_append h,
    ← String.toList_append, String.ofList_toList]

-- A text behind one without colons is escaped and then carried out as it is, and none of its
-- colons marks a parameter.
theorem Reader.IsConventional.of_escape {reader : Reader} (h : reader.IsConventional)
    {front : String} (hfront : ':' ∉ front.toList) (text : String) :
    reader.parameters (front ++ escape text) = [] ∧
      reader.executed (front ++ escape text) = front ++ text := by
  have hlist : (front ++ escape text).toList = front.toList ++ escapeChars text.toList := by
    rw [String.toList_append, escape, String.toList_ofList]
  have hescaped : IsEscaped (front ++ escape text).toList := by
    rw [hlist]
    exact (IsEscaped.of_notMem hfront).append (IsEscaped.escapeChars _)
  refine ⟨List.eq_nil_iff_forall_not_mem.mpr fun name hname => ?_, String.toList_inj.mp ?_⟩
  · exact hescaped.not_marks _ (h.marks _ name hname)
  · rw [(h.unescapes _ hescaped).eq, hlist, unescapeChars_append hfront, String.toList_append]

-- The words behind colons that mark them, given what stands before the text.
def markedWords (before : Option Char) : List Char → List String
  | [] => []
  | c :: rest =>
    let word := rest.takeWhile Text.isWord
    let more := markedWords (some c) rest
    let free := before.all fun b => b ≠ '\\' && b ≠ ':' && !Text.isWord b
    if c = ':' ∧ word ≠ [] ∧ free = true then String.ofList word :: more else more

theorem marks_of_mem_markedWords {before : Option Char} {cs : List Char} {name : String}
    (front : List Char) (hbefore : front.getLast? = before)
    (h : name ∈ markedWords before cs) : Marks (front ++ cs) name.toList := by
  induction cs generalizing front before with
  | nil => cases h
  | cons c rest ih =>
    have hrest : name ∈ markedWords (some c) rest → Marks (front ++ c :: rest) name.toList := by
      intro hmem
      have hmarks := ih (front ++ [c]) List.getLast?_concat hmem
      rwa [List.append_assoc] at hmarks
    unfold markedWords at h
    dsimp only at h
    split at h
    next hword =>
      rcases List.mem_cons.mp h with rfl | hmem
      · obtain ⟨rfl, -, hfree⟩ := hword
        refine ⟨front, rest.dropWhile Text.isWord, ?_, fun b hb => ?_⟩
        · rw [String.toList_ofList, List.takeWhile_append_dropWhile]
        · obtain rfl : before = some b := hbefore.symm.trans hb
          simpa [and_assoc] using hfree
      · exact hrest hmem
    next => exact hrest h

-- Takes a word behind a colon that marks it as the name of a parameter, and drops backslashes.
def wordReader : Reader where
  parameters text := markedWords none text.toList
  executed := unescape

theorem wordReader_isConventional : wordReader.IsConventional where
  marks text name hname := marks_of_mem_markedWords [] rfl hname
  unescapes text _ := by
    have hexecuted : (wordReader.executed text).toList = unescapeChars text.toList :=
      String.toList_ofList
    rw [hexecuted]
    exact unescapes_unescapeChars text.toList

end Gleaner.Sql.Markup
