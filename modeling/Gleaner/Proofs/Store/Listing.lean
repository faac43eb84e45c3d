import Gleaner.Proofs.Sql.Markup
import Gleaner.Proofs.Store.Confinement
import Gleaner.Proofs.Where.Unchecked

namespace Gleaner

open Sql

theorem Sql.colon_notMem_of_isPlainName {name : String} (h : isPlainName name = true) :
    ':' ∉ name.toList := by
  unfold isPlainName at h
  split at h
  next => cases h
  next c rest hname =>
    simp only [Bool.and_eq_true, List.all_eq_true] at h
    obtain ⟨⟨⟨⟨hc, -⟩, -⟩, hrest⟩, -⟩ := h
    rw [hname, List.mem_cons, not_or]
    constructor
    · rintro rfl
      exact absurd hc (by decide)
    · intro hmem
      exact absurd (hrest ':' hmem) (by decide)

namespace Where

section

variable {fields : List (String × Value)}

theorem compile_notItems (hcondition : Fields.get? fields "condition" = none) {v : Value}
    (hand : Fields.get? fields "and" = some v) (hv : ∀ children, v = .list children → False) :
    compile (.object fields) = .error .malformed := by
  rw [compile, hcondition]
  dsimp only
  split
  · next children hsome =>
    cases hand.symm.trans hsome
    exact (hv children rfl).elim
  · rfl
  · next hnone => cases hand.symm.trans hnone

theorem compile_neither (hcondition : Fields.get? fields "condition" = none)
    (hand : Fields.get? fields "and" = none)
    (hor : ∀ children, Fields.get? fields "or" = some (.list children) → False) :
    compile (.object fields) = .error .malformed := by
  rw [compile, hcondition]
  dsimp only
  split
  · next hsome => cases hand.symm.trans hsome
  · next hsome => cases hand.symm.trans hsome
  · split
    · next children hsome => exact (hor children hsome).elim
    · rfl

end

theorem leafText_ne_empty {column text : String} {operator : Operator} {value : Value}
    (h : leafText column operator value = .ok text) : text ≠ "" := by
  -- Behind the column stands at least a space or a parenthesis.
  unfold leafText at h
  split at h
  case h_1 =>
    obtain ⟨s, -, h⟩ := except_bind_eq_ok h
    cases h
    simp
  case h_2 =>
    obtain ⟨s, -, h⟩ := except_bind_eq_ok h
    cases h
    simp
  case h_3 =>
    split at h
    · obtain ⟨items, -, h⟩ := except_bind_eq_ok h
      cases h
      simp
    · cases h
  case h_4 =>
    cases h
    simp
  case h_5 =>
    split at h
    · split at h
      · obtain ⟨low, -, h⟩ := except_bind_eq_ok h
        obtain ⟨high, -, h⟩ := except_bind_eq_ok h
        cases h
        simp
      · cases h
    · cases h

theorem conditionText_ne_empty {fields : List (String × Value)} {condition : Value} {text : String}
    (h : conditionText fields condition = .ok text) : text ≠ "" := by
  unfold conditionText at h
  split at h
  · split at h
    · split at h
      · exact leafText_ne_empty h
      · cases h
    · cases h
    · cases h
    · cases h
  · cases h

theorem groupText_ne_empty {joiner empty : String} (hempty : empty ≠ "") (negated : Bool)
    {texts : List String} (h : ∀ s ∈ texts, s ≠ "") : groupText joiner empty negated texts ≠ "" := by
  unfold groupText
  dsimp only
  split
  · split
    · exact hempty
    · exact h _ List.mem_cons_self
    · simp
  · split <;> simp

theorem group_ne_empty {joiner empty text : String} (hempty : empty ≠ "") {negated : Bool}
    {children : List Value}
    (hchildren : ∀ texts, compileAll children = .ok texts → ∀ s ∈ texts, s ≠ "")
    (h : (compileAll children).map (groupText joiner empty negated) = .ok text) : text ≠ "" := by
  cases htexts : compileAll children with
  | error e =>
    rw [htexts] at h
    cases h
  | ok texts =>
    rw [htexts] at h
    cases h
    exact groupText_ne_empty hempty negated (hchildren texts htexts)

theorem compile_ne_empty (v : Value) : ∀ text, compile v = .ok text → text ≠ "" := by
  refine compile.induct (fun v => ∀ text, compile v = .ok text → text ≠ "")
    (fun vs => ∀ texts, compileAll vs = .ok texts → ∀ s ∈ texts, s ≠ "") ?leaf ?conjunction
    ?notItems ?disjunction ?neither ?notObject ?nil ?cons v
  case leaf =>
    intro fields condition hcondition text h
    rw [compile, hcondition] at h
    exact conditionText_ne_empty h
  case conjunction =>
    intro fields hcondition children hand ih text h
    rw [compile_conjunction hcondition hand] at h
    exact group_ne_empty (by decide) ih h
  case disjunction =>
    intro fields hcondition hand children hor ih text h
    rw [compile_disjunction hcondition hand hor] at h
    exact group_ne_empty (by decide) ih h
  case notItems =>
    intro fields hcondition w hw hand text h
    rw [compile_notItems hcondition hand hw] at h
    cases h
  case neither =>
    intro fields hcondition hand hor text h
    rw [compile_neither hcondition hand hor] at h
    cases h
  case notObject =>
    intro w hw text h
    rw [compile] at h
    · cases h
    · exact hw
  case nil =>
    intro texts h
    rw [compileAll] at h
    cases h
    exact List.forall_mem_nil _
  case cons =>
    intro v rest hv hrest texts h
    rw [compileAll] at h
    obtain ⟨s, hs, h⟩ := except_bind_eq_ok h
    obtain ⟨more, hmore, h⟩ := except_bind_eq_ok h
    cases h
    exact List.forall_mem_cons.mpr ⟨hv s hs, hrest more hmore⟩

end Where

-- What a filter is written into to list the rows of a table whose name needs no quotes.
theorem Sql.Statement.marked_plain {table : String} (h : isPlainName table = true)
    (filter : String) :
    marked table (some filter) = "SELECT * FROM " ++ table ++ " WHERE " ++ filter := by
  have hname : quotedName table = table := if_pos h
  calc marked table (some filter)
      = "SELECT * FROM " ++ quotedName table ++ (" WHERE " ++ filter) := rfl
    _ = "SELECT * FROM " ++ table ++ (" WHERE " ++ filter) := by rw [hname]
    _ = "SELECT * FROM " ++ table ++ " WHERE " ++ filter := String.append_assoc.symm

-- The rows of a source are listed by one statement, which is the text of the filter as it stands
-- behind the name of the table: whatever takes the text reads no colon of it as a parameter and
-- has its backslashes where they were. No filter has the empty text, which would list all rows.
theorem rows_executes_text {reader : Markup.Reader} (hreader : reader.IsConventional)
    {sources : List (String × String)} {source table : String}
    (hsource : tableOf? sources source = some table) (hplain : isPlainName table = true) :
    (∀ v text, Where.compile v = .ok text → text ≠ "") ∧
      ∀ text, text ≠ "" → ∃ filter,
        (∀ {σ : Type} (execute : Statement → Effect σ (List Row)),
          TableStore.rows execute sources source (some text) =
            execute (.all table (some filter))) ∧
        (Statement.all table (some filter)).parameters = [] ∧
        (Statement.all table (some filter)).text =
          "SELECT * FROM " ++ table ++ " WHERE " ++ text ∧
        reader.parameters (Statement.marked table (some filter)) = [] ∧
        reader.executed (Statement.marked table (some filter)) =
          "SELECT * FROM " ++ table ++ " WHERE " ++ text := by
  have hfront : ':' ∉ ("SELECT * FROM " ++ table ++ " WHERE ").toList := by
    have hselect : ':' ∉ "SELECT * FROM ".toList := by decide
    have hwhere : ':' ∉ " WHERE ".toList := by decide
    simp only [String.toList_append, List.mem_append, not_or]
    exact ⟨⟨hselect, colon_notMem_of_isPlainName hplain⟩, hwhere⟩
  refine ⟨Where.compile_ne_empty, fun text htext => ⟨Markup.escape text, ?_, rfl, ?_⟩⟩
  · intro σ execute
    exact rows_eq hsource htext
  · have hmarked := Statement.marked_plain hplain (Markup.escape text)
    have hwritten : (Statement.all table (some (Markup.escape text))).text =
        Markup.unescape (Statement.marked table (some (Markup.escape text))) := rfl
    rw [hwritten, hmarked]
    exact ⟨Markup.unescape_append hfront text, hreader.of_escape hfront text⟩

-- A literal with a colon that marks a name, one behind a backslash, two in a row and a backslash at
-- the end.
theorem rows_executes_text_colons :
    Markup.wordReader.IsConventional ∧ tableOf? [("shops", "shop")] "shops" = some "shop" ∧
    isPlainName "shop" = true ∧
    Markup.Marks "SELECT * FROM shop WHERE a = ':b \\:c::d \\'".toList "b".toList ∧
    ∃ filter,
      Markup.wordReader.parameters (Statement.marked "shop" (some filter)) = [] ∧
      Markup.wordReader.executed (Statement.marked "shop" (some filter)) =
        "SELECT * FROM shop WHERE a = ':b \\:c::d \\'" := by
  have hplain : isPlainName "shop" = true := by decide
  have hsource : tableOf? [("shops", "shop")] "shops" = some "shop" := rfl
  have hmarks : Markup.Marks "SELECT * FROM shop WHERE a = ':b \\:c::d \\'".toList "b".toList := by
    have hquote : Text.isWord '\'' = false := by decide +kernel
    refine ⟨"SELECT * FROM shop WHERE a = '".toList, " \\:c::d \\'".toList, by rfl, ?_⟩
    intro c hc
    obtain rfl : '\'' = c := Option.some.inj hc
    exact ⟨by decide, by decide, hquote⟩
  obtain ⟨filter, -, -, -, hparameters, hexecuted⟩ :=
    (rows_executes_text Markup.wordReader_isConventional hsource hplain).2 "a = ':b \\:c::d \\'"
      (by decide)
  exact ⟨Markup.wordReader_isConventional, hsource, hplain, hmarks, filter, hparameters, hexecuted⟩

end Gleaner
