import Gleaner.Proofs.Where.Tree

namespace Gleaner

open Sql

theorem isBareWord_of_isName {cs : List Char} (h : Filter.isName cs = true) :
    isBareWord cs = true := by
  cases cs with
  | nil => cases h
  | cons c cs =>
    simp only [Filter.isName, Bool.and_eq_true, List.all_eq_true] at h
    simp only [isBareWord, Bool.and_eq_true, List.all_eq_true]
    refine ⟨?_, fun d hd => ?_⟩
    · have := h.1
      simp only [Filter.isNameStart, Bool.or_eq_true, decide_eq_true_eq] at this
      simp only [isNameStart, Bool.or_eq_true, decide_eq_true_eq]
      tauto
    · have := h.2 d hd
      simp only [Filter.isNamePart, Bool.or_eq_true, decide_eq_true_eq] at this
      simp only [isNameChar, Bool.or_eq_true, decide_eq_true_eq]
      tauto

section

variable {rest : List Char}

theorem ends_nameChar (h : Ends endsLiteral rest) : Ends isNameChar rest :=
  h.mono fun c hc => by simp [endsLiteral, endsNumeral, hc]

theorem ends_isDigit_of_isName {name : List Char} (h : Filter.isName name = true) :
    Ends Char.isDigit (name ++ rest) := by
  have hbare := isBareWord_of_isName h
  cases name with
  | nil => cases hbare
  | cons d ds =>
    rw [isBareWord, Bool.and_eq_true] at hbare
    rw [List.cons_append]
    refine ends_cons ?_
    by_contra hd
    rw [Bool.not_eq_false] at hd
    rw [isNameStart_of_isDigit hd] at hbare
    cases hbare.1

theorem scans_name {name : List Char} (h : Filter.isName name = true) (hr : Ends isNameChar rest) :
    Scans (name ++ rest) [.word (String.ofList name)] rest := by
  have hbare := isBareWord_of_isName h
  rw [← String.toList_ofList (l := name)] at hbare
  have := scans_bareWord hbare hr
  rwa [String.toList_ofList] at this

theorem scans_column {column : String} (h : Filter.isColumn column.toList = true)
    (hr : Ends isNameChar rest) :
    Scans (column.toList ++ rest) (columnTokens column) rest := by
  have hsplit := List.takeWhile_append_dropWhile (p := (· ≠ '.')) (l := column.toList)
  unfold Filter.isColumn at h
  unfold columnTokens columnPath
  generalize column.toList.takeWhile (· ≠ '.') = table at h hsplit ⊢
  cases hdrop : column.toList.dropWhile (· ≠ '.') with
  | nil =>
    rw [hdrop] at h hsplit
    rw [List.append_nil] at hsplit
    rw [hsplit] at h
    have := scans_name h hr
    rwa [String.ofList_toList] at this
  | cons c name =>
    have hc : c = '.' := by
      have := List.head?_dropWhile_not (· ≠ '.') column.toList
      rw [hdrop] at this
      simpa using this
    rw [hdrop] at h hsplit
    obtain ⟨htable, hname⟩ := Bool.and_eq_true_iff.mp h
    subst hc
    rw [← hsplit, List.append_assoc, List.cons_append]
    exact (scans_name htable (ends_cons (by decide))).append
      ((scans_point (ends_isDigit_of_isName hname)).append (scans_name hname hr))

-- Operators, with a space behind.
theorem scans_operator {w : String} (hw : isBareWord w.toList = true) :
    Scans (w.toList ++ ' ' :: rest) [.word w] (' ' :: rest) :=
  scans_bareWord hw (ends_cons (by decide))

-- An operator that may have `NOT` in front.
theorem scans_negatable (negated : Bool) {w nw : String} (hw : isBareWord w.toList = true)
    (hnw : nw.toList = "NOT".toList ++ ' ' :: w.toList) :
    Scans ((if negated then nw else w).toList ++ ' ' :: rest) (notTokens negated ++ [.word w])
      (' ' :: rest) := by
  cases negated with
  | false => exact scans_operator hw
  | true =>
    rw [if_pos rfl, hnw, List.append_assoc, List.cons_append]
    exact (scans_operator (by decide)).append (scans_operator hw).space

theorem scans_comparison (c : Comparison) :
    Scans (c.sql.toList ++ ' ' :: rest) c.tokens (' ' :: rest) := by
  cases c with
  | equals => exact scans_comparator rest (by decide) rfl
  | notEquals => exact scans_comparator rest (by decide) rfl
  | greaterThan => exact scans_comparator rest (by decide) rfl
  | greaterThanOrEqual => exact scans_comparator rest (by decide) rfl
  | lessThan => exact scans_comparator rest (by decide) rfl
  | lessThanOrEqual => exact scans_comparator rest (by decide) rfl
  | like => exact scans_operator (by decide)
  | notLike => exact scans_negatable true (by decide) rfl
  | iLike => exact scans_operator (by decide)
  | notILike => exact scans_negatable true (by decide) rfl

-- A call of the function for lower case, from the text of its argument.
theorem scans_lowered {cs : List Char} {ts : List Token}
    (h : Scans (cs ++ ')' :: rest) ts (')' :: rest)) :
    Scans ("LOWER".toList ++ '(' :: (cs ++ ')' :: rest)) (loweredTokens ts) rest := by
  have hends : Ends isNameChar ('(' :: (cs ++ ')' :: rest)) := ends_cons (by decide)
  exact (scans_bareWord (w := "LOWER") (by decide) hends).append
    ((scans_open _).append (h.append (scans_close rest)))

-- What stands in front of anything that ends a literal.
def ScansBeforeEnd (text : String) (ts : List Token) : Prop :=
  ∀ rest, Ends endsLiteral rest → Scans (text.toList ++ rest) ts rest

-- Texts with a separator between them.
theorem scans_joined {separator : String} {t : Token} {texts : List String}
    {lists : List (List Token)}
    (hends : ∀ rest, Ends endsLiteral (separator.toList ++ rest))
    (hseparator : ∀ rest, Scans (separator.toList ++ rest) [t] rest)
    (h : List.Forall₂ ScansBeforeEnd texts lists) (hne : lists ≠ []) :
    ScansBeforeEnd (Value.joined separator texts) (joinedTokens t lists) := by
  induction h with
  | nil => exact absurd rfl hne
  | cons hfirst hs ih =>
    intro rest hr
    cases hs with
    | nil => exact hfirst rest hr
    | cons hsecond hs =>
      have hmore := ih (by simp) rest hr
      rw [Value.joined, String.toList_append, String.toList_append, List.append_assoc,
        List.append_assoc]
      · exact (hfirst _ (hends _)).append ((hseparator _).append hmore)
      · nofun

theorem scans_written_items {values : List Scalar} (h : ∀ v ∈ values, v.isFinite = true) :
    List.Forall₂ ScansBeforeEnd (values.map (·.written.text)) (values.map (·.written.tokens)) := by
  induction values with
  | nil => exact .nil
  | cons v vs ih =>
    refine .cons (fun rest hr => ?_) (ih fun w hw => h w (List.mem_cons_of_mem _ hw))
    exact Written.scans (Scalar.written_isProper (h v (List.mem_cons_self ..))) hr

theorem scans_list {values : List Scalar} (rest : List Char) (h : ∀ v ∈ values, v.isFinite = true) :
    Scans ('(' :: ((Value.joined ", " (values.map (·.written.text))).toList ++ ')' :: rest))
      (.symbol "(" :: (joinedTokens (.symbol ",") (values.map (·.written.tokens)) ++
        [.symbol ")"])) rest := by
  refine (scans_open _).append (Scans.append ?_ (scans_close rest))
  cases values with
  | nil => exact Scans.nil _
  | cons v vs =>
    refine scans_joined (fun more => ends_cons (by decide)) (fun more => ?_)
      (scans_written_items h) (by simp) (')' :: rest) (ends_cons (by decide))
    exact (scans_comma (' ' :: more)).beforeSpace

end

theorem scans_parenthesized {text : String} {ts : List Token} (h : ScansBeforeEnd text ts)
    (rest : List Char) :
    Scans ('(' :: (text.toList ++ ')' :: rest)) (.symbol "(" :: (ts ++ [.symbol ")"])) rest :=
  (scans_open _).append ((h _ (ends_cons (by decide))).append (scans_close rest))

-- A group shows its children side by side; parentheses stand around several of them and behind
-- `NOT`.
theorem groupText_toList {joiner empty : String} {texts : List String} (negated : Bool)
    (hne : texts ≠ []) :
    (Where.groupText joiner empty negated texts).toList =
      if negated || 1 < texts.length then
        (if negated then "NOT ".toList else []) ++
          '(' :: ((Value.joined joiner texts).toList ++ [')'])
      else (Value.joined joiner texts).toList := by
  cases texts with
  | nil => exact absurd rfl hne
  | cons s rest =>
    cases rest with
    | nil => cases negated <;> simp [Where.groupText, Value.joined]
    | cons t rest => cases negated <;> simp [Where.groupText]

-- The text of a group is scanned to its words.
theorem scans_group (joiner : String) {empty : String} {texts : List String}
    {lists : List (List Token)} (negated : Bool) (hw : isBareWord joiner.toList = true)
    (h : List.Forall₂ ScansBeforeEnd texts lists) (hne : lists ≠ []) :
    ScansBeforeEnd (Where.groupText (" " ++ joiner ++ " ") empty negated texts)
      (Filter.groupTokens joiner negated lists) := by
  have hjoined : ScansBeforeEnd (Value.joined (" " ++ joiner ++ " ") texts)
      (joinedTokens (.word joiner) lists) := by
    refine scans_joined (fun rest => ?_) (fun rest => ?_) h hne
    · simp only [String.toList_append, List.append_assoc]
      exact ends_cons (by decide)
    · have hoperator : Scans (joiner.toList ++ ' ' :: rest) [.word joiner] (' ' :: rest) :=
        scans_operator hw
      simpa using hoperator.space.beforeSpace
  have htexts : texts ≠ [] := by
    rintro rfl
    cases h
    exact hne rfl
  intro rest hr
  have hgroup := scans_parenthesized hjoined rest
  rw [groupText_toList negated htexts, h.length_eq]
  unfold Filter.groupTokens
  dsimp only
  split
  · rw [List.append_assoc, List.cons_append, List.append_assoc, List.singleton_append]
    cases negated with
    | false => exact hgroup
    | true => exact (scans_operator (w := "NOT") (by decide)).append hgroup.space
  · exact hjoined rest hr

mutual

-- The text of a filter is scanned to its words.
theorem Filter.scans (f : Filter)
    (hcolumns : ∀ column ∈ f.columns, Filter.isColumn column.toList = true)
    (hvalues : ∀ v ∈ f.values, v.isFinite = true) (hfilled : f.isFilled = true) :
    ScansBeforeEnd f.sql f.tokens := by
  match f with
  | .compare column comparison value =>
    intro rest hr
    have hcolumn := hcolumns column (by simp [columns])
    have hproper := Scalar.written_isProper (hvalues value (by simp [values]))
    rw [sql, tokens]
    cases comparison.isCaseless with
    | false =>
      have htext : (column ++ " " ++ comparison.sql ++ " " ++ value.written.text).toList ++ rest =
          column.toList ++ ' ' :: (comparison.sql.toList ++ ' ' ::
            (value.written.text.toList ++ rest)) := by simp
      simp only [Bool.false_eq_true, if_false, htext]
      exact (scans_column hcolumn (ends_cons (by decide))).append
        ((scans_comparison comparison).space.append (Written.scans hproper hr).space)
    | true =>
      have htext : ("LOWER(" ++ column ++ ") " ++ comparison.sql ++ " LOWER(" ++
          value.written.text ++ ")").toList ++ rest =
          "LOWER".toList ++ '(' :: (column.toList ++ ')' :: ' ' :: (comparison.sql.toList ++ ' ' ::
            ("LOWER".toList ++ '(' :: (value.written.text.toList ++ ')' :: rest)))) := by simp
      simp only [if_true, htext]
      exact (scans_lowered (scans_column hcolumn (ends_cons (by decide)))).append
        ((scans_comparison comparison).space.append
          (scans_lowered (Written.scans hproper (ends_cons (by decide)))).space)
  | .member column negated values =>
    intro rest hr
    have hcolumn := hcolumns column (by simp [columns])
    have htext : (Filter.member column negated values).sql.toList ++ rest =
        column.toList ++ ' ' :: ((if negated then "NOT IN" else "IN").toList ++ ' ' ::
          '(' :: ((Value.joined ", " (values.map (·.written.text))).toList ++ ')' :: rest)) := by
      simp [sql]
    have hlist := scans_list rest fun v hv => hvalues v (by simpa [Filter.values] using hv)
    rw [htext, tokens]
    have hin : "NOT IN".toList = "NOT".toList ++ ' ' :: "IN".toList := rfl
    have := (scans_column hcolumn (ends_cons (by decide))).append
      ((scans_negatable negated (by decide) hin).space.append hlist.space)
    simpa using this
  | .range column negated low high =>
    intro rest hr
    have hcolumn := hcolumns column (by simp [columns])
    have hlow := Scalar.written_isProper (hvalues low (by simp [values]))
    have hhigh := Scalar.written_isProper (hvalues high (by simp [values]))
    have htext : (Filter.range column negated low high).sql.toList ++ rest =
        column.toList ++ ' ' :: ((if negated then "NOT BETWEEN" else "BETWEEN").toList ++ ' ' ::
          (low.written.text.toList ++ ' ' :: ("AND".toList ++ ' ' ::
            (high.written.text.toList ++ rest)))) := by
      simp [sql]
    rw [htext, tokens]
    have hbetween : "NOT BETWEEN".toList = "NOT".toList ++ ' ' :: "BETWEEN".toList := rfl
    have := (scans_column hcolumn (ends_cons (by decide))).append
      ((scans_negatable negated (by decide) hbetween).space.append
        ((Written.scans hlow (ends_cons (by decide))).space.append
          ((scans_operator (w := "AND") (by decide)).space.append
            (Written.scans hhigh hr).space)))
    simpa using this
  | .isNull column negated =>
    intro rest hr
    have hcolumn := hcolumns column (by simp [columns])
    have htext : (Filter.isNull column negated).sql.toList ++ rest =
        column.toList ++ ' ' :: ("IS".toList ++ ' ' ::
          ((if negated then "NOT NULL" else "NULL").toList ++ rest)) := by
      cases negated <;> simp [sql]
    have hnull := scans_bareWord (w := "NULL") (by decide) (ends_nameChar hr)
    have htest : Scans ((if negated then "NOT NULL" else "NULL").toList ++ rest)
        (notTokens negated ++ [.word "NULL"]) rest := by
      cases negated with
      | false => exact hnull
      | true => exact (scans_operator (w := "NOT") (by decide)).append hnull.space
    rw [htext, tokens]
    exact (scans_column hcolumn (ends_cons (by decide))).append
      ((scans_operator (w := "IS") (by decide)).space.append htest.space)
  | .all children negated =>
    simp only [isFilled, Bool.and_eq_true] at hfilled
    rw [sql, tokens]
    exact scans_group "AND" negated (by decide)
      (Filter.scans_children children hcolumns hvalues hfilled.2) (tokenLists_ne_nil hfilled.1)
  | .any children negated =>
    simp only [isFilled, Bool.and_eq_true] at hfilled
    rw [sql, tokens]
    exact scans_group "OR" negated (by decide)
      (Filter.scans_children children hcolumns hvalues hfilled.2) (tokenLists_ne_nil hfilled.1)

theorem Filter.scans_children (fs : List Filter)
    (hcolumns : ∀ column ∈ columnsOf fs, Filter.isColumn column.toList = true)
    (hvalues : ∀ v ∈ valuesOf fs, v.isFinite = true) (hfilled : areFilled fs = true) :
    List.Forall₂ ScansBeforeEnd (sqls fs) (tokenLists fs) := by
  match fs with
  | [] => exact .nil
  | f :: rest =>
    simp only [areFilled, Bool.and_eq_true] at hfilled
    simp only [columnsOf, valuesOf, List.mem_append] at hcolumns hvalues
    exact .cons
      (Filter.scans f (fun c hc => hcolumns c (.inl hc)) (fun v hv => hvalues v (.inl hv)) hfilled.1)
      (Filter.scans_children rest (fun c hc => hcolumns c (.inr hc))
        (fun v hv => hvalues v (.inr hv)) hfilled.2)

end

end Gleaner
