import Gleaner.Proofs.Sql.Reading.Theorems
import Gleaner.Proofs.Validation.Valid
import Gleaner.Proofs.Where.Scanned
import Gleaner.Proofs.Where.Tree
import Gleaner.Proofs.Where.Truth

namespace Gleaner

section

open Sql

-- What the reader of expressions takes as the name of a column: no part of it is a keyword, and
-- the first one does not begin an expression of another kind.
structure IsColumnName (column : String) : Prop where
  notKeyword : ∀ name ∈ columnPath column, isKeyword name = false
  notOpening : ∀ name ∈ (columnPath column).head?, isOpening name = false

-- Anything that stands below the connectives is an expression.
theorem spells_disjunction {ts : List Token} {p : Phrase} (h : Spells .negation ts [p]) :
    Spells .disjunction ts [p] := .disjunction (.disjunct (.conjunction (.conjunct h)))

theorem spells_order {ts : List Token} {p : Phrase} (h : Spells .operand ts [p]) :
    Spells .order ts [p] := .ofOperand h

theorem spells_equality {ts : List Token} {p : Phrase} (h : Spells .operand ts [p]) :
    Spells .equality ts [p] := .ofOrder (.ofOperand h)

theorem spells_negation {ts : List Token} {p : Phrase} (h : Spells .operand ts [p]) :
    Spells .negation ts [p] := .ofEquality (spells_equality h)

theorem spellsNot_notTokens (negated : Bool) : SpellsNot negated (notTokens negated) := by
  cases negated with
  | false => exact .plain
  | true => exact .negated (by decide)

theorem spells_column {column : String} (h : IsColumnName column) :
    Spells .operand (columnTokens column) [columnPhrase column] := by
  obtain ⟨hk, ho⟩ := h
  unfold columnTokens columnPhrase columnPath at *
  cases hrest : column.toList.dropWhile (· ≠ '.') with
  | nil =>
    rw [hrest] at hk ho
    exact .name (hk column (List.mem_cons_self ..)) (ho column rfl) .nil
  | cons c name =>
    rw [hrest] at hk ho
    have hlast := hk _ (List.mem_cons_of_mem _ (List.mem_cons_self ..))
    exact .name (hk _ (List.mem_cons_self ..)) (ho _ rfl) (.word hlast .nil)

theorem spells_lowered {ts : List Token} {p : Phrase} (h : Spells .operand ts [p]) :
    Spells .operand (loweredTokens ts) [loweredPhrase p] :=
  .call (by decide) (.item (spells_disjunction (spells_negation h)))

theorem spells_items (ws : List Written) (h : ws ≠ []) :
    Spells .items (joinedTokens (.symbol ",") (ws.map Written.tokens)) (ws.map Written.phrase) := by
  induction ws with
  | nil => exact absurd rfl h
  | cons w ws ih =>
    have hw := spells_disjunction (spells_negation w.spells)
    cases ws with
    | nil => exact .item hw
    | cons v vs => exact .items hw (ih (by simp))

theorem spells_comparison (c : Comparison) {ts us : List Token} {p q : Phrase}
    (hp : Spells .operand ts [p]) (hq : Spells .operand us [q]) :
    Spells .equality
      (if c.isCaseless then loweredTokens ts ++ (c.tokens ++ loweredTokens us)
        else ts ++ (c.tokens ++ us)) [c.phrase p q] := by
  have hlike : isWord "like" (.word "LIKE") = true := by decide
  have hnot : SpellsNot true [.word "NOT"] := .negated (by decide)
  cases c with
  | equals => exact .equality (by rfl) (spells_equality hp) (spells_order hq)
  | notEquals => exact .equality (by rfl) (spells_equality hp) (spells_order hq)
  | greaterThan => exact .ofOrder (.order (by rfl) (spells_order hp) hq)
  | greaterThanOrEqual => exact .ofOrder (.order (by rfl) (spells_order hp) hq)
  | lessThan => exact .ofOrder (.order (by rfl) (spells_order hp) hq)
  | lessThanOrEqual => exact .ofOrder (.order (by rfl) (spells_order hp) hq)
  | like => exact .like (spells_equality hp) .plain hlike (spells_order hq)
  | notLike => exact .like (spells_equality hp) hnot hlike (spells_order hq)
  | iLike =>
    have hleft := spells_equality (spells_lowered hp)
    have hright := spells_order (spells_lowered hq)
    have := Spells.like hleft .plain hlike hright
    exact this
  | notILike =>
    have hleft := spells_equality (spells_lowered hp)
    have hright := spells_order (spells_lowered hq)
    have := Spells.like hleft hnot hlike hright
    exact this

-- Children that stand side by side.
theorem spells_conjuncts {lists : List (List Token)} {ps : List Phrase}
    (h : List.Forall₂ (fun ts p => Spells .negation ts [p]) lists ps) (hne : lists ≠ []) :
    Spells .conjuncts (joinedTokens (.word "AND") lists) ps := by
  induction h with
  | nil => exact absurd rfl hne
  | cons hp hs ih =>
    cases hs with
    | nil => exact .conjunct hp
    | cons hq hs => exact .conjuncts hp (by decide) (ih (by simp))

theorem spells_disjuncts {lists : List (List Token)} {ps : List Phrase}
    (h : List.Forall₂ (fun ts p => Spells .negation ts [p]) lists ps) (hne : lists ≠ []) :
    Spells .disjuncts (joinedTokens (.word "OR") lists) ps := by
  induction h with
  | nil => exact absurd rfl hne
  | cons hp hs ih =>
    have hconjunction := Spells.conjunction (.conjunct hp)
    cases hs with
    | nil => exact .disjunct hconjunction
    | cons hq hs => exact .disjuncts hconjunction (by decide) (ih (by simp))

theorem spells_single {ts : List Token} {ps : List Phrase}
    (h : List.Forall₂ (fun ts p => Spells .negation ts [p]) [ts] ps) :
    ∃ p, ps = [p] ∧ Spells .negation ts [p] := by
  cases h with
  | cons hp hs =>
    cases hs
    exact ⟨_, rfl, hp⟩

-- The words of a group: in parentheses, unless it is a single child that is not negated.
theorem spells_group {joiner : String} {lists : List (List Token)} {p : Phrase} (negated : Bool)
    (hp : Spells .disjunction (joinedTokens (.word joiner) lists) [p])
    (hsingle : ∀ ts, lists = [ts] → Spells .negation ts [p]) (hne : lists ≠ []) :
    Spells .negation (Filter.groupTokens joiner negated lists)
      [Filter.negatePhrase negated p] := by
  have hgroup := spells_negation (.group hp)
  unfold Filter.groupTokens
  cases negated with
  | true => exact .not (by decide) hgroup
  | false =>
    dsimp only
    split
    · exact hgroup
    · rename_i h
      cases lists with
      | nil => exact absurd rfl hne
      | cons ts rest =>
        cases rest with
        | nil => exact hsingle ts rfl
        | cons us rest => simp at h

mutual

-- The words of a filter spell its tree.
theorem Filter.spells (f : Filter) (hcolumns : ∀ column ∈ f.columns, IsColumnName column)
    (hfilled : f.isFilled = true) : Spells .negation f.tokens [f.phrase] := by
  match f with
  | .compare column comparison value =>
    have hcolumn := spells_column (hcolumns column (by simp [columns]))
    rw [tokens, phrase]
    exact .ofEquality (spells_comparison comparison hcolumn value.written.spells)
  | .member column negated values =>
    have hcolumn := spells_equality (spells_column (hcolumns column (by simp [columns])))
    have hnot := spellsNot_notTokens negated
    rw [tokens, phrase]
    cases values with
    | nil => exact .ofEquality (.memberNone hcolumn hnot (by decide))
    | cons v vs =>
      have hitems := spells_items ((v :: vs).map Scalar.written) (by simp)
      rw [List.map_map, List.map_map] at hitems
      exact .ofEquality (.member hcolumn hnot (by decide) hitems)
  | .range column negated low high =>
    have hcolumn := spells_equality (spells_column (hcolumns column (by simp [columns])))
    rw [tokens, phrase]
    exact .ofEquality (.range hcolumn (spellsNot_notTokens negated) (by decide)
      (spells_order low.written.spells) (by decide) (spells_order high.written.spells))
  | .isNull column negated =>
    have hcolumn := spells_equality (spells_column (hcolumns column (by simp [columns])))
    rw [tokens, phrase]
    exact .ofEquality (.isNull hcolumn (by decide) (spellsNot_notTokens negated) (by decide))
  | .all children negated =>
    simp only [isFilled, Bool.and_eq_true] at hfilled
    have hchildren := Filter.spells_children children hcolumns hfilled.2
    have hne := tokenLists_ne_nil hfilled.1
    rw [tokens, phrase]
    refine spells_group negated
      (.disjunction (.disjunct (.conjunction (spells_conjuncts hchildren hne)))) ?_ hne
    intro ts hts
    rw [hts] at hchildren
    obtain ⟨p, hp, h⟩ := spells_single hchildren
    rw [hp]
    exact h
  | .any children negated =>
    simp only [isFilled, Bool.and_eq_true] at hfilled
    have hchildren := Filter.spells_children children hcolumns hfilled.2
    have hne := tokenLists_ne_nil hfilled.1
    rw [tokens, phrase]
    refine spells_group negated (.disjunction (spells_disjuncts hchildren hne)) ?_ hne
    intro ts hts
    rw [hts] at hchildren
    obtain ⟨p, hp, h⟩ := spells_single hchildren
    rw [hp]
    exact h

theorem Filter.spells_children (fs : List Filter)
    (hcolumns : ∀ column ∈ columnsOf fs, IsColumnName column) (hfilled : areFilled fs = true) :
    List.Forall₂ (fun ts p => Spells .negation ts [p]) (tokenLists fs) (phrases fs) := by
  match fs with
  | [] => exact .nil
  | f :: rest =>
    simp only [areFilled, Bool.and_eq_true] at hfilled
    refine .cons (Filter.spells f (fun c hc => hcolumns c ?_) hfilled.1)
      (Filter.spells_children rest (fun c hc => hcolumns c ?_) hfilled.2)
    · rw [columnsOf]
      exact List.mem_append_left _ hc
    · rw [columnsOf]
      exact List.mem_append_right _ hc

end

end

section

open Validation

-- What every filter that the check takes keeps to.
structure Filter.IsWellFormed (f : Filter) : Prop where
  filled : f.isFilled = true
  isColumn : ∀ column ∈ f.columns, Filter.isColumn column.toList = true

namespace Filter

theorem isWellFormed_children {fs : List Filter} (h : ∀ f ∈ fs, f.IsWellFormed) :
    areFilled fs = true ∧ ∀ column ∈ columnsOf fs, Filter.isColumn column.toList = true := by
  induction fs with
  | nil => exact ⟨rfl, nofun⟩
  | cons f fs ih =>
    have hf := h f (List.mem_cons_self ..)
    obtain ⟨hfilled, hcolumns⟩ := ih fun g hg => h g (List.mem_cons_of_mem _ hg)
    refine ⟨by rw [areFilled, hf.filled, hfilled]; rfl, fun column hc => ?_⟩
    rw [columnsOf, List.mem_append] at hc
    rcases hc with hc | hc
    · exact hf.isColumn column hc
    · exact hcolumns column hc

section

variable {children : List Filter} (negated : Bool)

theorem isWellFormed_all (h : ∀ f ∈ children, f.IsWellFormed) (hne : children ≠ []) :
    (all children negated).IsWellFormed := by
  obtain ⟨hfilled, hcolumns⟩ := isWellFormed_children h
  exact ⟨by simp [isFilled, hfilled, hne], hcolumns⟩

theorem isWellFormed_any (h : ∀ f ∈ children, f.IsWellFormed) (hne : children ≠ []) :
    (any children negated).IsWellFormed := by
  obtain ⟨hfilled, hcolumns⟩ := isWellFormed_children h
  exact ⟨by simp [isFilled, hfilled, hne], hcolumns⟩

end

-- A condition on one column, whatever it asks.
theorem isWellFormed_leaf {f : Filter} {column : String} (hfilled : f.isFilled = true)
    (hcolumns : f.columns = [column]) {v : Value} (h : checkColumn v = .valid column) :
    f.IsWellFormed := by
  refine ⟨hfilled, fun c hc => ?_⟩
  rw [hcolumns, List.mem_singleton] at hc
  rw [hc]
  exact shapedText_eq_valid h

theorem checkLeaf_eq_valid {v : Value} {f : Filter} (h : checkLeaf v = .valid f) :
    f.IsWellFormed := by
  obtain ⟨name, fields, -, h⟩ := tagged_eq_valid h
  split at h
  · obtain ⟨g, value, hg, -, rfl⟩ := Checked.ap_eq_valid h
    obtain ⟨column, hcolumn, rfl⟩ := Checked.map_eq_valid hg
    obtain ⟨u, hu⟩ := required_eq_valid hcolumn
    exact isWellFormed_leaf rfl rfl hu
  · split at h
    · obtain ⟨g, values, hg, -, rfl⟩ := Checked.ap_eq_valid h
      obtain ⟨column, hcolumn, rfl⟩ := Checked.map_eq_valid hg
      obtain ⟨u, hu⟩ := required_eq_valid hcolumn
      exact isWellFormed_leaf rfl rfl hu
    · split at h
      · obtain ⟨g, bounds, hg, -, rfl⟩ := Checked.ap_eq_valid h
        obtain ⟨column, hcolumn, rfl⟩ := Checked.map_eq_valid hg
        obtain ⟨u, hu⟩ := required_eq_valid hcolumn
        exact isWellFormed_leaf rfl rfl hu
      · obtain ⟨g, _, hg, -, rfl⟩ := Checked.ap_eq_valid h
        obtain ⟨column, hcolumn, rfl⟩ := Checked.map_eq_valid hg
        obtain ⟨u, hu⟩ := required_eq_valid hcolumn
        exact isWellFormed_leaf rfl rfl hu

-- The children of a group that is taken, each of them taken as well.
theorem children_eq_valid {fields : List (String × Value)} {key : String}
    (check : (x : Value) → sizeOf x < sizeOf fields → Checked Filter) {children : List Filter}
    (h : requiredPart fields key (fun v hv =>
      nonEmpty (itemsPart v fun x hx => check x (Nat.lt_trans hx hv))) = .valid children) :
    children ≠ [] ∧ ∀ f ∈ children, ∃ x hx, check x hx = .valid f := by
  obtain ⟨v, hv, h⟩ := requiredPart_eq_valid h
  obtain ⟨hitems, hne⟩ := nonEmpty_eq_valid h
  refine ⟨hne, fun f hf => ?_⟩
  obtain ⟨x, hx, hcheck⟩ := itemsPart_eq_valid hitems f hf
  exact ⟨x, _, hcheck⟩

-- Groups are never empty, and columns have the form of columns.
theorem check_isWellFormed (v : Value) {f : Filter} (h : check v = .valid f) :
    f.IsWellFormed := by
  rw [check] at h
  obtain ⟨m, hm, h⟩ := Checked.firstOf_eq_valid h
  simp only [List.mem_cons, List.not_mem_nil, or_false] at hm
  rcases hm with rfl | rfl | rfl
  · exact checkLeaf_eq_valid h
  · obtain ⟨fields, hfields, h⟩ := model_eq_valid h
    obtain ⟨_, _, hgroup, -, rfl⟩ := Checked.ap_eq_valid h
    obtain ⟨_, negated, hpart, -, rfl⟩ := Checked.ap_eq_valid hgroup
    obtain ⟨children, hchildren, rfl⟩ := Checked.map_eq_valid hpart
    obtain ⟨hne, hchecked⟩ := children_eq_valid (fun x _ => check x) hchildren
    refine isWellFormed_all negated (fun f hf => ?_) hne
    obtain ⟨x, hx, hcheck⟩ := hchecked f hf
    exact check_isWellFormed x hcheck
  · obtain ⟨fields, hfields, h⟩ := model_eq_valid h
    obtain ⟨_, _, hgroup, -, rfl⟩ := Checked.ap_eq_valid h
    obtain ⟨_, negated, hpart, -, rfl⟩ := Checked.ap_eq_valid hgroup
    obtain ⟨children, hchildren, rfl⟩ := Checked.map_eq_valid hpart
    obtain ⟨hne, hchecked⟩ := children_eq_valid (fun x _ => check x) hchildren
    refine isWellFormed_any negated (fun f hf => ?_) hne
    obtain ⟨x, hx, hcheck⟩ := hchecked f hf
    exact check_isWellFormed x hcheck
termination_by sizeOf v
decreasing_by all_goals omega

end Filter

end

section

open Sql Validation

-- The text of a filter has one reading, and that is the tree of the filter.
theorem Filter.reads_iff {f : Filter} (hf : f.IsWellFormed)
    (hcolumns : ∀ column ∈ f.columns, IsColumnName column)
    (hfinite : ∀ s ∈ f.values, s.isFinite = true) (p : Phrase) : Reads f.sql p ↔ p = f.phrase := by
  have htokens : tokensOf f.sql = f.tokens := by
    have hscans := f.scans hf.isColumn hfinite hf.filled [] (ends_nil _)
    rw [List.append_nil] at hscans
    exact hscans.tokensOf
  have hreads : Reads f.sql f.phrase := by
    rw [Reads, htokens]
    exact spells_disjunction (f.spells hcolumns hf.filled)
  refine ⟨fun h => h.unique hreads, ?_⟩
  rintro rfl
  exact hreads

-- A negated group of one condition, whose value is full of what texts are made of.
def negatedQuote : Value :=
  .object [("or", .list [.object [("column", .text "shop.name"), ("condition", .text "iLike"),
    ("value", .text "it's ') or ('")]]), ("negate", .bool true)]

def negatedQuoteFilter : Filter :=
  .any [.compare "shop.name" .iLike (.text "it's ') or ('")] true

theorem check_negatedQuote : Filter.check negatedQuote = .valid negatedQuoteFilter := by
  have hchild : Filter.check (.object [("column", .text "shop.name"), ("condition", .text "iLike"),
      ("value", .text "it's ') or ('")]) =
        .valid (.compare "shop.name" .iLike (.text "it's ') or ('")) := by
    rw [Filter.check]
    rfl
  rw [negatedQuote, Filter.check]
  change Checked.firstOf [_, _, ("OrConditions", (fun children negated _ => Filter.any children negated)
    <$> Checked.under _ (nonEmpty (Checked.ofItems [Filter.check _] 0)) <*> _ <*> _)] = _
  rw [hchild]
  rfl

end

end Gleaner
