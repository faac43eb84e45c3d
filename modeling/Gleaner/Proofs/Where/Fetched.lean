import Gleaner.Proofs.Rehearsal.Tables
import Gleaner.Proofs.Sql.Naming
import Gleaner.Proofs.Where.Theorems

namespace Gleaner

open Sql Validation

namespace NoNull

theorem of_digits {cs : List Char} (h : ∀ c ∈ cs, c.isDigit = true) : NoNull cs :=
  fun hnull => absurd (h _ hnull) (by decide)

theorem groupText {joiner empty : String} (negated : Bool) {texts : List String}
    (hj : NoNull joiner.toList) (hne : texts ≠ []) (h : ∀ t ∈ texts, NoNull t.toList) :
    NoNull (Where.groupText joiner empty negated texts).toList := by
  have hjoined := joined hj h
  have hopen : NoNull ['('] := by decide
  have hclose : NoNull [')'] := by decide
  rw [groupText_toList negated hne]
  split
  · refine append ?_ (hopen.append (hjoined.append hclose))
    cases negated <;> decide
  · exact hjoined

theorem name {cs : List Char} (h : Filter.isName cs = true) : NoNull cs := by
  cases cs with
  | nil => exact nofun
  | cons c rest =>
    simp only [Filter.isName, Bool.and_eq_true, List.all_eq_true] at h
    intro hnull
    rcases List.mem_cons.mp hnull with rfl | hnull
    · exact absurd h.1 (by decide)
    · exact absurd (h.2 _ hnull) (by decide)

theorem column {cs : List Char} (h : Filter.isColumn cs = true) : NoNull cs := by
  rw [← List.takeWhile_append_dropWhile (p := (· ≠ '.')) (l := cs)]
  unfold Filter.isColumn at h
  dsimp only at h
  split at h
  · next hrest =>
    rw [hrest, List.append_nil]
    exact name h
  · next c rest hrest =>
    have hpoint : c = '.' := by
      have hhead := List.head?_dropWhile_not (p := (· ≠ '.')) (l := cs)
      rw [hrest] at hhead
      simpa using hhead
    have hmark : NoNull ['.'] := by decide
    rw [hrest, hpoint]
    rw [Bool.and_eq_true] at h
    exact (name h.1).append (hmark.append (name h.2))

theorem number (n : Nat) : NoNull (toString n).toList := by
  rw [Nat.toString_eq_repr, Nat.repr_eq_ofList_toDigits, String.toList_ofList]
  exact of_digits fun c hc => Nat.isDigit_of_mem_toDigits (by decide) (by decide) hc

theorem padded (width n : Nat) : NoNull (Text.padded width n).toList := by
  rw [Text.padded, String.toList_ofList]
  refine append ?_ (of_digits fun c hc => Nat.isDigit_of_mem_toDigits (by decide) (by decide) hc)
  intro hnull
  exact absurd (List.eq_of_mem_replicate hnull) (by decide)

theorem momentText (t : DateTime) : NoNull (Where.momentText t).toList := by
  simp only [Where.momentText, DateTime.clockText, text_append_iff, number, padded, true_and,
    and_true]
  decide

theorem stringLiteral {content : String} (h : NoNull content.toList) :
    NoNull (Where.stringLiteral content).toList := by
  have hquote : NoNull ['\''] := by decide
  have hescaped : NoNull (Where.escapedQuotes content.toList) := by
    intro hnull
    obtain ⟨c, hc, hmem⟩ := List.mem_flatMap.mp hnull
    split at hmem
    · exact absurd hmem (by decide)
    · exact h (List.mem_singleton.mp hmem ▸ hc)
  rw [Where.stringLiteral, String.toList_ofList]
  exact hquote.append (hescaped.append hquote)

theorem numeral {n : Numeral} (hn : n.IsProper) (negative : Bool) :
    NoNull (signed negative n.chars) := by
  have hchars : NoNull n.chars := fun hnull => by
    rcases mem_chars hn hnull with h | h
    · exact absurd h (by decide)
    · exact absurd h (by decide)
  cases negative with
  | false => exact hchars
  | true =>
    have hminus : NoNull ['-'] := by decide
    exact hminus.append hchars

end NoNull

-- A value whose literal can be handed to the database: a text must have no null character.
def Scalar.isWhole : Scalar → Bool
  | text s => !s.toList.contains '\x00'
  | _ => true

theorem Scalar.noNull_written {s : Scalar} (hfinite : s.isFinite = true)
    (hwhole : s.isWhole = true) : NoNull s.written.text.toList := by
  have hproper := written_isProper hfinite
  have hcontent : ∀ content, s.written = .string content → NoNull content.toList := by
    intro content h
    cases s with
    | text s =>
      cases h
      intro hnull
      rw [isWhole, List.contains_iff_mem.mpr hnull] at hwhole
      cases hwhole
    | moment t =>
      obtain rfl := Written.string.inj h
      exact .momentText _
    | bool b => cases h
    | int n => cases h
    | float x =>
      rw [written] at h
      split at h
      · cases h
      · cases x <;> cases h
  revert hproper hcontent
  cases s.written with
  | number negative numeral =>
    intro hproper _
    rw [Written.text, String.toList_ofList]
    exact .numeral hproper negative
  | string content => exact fun _ h => .stringLiteral (h content rfl)

namespace Filter

theorem sqls_ne_nil {fs : List Filter} (h : (!fs.isEmpty) = true) : sqls fs ≠ [] := by
  cases fs with
  | nil => cases h
  | cons f rest =>
    rw [sqls]
    exact List.cons_ne_nil _ _

mutual

-- The text of a filter can be handed to the database when its columns and literals can.
theorem noNull_sql (f : Filter) (hfilled : f.isFilled = true)
    (hcolumns : ∀ column ∈ f.columns, NoNull column.toList)
    (hvalues : ∀ s ∈ f.values, NoNull s.written.text.toList) : NoNull f.sql.toList := by
  match f with
  | .compare column comparison value =>
    have hcolumn := hcolumns column (by simp [columns])
    have hvalue := hvalues value (by simp [values])
    rw [sql]
    cases comparison <;>
      simp only [Comparison.isCaseless, Bool.false_eq_true, if_false, if_true,
        NoNull.text_append_iff, hcolumn, hvalue, true_and, and_true] <;> decide
  | .member column negated values =>
    have hcolumn := hcolumns column (by simp [columns])
    have hitems : NoNull (Value.joined ", " (values.map (·.written.text))).toList :=
      .joined (by decide) fun t ht => by
        obtain ⟨s, hs, rfl⟩ := List.mem_map.mp ht
        exact hvalues s hs
    rw [sql]
    cases negated <;>
      simp only [Bool.false_eq_true, if_false, if_true, NoNull.text_append_iff, hcolumn, hitems,
        true_and, and_true] <;> decide
  | .range column negated low high =>
    have hcolumn := hcolumns column (by simp [columns])
    have hlow := hvalues low (by simp [values])
    have hhigh := hvalues high (by simp [values])
    rw [sql]
    cases negated <;>
      simp only [Bool.false_eq_true, if_false, if_true, NoNull.text_append_iff, hcolumn, hlow,
        hhigh, true_and, and_true] <;> decide
  | .isNull column negated =>
    have hcolumn := hcolumns column (by simp [columns])
    rw [sql]
    cases negated <;>
      simp only [Bool.false_eq_true, if_false, if_true, NoNull.text_append_iff, hcolumn,
        true_and] <;> decide
  | .all children negated =>
    simp only [isFilled, Bool.and_eq_true] at hfilled
    rw [sql]
    exact .groupText negated (by decide) (sqls_ne_nil hfilled.1)
      (noNull_sqls children hfilled.2 hcolumns hvalues)
  | .any children negated =>
    simp only [isFilled, Bool.and_eq_true] at hfilled
    rw [sql]
    exact .groupText negated (by decide) (sqls_ne_nil hfilled.1)
      (noNull_sqls children hfilled.2 hcolumns hvalues)

theorem noNull_sqls (fs : List Filter) (hfilled : areFilled fs = true)
    (hcolumns : ∀ column ∈ columnsOf fs, NoNull column.toList)
    (hvalues : ∀ s ∈ valuesOf fs, NoNull s.written.text.toList) :
    ∀ text ∈ sqls fs, NoNull text.toList := by
  match fs with
  | [] => exact nofun
  | f :: rest =>
    simp only [areFilled, Bool.and_eq_true] at hfilled
    simp only [columnsOf, valuesOf, List.mem_append] at hcolumns hvalues
    rw [sqls]
    exact List.forall_mem_cons.mpr
      ⟨noNull_sql f hfilled.1 (fun c hc => hcolumns c (.inl hc)) fun s hs => hvalues s (.inl hs),
        noNull_sqls rest hfilled.2 (fun c hc => hcolumns c (.inr hc))
          fun s hs => hvalues s (.inr hs)⟩

end

end Filter

-- Everything an expression names exists, and no fault is left pending behind it.
def Sql.Expr.Resolves (table : Table) (e : Expr) : Prop := e.walk table none = .ok none

section

variable {table : Table}

namespace Sql.Expr.Resolves

theorem check {e : Expr} (h : e.Resolves table) : e.check table = .ok () := by
  rw [Expr.check, h]
  rfl

theorem walkAll {es : List Expr} (h : ∀ e ∈ es, e.Resolves table) :
    Expr.walkAll table none es = .ok none := by
  induction es with
  | nil => rfl
  | cons e es ih =>
    obtain ⟨he, hes⟩ := List.forall_mem_cons.mp h
    rw [Expr.walkAll, he]
    exact ih hes

theorem lowered {e : Expr} (h : e.Resolves table) : (Expr.call "LOWER" [e]).Resolves table := by
  have hcall : checkCall "LOWER" 1 = .ok () := by rfl
  rw [Resolves, Expr.walk]
  dsimp only [List.length_singleton]
  rw [hcall]
  dsimp only
  rw [walkAll (List.forall_mem_singleton.mpr h)]
  rfl

theorem both {a b : Expr} (ha : a.Resolves table) (hb : b.Resolves table) :
    (Expr.both a b).Resolves table := by
  unfold Expr.both
  split
  · rfl
  · rw [Resolves, Expr.walk, ha]
    exact hb

theorem or {a b : Expr} (ha : a.Resolves table) (hb : b.Resolves table) :
    (Expr.or a b).Resolves table := by
  rw [Resolves, Expr.walk, ha]
  exact hb

theorem foldl {combine : Expr → Expr → Expr}
    (hcombine : ∀ {a b}, a.Resolves table → b.Resolves table → (combine a b).Resolves table)
    {es : List Expr} (h : ∀ e ∈ es, e.Resolves table) {e : Expr} (he : e.Resolves table) :
    (es.foldl combine e).Resolves table := by
  induction es generalizing e with
  | nil => exact he
  | cons f es ih =>
    obtain ⟨hf, hes⟩ := List.forall_mem_cons.mp h
    exact ih hes (hcombine he hf)

end Sql.Expr.Resolves

open Sql.Expr

theorem resolves_allOf {ps : List Phrase} (h : ∀ p ∈ ps, p.expr.Resolves table) :
    (Phrase.allOf ps).expr.Resolves table := by
  rw [expr_allOf]
  cases ps with
  | nil => rfl
  | cons p ps =>
    obtain ⟨hp, hps⟩ := List.forall_mem_cons.mp h
    exact .foldl .both (List.forall_mem_map.mpr hps) hp

theorem resolves_anyOf {ps : List Phrase} (h : ∀ p ∈ ps, p.expr.Resolves table) :
    (Phrase.anyOf ps).expr.Resolves table := by
  rw [expr_anyOf]
  cases ps with
  | nil => rfl
  | cons p ps =>
    obtain ⟨hp, hps⟩ := List.forall_mem_cons.mp h
    exact .foldl .or (List.forall_mem_map.mpr hps) hp

theorem resolves_negatePhrase (negated : Bool) {p : Phrase} (h : p.expr.Resolves table) :
    (Filter.negatePhrase negated p).expr.Resolves table := by
  cases negated with
  | false => exact h
  | true => exact h

theorem resolves_column {column : String}
    (h : (placeOf table (columnPath column)).isSome = true) :
    (columnPhrase column).expr.Resolves table := by
  obtain ⟨place, hplace⟩ := Option.isSome_iff_exists.mp h
  rw [Resolves, columnPhrase, Phrase.expr, Expr.walk, hplace]

theorem resolves_written {s : Scalar} (h : s.isFinite = true) :
    s.written.phrase.expr.Resolves table := by
  rw [Scalar.written_expr h]
  rfl

theorem resolves_comparison (c : Comparison) {p q : Phrase} (hp : p.expr.Resolves table)
    (hq : q.expr.Resolves table) : (c.phrase p q).expr.Resolves table := by
  have hcompare : ∀ op, (Phrase.compare op p q).expr.Resolves table := by
    intro op
    rw [Resolves, Phrase.expr, Expr.walk, hp]
    exact hq
  have hlike : ∀ negated {a b : Phrase}, a.expr.Resolves table → b.expr.Resolves table →
      (Phrase.like negated a b).expr.Resolves table := by
    intro negated a b ha hb
    rw [Resolves, Phrase.expr, Expr.walk, hb]
    exact congrArg (Except.ok ∘ Pending.ofCall) ha
  cases c with
  | equals | notEquals | greaterThan | greaterThanOrEqual | lessThan | lessThanOrEqual =>
    exact hcompare _
  | like | notLike => exact hlike _ hp hq
  | iLike | notILike => exact hlike _ hp.lowered hq.lowered

theorem resolves_member (negated : Bool) {p : Phrase} {qs : List Phrase}
    (hp : p.expr.Resolves table) (hqs : ∀ q ∈ qs, q.expr.Resolves table) :
    (Phrase.member negated p qs).expr.Resolves table := by
  cases qs with
  | nil => rfl
  | cons q qs =>
    have hitems : Expr.walkAll table none (Phrase.exprs (q :: qs)) = .ok none := by
      rw [exprs_eq_map]
      exact Resolves.walkAll (List.forall_mem_map.mpr hqs)
    rw [Resolves, Phrase.expr, Expr.walk, hp]
    · exact hitems
    · exact nofun

theorem resolves_range (negated : Bool) {p q r : Phrase} (hp : p.expr.Resolves table)
    (hq : q.expr.Resolves table) (hr : r.expr.Resolves table) :
    (Phrase.range negated p q r).expr.Resolves table := by
  rw [Resolves, Phrase.expr, Expr.walk, hp]
  change (q.expr.walk table none >>= fun pending => r.expr.walk table pending) = _
  rw [hq]
  exact hr

mutual

-- A filter names nothing but its columns.
theorem Filter.resolves (f : Filter)
    (hplaced : ∀ column ∈ f.columns, (placeOf table (columnPath column)).isSome = true)
    (hfinite : ∀ s ∈ f.values, s.isFinite = true) : f.phrase.expr.Resolves table := by
  match f with
  | .compare column comparison value =>
    exact resolves_comparison comparison (resolves_column (hplaced column (by simp [columns])))
      (resolves_written (hfinite value (by simp [values])))
  | .member column negated values =>
    refine resolves_member negated (resolves_column (hplaced column (by simp [columns]))) ?_
    exact List.forall_mem_map.mpr fun s hs => resolves_written (hfinite s hs)
  | .range column negated low high =>
    exact resolves_range negated (resolves_column (hplaced column (by simp [columns])))
      (resolves_written (hfinite low (by simp [values])))
      (resolves_written (hfinite high (by simp [values])))
  | .isNull column negated =>
    have hcolumn := resolves_column (hplaced column (by simp [columns]))
    exact congrArg (Except.ok ∘ Pending.ofCall) hcolumn
  | .all children negated =>
    exact resolves_negatePhrase negated
      (resolves_allOf (Filter.resolves_phrases children hplaced hfinite))
  | .any children negated =>
    exact resolves_negatePhrase negated
      (resolves_anyOf (Filter.resolves_phrases children hplaced hfinite))

theorem Filter.resolves_phrases (fs : List Filter)
    (hplaced : ∀ column ∈ columnsOf fs, (placeOf table (columnPath column)).isSome = true)
    (hfinite : ∀ s ∈ valuesOf fs, s.isFinite = true) :
    ∀ p ∈ phrases fs, p.expr.Resolves table := by
  match fs with
  | [] => exact nofun
  | f :: rest =>
    simp only [columnsOf, valuesOf, List.mem_append] at hplaced hfinite
    rw [phrases]
    exact List.forall_mem_cons.mpr
      ⟨Filter.resolves f (fun c hc => hplaced c (.inl hc)) fun s hs => hfinite s (.inl hs),
        Filter.resolves_phrases rest (fun c hc => hplaced c (.inr hc))
          fun s hs => hfinite s (.inr hs)⟩

end

end

variable {σ : Type} {view : σ → Database} {execute : Statement → Effect σ (List Row)}

theorem Sql.Statement.check_all {name text : String}
    (hname : (Statement.all name none).check = .ok ()) (htext : NoNull text.toList) :
    (Statement.all name (some (Markup.escape text))).check = .ok () := by
  refine check_all_iff.mpr ⟨(check_all_iff.mp hname).1, ?_⟩
  rintro _ ⟨⟩
  exact NoNull.escape_iff.mpr htext

theorem Sql.Database.execute_all {d : Database} {name text : String} {table : Table} {e : Expr}
    (hcheck : (Statement.all name (some (Markup.escape text))).check = .ok ())
    (hread : Expr.read text = .ok e) (htable : d.find name = .ok table)
    (hresolves : e.Resolves table) :
    d.execute (.all name (some (Markup.escape text))) =
      .ok (d, (table.chosen e).map table.row) := by
  unfold Database.execute
  rw [hcheck]
  dsimp only [bind, Except.bind]
  rw [Markup.unescape_escape, hread]
  dsimp only [Functor.map, Except.map]
  rw [htable]
  dsimp only
  rw [hresolves.check]

-- A filter that is taken can be written as a text, and the rows of a table can be fetched with
-- it: where the table has its columns, the columns can be written as names and the values as
-- literals. The rows are those for which the filter is true; the tables stay as they are.
theorem Filter.rows_compile (v : Value) (f : Filter) (hcheck : Filter.check v = .valid f)
    (hexecute : CarriesOut view execute) {sources : List (String × String)} {source name : String}
    (identifierColumn : String) (w : σ) {table : Table}
    (hsource : tableOf? sources source = some name)
    (hname : (Statement.all name none).check = .ok ())
    (htable : (view w).find name = .ok table)
    (hplaced : ∀ column ∈ f.columns, (placeOf table (columnPath column)).isSome = true)
    (hcolumns : ∀ column ∈ f.columns, IsColumnName column)
    (hvalues : ∀ s ∈ f.values, s.isFinite = true ∧ s.isWhole = true ∧ s.hasInstant = true) :
    ∃ text, Where.compile f.mapping = .ok text ∧
      ∃ w', (tableStore execute sources identifierColumn).rows source (some text) w =
          (.ok ((table.rows.filter fun row => f.truth table row = some true).map table.row), w') ∧
        view w' = view w := by
  have hf := check_isWellFormed v hcheck
  have hfinite : ∀ s ∈ f.values, s.isFinite = true := fun s hs => (hvalues s hs).1
  have hinstant : f.values.all Scalar.hasInstant = true :=
    List.all_eq_true.mpr fun s hs => (hvalues s hs).2.2
  have htext : Where.compile f.mapping = .ok f.sql := by
    rw [f.compile_mapping, if_pos hinstant]
  have hread : Expr.read f.sql = .ok f.phrase.expr := by
    have hphrase := ((Filter.reads_iff hf hcolumns hfinite f.phrase).mpr rfl).read
    rw [Expr.read, hphrase]
    rfl
  have hfilled : f.sql ≠ "" := by
    intro h
    rw [h] at hread
    cases hread
  have hnull : NoNull f.sql.toList := f.noNull_sql hf.filled
    (fun column hc => .column (hf.isColumn column hc))
    fun s hs => Scalar.noNull_written (hvalues s hs).1 (hvalues s hs).2.1
  have hdone := Database.execute_all (Statement.check_all hname hnull) hread htable
    (f.resolves hplaced hfinite)
  have hchosen : table.chosen f.phrase.expr =
      table.rows.filter fun row => f.truth table row = some true :=
    List.filter_congr fun row _ => by rw [f.truth_phrase table row hfinite]
  obtain ⟨hlisted, hview⟩ := hexecute.ok hdone
  rw [hchosen] at hlisted
  refine ⟨f.sql, htext, _, ?_, hview⟩
  change TableStore.rows execute sources source (some f.sql) w = _
  rw [rows_eq hsource hfilled]
  exact Prod.ext hlisted rfl

-- Shops, with the place each of them stands in.
def shopTable : Table :=
  Rehearsal.tableOf "shop" [("name", "TEXT"), ("order", "INTEGER")]
    [[.text "a", .int 1], [.text "b", .int 2]]

def shops : Rehearsal.World where
  database := ⟨[shopTable]⟩

theorem Filter.rows_compile_negatedQuote :
    Filter.check negatedQuote = .valid negatedQuoteFilter ∧
    CarriesOut Rehearsal.World.database Rehearsal.execute ∧
    tableOf? [("shop", "shop")] "shop" = some "shop" ∧
    (Statement.all "shop" none).check = .ok () ∧
    shops.database.find "shop" = .ok shopTable ∧
    (∀ column ∈ negatedQuoteFilter.columns,
      (placeOf shopTable (columnPath column)).isSome = true ∧ IsColumnName column) ∧
    (∀ s ∈ negatedQuoteFilter.values,
      s.isFinite = true ∧ s.isWhole = true ∧ s.hasInstant = true) ∧
    ∃ text, Where.compile negatedQuoteFilter.mapping = .ok text ∧
      ∃ w', (tableStore Rehearsal.execute [("shop", "shop")] "id").rows "shop" (some text) shops =
          (.ok ((shopTable.rows.filter fun row =>
            negatedQuoteFilter.truth shopTable row = some true).map shopTable.row), w') ∧
        w'.database = shops.database := by
  have hname : (Statement.all "shop" none).check = .ok () := by rfl
  have htable : shops.database.find "shop" = .ok shopTable := by rfl
  have hcolumns : ∀ column ∈ negatedQuoteFilter.columns,
      (placeOf shopTable (columnPath column)).isSome = true ∧ IsColumnName column := by
    intro column hcolumn
    obtain rfl : column = "shop.name" := List.mem_singleton.mp hcolumn
    exact ⟨by decide, by decide, by decide⟩
  have hvalues : ∀ s ∈ negatedQuoteFilter.values,
      s.isFinite = true ∧ s.isWhole = true ∧ s.hasInstant = true := by decide
  exact ⟨check_negatedQuote, Rehearsal.execute_carriesOut, rfl, hname, htable, hcolumns, hvalues,
    Filter.rows_compile negatedQuote negatedQuoteFilter check_negatedQuote
      Rehearsal.execute_carriesOut "id" shops rfl hname htable (fun c hc => (hcolumns c hc).1)
      (fun c hc => (hcolumns c hc).2) hvalues⟩

def inFirstPlace : Value :=
  .object [("column", .text "order"), ("condition", .text "equals"), ("value", .int 1)]

-- The names of columns are not put in quotes: one that is a keyword is taken, but no rows can be
-- fetched with its text.
theorem Filter.not_fetched_inFirstPlace :
    ∃ f, Filter.check inFirstPlace = .valid f ∧
      (∀ column ∈ f.columns, (placeOf shopTable (columnPath column)).isSome = true) ∧
      (∀ s ∈ f.values, s.isFinite = true ∧ s.isWhole = true ∧ s.hasInstant = true) ∧
      Where.compile f.mapping = .ok "order = 1" ∧
      ((tableStore Rehearsal.execute [("shop", "shop")] "id").rows "shop" none shops).1 =
        .ok (shopTable.rows.map shopTable.row) ∧
      ((tableStore Rehearsal.execute [("shop", "shop")] "id").rows "shop" (some "order = 1")
        shops).1 = .error (.sql (.near "order")) := by
  refine ⟨.compare "order" .equals (.int 1), ?_, by decide, by decide, ?_, by rfl, ?_⟩
  · rw [inFirstPlace, Filter.check]
    rfl
  · rw [Filter.compile_mapping]
    rfl
  · rfl

end Gleaner
