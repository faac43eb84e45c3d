import Gleaner.Proofs.Sql.Confinement
import Gleaner.Proofs.Where.Tree
import Gleaner.Sql.Evaluate

namespace Gleaner

open Sql

namespace Sql.Truth

def all : List Truth → Truth
  | [] => some true
  | t :: rest => Truth.and t (all rest)

theorem and_assoc (a b c : Truth) : Truth.and (Truth.and a b) c = Truth.and a (Truth.and b c) := by
  rcases a with _ | _ | _ <;> rcases b with _ | _ | _ <;> rcases c with _ | _ | _ <;> rfl

theorem or_assoc (a b c : Truth) : Truth.or (Truth.or a b) c = Truth.or a (Truth.or b c) := by
  rcases a with _ | _ | _ <;> rcases b with _ | _ | _ <;> rcases c with _ | _ | _ <;> rfl

theorem and_true (a : Truth) : Truth.and a (some true) = a := by
  rcases a with _ | _ | _ <;> rfl

theorem or_false (a : Truth) : Truth.or a (some false) = a := by
  rcases a with _ | _ | _ <;> rfl

theorem and_false (a : Truth) : Truth.and a (some false) = some false := by
  rcases a with _ | _ | _ <;> rfl

theorem and_some (a b : Bool) : Truth.and (some a) (some b) = some (a && b) := by
  cases a <;> cases b <;> rfl

end Sql.Truth

-- What a column holds in a row, and the kind of cells it prefers.
def columnCell (table : Table) (row : Int × List Cell) (column : String) : Cell :=
  match placeOf table (columnPath column) with
  | some place => Table.read row place
  | none => (constant? (columnPath column) false).getD .null

def columnAffinity (table : Table) (column : String) : Affinity :=
  ((placeOf table (columnPath column)).map table.affinity).getD .none

-- A column compared with a value the way the column asks for.
def columnTruth (table : Table) (row : Int × List Cell) (column : String) (op : Comparator)
    (value : Cell) : Truth :=
  let sides := Cell.aligned (columnAffinity table column) .none (columnCell table row column) value
  compareTruth op sides.1 sides.2

def loweredCell (c : Cell) : Cell :=
  match c.text? with
  | none => .null
  | some s => .text (lowerAscii s)

def patternTruth (table : Table) (row : Int × List Cell) (column : String) (value : Cell) : Truth :=
  likeTruth (columnCell table row column) value

def caselessTruth (table : Table) (row : Int × List Cell) (column : String) (value : Cell) :
    Truth :=
  likeTruth (loweredCell (columnCell table row column)) (loweredCell value)

def Comparison.truth (c : Comparison) (table : Table) (row : Int × List Cell) (column : String)
    (value : Cell) : Truth :=
  match c with
  | equals => columnTruth table row column .equal value
  | notEquals => columnTruth table row column .unequal value
  | greaterThan => columnTruth table row column .greater value
  | greaterThanOrEqual => columnTruth table row column .greaterEqual value
  | lessThan => columnTruth table row column .less value
  | lessThanOrEqual => columnTruth table row column .lessEqual value
  | like => patternTruth table row column value
  | notLike => Truth.not (patternTruth table row column value)
  | iLike => caselessTruth table row column value
  | notILike => Truth.not (caselessTruth table row column value)

namespace Filter

mutual

-- A filter evaluated on a row as it is, without its text.
def truth (table : Table) (row : Int × List Cell) : Filter → Truth
  | compare column comparison value => comparison.truth table row column value.cell
  | member column negated values =>
    Truth.negateIf negated
      (memberTruth (values.map fun v => columnTruth table row column .equal v.cell))
  | range column negated low high =>
    Truth.negateIf negated (Truth.and (columnTruth table row column .greaterEqual low.cell)
      (columnTruth table row column .lessEqual high.cell))
  | isNull column negated => Truth.negateIf negated (some (columnCell table row column == .null))
  | all children negated => Truth.negateIf negated (Truth.all (truths table row children))
  | any children negated => Truth.negateIf negated (memberTruth (truths table row children))

def truths (table : Table) (row : Int × List Cell) : List Filter → List Truth
  | [] => []
  | f :: rest => truth table row f :: truths table row rest

end

end Filter

section

variable (table : Table) (row : Int × List Cell)

theorem truth_both (a b : Expr) :
    (Expr.both a b).truth table row = Truth.and (a.truth table row) (b.truth table row) := by
  have hzero : ∀ e : Expr, e.isZero = true → e.truth table row = some false := by
    intro e he
    unfold Expr.isZero at he
    split at he
    · rfl
    · cases he
  unfold Expr.both
  split
  · rename_i h
    rcases Bool.or_eq_true_iff.mp h with h | h
    · rw [hzero a h]
      rfl
    · rw [hzero b h, Truth.and_false]
      rfl
  · exact Truth.truth?_cell _

theorem truth_foldl_both (e : Expr) (es : List Expr) :
    (es.foldl Expr.both e).truth table row =
      Truth.and (e.truth table row) (Truth.all (es.map (·.truth table row))) := by
  induction es generalizing e with
  | nil => exact (Truth.and_true _).symm
  | cons f es ih =>
    rw [List.foldl_cons, ih, truth_both, Truth.and_assoc]
    rfl

theorem truth_foldl_or (e : Expr) (es : List Expr) :
    (es.foldl Expr.or e).truth table row =
      Truth.or (e.truth table row) (memberTruth (es.map (·.truth table row))) := by
  induction es generalizing e with
  | nil => exact (Truth.or_false _).symm
  | cons f es ih =>
    have hor : (Expr.or e f).truth table row =
        Truth.or (e.truth table row) (f.truth table row) := Truth.truth?_cell _
    rw [List.foldl_cons, ih, hor, Truth.or_assoc]
    rfl

theorem exprs_eq_map (ps : List Phrase) : Phrase.exprs ps = ps.map Phrase.expr := by
  induction ps with
  | nil => rfl
  | cons p ps ih => rw [Phrase.exprs, ih, List.map_cons]

theorem expr_allOf (ps : List Phrase) :
    (Phrase.allOf ps).expr = Expr.allOf (ps.map Phrase.expr) := by
  unfold Phrase.allOf
  split
  · rfl
  · rw [Phrase.expr, exprs_eq_map]

theorem expr_anyOf (ps : List Phrase) :
    (Phrase.anyOf ps).expr = Expr.anyOf (ps.map Phrase.expr) := by
  unfold Phrase.anyOf
  split
  · rfl
  · rw [Phrase.expr, exprs_eq_map]

-- A chain is true when all of its parts are, or when one of them is.
theorem truth_allOf (ps : List Phrase) :
    (Phrase.allOf ps).expr.truth table row =
      Truth.all (ps.map fun p => p.expr.truth table row) := by
  rw [expr_allOf]
  cases ps with
  | nil => rfl
  | cons p ps =>
    rw [List.map_cons, Expr.allOf, truth_foldl_both, List.map_map]
    rfl

theorem truth_anyOf (ps : List Phrase) :
    (Phrase.anyOf ps).expr.truth table row =
      memberTruth (ps.map fun p => p.expr.truth table row) := by
  rw [expr_anyOf]
  cases ps with
  | nil => rfl
  | cons p ps =>
    rw [List.map_cons, Expr.anyOf, truth_foldl_or, List.map_map]
    rfl

theorem truth_negatePhrase (negated : Bool) (p : Phrase) :
    (Filter.negatePhrase negated p).expr.truth table row =
      Truth.negateIf negated (p.expr.truth table row) := by
  cases negated with
  | false => rfl
  | true => exact Truth.truth?_cell _

theorem value_column (column : String) :
    (columnPhrase column).expr.value table row = columnCell table row column := by
  rw [columnPhrase, Phrase.expr, Expr.value]
  rfl

theorem call_lower (c : Cell) : Sql.call "LOWER" [c] = loweredCell c := by
  have hname : lowerAscii "LOWER" = "lower" := by decide
  unfold Sql.call loweredCell
  rw [hname]
  cases c <;> rfl

theorem value_lowered (p : Phrase) :
    (loweredPhrase p).expr.value table row = loweredCell (p.expr.value table row) :=
  call_lower _

section

variable {p : Phrase} {cell : Cell} (column : String)

theorem truth_compare (op : Comparator) (hp : p.expr = .cell cell) :
    (Phrase.compare op (columnPhrase column) p).expr.truth table row =
      columnTruth table row column op cell := by
  rw [Phrase.expr, Expr.truth, Expr.value, Truth.truth?_cell, value_column, hp]
  rfl

theorem truth_like (negated : Bool) (q : Phrase) :
    (Phrase.like negated q p).expr.truth table row =
      Truth.negateIf negated (likeTruth (q.expr.value table row) (p.expr.value table row)) := by
  rw [Phrase.expr, Expr.truth, Expr.value, Truth.truth?_cell]

theorem truth_comparison (c : Comparison) (hp : p.expr = .cell cell) :
    (c.phrase (columnPhrase column) p).expr.truth table row = c.truth table row column cell := by
  have hvalue : p.expr.value table row = cell := by
    rw [hp]
    rfl
  have hpattern : ∀ negated, (Phrase.like negated (columnPhrase column) p).expr.truth table row =
      Truth.negateIf negated (patternTruth table row column cell) := by
    intro negated
    rw [truth_like, value_column, hvalue]
    rfl
  have hcaseless : ∀ negated,
      (Phrase.like negated (loweredPhrase (columnPhrase column)) (loweredPhrase p)).expr.truth
        table row = Truth.negateIf negated (caselessTruth table row column cell) := by
    intro negated
    rw [truth_like, value_lowered, value_lowered, value_column, hvalue]
    rfl
  cases c with
  | equals => exact truth_compare table row column .equal hp
  | notEquals => exact truth_compare table row column .unequal hp
  | greaterThan => exact truth_compare table row column .greater hp
  | greaterThanOrEqual => exact truth_compare table row column .greaterEqual hp
  | lessThan => exact truth_compare table row column .less hp
  | lessThanOrEqual => exact truth_compare table row column .lessEqual hp
  | like => exact hpattern false
  | notLike => exact hpattern true
  | iLike => exact hcaseless false
  | notILike => exact hcaseless true

end

theorem matches_values (column : String) {vs : List Scalar} (h : ∀ v ∈ vs, v.isFinite = true) :
    Expr.matches table row (columnPhrase column).expr (columnCell table row column)
        (Phrase.exprs (vs.map (·.written.phrase))) =
      vs.map fun v => columnTruth table row column .equal v.cell := by
  induction vs with
  | nil => rfl
  | cons v vs ih =>
    have hcell := Scalar.written_expr (h v (List.mem_cons_self ..))
    rw [List.map_cons, Phrase.exprs, Expr.matches, ih fun w hw => h w (List.mem_cons_of_mem _ hw),
      hcell]
    rfl

theorem truth_member (column : String) (negated : Bool) {vs : List Scalar}
    (h : ∀ v ∈ vs, v.isFinite = true) :
    (Phrase.member negated (columnPhrase column) (vs.map (·.written.phrase))).expr.truth table row =
      Truth.negateIf negated
        (memberTruth (vs.map fun v => columnTruth table row column .equal v.cell)) := by
  cases vs with
  | nil => cases negated <;> rfl
  | cons v vs =>
    rw [← matches_values table row column h, List.map_cons, Phrase.expr, Expr.truth, Expr.value,
      Truth.truth?_cell, value_column]
    intro h
    cases h

theorem truth_range (column : String) (negated : Bool) {low high : Scalar}
    (hlow : low.isFinite = true) (hhigh : high.isFinite = true) :
    (Phrase.range negated (columnPhrase column) low.written.phrase
        high.written.phrase).expr.truth table row =
      Truth.negateIf negated (Truth.and (columnTruth table row column .greaterEqual low.cell)
        (columnTruth table row column .lessEqual high.cell)) := by
  rw [Phrase.expr, Expr.truth, Expr.value, Truth.truth?_cell, value_column,
    Scalar.written_expr hlow, Scalar.written_expr hhigh]
  rfl

mutual

-- What the phrase of a filter says of a row is what the filter says of it.
theorem Filter.truth_phrase (f : Filter) (h : ∀ v ∈ f.values, v.isFinite = true) :
    f.phrase.expr.truth table row = f.truth table row := by
  match f with
  | .compare column comparison value =>
    rw [phrase, truth]
    exact truth_comparison table row column comparison
      (Scalar.written_expr (h value (by simp [values])))
  | .member column negated values =>
    rw [phrase, truth]
    exact truth_member table row column negated fun v hv => h v (by simpa [Filter.values] using hv)
  | .range column negated low high =>
    rw [phrase, truth]
    exact truth_range table row column negated (h low (by simp [values]))
      (h high (by simp [values]))
  | .isNull column negated =>
    rw [phrase, truth, Phrase.expr, Expr.truth, Expr.value, Truth.truth?_cell, value_column]
  | .all children negated =>
    rw [phrase, truth, truth_negatePhrase, truth_allOf, Filter.truth_phrases children h]
  | .any children negated =>
    rw [phrase, truth, truth_negatePhrase, truth_anyOf, Filter.truth_phrases children h]

theorem Filter.truth_phrases (fs : List Filter) (h : ∀ v ∈ valuesOf fs, v.isFinite = true) :
    (phrases fs).map (fun p => p.expr.truth table row) = truths table row fs := by
  match fs with
  | [] => rfl
  | f :: rest =>
    simp only [valuesOf, List.mem_append] at h
    rw [phrases, truths, List.map_cons, Filter.truth_phrase f fun v hv => h v (.inl hv),
      Filter.truth_phrases rest fun v hv => h v (.inr hv)]

end

end

end Gleaner
