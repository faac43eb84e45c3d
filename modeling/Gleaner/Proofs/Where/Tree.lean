import Gleaner.Proofs.Where.Literal
import Gleaner.Where.Compile

namespace Gleaner

section

open Sql

-- The table and the name, or the name alone.
def columnPath (column : String) : List String :=
  match column.toList.dropWhile (· ≠ '.') with
  | [] => [column]
  | _ :: name => [String.ofList (column.toList.takeWhile (· ≠ '.')), String.ofList name]

def columnPhrase (column : String) : Phrase := .name (columnPath column) false

def pathTokens : List String → List Token
  | [] => []
  | [name] => [.word name]
  | name :: rest => .word name :: .symbol "." :: pathTokens rest

def columnTokens (column : String) : List Token := pathTokens (columnPath column)

-- Several series of words with one word between them.
def joinedTokens (t : Token) : List (List Token) → List Token
  | [] => []
  | [ts] => ts
  | ts :: rest => ts ++ t :: joinedTokens t rest

def notTokens (negated : Bool) : List Token := if negated then [.word "NOT"] else []

def loweredTokens (ts : List Token) : List Token :=
  .word "LOWER" :: .symbol "(" :: (ts ++ [.symbol ")"])

def loweredPhrase (p : Phrase) : Phrase := .call "LOWER" [p]

namespace Comparison

def isCaseless : Comparison → Bool
  | iLike => true
  | notILike => true
  | _ => false

def sql : Comparison → String
  | equals => "="
  | notEquals => "!="
  | greaterThan => ">"
  | greaterThanOrEqual => ">="
  | lessThan => "<"
  | lessThanOrEqual => "<="
  | like => "LIKE"
  | notLike => "NOT LIKE"
  | iLike => "LIKE"
  | notILike => "NOT LIKE"

def tokens : Comparison → List Token
  | like => [.word "LIKE"]
  | notLike => [.word "NOT", .word "LIKE"]
  | iLike => [.word "LIKE"]
  | notILike => [.word "NOT", .word "LIKE"]
  | c => [.symbol c.sql]

-- What a comparison says of a column and a value.
def phrase (c : Comparison) (left right : Phrase) : Phrase :=
  match c with
  | equals => .compare .equal left right
  | notEquals => .compare .unequal left right
  | greaterThan => .compare .greater left right
  | greaterThanOrEqual => .compare .greaterEqual left right
  | lessThan => .compare .less left right
  | lessThanOrEqual => .compare .lessEqual left right
  | like => .like false left right
  | notLike => .like true left right
  | iLike => .like false (loweredPhrase left) (loweredPhrase right)
  | notILike => .like true (loweredPhrase left) (loweredPhrase right)

end Comparison

namespace Filter

mutual

def columns : Filter → List String
  | compare column _ _ => [column]
  | member column _ _ => [column]
  | range column _ _ _ => [column]
  | isNull column _ => [column]
  | all children _ => columnsOf children
  | any children _ => columnsOf children

def columnsOf : List Filter → List String
  | [] => []
  | f :: rest => columns f ++ columnsOf rest

end

mutual

def values : Filter → List Scalar
  | compare _ _ value => [value]
  | member _ _ values => values
  | range _ _ low high => [low, high]
  | isNull _ _ => []
  | all children _ => valuesOf children
  | any children _ => valuesOf children

def valuesOf : List Filter → List Scalar
  | [] => []
  | f :: rest => values f ++ valuesOf rest

end

mutual

-- Every group has a child.
def isFilled : Filter → Bool
  | all children _ => !children.isEmpty && areFilled children
  | any children _ => !children.isEmpty && areFilled children
  | _ => true

def areFilled : List Filter → Bool
  | [] => true
  | f :: rest => isFilled f && areFilled rest

end

mutual

-- The text of a filter whose moments all have a UTC form.
def sql : Filter → String
  | compare column comparison value =>
    if comparison.isCaseless then
      "LOWER(" ++ column ++ ") " ++ comparison.sql ++ " LOWER(" ++ value.written.text ++ ")"
    else column ++ " " ++ comparison.sql ++ " " ++ value.written.text
  | member column negated values =>
    column ++ " " ++ (if negated then "NOT IN" else "IN") ++ " (" ++
      Value.joined ", " (values.map (·.written.text)) ++ ")"
  | range column negated low high =>
    column ++ " " ++ (if negated then "NOT BETWEEN" else "BETWEEN") ++ " " ++ low.written.text ++
      " AND " ++ high.written.text
  | isNull column negated => column ++ " " ++ (if negated then "IS NOT NULL" else "IS NULL")
  | all children negated => Where.groupText " AND " "1=1" negated (sqls children)
  | any children negated => Where.groupText " OR " "1=0" negated (sqls children)

def sqls : List Filter → List String
  | [] => []
  | f :: rest => sql f :: sqls rest

end

-- A group of several children stands in parentheses of its own; the parentheses of a group of one
-- are only there when it is negated.
def groupTokens (joiner : String) (negated : Bool) (children : List (List Token)) : List Token :=
  let joined := joinedTokens (.word joiner) children
  if negated || 1 < children.length then
    notTokens negated ++ .symbol "(" :: (joined ++ [.symbol ")"])
  else joined

mutual

def tokens : Filter → List Token
  | compare column comparison value =>
    if comparison.isCaseless then
      loweredTokens (columnTokens column) ++
        (comparison.tokens ++ loweredTokens value.written.tokens)
    else columnTokens column ++ (comparison.tokens ++ value.written.tokens)
  | member column negated values =>
    columnTokens column ++ (notTokens negated ++ .word "IN" :: .symbol "(" ::
      (joinedTokens (.symbol ",") (values.map (·.written.tokens)) ++ [.symbol ")"]))
  | range column negated low high =>
    columnTokens column ++ (notTokens negated ++ .word "BETWEEN" ::
      (low.written.tokens ++ .word "AND" :: high.written.tokens))
  | isNull column negated => columnTokens column ++ .word "IS" :: (notTokens negated ++ [.word "NULL"])
  | all children negated => groupTokens "AND" negated (tokenLists children)
  | any children negated => groupTokens "OR" negated (tokenLists children)

def tokenLists : List Filter → List (List Token)
  | [] => []
  | f :: rest => tokens f :: tokenLists rest

end

def negatePhrase (negated : Bool) (p : Phrase) : Phrase := if negated then .not p else p

mutual

-- The filter as a phrase: the same tree, where a group of one child is that child.
def phrase : Filter → Phrase
  | compare column comparison value =>
    comparison.phrase (columnPhrase column) value.written.phrase
  | member column negated values =>
    .member negated (columnPhrase column) (values.map (·.written.phrase))
  | range column negated low high =>
    .range negated (columnPhrase column) low.written.phrase high.written.phrase
  | isNull column negated => .isNull negated (columnPhrase column)
  | all children negated => negatePhrase negated (.allOf (phrases children))
  | any children negated => negatePhrase negated (.anyOf (phrases children))

def phrases : List Filter → List Phrase
  | [] => []
  | f :: rest => phrase f :: phrases rest

end

end Filter

theorem tokenLists_ne_nil {fs : List Filter} (h : (!fs.isEmpty) = true) :
    Filter.tokenLists fs ≠ [] := by
  cases fs with
  | nil => cases h
  | cons f rest =>
    rw [Filter.tokenLists]
    exact List.cons_ne_nil _ _

end

section

open Where

theorem literals_values (vs : List Scalar) :
    literals (vs.map Scalar.value) =
      if vs.all Scalar.hasInstant then .ok (vs.map (·.written.text)) else .error .instant := by
  induction vs with
  | nil => rfl
  | cons v vs ih =>
    rw [List.map_cons, literals, Scalar.literal_value, ih, List.all_cons]
    cases v.hasInstant <;> cases vs.all Scalar.hasInstant <;> rfl

theorem toValues_scalars (vs : List Scalar) :
    Document.toValues .stored (vs.map Scalar.document) = vs.map Scalar.value := by
  induction vs with
  | nil => rfl
  | cons v vs ih =>
    rw [List.map_cons, Document.toValues, ih]
    rfl

-- The plain data of a condition.
theorem compile_leaf {fields : List (String × Value)} {column name : String} {operator : Operator}
    (hcolumn : Fields.get? fields "column" = some (.text column))
    (hcondition : Fields.get? fields "condition" = some (.text name))
    (hname : operator? name = some operator) :
    compile (.object fields) =
      leafText column operator ((Fields.get? fields "value").getD .null) := by
  rw [compile, hcondition]
  dsimp only
  rw [conditionText, hcolumn]
  dsimp only
  rw [hname]

theorem comparison_operator (c : Comparison) :
    operator? c.name = some (if c.isCaseless then .caseless c.sql else .comparison c.sql) := by
  cases c <;> rfl

theorem compile_compare (column : String) (comparison : Comparison) (value : Scalar) :
    compile (Filter.compare column comparison value).mapping =
      if value.hasInstant then .ok (Filter.compare column comparison value).sql
      else .error .instant := by
  change compile (.object [("column", .text column), ("condition", .text comparison.name),
    ("value", value.value)]) = _
  rw [compile_leaf rfl rfl (comparison_operator comparison)]
  change leafText column _ value.value = _
  rw [Filter.sql]
  cases comparison.isCaseless
  · simp only [Bool.false_eq_true, if_false, leafText, Scalar.literal_value]
    cases value.hasInstant <;> rfl
  · simp only [if_true, leafText, Scalar.literal_value]
    cases value.hasInstant <;> rfl

theorem compile_member (column : String) (negated : Bool) (values : List Scalar) :
    compile (Filter.member column negated values).mapping =
      if values.all Scalar.hasInstant then .ok (Filter.member column negated values).sql
      else .error .instant := by
  have hmapping : (Filter.member column negated values).mapping =
      .object [("column", .text column), ("condition", .text (if negated then "notIn" else "in")),
        ("value", .list (values.map Scalar.value))] := by
    rw [← toValues_scalars]
    rfl
  have hname : operator? (if negated then "notIn" else "in") =
      some (.array (if negated then "NOT IN" else "IN")) := by
    cases negated <;> rfl
  rw [hmapping, compile_leaf rfl rfl hname]
  change leafText column _ (.list (values.map Scalar.value)) = _
  rw [leafText, literals_values, Filter.sql]
  cases values.all Scalar.hasInstant <;> rfl

theorem compile_range (column : String) (negated : Bool) (low high : Scalar) :
    compile (Filter.range column negated low high).mapping =
      if low.hasInstant && high.hasInstant then .ok (Filter.range column negated low high).sql
      else .error .instant := by
  have hname : operator? (if negated then "notBetween" else "between") =
      some (.range (if negated then "NOT BETWEEN" else "BETWEEN")) := by
    cases negated <;> rfl
  change compile (.object [("column", .text column),
    ("condition", .text (if negated then "notBetween" else "between")),
    ("value", .object [("from", low.value), ("to", high.value)])]) = _
  rw [compile_leaf rfl rfl hname]
  change (do
    let low ← literal low.value
    let high ← literal high.value
    .ok (column ++ " " ++ (if negated then "NOT BETWEEN" else "BETWEEN") ++ " " ++ low ++ " AND " ++
      high)) = _
  rw [Scalar.literal_value, Scalar.literal_value, Filter.sql]
  cases low.hasInstant <;> cases high.hasInstant <;> rfl

theorem compile_isNull (column : String) (negated : Bool) :
    compile (Filter.isNull column negated).mapping = .ok (Filter.isNull column negated).sql := by
  have hname : operator? (if negated then "isNotNull" else "isNull") =
      some (.null (if negated then "IS NOT NULL" else "IS NULL")) := by
    cases negated <;> rfl
  change compile (.object [("column", .text column),
    ("condition", .text (if negated then "isNotNull" else "isNull"))]) = _
  rw [compile_leaf rfl rfl hname, leafText, Filter.sql]

theorem compile_and (children : List Value) (negated : Bool) :
    compile (.object [("and", .list children), ("negate", .bool negated)]) =
      (compileAll children).map (groupText " AND " "1=1" negated) := by
  rw [compile]
  change (do
    let texts ← compileAll children
    .ok (groupText " AND " "1=1" negated texts)) = _
  cases compileAll children <;> rfl

theorem compile_or (children : List Value) (negated : Bool) :
    compile (.object [("or", .list children), ("negate", .bool negated)]) =
      (compileAll children).map (groupText " OR " "1=0" negated) := by
  rw [compile]
  change (do
    let texts ← compileAll children
    .ok (groupText " OR " "1=0" negated texts)) = _
  cases compileAll children <;> rfl

mutual

-- The text of a filter, if all its moments have a UTC form.
theorem Filter.compile_mapping (f : Filter) :
    compile f.mapping = if f.values.all Scalar.hasInstant then .ok f.sql else .error .instant := by
  match f with
  | .compare column comparison value =>
    rw [compile_compare, Filter.values]
    simp
  | .member column negated values => rw [compile_member, Filter.values]
  | .range column negated low high =>
    rw [compile_range, Filter.values]
    simp
  | .isNull column negated =>
    rw [compile_isNull, Filter.values]
    rfl
  | .all children negated =>
    change compile (.object [("and", .list (Document.toValues .stored (documents children))),
      ("negate", .bool negated)]) = _
    rw [compile_and, Filter.compileAll_mappings children, values, sql]
    cases (valuesOf children).all Scalar.hasInstant <;> rfl
  | .any children negated =>
    change compile (.object [("or", .list (Document.toValues .stored (documents children))),
      ("negate", .bool negated)]) = _
    rw [compile_or, Filter.compileAll_mappings children, values, sql]
    cases (valuesOf children).all Scalar.hasInstant <;> rfl

theorem Filter.compileAll_mappings (fs : List Filter) :
    compileAll (Document.toValues .stored (documents fs)) =
      if (valuesOf fs).all Scalar.hasInstant then .ok (sqls fs) else .error .instant := by
  match fs with
  | [] => 
    rw [documents, Document.toValues, compileAll]
    rfl
  | f :: rest =>
    have hf := Filter.compile_mapping f
    rw [Filter.mapping] at hf
    rw [documents, Document.toValues, compileAll, hf, Filter.compileAll_mappings rest, valuesOf,
      sqls, List.all_append]
    cases f.values.all Scalar.hasInstant <;> cases (valuesOf rest).all Scalar.hasInstant <;> rfl

end

end

end Gleaner
