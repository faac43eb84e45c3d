import Gleaner.Document
import Gleaner.Validation.Scalar

namespace Gleaner

open Validation

-- A value that a column is compared with.
inductive Scalar
  | bool (b : Bool)
  | int (n : Int)
  | float (x : Binary64)
  | moment (t : DateTime)
  | text (s : String)
deriving DecidableEq, Repr

namespace Scalar

-- A value keeps its kind; a day is the moment it begins.
def check : Value → Checked Scalar
  | .bool b => .valid (bool b)
  | .int n => .valid (int n)
  | .float x => .valid (float x)
  | .text s => .valid (text s)
  | .moment t => .valid (moment t)
  | .day d => .valid (moment (.ofDate d))
  | _ => .firstOf [("bool", .fault .notBoolean), ("int", .fault .notInteger),
      ("float", .fault .notNumber), ("datetime", .fault .notMoment), ("str", .fault .notText)]

def value : Scalar → Value
  | bool b => .bool b
  | int n => .int n
  | float x => .float x
  | moment t => .moment t
  | text s => .text s

def document (s : Scalar) : Document := .leaf s.value

end Scalar

-- Comparisons of a column with one value.
inductive Comparison
  | equals | notEquals | greaterThan | greaterThanOrEqual | lessThan | lessThanOrEqual
  | like | notLike | iLike | notILike
deriving DecidableEq, Repr

def Comparison.name : Comparison → String
  | equals => "equals"
  | notEquals => "notEquals"
  | greaterThan => "greaterThan"
  | greaterThanOrEqual => "greaterThanOrEqual"
  | lessThan => "lessThan"
  | lessThanOrEqual => "lessThanOrEqual"
  | like => "like"
  | notLike => "notLike"
  | iLike => "iLike"
  | notILike => "notILike"

def Comparison.all : List Comparison :=
  [equals, notEquals, greaterThan, greaterThanOrEqual, lessThan, lessThanOrEqual, like, notLike,
    iLike, notILike]

def Comparison.ofName? (name : String) : Option Comparison := all.find? (·.name = name)

-- A condition on the rows of a table, as a tree of groups over conditions on single columns.
inductive Filter
  | compare (column : String) (comparison : Comparison) (value : Scalar)
  | member (column : String) (negated : Bool) (values : List Scalar)
  | range (column : String) (negated : Bool) (low high : Scalar)
  | isNull (column : String) (negated : Bool)
  | all (children : List Filter) (negated : Bool)
  | any (children : List Filter) (negated : Bool)
deriving Repr

namespace Filter

def isNameStart (c : Char) : Bool := c = '_' || c.isAlpha

def isNamePart (c : Char) : Bool := c = '_' || c.isAlphanum

def isName : List Char → Bool
  | [] => false
  | c :: rest => isNameStart c && rest.all isNamePart

-- A name, or the name of a table and a name with a point between them.
def isColumn (cs : List Char) : Bool :=
  let table := cs.takeWhile (· ≠ '.')
  match cs.dropWhile (· ≠ '.') with
  | [] => isName table
  | _ :: column => isName table && isName column

def columnPattern : String := "^[A-Za-z_][A-Za-z0-9_]*(\\.[A-Za-z_][A-Za-z0-9_]*)?$"

def checkColumn : Value → Checked String := shapedText columnPattern isColumn

def conditions : List String :=
  Comparison.all.map Comparison.name ++ ["in", "notIn", "between", "notBetween", "isNull", "isNotNull"]

def bounds (v : Value) : Checked (Scalar × Scalar) :=
  model "RangeValue" v fun fields _ =>
    Prod.mk <$> required fields "from" Scalar.check <*> required fields "to" Scalar.check

-- A condition on one column, told by its name. Only the test for null takes no further fields.
def checkLeaf (v : Value) : Checked Filter :=
  tagged "condition" conditions v fun name fields _ =>
    match Comparison.ofName? name with
    | some comparison =>
      (compare · comparison) <$> required fields "column" checkColumn
        <*> required fields "value" Scalar.check
    | none =>
      if name = "in" ∨ name = "notIn" then
        (member · (name = "notIn")) <$> required fields "column" checkColumn
          <*> required fields "value" (items Scalar.check)
      else if name = "between" ∨ name = "notBetween" then
        (fun column (low, high) => range column (name = "notBetween") low high)
          <$> required fields "column" checkColumn <*> required fields "value" bounds
      else
        (fun column _ => isNull column (name = "isNotNull"))
          <$> required fields "column" checkColumn <*> noExtras fields ["column", "condition"]

-- A filter is a condition or one of the two groups. What none of them takes is reported for each.
def check (v : Value) : Checked Filter :=
  .firstOf [
    ("tagged-union", checkLeaf v),
    ("AndConditions", model "AndConditions" v fun fields _hf =>
      (fun children negated _ => all children negated)
        <$> requiredPart fields "and" (fun v _hv => nonEmpty (itemsPart v fun x _hx => check x))
        <*> optional fields "negate" false boolean
        <*> noExtras fields ["and", "negate"]),
    ("OrConditions", model "OrConditions" v fun fields _hf =>
      (fun children negated _ => any children negated)
        <$> requiredPart fields "or" (fun v _hv => nonEmpty (itemsPart v fun x _hx => check x))
        <*> optional fields "negate" false boolean
        <*> noExtras fields ["or", "negate"])]
termination_by sizeOf v

mutual

def document : Filter → Document
  | compare column comparison value =>
    .record [("column", .text column), ("condition", .text comparison.name),
      ("value", value.document)]
  | member column negated values =>
    .record [("column", .text column), ("condition", .text (if negated then "notIn" else "in")),
      ("value", .list (values.map Scalar.document))]
  | range column negated low high =>
    .record [("column", .text column),
      ("condition", .text (if negated then "notBetween" else "between")),
      ("value", .record [("from", low.document), ("to", high.document)])]
  | isNull column negated =>
    .record [("column", .text column),
      ("condition", .text (if negated then "isNotNull" else "isNull"))]
  | all children negated =>
    .record [("and", .list (documents children)), ("negate", .bool negated)]
  | any children negated =>
    .record [("or", .list (documents children)), ("negate", .bool negated)]

def documents : List Filter → List Document
  | [] => []
  | f :: rest => document f :: documents rest

end

-- The filter as plain data under the keys of the wire, moments kept.
def mapping (f : Filter) : Value := f.document.toValue .stored

end Filter

end Gleaner
