import Gleaner.Sql.Cell
import Gleaner.Sql.Phrase

namespace Gleaner.Sql

-- An expression over the columns of a row.
inductive Expr
  | cell (c : Cell)
  | name (path : List String) (inQuotes : Bool)
  | call (function : String) (arguments : List Expr)
  | compare (op : Comparator) (left right : Expr)
  | like (negated : Bool) (left pattern : Expr)
  | member (negated : Bool) (left : Expr) (items : List Expr)
  | range (negated : Bool) (left low high : Expr)
  | isNull (negated : Bool) (e : Expr)
  | negative (e : Expr)
  | not (e : Expr)
  | and (left right : Expr)
  | or (left right : Expr)
deriving Repr, Inhabited

def numberCell (shown : String) : Cell := (Cell.number? shown).getD .null

-- A numeral; the sign in front belongs to it, except in front of the integer zero.
def Expr.ofNumeral (signed : Bool) (shown : String) : Expr :=
  if signed then
    let number := numberCell ("-" ++ shown)
    if number = .int 0 then .negative (.cell number) else .cell number
  else .cell (numberCell shown)

def Expr.isZero : Expr → Bool
  | .cell (.int 0) => true
  | _ => false

-- Both of two conditions. Where one of them is the constant zero it is that constant, whatever the
-- other one names.
def Expr.both (a b : Expr) : Expr := if a.isZero || b.isZero then .cell (.int 0) else .and a b

-- Chains are taken from the left.
def Expr.allOf : List Expr → Expr
  | [] => .cell (.int 1)
  | e :: rest => rest.foldl both e

def Expr.anyOf : List Expr → Expr
  | [] => .cell (.int 0)
  | e :: rest => rest.foldl or e

mutual

-- What a phrase says. Nothing is a member of no items, and the operand is not looked at.
def Phrase.expr : Phrase → Expr
  | .null => .cell .null
  | .number signed shown => .ofNumeral signed shown
  | .string content => .cell (.text content)
  | .name path inQuotes => .name path inQuotes
  | .call function arguments => .call function (exprs arguments)
  | .negative p => .negative p.expr
  | .compare op left right => .compare op left.expr right.expr
  | .like negated left pattern => .like negated left.expr pattern.expr
  | .member negated _ [] => .cell (.int (if negated then 1 else 0))
  | .member negated left items => .member negated left.expr (exprs items)
  | .range negated left low high => .range negated left.expr low.expr high.expr
  | .isNull negated p => .isNull negated p.expr
  | .not p => .not p.expr
  | .all parts => .allOf (exprs parts)
  | .any parts => .anyOf (exprs parts)

def Phrase.exprs : List Phrase → List Expr
  | [] => []
  | p :: rest => p.expr :: exprs rest

end

-- The expression a text stands for.
def Expr.read (text : String) : Except Error Expr := do
  let p ← Phrase.read text
  .ok p.expr

end Gleaner.Sql
