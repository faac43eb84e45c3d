import Gleaner.Where.Literal

namespace Gleaner.Where

-- The operators of conditions, told apart by the shape of the value they take.
inductive Operator
  | comparison (sql : String)
  | caseless (sql : String)
  | array (sql : String)
  | null (sql : String)
  | range (sql : String)
deriving DecidableEq, Repr

def operator? : String → Option Operator
  | "equals" => some (.comparison "=")
  | "notEquals" => some (.comparison "!=")
  | "greaterThan" => some (.comparison ">")
  | "greaterThanOrEqual" => some (.comparison ">=")
  | "lessThan" => some (.comparison "<")
  | "lessThanOrEqual" => some (.comparison "<=")
  | "like" => some (.comparison "LIKE")
  | "notLike" => some (.comparison "NOT LIKE")
  | "iLike" => some (.caseless "LIKE")
  | "notILike" => some (.caseless "NOT LIKE")
  | "in" => some (.array "IN")
  | "notIn" => some (.array "NOT IN")
  | "isNull" => some (.null "IS NULL")
  | "isNotNull" => some (.null "IS NOT NULL")
  | "between" => some (.range "BETWEEN")
  | "notBetween" => some (.range "NOT BETWEEN")
  | _ => none

def literals : List Value → Except CompileError (List String)
  | [] => .ok []
  | v :: rest => do
    let s ← literal v
    let rest ← literals rest
    .ok (s :: rest)

-- A condition on one column. The column stands in the text as it is.
def leafText (column : String) (operator : Operator) (value : Value) :
    Except CompileError String :=
  match operator with
  | .comparison sql => do
    let s ← literal value
    .ok (column ++ " " ++ sql ++ " " ++ s)
  | .caseless sql => do
    let s ← literal value
    .ok ("LOWER(" ++ column ++ ") " ++ sql ++ " LOWER(" ++ s ++ ")")
  | .array sql =>
    match value with
    | .list items => do
      let items ← literals items
      .ok (column ++ " " ++ sql ++ " (" ++ Value.joined ", " items ++ ")")
    | _ => .error (.array sql)
  | .null sql => .ok (column ++ " " ++ sql)
  | .range sql =>
    match value with
    | .object fields =>
      match Fields.get? fields "from", Fields.get? fields "to" with
      | some low, some high => do
        let low ← literal low
        let high ← literal high
        .ok (column ++ " " ++ sql ++ " " ++ low ++ " AND " ++ high)
      | _, _ => .error (.range sql)
    | _ => .error (.range sql)

def conditionText (fields : List (String × Value)) (condition : Value) :
    Except CompileError String :=
  match Fields.get? fields "column" with
  | some (.text column) =>
    match condition with
    | .text name =>
      match operator? name with
      | some operator => leafText column operator ((Fields.get? fields "value").getD .null)
      | none => .error (.condition name)
    | .list _ => .error (.conditionKind condition.kindName)
    | .object _ => .error (.conditionKind condition.kindName)
    | other => .error (.condition other.display)
  | _ => .error .malformed

-- What counts as set in a flag of any kind.
def isSet : Value → Bool
  | .null => false
  | .bool b => b
  | .int n => n ≠ 0
  | .float x => x.compareInt? 0 != some .eq
  | .text s => s ≠ ""
  | .list items => !items.isEmpty
  | .object fields => !fields.isEmpty
  | _ => true

-- The texts of the children of a group as one text. Several are put in parentheses; a group of
-- one is its child; a group of none is a constant.
def groupText (joiner empty : String) (negate : Bool) (children : List String) : String :=
  let inner := match children with
    | [] => empty
    | [s] => s
    | _ => "(" ++ Value.joined joiner children ++ ")"
  if !negate then inner
  else if 1 < children.length then "NOT " ++ inner
  else "NOT (" ++ inner ++ ")"

private theorem sizeOf_get? {fields : List (String × Value)} {name : String} {v : Value}
    (h : Fields.get? fields name = some v) : sizeOf v < sizeOf (Value.object fields) := by
  simp only [Fields.get?, Option.map_eq_some_iff] at h
  obtain ⟨⟨k, w⟩, hf, rfl⟩ := h
  have hm := List.sizeOf_lt_of_mem (List.mem_of_find?_eq_some hf)
  simp only [Prod.mk.sizeOf_spec, Value.object.sizeOf_spec] at *
  omega

mutual

-- The SQL text of a filter given as plain data. A condition is told by its field of that name; of
-- two groups in one object the conjunction counts.
def compile : Value → Except CompileError String
  | .object fields =>
    match Fields.get? fields "condition" with
    | some condition => conditionText fields condition
    | none =>
      let negate := ((Fields.get? fields "negate").map isSet).getD false
      match _h : Fields.get? fields "and" with
      | some (.list children) => do
        let texts ← compileAll children
        .ok (groupText " AND " "1=1" negate texts)
      | some _ => .error .malformed
      | none =>
        match _h : Fields.get? fields "or" with
        | some (.list children) => do
          let texts ← compileAll children
          .ok (groupText " OR " "1=0" negate texts)
        | _ => .error .malformed
  | _ => .error .malformed
termination_by v => sizeOf v
decreasing_by
  all_goals
    have := sizeOf_get? _h
    simp only [Value.list.sizeOf_spec] at this
    omega

def compileAll : List Value → Except CompileError (List String)
  | [] => .ok []
  | v :: rest => do
    let s ← compile v
    let rest ← compileAll rest
    .ok (s :: rest)
termination_by vs => sizeOf vs

end

end Gleaner.Where
