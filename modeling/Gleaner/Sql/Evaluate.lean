import Gleaner.Sql.Table

namespace Gleaner.Sql

-- The place a name of an expression stands for. Nothing is there for a text in quotes or one of
-- the words for truth.
def placeOf (t : Table) (path : List String) : Option Table.Place :=
  match path with
  | [column] => t.place? column
  | [table, column] => if sameName table t.name then t.place? column else none
  | [schema, table, column] =>
    if sameName schema "main" && sameName table t.name then t.place? column else none
  | _ => none

def truthWord? (name : String) : Option Cell :=
  match lowerAscii name with
  | "true" => some (.int 1)
  | "false" => some (.int 0)
  | _ => none

-- A name in quotes that no column has is a text.
def constant? (path : List String) (inQuotes : Bool) : Option Cell :=
  match path with
  | [name] => if inQuotes then some (.text name) else truthWord? name
  | _ => none

def functions : List (String × Nat) := [("lower", 1), ("upper", 1), ("length", 1)]

def checkCall (function : String) (count : Nat) : Except Error Unit :=
  match functions.find? (·.1 == lowerAscii function) with
  | none => .error (.noFunction function)
  | some (_, n) => if n = count then .ok () else .error (.argumentCount function)

-- The fault found so far while an expression is walked through. One that is found inside a call or
-- a test for null does not stop the walk at once: the names that come next are still looked up,
-- and a later fault takes the place of an earlier one.
abbrev Pending := Option Error

namespace Pending

def ofCall : Except Error Pending → Pending
  | .ok pending => pending
  | .error e => some e

-- Goes on unless a fault was found.
def thenWalk (pending : Pending) (walk : Except Error Pending) : Except Error Pending :=
  match pending with
  | some e => .error e
  | none => walk

end Pending

mutual

-- Whether everything an expression names exists.
def Expr.walk (t : Table) (pending : Pending) : Expr → Except Error Pending
  | .cell _ => pending.thenWalk (.ok none)
  | .name path inQuotes =>
    match placeOf t path, constant? path inQuotes with
    | none, none => .error (.noColumn (Value.joined "." path))
    | _, _ => .ok pending
  | .call function arguments =>
    let pending := match checkCall function arguments.length with
      | .ok () => pending
      | .error e => some e
    .ok (Pending.ofCall (Expr.walkAll t pending arguments))
  | .like _ a b => .ok (Pending.ofCall (do a.walk t (← b.walk t pending)))
  | .isNull _ e => .ok (Pending.ofCall (e.walk t pending))
  | .compare _ a b => pending.thenWalk do b.walk t (← a.walk t none)
  | .member _ a items => pending.thenWalk do Expr.walkAll t (← a.walk t none) items
  | .range _ a low high => pending.thenWalk do high.walk t (← low.walk t (← a.walk t none))
  | .negative e => pending.thenWalk (e.walk t none)
  | .not e => pending.thenWalk (e.walk t none)
  | .and a b => pending.thenWalk do b.walk t (← a.walk t none)
  | .or a b => pending.thenWalk do b.walk t (← a.walk t none)

def Expr.walkAll (t : Table) (pending : Pending) : List Expr → Except Error Pending
  | [] => .ok pending
  | e :: rest => do Expr.walkAll t (← e.walk t pending) rest

end

def Expr.check (t : Table) (e : Expr) : Except Error Unit := do
  match ← e.walk t none with
  | none => .ok ()
  | some fault => .error fault

-- Truth with a third value for what is unknown.
abbrev Truth := Option Bool

namespace Truth

def not : Truth → Truth := Option.map (!·)

def and : Truth → Truth → Truth
  | some false, _ => some false
  | _, some false => some false
  | some true, some true => some true
  | _, _ => none

def or (a b : Truth) : Truth := not (and (not a) (not b))

def negateIf (negated : Bool) (t : Truth) : Truth := if negated then not t else t

def cell : Truth → Cell
  | none => .null
  | some b => .int (if b then 1 else 0)

end Truth

-- Whether a text has the form of a pattern: `%` is any text, `_` any character. The case of
-- ASCII letters does not count.
def likeChars : List Char → List Char → Bool
  | [], [] => true
  | [], _ :: _ => false
  | p :: ps, [] => p == '%' && likeChars ps []
  | p :: ps, c :: cs =>
    if p = '%' then likeChars ps (c :: cs) || likeChars (p :: ps) cs
    else (p == '_' || p.toLower == c.toLower) && likeChars ps cs
termination_by ps cs => ps.length + cs.length

def likeTruth (text pattern : Cell) : Truth :=
  match text.text?, pattern.text? with
  | some t, some p => some (likeChars p.toList t.toList)
  | _, _ => none

def compareTruth (op : Comparator) (a b : Cell) : Truth :=
  (Cell.compare? a b).map fun o =>
    match op with
    | .equal => o == .eq
    | .unequal => o != .eq
    | .less => o == .lt
    | .lessEqual => o != .gt
    | .greater => o == .gt
    | .greaterEqual => o != .lt

def call (function : String) (arguments : List Cell) : Cell :=
  match lowerAscii function, (arguments.headD .null).text? with
  | _, none => .null
  | "lower", some s => .text (lowerAscii s)
  | "upper", some s => .text (String.ofList (s.toList.map Char.toUpper))
  | _, some s => .int s.length

def opposite (c : Cell) : Cell :=
  match c.counted with
  | .int n => if n = leastInteger then .real (.ofInt (-n)) else .int (-n)
  | .real x => .real x.negate
  | _ => .null

def Expr.affinity (t : Table) : Expr → Affinity
  | .name path _ => ((placeOf t path).map t.affinity).getD .none
  | _ => .none

-- Compares the values of two expressions the way their columns ask for.
def compareIn (t : Table) (op : Comparator) (left right : Expr) (a b : Cell) : Truth :=
  let (a, b) := Cell.aligned (left.affinity t) (right.affinity t) a b
  compareTruth op a b

-- Whether a value is among some others; not being found among some that are null is unknown.
def memberTruth : List Truth → Truth
  | [] => some false
  | t :: rest => Truth.or t (memberTruth rest)

mutual

-- The value of an expression for a row.
def Expr.value (t : Table) (row : Int × List Cell) : Expr → Cell
  | .cell c => c
  | .name path inQuotes =>
    match placeOf t path with
    | some p => Table.read row p
    | none => (constant? path inQuotes).getD .null
  | .call function arguments => Sql.call function (Expr.values t row arguments)
  | .compare op a b => (compareIn t op a b (a.value t row) (b.value t row)).cell
  | .like negated a p => (Truth.negateIf negated (likeTruth (a.value t row) (p.value t row))).cell
  | .member negated a items =>
    (Truth.negateIf negated (memberTruth (Expr.matches t row a (a.value t row) items))).cell
  | .range negated a low high =>
    let v := a.value t row
    (Truth.negateIf negated
      (Truth.and (compareIn t .greaterEqual a low v (low.value t row))
        (compareIn t .lessEqual a high v (high.value t row)))).cell
  | .isNull negated e => (Truth.negateIf negated (some (e.value t row == .null))).cell
  | .negative e => opposite (e.value t row)
  | .not e => (Truth.not (e.value t row).truth?).cell
  | .and a b => (Truth.and (a.value t row).truth? (b.value t row).truth?).cell
  | .or a b => (Truth.or (a.value t row).truth? (b.value t row).truth?).cell

def Expr.values (t : Table) (row : Int × List Cell) : List Expr → List Cell
  | [] => []
  | e :: rest => e.value t row :: Expr.values t row rest

def Expr.matches (t : Table) (row : Int × List Cell) (left : Expr) (v : Cell) :
    List Expr → List Truth
  | [] => []
  | e :: rest =>
    compareTruth .equal (Cell.aligned (left.affinity t) .none v (e.value t row)).1
      (Cell.aligned (left.affinity t) .none v (e.value t row)).2 :: Expr.matches t row left v rest

end

def Expr.truth (t : Table) (row : Int × List Cell) (e : Expr) : Truth := (e.value t row).truth?

end Gleaner.Sql
