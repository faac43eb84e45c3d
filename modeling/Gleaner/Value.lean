import Gleaner.Number.Binary64
import Gleaner.Time.Calendar

namespace Gleaner

-- Data whose shape is only known at run time: what JSON can hold, and moments and days. The
-- fields of an object have an order and pairwise different names.
inductive Value
  | null
  | bool (b : Bool)
  | int (n : Int)
  | float (x : Binary64)
  | text (s : String)
  | moment (t : DateTime)
  | day (d : Date)
  | list (items : List Value)
  | object (fields : List (String × Value))
deriving Repr, Inhabited

namespace Value

mutual

def beq : Value → Value → Bool
  | .null, .null => true
  | .bool a, .bool b => a == b
  | .int a, .int b => a == b
  | .float a, .float b => a == b
  | .text a, .text b => a == b
  | .moment a, .moment b => a == b
  | .day a, .day b => a == b
  | .list a, .list b => beqList a b
  | .object a, .object b => beqFields a b
  | _, _ => false

def beqList : List Value → List Value → Bool
  | [], [] => true
  | a :: as, b :: bs => beq a b && beqList as bs
  | _, _ => false

def beqFields : List (String × Value) → List (String × Value) → Bool
  | [], [] => true
  | (k, a) :: as, (l, b) :: bs => k == l && beq a b && beqFields as bs
  | _, _ => false

end

instance : BEq Value := ⟨beq⟩

def isNull : Value → Bool
  | .null => true
  | _ => false

-- The text a value holds, if it is a text.
def text? : Value → Option String
  | .text s => some s
  | _ => none

def list? : Value → Option (List Value)
  | .list items => some items
  | _ => none

def object? : Value → Option (List (String × Value))
  | .object fields => some fields
  | _ => none

def ofText? : Option String → Value
  | none => .null
  | some s => .text s

end Value

-- Fields of an object: the value under a name.
def Fields.get? (fields : List (String × Value)) (name : String) : Option Value :=
  (fields.find? (·.1 == name)).map (·.2)

def Fields.has (fields : List (String × Value)) (name : String) : Bool :=
  fields.any (·.1 == name)

-- Writing under a name that is already there keeps its place.
def Fields.set {α : Type} (fields : List (String × α)) (name : String) (value : α) :
    List (String × α) :=
  if fields.any (·.1 == name) then fields.map fun f => if f.1 == name then (name, value) else f
  else fields ++ [(name, value)]

-- Fields in the order of their first appearance, each with its last value.
def Fields.ofPairs {α : Type} (pairs : List (String × α)) : List (String × α) :=
  pairs.foldl (fun fields p => Fields.set fields p.1 p.2) []

end Gleaner
