import Gleaner.Validation.Record
import Gleaner.Time.Written

namespace Gleaner

-- What a model writes before it is decided how: fields have keys of the model, entries have keys
-- that are data.
inductive Document
  | leaf (v : Value)
  | list (items : List Document)
  | entries (items : List (String × Document))
  | record (fields : List (String × Document))
deriving Inhabited

namespace Document

-- Whether fields have their attribute names, whether fields without a value are left out, and
-- whether moments become text.
structure Style where
  attributes : Bool
  omitNull : Bool
  textual : Bool

-- For transport: keys, nothing empty, text for moments.
def Style.wire : Style := ⟨false, true, true⟩

-- For transport where empty fields are to be seen.
def Style.full : Style := ⟨false, false, true⟩

-- For storage: keys and moments.
def Style.stored : Style := ⟨false, false, false⟩

-- For use by name in memory.
def Style.named : Style := ⟨true, false, false⟩

mutual

def plain : Value → Value
  | .moment t => .text t.wireText
  | .day d => .text d.text
  | .list items => .list (plainItems items)
  | .object fields => .object (plainFields fields)
  | v => v

def plainItems : List Value → List Value
  | [] => []
  | v :: rest => plain v :: plainItems rest

def plainFields : List (String × Value) → List (String × Value)
  | [] => []
  | (k, v) :: rest => (k, plain v) :: plainFields rest

end

def isNull : Document → Bool
  | .leaf .null => true
  | _ => false

mutual

def toValue (style : Style) : Document → Value
  | .leaf v => if style.textual then plain v else v
  | .list items => .list (toValues style items)
  | .entries items => .object (toEntries style items)
  | .record fields => .object (toFields style fields)

def toValues (style : Style) : List Document → List Value
  | [] => []
  | d :: rest => toValue style d :: toValues style rest

def toEntries (style : Style) : List (String × Document) → List (String × Value)
  | [] => []
  | (k, d) :: rest => (k, toValue style d) :: toEntries style rest

def toFields (style : Style) : List (String × Document) → List (String × Value)
  | [] => []
  | (k, d) :: rest =>
    if style.omitNull && d.isNull then toFields style rest
    else
      (if style.attributes then Validation.attributeName k else k, toValue style d) ::
        toFields style rest

end

theorem toValues_map (style : Style) (ds : List Document) :
    toValues style ds = ds.map (toValue style) := by
  induction ds with
  | nil => rfl
  | cons d ds ih => rw [toValues, ih, List.map_cons]

theorem toValue_list_map {α : Type} (style : Style) (write : α → Document) (as : List α) :
    (list (as.map write)).toValue style = .list (as.map fun a => (write a).toValue style) := by
  rw [toValue, toValues_map, List.map_map]
  rfl

theorem toEntries_map (style : Style) (ds : List (String × Document)) :
    toEntries style ds = ds.map fun (k, d) => (k, toValue style d) := by
  induction ds with
  | nil => rfl
  | cons d ds ih => rw [toEntries, ih, List.map_cons]

def text (s : String) : Document := .leaf (.text s)

def int (n : Int) : Document := .leaf (.int n)

def bool (b : Bool) : Document := .leaf (.bool b)

def null : Document := .leaf .null

def optional {α : Type} (write : α → Document) : Option α → Document
  | none => .null
  | some a => write a

end Document

end Gleaner
