import Gleaner.Validation.Checked

namespace Gleaner.Validation

-- Words that cannot be the name of an attribute as they are.
def reservedWords : List String := ["if", "else", "and", "or", "from"]

def attributeChars : List Char → List Char
  | [] => []
  | c :: rest =>
    if c.isUpper then '_' :: c.toLower :: attributeChars rest else c :: attributeChars rest

-- The second name of a field: its key in lower case with a low line where a word begins. A
-- reserved word has one behind it.
def attributeName (key : String) : String :=
  if reservedWords.contains key then key ++ "_" else String.ofList (attributeChars key.toList)

theorem sizeOf_lt_of_mem {fields : List (String × Value)} {k : String} {v : Value}
    (h : (k, v) ∈ fields) : sizeOf v < sizeOf fields := by
  have := List.sizeOf_lt_of_mem h
  simp only [Prod.mk.sizeOf_spec] at this
  omega

-- The field of a name, with the fact that it is a part of the whole.
def lookup? : (fields : List (String × Value)) → String →
    Option { v : Value // sizeOf v < sizeOf fields }
  | [], _ => none
  | (k, v) :: rest, name =>
    if k = name then some ⟨v, sizeOf_lt_of_mem (List.mem_cons_self ..)⟩
    else (lookup? rest name).map fun ⟨v, h⟩ =>
      ⟨v, Nat.lt_of_lt_of_le h (by simp only [List.cons.sizeOf_spec]; omega)⟩

-- A field is found under its key or else under its attribute name; the name that was used counts.
def find? (fields : List (String × Value)) (key : String) :
    Option (String × { v : Value // sizeOf v < sizeOf fields }) :=
  match lookup? fields key with
  | some v => some (key, v)
  | none => (lookup? fields (attributeName key)).map (attributeName key, ·)

section

variable {α : Type} (fields : List (String × Value)) (key : String)

-- A field that has to be there. The check may rely on the value being a part of the object.
def requiredPart (check : (v : Value) → sizeOf v < sizeOf fields → Checked α) : Checked α :=
  match find? fields key with
  | some (used, ⟨v, h⟩) => (check v h).under (.key used)
  | none => .invalid [⟨[.key key], .missing⟩]

def optionalPart (default : α) (check : (v : Value) → sizeOf v < sizeOf fields → Checked α) :
    Checked α :=
  match find? fields key with
  | some (used, ⟨v, h⟩) => (check v h).under (.key used)
  | none => .valid default

def required (check : Value → Checked α) : Checked α := requiredPart fields key fun v _ => check v

-- A field that has a default value.
def optional (default : α) (check : Value → Checked α) : Checked α :=
  optionalPart fields key default fun v _ => check v

end

-- A check that also takes the null value.
def nullable {α : Type} (check : Value → Checked α) : Value → Checked (Option α)
  | .null => .valid none
  | v => some <$> check v

-- The fields of a value that has to be a model of the given name.
def model {α : Type} (name : String) (v : Value)
    (check : (fields : List (String × Value)) → sizeOf fields < sizeOf v → Checked α) :
    Checked α :=
  match v with
  | .object fields => check fields (by simp)
  | _ => .fault (.notModel name)

-- Fields that no check has used, in their order.
def noExtras (fields : List (String × Value)) (keys : List String) : Checked Unit :=
  let used := keys.filterMap fun key => (find? fields key).map (·.1)
  match fields.filter fun f => !used.contains f.1 with
  | [] => .valid ()
  | extras => .invalid (extras.map fun f => ⟨[.key f.1], .extra⟩)

-- The items of a list, each checked as a part of it.
def itemsPart {α : Type} (v : Value) (check : (x : Value) → sizeOf x < sizeOf v → Checked α) :
    Checked (List α) :=
  match v with
  | .list items =>
    .ofItems (items.attach.map fun ⟨x, h⟩ => check x (by
      have := List.sizeOf_lt_of_mem h
      simp only [Value.list.sizeOf_spec]
      omega)) 0
  | _ => .fault .notList

def items {α : Type} (check : Value → Checked α) (v : Value) : Checked (List α) :=
  itemsPart v fun x _ => check x

def nonEmpty {α : Type} (c : Checked (List α)) : Checked (List α) :=
  c.andThen fun xs => if xs.isEmpty then .fault .emptyList else .valid xs

def entries {α : Type} (check : Value → Checked α) : Value → Checked (List (String × α))
  | .object fields => .ofEntries (fields.map fun (k, v) => (k, check v))
  | _ => .fault .notDictionary

-- Picks one of several models by the text under a key. Faults of the chosen model stand below
-- the tag.
def tagged {α : Type} (key : String) (tags : List String) (v : Value)
    (check : (tag : String) → (fields : List (String × Value)) → sizeOf fields < sizeOf v →
      Checked α) : Checked α :=
  match v with
  | .object fields =>
    match lookup? fields key with
    | none => .fault (.untagged key)
    | some ⟨.text tag, _⟩ =>
      if tags.contains tag then (check tag fields (by simp)).under (.key tag)
      else .fault (.unknownTag tag key tags)
    | some ⟨other, _⟩ => .fault (.unknownTag other.display key tags)
  | _ => .fault .notFields

end Gleaner.Validation
