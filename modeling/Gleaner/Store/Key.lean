namespace Gleaner

-- A data key names a column of a data source: `source.column`.
structure DataKey where
  source : String
  column : String
deriving DecidableEq, Repr

-- The two parts around the only point of a text, neither of them empty.
def DataKey.ofChars? (cs : List Char) : Option (List Char × List Char) :=
  let source := cs.takeWhile (· ≠ '.')
  match cs.dropWhile (· ≠ '.') with
  | _ :: column =>
    if source.isEmpty ∨ column.isEmpty ∨ column.contains '.' then none else some (source, column)
  | [] => none

def DataKey.read? (key : String) : Option DataKey :=
  (ofChars? key.toList).map fun p => ⟨String.ofList p.1, String.ofList p.2⟩

end Gleaner
