import Gleaner.Script.Selector

namespace Gleaner

open Validation

-- The index of a page of the browser, from 0 to 255.
def checkPageIndex (v : Value) : Checked Nat := Int.toNat <$> between 0 255 v

def isDataKey (cs : List Char) : Bool :=
  let source := cs.takeWhile (· ≠ '.')
  let column := (cs.dropWhile (· ≠ '.')).drop 1
  !source.isEmpty && !column.isEmpty && !column.contains '.'

def dataKeyPattern : String := "^[^.]+\\.[^.]+$"

-- The key of a datum: a source and a column with a single point between them.
def checkDataKey : Value → Checked String := shapedText dataKeyPattern isDataKey

-- The name of a data source has neither points nor white space.
def checkSourceName (v : Value) : Checked String :=
  (filledText v).andThen fun s =>
    shapedText "^[^.\\s]+$" (fun cs => cs.all fun c => c ≠ '.' && !Text.isSpace c) (.text s)

-- Where a script takes a value from.
inductive Source
  | literal (text : String)
  | null
  | currentTimestamp
  | externalData (key : String) (default : Option String)
  | elementText (selectors : Selectors) (page : Option Nat)
  | elementAttribute (selectors : Selectors) (name : String) (page : Option Nat)
deriving DecidableEq, Repr

namespace Source

def kind : Source → String
  | literal _ => "literal"
  | null => "null"
  | currentTimestamp => "currentTimestamp"
  | externalData .. => "externalData"
  | elementText .. => "elementTextContent"
  | elementAttribute .. => "elementAttribute"

def kinds : List String :=
  ["literal", "null", "currentTimestamp", "externalData", "elementTextContent", "elementAttribute"]

def check (v : Value) : Checked Source :=
  tagged "type" kinds v fun kind fields _ =>
    match kind with
    | "literal" => literal <$> required fields "value" text
    | "null" => .valid null
    | "currentTimestamp" => .valid currentTimestamp
    | "externalData" =>
      externalData <$> required fields "dataKey" checkDataKey
        <*> optional fields "defaultValue" none (nullable text)
    | "elementTextContent" =>
      elementText <$> required fields "selectors" Selectors.check
        <*> optional fields "pageIndex" none (nullable checkPageIndex)
    | _ =>
      elementAttribute <$> required fields "selectors" Selectors.check
        <*> required fields "attributeName" filledText
        <*> optional fields "pageIndex" none (nullable checkPageIndex)

private def page : Option Nat → Document := Document.optional fun n => .int n

def document (s : Source) : Document :=
  .record (("type", .text s.kind) ::
    match s with
    | literal t => [("value", .text t)]
    | null => []
    | currentTimestamp => []
    | externalData key default =>
      [("dataKey", .text key), ("defaultValue", .optional .text default)]
    | elementText ss p => [("selectors", ss.document), ("pageIndex", page p)]
    | elementAttribute ss name p =>
      [("selectors", ss.document), ("attributeName", .text name), ("pageIndex", page p)])

end Source

end Gleaner
