import Gleaner.Script.Action
import Gleaner.Script.Source

namespace Gleaner

open Validation

-- What decides the branch a script takes.
inductive Condition
  | isVisible (selectors : Selectors) (page : Option Nat)
  | textEquals (source : Source) (text : TextMatcher)
deriving DecidableEq, Repr

namespace Condition

def kind : Condition → String
  | isVisible .. => "isVisible"
  | textEquals .. => "textEquals"

def kinds : List String := ["isVisible", "textEquals"]

def check (v : Value) : Checked Condition :=
  tagged "type" kinds v fun kind fields _ =>
    match kind with
    | "isVisible" =>
      isVisible <$> required fields "selectors" Selectors.check
        <*> optional fields "pageIndex" none (nullable checkPageIndex)
    | _ =>
      textEquals <$> required fields "valueSelector" Source.check
        <*> required fields "text" TextMatcher.check

def document (c : Condition) : Document :=
  .record (("type", .text c.kind) ::
    match c with
    | isVisible ss page =>
      [("selectors", ss.document), ("pageIndex", .optional (fun n => .int n) page)]
    | textEquals source m => [("valueSelector", source.document), ("text", m.document)])

end Condition

-- A column and where its value comes from.
structure BatchItem where
  column : String
  value : Source
deriving DecidableEq, Repr

def BatchItem.check (v : Value) : Checked BatchItem :=
  model "SaveDataBatchItem" v fun fields _ =>
    BatchItem.mk <$> required fields "columnName" filledText
      <*> required fields "value" Source.check

def BatchItem.document (i : BatchItem) : Document :=
  .record [("columnName", .text i.column), ("value", i.value.document)]

-- One step of a script. A jump goes on behind the marker of its name in its own list or in one
-- that encloses it.
inductive Instruction
  | pageAction (page : Nat) (action : Action)
  | condition (test : Condition) (consequent : List Instruction)
      (alternative : Option (List Instruction))
  | saveData (key : String) (value : Source)
  | saveDataBatch (source : String) (items : List BatchItem)
  | deleteData (source : String)
  | marker (name : String)
  | jump (name : String)
deriving Repr

namespace Instruction

def kind : Instruction → String
  | pageAction .. => "pageAction"
  | condition .. => "condition"
  | saveData .. => "saveData"
  | saveDataBatch .. => "saveDataBatch"
  | deleteData _ => "deleteData"
  | marker _ => "marker"
  | jump _ => "jump"

def kinds : List String :=
  ["pageAction", "condition", "saveData", "saveDataBatch", "deleteData", "marker", "jump"]

def check (v : Value) : Checked Instruction :=
  tagged "type" kinds v fun kind fields _hf =>
    match kind with
    | "pageAction" =>
      pageAction <$> optional fields "pageIndex" 0 checkPageIndex
        <*> required fields "action" Action.check
    | "condition" =>
      condition <$> required fields "if" Condition.check
        <*> requiredPart fields "then" (fun v _hv =>
          itemsPart v fun x _hx => check x)
        <*> optionalPart fields "else" none (fun v _hv =>
          if v.isNull then .valid none else some <$> itemsPart v fun x _hx => check x)
    | "saveData" =>
      saveData <$> required fields "dataKey" checkDataKey <*> required fields "value" Source.check
    | "saveDataBatch" =>
      saveDataBatch <$> required fields "dataSourceName" checkSourceName
        <*> required fields "items" (items BatchItem.check)
    | "deleteData" => deleteData <$> required fields "dataSourceName" checkSourceName
    | "marker" => marker <$> required fields "name" filledText
    | _ => jump <$> required fields "markerName" filledText
termination_by sizeOf v

mutual

def document : Instruction → Document
  | pageAction page action =>
    .record [("type", .text "pageAction"), ("pageIndex", .int page), ("action", action.document)]
  | condition test consequent alternative =>
    .record [("type", .text "condition"), ("if", test.document),
      ("then", .list (documents consequent)), ("else", alternativeDocument alternative)]
  | saveData key value =>
    .record [("type", .text "saveData"), ("dataKey", .text key), ("value", value.document)]
  | saveDataBatch source items =>
    .record [("type", .text "saveDataBatch"), ("dataSourceName", .text source),
      ("items", .list (items.map BatchItem.document))]
  | deleteData source =>
    .record [("type", .text "deleteData"), ("dataSourceName", .text source)]
  | marker name => .record [("type", .text "marker"), ("name", .text name)]
  | jump name => .record [("type", .text "jump"), ("markerName", .text name)]

def documents : List Instruction → List Document
  | [] => []
  | i :: rest => document i :: documents rest

def alternativeDocument : Option (List Instruction) → Document
  | none => .null
  | some is => .list (documents is)

end

-- The list of instructions of a script.
def checkAll (v : Value) : Checked (List Instruction) := items check v

end Instruction

end Gleaner
