import Gleaner.Script.Instruction

namespace Gleaner

open Validation

-- A value that was read from or written to a data store.
abbrev Datum := Value

-- A text, a number or nothing. A truth value becomes a number.
def checkDatum : Value → Checked Datum
  | .null => .valid .null
  | .text s => .valid (.text s)
  | .int n => .valid (.int n)
  | .float x => .valid (.float x)
  | .bool b => .valid (.int (if b then 1 else 0))
  | _ => .firstOf [("str", .fault .notText), ("int", .fault .notInteger),
      ("float", .fault .notNumber)]

-- What is recorded of an instruction.
inductive InstructionInfo
  | pageAction (page : Int) (action : Action) (success : Bool) (error : Option String)
  | condition (test : Condition) (isMet : Bool)
  | saveData (key : String) (value : Source)
  | saveDataBatch (source : String) (items : List BatchItem)
  | deleteData (source : String)
  | marker (name : String)
  | jump (name : String)
deriving DecidableEq, Repr

namespace InstructionInfo

def check (v : Value) : Checked InstructionInfo :=
  tagged "type" Instruction.kinds v fun kind fields _ =>
    match kind with
    | "pageAction" =>
      pageAction <$> optional fields "pageIndex" 0 integer
        <*> required fields "action" Action.check
        <*> optional fields "success" true boolean
        <*> optional fields "error" none (nullable text)
    | "condition" =>
      condition <$> required fields "condition" Condition.check
        <*> optional fields "isMet" false boolean
    | "saveData" =>
      saveData <$> required fields "dataKey" text <*> required fields "value" Source.check
    | "saveDataBatch" =>
      saveDataBatch <$> required fields "dataSourceName" text
        <*> required fields "items" (items BatchItem.check)
    | "deleteData" => deleteData <$> required fields "dataSourceName" text
    | "marker" => marker <$> required fields "name" text
    | _ => jump <$> required fields "markerName" text

def document : InstructionInfo → Document
  | pageAction page action success error =>
    .record [("type", .text "pageAction"), ("pageIndex", .int page), ("action", action.document),
      ("success", .bool success), ("error", .optional .text error)]
  | condition test isMet =>
    .record [("type", .text "condition"), ("condition", test.document), ("isMet", .bool isMet)]
  | saveData key value =>
    .record [("type", .text "saveData"), ("dataKey", .text key), ("value", value.document)]
  | saveDataBatch source items =>
    .record [("type", .text "saveDataBatch"), ("dataSourceName", .text source),
      ("items", .list (items.map BatchItem.document))]
  | deleteData source =>
    .record [("type", .text "deleteData"), ("dataSourceName", .text source)]
  | marker name => .record [("type", .text "marker"), ("name", .text name)]
  | jump name => .record [("type", .text "jump"), ("markerName", .text name)]

-- What is recorded of an instruction when it starts.
def ofInstruction : Instruction → InstructionInfo
  | .pageAction page action => pageAction page action true none
  | .condition test _ _ => condition test false
  | .saveData key value => saveData key value
  | .saveDataBatch source items => saveDataBatch source items
  | .deleteData source => deleteData source
  | .marker name => marker name
  | .jump name => jump name

end InstructionInfo

-- The address of the page of an instruction: one, or those before and after it.
inductive PageUrl
  | same (url : String)
  | changed (before after : Option String)
deriving DecidableEq, Repr

namespace PageUrl

def checkChange (v : Value) : Checked PageUrl :=
  model "UrlChange" v fun fields _ =>
    changed <$> optional fields "from" none (nullable text)
      <*> optional fields "to" none (nullable text)

def check (v : Value) : Checked PageUrl :=
  .firstOf [("str", same <$> text v), ("UrlChange", checkChange v)]

def document : PageUrl → Document
  | same url => .text url
  | changed before after =>
    .record [("from", .optional .text before), ("to", .optional .text after)]

end PageUrl

-- An access to the data store.
inductive Operation
  | get (key : String) (returned : Datum) (error : Option String)
  | set (key : String) (value : Datum) (error : Option String)
  | setMany (source : String) (items : List (String × Datum)) (error : Option String)
  | delete (source : String) (error : Option String)
deriving Repr

namespace Operation

def kinds : List String := ["get", "set", "setMany", "delete"]

def checkItem (v : Value) : Checked (String × Datum) :=
  model "ResolvedBatchItem" v fun fields _ =>
    Prod.mk <$> required fields "columnName" text <*> optional fields "value" .null checkDatum

def check (v : Value) : Checked Operation :=
  tagged "type" kinds v fun kind fields _ =>
    let error := optional fields "error" none (nullable text)
    match kind with
    | "get" =>
      get <$> required fields "key" text <*> optional fields "returnedValue" .null checkDatum
        <*> error
    | "set" =>
      set <$> required fields "key" text <*> optional fields "value" .null checkDatum <*> error
    | "setMany" =>
      setMany <$> required fields "dataSourceName" text
        <*> required fields "items" (items checkItem) <*> error
    | _ => delete <$> required fields "dataSourceName" text <*> error

def itemDocument (i : String × Datum) : Document :=
  .record [("columnName", .text i.1), ("value", .leaf i.2)]

def document : Operation → Document
  | get key returned error =>
    .record [("type", .text "get"), ("key", .text key), ("returnedValue", .leaf returned),
      ("error", .optional .text error)]
  | set key value error =>
    .record [("type", .text "set"), ("key", .text key), ("value", .leaf value),
      ("error", .optional .text error)]
  | setMany source items error =>
    .record [("type", .text "setMany"), ("dataSourceName", .text source),
      ("items", .list (items.map itemDocument)), ("error", .optional .text error)]
  | delete source error =>
    .record [("type", .text "delete"), ("dataSourceName", .text source),
      ("error", .optional .text error)]

end Operation

-- One entry of the record of a run. Durations are in milliseconds.
inductive Entry
  | instruction (info : InstructionInfo) (url : Option PageUrl) (duration : Binary64)
  | operation (operation : Operation)
  | success (duration : Binary64)
  | error (message : String) (duration : Binary64)
deriving Repr

namespace Entry

def kinds : List String := ["instruction", "external-data-operation", "success", "error"]

def kind : Entry → String
  | instruction .. => "instruction"
  | operation _ => "external-data-operation"
  | success _ => "success"
  | error .. => "error"

def isTerminal : Entry → Bool
  | success _ => true
  | error .. => true
  | _ => false

def checkSummary (v : Value) : Checked Binary64 :=
  model "ExecutionSummary" v fun fields _ => required fields "duration" unsignedNumber

def check (v : Value) : Checked Entry :=
  tagged "type" kinds v fun kind fields _ =>
    match kind with
    | "instruction" =>
      instruction <$> required fields "instructionInfo" InstructionInfo.check
        <*> optional fields "url" none (nullable PageUrl.check)
        <*> optional fields "duration" Binary64.zero number
    | "external-data-operation" => operation <$> required fields "operation" Operation.check
    | "success" => success <$> required fields "summary" checkSummary
    | _ =>
      error <$> required fields "errorMessage" text <*> required fields "summary" checkSummary

def summary (duration : Binary64) : Document :=
  .record [("duration", .leaf (.float duration))]

def document : Entry → Document
  | instruction info url duration =>
    .record [("type", .text "instruction"), ("instructionInfo", info.document),
      ("url", .optional PageUrl.document url), ("duration", .leaf (.float duration))]
  | operation op => .record [("type", .text "external-data-operation"), ("operation", op.document)]
  | success duration => .record [("type", .text "success"), ("summary", summary duration)]
  | error message duration =>
    .record [("type", .text "error"), ("errorMessage", .text message),
      ("summary", summary duration)]

def checkAll (v : Value) : Checked (List Entry) := items check v

end Entry

end Gleaner
