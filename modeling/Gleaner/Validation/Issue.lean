import Gleaner.Value.Display

namespace Gleaner.Validation

-- A step on the way to the faulty part of some data.
inductive Step
  | key (name : String)
  | index (i : Nat)
deriving DecidableEq, Repr

-- What is wrong with a part of some data.
inductive Cause
  | missing
  | extra
  | notText
  | notInteger
  | unreadableInteger
  | fractional
  | notFinite
  | notNumber
  | unreadableNumber
  | notBoolean
  | unreadableBoolean
  | notMoment
  | unreadableMoment (reason : String)
  | impossibleMoment (reason : String)
  | notList
  | notDictionary
  | notModel (model : String)
  | notFields
  | emptyText
  | emptyList
  | emptyDictionary
  | mismatch (pattern : String)
  | below (least : Int)
  | above (greatest : Int)
  | notLiteral (expected : String)
  | notMember (members : String)
  | untagged (key : String)
  | unknownTag (shown key : String) (tags : List String)
  | refused (reason : String)
  | notJson
deriving DecidableEq, Repr

structure Issue where
  path : List Step
  cause : Cause
deriving DecidableEq, Repr

-- The short name of a kind of fault.
def Cause.code : Cause → String
  | missing => "missing"
  | extra => "extra_forbidden"
  | notText => "string_type"
  | notInteger => "int_type"
  | unreadableInteger => "int_parsing"
  | fractional => "int_from_float"
  | notFinite => "finite_number"
  | notNumber => "float_type"
  | unreadableNumber => "float_parsing"
  | notBoolean => "bool_type"
  | unreadableBoolean => "bool_parsing"
  | notMoment => "datetime_type"
  | unreadableMoment _ => "datetime_from_date_parsing"
  | impossibleMoment _ => "datetime_parsing"
  | notList => "list_type"
  | notDictionary => "dict_type"
  | notModel _ => "model_type"
  | notFields => "model_attributes_type"
  | emptyText => "string_too_short"
  | emptyList => "too_short"
  | emptyDictionary => "too_short"
  | mismatch _ => "string_pattern_mismatch"
  | below _ => "greater_than_equal"
  | above _ => "less_than_equal"
  | notLiteral _ => "literal_error"
  | notMember _ => "enum"
  | untagged _ => "union_tag_not_found"
  | unknownTag .. => "union_tag_invalid"
  | refused _ => "value_error"
  | notJson => "json_invalid"

private def inQuotes (s : String) : String := "'" ++ s ++ "'"

def Cause.message : Cause → String
  | missing => "Field required"
  | extra => "Extra inputs are not permitted"
  | notText => "Input should be a valid string"
  | notInteger => "Input should be a valid integer"
  | unreadableInteger =>
    "Input should be a valid integer, unable to parse string as an integer"
  | fractional => "Input should be a valid integer, got a number with a fractional part"
  | notFinite => "Input should be a finite number"
  | notNumber => "Input should be a valid number"
  | unreadableNumber => "Input should be a valid number, unable to parse string as a number"
  | notBoolean => "Input should be a valid boolean"
  | unreadableBoolean => "Input should be a valid boolean, unable to interpret input"
  | notMoment => "Input should be a valid datetime"
  | unreadableMoment reason => "Input should be a valid datetime or date, " ++ reason
  | impossibleMoment reason => "Input should be a valid datetime, " ++ reason
  | notList => "Input should be a valid list"
  | notDictionary => "Input should be a valid dictionary"
  | notModel model => "Input should be a valid dictionary or instance of " ++ model
  | notFields => "Input should be a valid dictionary or object to extract fields from"
  | emptyText => "String should have at least 1 character"
  | emptyList => "List should have at least 1 item after validation, not 0"
  | emptyDictionary => "Dictionary should have at least 1 item after validation, not 0"
  | mismatch pattern => "String should match pattern " ++ inQuotes pattern
  | below least => "Input should be greater than or equal to " ++ toString least
  | above greatest => "Input should be less than or equal to " ++ toString greatest
  | notLiteral expected => "Input should be " ++ inQuotes expected
  | notMember members => "Input should be " ++ members
  | untagged key => "Unable to extract tag using discriminator " ++ inQuotes key
  | unknownTag shown key tags =>
    "Input tag " ++ inQuotes shown ++ " found using " ++ inQuotes key ++
      " does not match any of the expected tags: " ++ Value.joined ", " (tags.map inQuotes)
  | refused reason => "Value error, " ++ reason
  | notJson => "JSON decode error"

def Step.value : Step → Value
  | key k => .text k
  | index i => .int i

-- An issue as it is reported.
def Issue.value (i : Issue) : Value :=
  .object [("loc", .list (i.path.map Step.value)), ("type", .text i.cause.code),
    ("msg", .text i.cause.message)]

end Gleaner.Validation
