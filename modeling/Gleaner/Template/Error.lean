namespace Gleaner.Template

-- Why a token of a text cannot be expanded.
inductive TokenError
  | noKey
  | length (text : String)
  | noProperty
  | property (name : String)
  | kind (name : String)
deriving DecidableEq, Repr

def TokenError.message : TokenError → String
  | noKey => "Data key special string must have at least one argument"
  | length text => "Random string length must be an integer: " ++ text
  | noProperty => "Current URL special string requires a URL property"
  | property name => "Unsupported URL property: " ++ name
  | kind name => "Unknown special string type: " ++ name

end Gleaner.Template
