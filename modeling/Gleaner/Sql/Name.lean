namespace Gleaner.Sql

-- White space between the words of a statement and around numbers.
def isSpace (c : Char) : Bool := c = ' ' || (9 ≤ c.toNat && c.toNat ≤ 13)

-- Words that are written in quotes when they are names.
def reservedNames : List String := [
  "add", "after", "all", "alter", "analyze", "and", "as", "asc", "attach", "autoincrement",
  "before", "begin", "between", "by", "cascade", "case", "cast", "check", "collate", "column",
  "commit", "conflict", "constraint", "create", "cross", "current_date", "current_time",
  "current_timestamp", "database", "default", "deferrable", "deferred", "delete", "desc",
  "detach", "distinct", "drop", "each", "else", "end", "escape", "except", "exclusive",
  "exists", "explain", "fail", "false", "for", "foreign", "from", "full", "glob", "group",
  "having", "if", "ignore", "immediate", "in", "index", "indexed", "initially", "inner",
  "insert", "instead", "intersect", "into", "is", "isnull", "join", "key", "left", "like",
  "limit", "match", "natural", "not", "notnull", "null", "of", "offset", "on", "or", "order",
  "outer", "plan", "pragma", "primary", "query", "raise", "references", "reindex", "rename",
  "replace", "restrict", "right", "rollback", "row", "select", "set", "table", "temp",
  "temporary", "then", "to", "transaction", "trigger", "true", "union", "unique", "update",
  "using", "vacuum", "values", "view", "virtual", "when", "where"]

private def isPlain (c : Char) : Bool :=
  c.isDigit || ('a' ≤ c && c ≤ 'z') || c = '_' || c = '$'

-- A name that can be written as it is.
def isPlainName (name : String) : Bool :=
  match name.toList with
  | [] => false
  | c :: rest =>
    isPlain c && !c.isDigit && c ≠ '$' && rest.all isPlain && !reservedNames.contains name

-- Quotes inside a quoted name are written twice.
def quotedName (name : String) : String :=
  if isPlainName name then name
  else String.ofList ('"' :: (name.toList.flatMap fun c => if c = '"' then ['"', '"'] else [c]) ++
    ['"'])

-- Names that differ in the case of their letters only are the same.
def sameName (a b : String) : Bool :=
  a.toList.map Char.toLower == b.toList.map Char.toLower

end Gleaner.Sql
