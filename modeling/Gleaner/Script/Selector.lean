import Gleaner.Script.Matcher

namespace Gleaner

open Validation

-- One condition on the element that is looked for.
inductive Selector
  | query (query : String)
  | tagName (name : String)
  | textContent (text : TextMatcher)
  | attributes (matchers : List (String × TextMatcher))
deriving DecidableEq, Repr

namespace Selector

def kind : Selector → String
  | query _ => "query"
  | tagName _ => "tagName"
  | textContent _ => "textContent"
  | attributes _ => "attributes"

def kinds : List String := ["query", "tagName", "textContent", "attributes"]

def matchers (v : Value) : Checked (List (String × TextMatcher)) :=
  (entries TextMatcher.check v).andThen fun ms =>
    if ms.isEmpty then .fault .emptyDictionary else .valid ms

def check (v : Value) : Checked Selector :=
  tagged "type" kinds v fun kind fields _ =>
    match kind with
    | "query" => query <$> required fields "query" filledText
    | "tagName" => tagName <$> required fields "tagName" filledText
    | "textContent" => textContent <$> required fields "text" TextMatcher.check
    | _ => attributes <$> required fields "attributes" matchers

def document (s : Selector) : Document :=
  .record (("type", .text s.kind) ::
    match s with
    | query q => [("query", .text q)]
    | tagName n => [("tagName", .text n)]
    | textContent m => [("text", m.document)]
    | attributes ms => [("attributes", .entries (ms.map fun (k, m) => (k, m.document)))])

end Selector

-- The selectors of an element; each kind occurs once at most.
abbrev Selectors := List Selector

namespace Selectors

def kindsDiffer (ss : Selectors) : Bool := decide (ss.map Selector.kind).Nodup

def check (v : Value) : Checked Selectors :=
  (nonEmpty (items Selector.check v)).andThen fun ss =>
    if kindsDiffer ss then .valid ss
    else .fault (.refused "Each selector type can be used only once")

def document (ss : Selectors) : Document := .list (ss.map Selector.document)

-- The selectors as they go to a page.
def wire (ss : Selectors) : Value := (document ss).toValue .wire

end Selectors

end Gleaner
