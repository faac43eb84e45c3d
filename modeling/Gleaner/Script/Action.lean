import Gleaner.Script.Source

namespace Gleaner

open Validation

-- What a script does on a page.
inductive Action
  | wait (duration : Nat)
  | navigate (url : String)
  | click (selectors : Selectors) (waitForNavigation : Bool)
  | type (selectors : Selectors) (value : Source)
      (clearBeforeType pressEnter waitForNavigation : Bool)
  | scrollToTop
  | scrollToBottom
  | scrollToElement (selectors : Selectors)
  | evaluate (code : String) (arguments : List Source)
deriving DecidableEq, Repr

namespace Action

def kind : Action → String
  | wait _ => "wait"
  | navigate _ => "navigate"
  | click .. => "click"
  | type .. => "type"
  | scrollToTop => "scrollToTop"
  | scrollToBottom => "scrollToBottom"
  | scrollToElement _ => "scrollToElement"
  | evaluate .. => "evaluate"

def kinds : List String :=
  ["wait", "navigate", "click", "type", "scrollToTop", "scrollToBottom", "scrollToElement",
    "evaluate"]

def check (v : Value) : Checked Action :=
  tagged "type" kinds v fun kind fields _ =>
    match kind with
    | "wait" => (wait ·.toNat) <$> required fields "duration" (atLeast 0)
    | "navigate" => navigate <$> required fields "url" filledText
    | "click" =>
      click <$> required fields "selectors" Selectors.check
        <*> optional fields "waitForNavigation" false boolean
    | "type" =>
      type <$> required fields "selectors" Selectors.check
        <*> required fields "value" Source.check
        <*> optional fields "clearBeforeType" false boolean
        <*> optional fields "pressEnter" false boolean
        <*> optional fields "waitForNavigation" false boolean
    | "scrollToTop" => .valid scrollToTop
    | "scrollToBottom" => .valid scrollToBottom
    | "scrollToElement" => scrollToElement <$> required fields "selectors" Selectors.check
    | _ =>
      evaluate <$> required fields "code" filledText
        <*> optional fields "arguments" [] (items Source.check)

def document (a : Action) : Document :=
  .record (("type", .text a.kind) ::
    match a with
    | wait duration => [("duration", .int duration)]
    | navigate url => [("url", .text url)]
    | click ss waits => [("selectors", ss.document), ("waitForNavigation", .bool waits)]
    | type ss value clears enters waits =>
      [("selectors", ss.document), ("value", value.document), ("clearBeforeType", .bool clears),
        ("pressEnter", .bool enters), ("waitForNavigation", .bool waits)]
    | scrollToTop => []
    | scrollToBottom => []
    | scrollToElement ss => [("selectors", ss.document)]
    | evaluate code arguments =>
      [("code", .text code), ("arguments", .list (arguments.map Source.document))])

end Action

end Gleaner
