import Gleaner.Json.Reader
import Gleaner.Json.Writer
import Gleaner.Time.Reader
import Gleaner.Time.Written

namespace Gleaner

-- Why a moment read from a text is none.
def IsoError.message : IsoError → String
  | malformed text => "Invalid isoformat string: " ++ Text.quoted text
  | offset n =>
    "offset must be a timedelta strictly between -timedelta(hours=24) and timedelta(hours=24), not " ++
      Value.durationText n ++ "."
  | year n => "year " ++ toString n ++ " is out of range"
  | month => "month must be in 1..12"
  | day => "day is out of range for month"
  | hour => "hour must be in 0..23"
  | minute => "minute must be in 0..59"
  | second => "second must be in 0..59"

namespace Json

-- JSON has no moments: one is stored as an object whose only field has this name.
def dateTag : String := "$date"

-- The instant of a moment as text of the UTC clock. Nothing for an instant outside the calendar.
def taggedMoment? (t : DateTime) : Option Value :=
  t.toUtc?.map fun t => .object [(dateTag, .text t.text)]

mutual

-- Replaces moments and days by tagged texts. Nothing when an instant is outside the calendar.
def encode? : Value → Option Value
  | .moment t => taggedMoment? t
  | .day d => taggedMoment? (DateTime.ofDate d)
  | .list items => (encodeItems? items).map .list
  | .object fields => (encodeFields? fields).map .object
  | v => some v

def encodeItems? : List Value → Option (List Value)
  | [] => some []
  | v :: rest => do some ((← encode? v) :: (← encodeItems? rest))

def encodeFields? : List (String × Value) → Option (List (String × Value))
  | [] => some []
  | (k, v) :: rest => do some ((k, ← encode? v) :: (← encodeFields? rest))

end

-- A letter Z anywhere stands for the offset zero.
def expandZulu (s : String) : String :=
  String.ofList (s.toList.flatMap fun c => if c = 'Z' then "+00:00".toList else [c])

-- An object that is a tagged text is the moment it stands for.
def untag (fields : List (String × Value)) : Except IsoError Value :=
  match fields with
  | [(name, .text s)] =>
    if name = dateTag then (DateTime.read (expandZulu s)).map .moment
    else .ok (.object fields)
  | _ => .ok (.object fields)

mutual

-- Restores tagged moments at every depth, inner ones first.
def decode : Value → Except IsoError Value
  | .list items => (decodeItems items).map .list
  | .object fields => do untag (← decodeFields fields)
  | v => .ok v

def decodeItems : List Value → Except IsoError (List Value)
  | [] => .ok []
  | v :: rest => do
    let v ← decode v
    let rest ← decodeItems rest
    .ok (v :: rest)

def decodeFields : List (String × Value) → Except IsoError (List (String × Value))
  | [] => .ok []
  | (k, v) :: rest => do
    let v ← decode v
    let rest ← decodeFields rest
    .ok ((k, v) :: rest)

end

-- Reads JSON text and restores the moments in it.
def load (text : String) : Except (ReadError IsoError) Value := readWith untag text

end Json

end Gleaner
