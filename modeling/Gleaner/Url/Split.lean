import Gleaner.Number.Integer
import Gleaner.Text.Basic
import Gleaner.Text.Lowercase

namespace Gleaner.Url

-- One of the four numbers of an IPv4 address, written without needless zeros.
def isOctet (cs : List Char) : Bool :=
  !cs.isEmpty && cs.all Char.isDigit && cs.length ≤ 3 && (cs == ['0'] || cs.head? != some '0') &&
    cs.foldl (fun n c => n * 10 + (c.toNat - 48)) 0 ≤ 255

def isAddress4 (cs : List Char) : Bool :=
  let octets := Text.pieces '.' cs
  octets.length == 4 && octets.all isOctet

def isHexDigit (c : Char) : Bool :=
  c.isDigit || ('a' ≤ c && c ≤ 'f') || ('A' ≤ c && c ≤ 'F')

-- One of the eight numbers of an IPv6 address.
def isGroup (cs : List Char) : Bool := !cs.isEmpty && cs.all isHexDigit && cs.length ≤ 4

-- The groups of an address with the last one, when it is an IPv4 address, as two groups.
def widened (groups : List (List Char)) : Option (List (List Char)) :=
  match groups.getLast? with
  | none => none
  | some last =>
    if !last.contains '.' then some groups
    else if isAddress4 last then some (groups.dropLast ++ [['0'], ['0']])
    else none

-- Eight groups, or fewer around a single gap.
def isAddress6 (cs : List Char) : Bool :=
  let (cs, zone) := Text.cut '%' cs
  zone.all (fun z => !z.isEmpty && !z.contains '%') &&
    match widened (Text.pieces ':' cs) with
    | none => false
    | some groups =>
      let inner := (groups.drop 1).dropLast
      let gap := inner.findIdx (·.isEmpty) + 1
      let high := groups.take gap
      let low := groups.drop (gap + 1)
      if 3 ≤ (Text.pieces ':' cs).length ∧ groups.length ≤ 9 then
        match inner.countP (·.isEmpty) with
        | 0 => groups.length == 8 && groups.all isGroup
        | 1 =>
          let high := if high == [[]] then [] else high
          let low := if low == [[]] then [] else low
          high.all isGroup && low.all isGroup && high.length + low.length ≤ 7
        | _ => false
      else false

-- The form of an address of a later version: `v`, its number, a point and anything but a break.
def isFutureAddress : List Char → Bool
  | 'v' :: rest =>
    let (version, address) := Text.cut '.' rest
    !version.isEmpty && version.all isHexDigit &&
      address.any fun a => !a.isEmpty && !a.contains '\n'
  | _ => false

end Gleaner.Url

namespace Gleaner

-- The five parts of an address of the web.
structure Url where
  scheme : List Char
  authority : List Char
  path : List Char
  query : List Char
  fragment : List Char
deriving DecidableEq, Repr

-- Why a text is no address, or has no port.
inductive UrlError
  | brackets
  | futureAddress
  | notAddress (host : String)
  | bracketedAddress4
  | disguised (authority : String)
  | portText (text : String)
  | portNumber (e : IntegerError)
  | portRange
deriving DecidableEq, Repr

def UrlError.message : UrlError → String
  | brackets => "Invalid IPv6 URL"
  | futureAddress => "IPvFuture address is invalid"
  | notAddress host => Text.quoted host ++ " does not appear to be an IPv4 or IPv6 address"
  | bracketedAddress4 => "An IPv4 address cannot be in brackets"
  | disguised authority =>
    "netloc '" ++ authority ++ "' contains invalid characters under NFKC normalization"
  | portText text => "Port could not be cast to integer value as " ++ Text.quoted text
  | portNumber e => e.message
  | portRange => "Port out of range 0-65535"

namespace Url

def isControlOrBlank (c : Char) : Bool := c.toNat ≤ 32

def isBreak (c : Char) : Bool := c = '\t' || c = '\n' || c = '\r'

def isSchemeChar (c : Char) : Bool := c.isAlphanum || c = '+' || c = '-' || c = '.'

-- A scheme in lower case and what follows it; a text may have none.
def cutScheme (cs : List Char) : List Char × List Char :=
  match Text.cut ':' cs with
  | (scheme, some rest) =>
    if (scheme.head?.any Char.isAlpha) && scheme.all isSchemeChar then
      (scheme.map Char.toLower, rest)
    else ([], cs)
  | _ => ([], cs)

def endsAuthority (c : Char) : Bool := c = '/' || c = '?' || c = '#'

-- Characters that stand for a delimiter in another form.
def disguises : List Nat :=
  [0x2047, 0x2048, 0x2049, 0x2100, 0x2101, 0x2105, 0x2106, 0x2a74, 0xfe13, 0xfe16, 0xfe55,
    0xfe56, 0xfe5f, 0xfe6b, 0xff03, 0xff0f, 0xff1a, 0xff1f, 0xff20]

-- Brackets come in pairs and hold an address.
def checkBrackets (authority : List Char) : Except UrlError Unit :=
  match authority.contains '[', authority.contains ']' with
  | false, false => .ok ()
  | true, true =>
    let host := (Text.cut ']' ((Text.cut '[' authority).2.getD [])).1
    if host.head? = some 'v' then
      if isFutureAddress host then .ok () else .error .futureAddress
    else if isAddress4 host then .error .bracketedAddress4
    else if isAddress6 host then .ok ()
    else .error (.notAddress (String.ofList host))
  | _, _ => .error .brackets

-- Takes an address apart. Control characters in front and breaks anywhere do not count.
def split (text : String) : Except UrlError Url := do
  let cs := (text.toList.dropWhile isControlOrBlank).filter fun c => !isBreak c
  let (scheme, rest) := cutScheme cs
  let (authority, rest) := match rest with
    | '/' :: '/' :: rest =>
      (rest.takeWhile fun c => !endsAuthority c, rest.dropWhile fun c => !endsAuthority c)
    | _ => ([], rest)
  checkBrackets authority
  let (rest, fragment) := Text.cut '#' rest
  let (path, query) := Text.cut '?' rest
  if authority.any fun c => disguises.contains c.toNat then
    .error (.disguised (String.ofList authority))
  else .ok ⟨scheme, authority, path, query.getD [], fragment.getD []⟩

-- The name and the password in front of the host.
def userInfo (u : Url) : List Char × List Char :=
  match (Text.cutLast '@' u.authority).1 with
  | none => ([], [])
  | some info => ((Text.cut ':' info).1, (Text.cut ':' info).2.getD [])

-- The host and the text of the port. Inside brackets a colon does not end the host.
def hostInfo (u : Url) : List Char × List Char :=
  let info := (Text.cutLast '@' u.authority).2
  match (Text.cut '[' info).2 with
  | some bracketed =>
    let (host, rest) := Text.cut ']' bracketed
    (host, (Text.cut ':' (rest.getD [])).2.getD [])
  | none => ((Text.cut ':' info).1, (Text.cut ':' info).2.getD [])

-- The host in lower case; the zone of an address keeps its case.
def hostname (u : Url) : List Char :=
  let (host, zone) := Text.cut '%' u.hostInfo.1
  Text.lowerChars host ++ zone.elim [] ('%' :: ·)

def port? (u : Url) : Except UrlError (Option Nat) :=
  let text := u.hostInfo.2
  if text.isEmpty then .ok none
  else if !text.all Char.isDigit then .error (.portText (String.ofList text))
  else do
    let n ← (Integer.read (String.ofList text)).mapError .portNumber
    if n ≤ 65535 then .ok (some n.toNat) else .error .portRange

end Url

end Gleaner
