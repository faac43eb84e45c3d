import Gleaner.Url.Split

namespace Gleaner.Url

-- What can be asked of the address of a page.
inductive Property
  | href | origin | protocol | username | password | host | hostname | port | pathname | search
  | hash
deriving DecidableEq, Repr

namespace Property

def name : Property → String
  | href => "href"
  | origin => "origin"
  | protocol => "protocol"
  | username => "username"
  | password => "password"
  | host => "host"
  | hostname => "hostname"
  | port => "port"
  | pathname => "pathname"
  | search => "search"
  | hash => "hash"

def all : List Property :=
  [href, origin, protocol, username, password, host, hostname, port, pathname, search, hash]

def ofName? (name : String) : Option Property := all.find? (·.name = name)

end Property

-- Schemes whose addresses name a host, with the port that need not be written.
def defaultPorts : List (String × Nat) :=
  [("http", 80), ("https", 443), ("ws", 80), ("wss", 443), ("ftp", 21)]

def defaultPort? (u : Url) : Option Nat :=
  (defaultPorts.find? fun p => p.1.toList == u.scheme).map (·.2)

-- The port, unless the scheme implies it.
def shownPort (u : Url) : Except UrlError (List Char) := do
  match ← u.port? with
  | none => return []
  | some n => return if u.defaultPort? = some n then [] else (toString n).toList

def shownHost (u : Url) : Except UrlError (List Char) := do
  let port ← u.shownPort
  return if port.isEmpty then u.hostname else u.hostname ++ ':' :: port

def led (c : Char) (cs : List Char) : List Char := if cs.isEmpty then [] else c :: cs

-- One property of an address that has been taken apart; the whole is the text itself.
def get (u : Url) (text : List Char) : Property → Except UrlError (List Char)
  | .href => .ok text
  | .origin =>
    if u.defaultPort?.isNone then .ok "null".toList
    else return u.scheme ++ "://".toList ++ (← u.shownHost)
  | .protocol => .ok (u.scheme ++ [':'])
  | .username => .ok u.userInfo.1
  | .password => .ok u.userInfo.2
  | .host => u.shownHost
  | .hostname => .ok u.hostname
  | .port => u.shownPort
  | .pathname =>
    .ok (if u.path.isEmpty then (if u.defaultPort?.isSome then ['/'] else []) else u.path)
  | .search => .ok (led '?' u.query)
  | .hash => .ok (led '#' u.fragment)

def property (text : String) (p : Property) : Except UrlError String := do
  let u ← split text
  return String.ofList (← u.get text.toList p)

end Gleaner.Url
