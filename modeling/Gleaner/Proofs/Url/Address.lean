import Gleaner.Proofs.Text.Cut
import Gleaner.Url.Property

namespace Gleaner.Url

-- A browser gives out an address in visible characters of one byte; all others are encoded.
def isVisible (c : Char) : Bool := 33 ≤ c.toNat && c.toNat ≤ 126

def isPathChar (c : Char) : Bool := isVisible c && c != '?' && c != '#'

def isQueryChar (c : Char) : Bool := isVisible c && c != '#'

-- The characters of a host and its port.
def isHostChar (c : Char) : Bool := isVisible c && !(['/', '?', '#', '@'].contains c)

-- Names and passwords have none of the characters that part them from what is around them.
def isCredentialChar (c : Char) : Bool := isHostChar c && !([':', '[', ']'].contains c)

def isDomainChar (c : Char) : Bool := isCredentialChar c && c != '%' && !c.isUpper

-- A part of an address that is not empty, of characters of one kind.
structure Component (p : Char → Bool) where
  chars : List Char
  ne_nil : chars ≠ []
  all : ∀ c ∈ chars, p c = true

inductive Scheme
  | http | https | ws | wss | ftp
deriving DecidableEq, Repr

namespace Scheme

def chars : Scheme → List Char
  | http => ['h', 't', 't', 'p']
  | https => ['h', 't', 't', 'p', 's']
  | ws => ['w', 's']
  | wss => ['w', 's', 's']
  | ftp => ['f', 't', 'p']

-- The port that an address of the scheme does not show.
def impliedPort : Scheme → Nat
  | http => 80
  | https => 443
  | ws => 80
  | wss => 443
  | ftp => 21

end Scheme

-- Eight groups, or fewer around a gap that stands for groups of zeros.
inductive Address6
  | whole (groups : List (Fin 65536)) (size : groups.length = 8)
  | gapped (high low : List (Fin 65536)) (size : high.length + low.length ≤ 7)

namespace Address6

def group (n : Fin 65536) : List Char := Nat.toDigits 16 n

-- The groups on one side of a gap. The text begins or ends with the gap if there are none.
def side (groups : List (Fin 65536)) : List (List Char) :=
  if groups = [] then [[]] else groups.map group

-- What stands between the colons.
def parts : Address6 → List (List Char)
  | whole groups _ => groups.map group
  | gapped high low _ => side high ++ [] :: side low

def chars (address : Address6) : List Char := [':'].intercalate address.parts

end Address6

inductive Host
  | domain (name : Component isDomainChar)
  | address4 (octets : Fin 4 → Fin 256)
  | address6 (address : Address6)

namespace Host

-- The host without brackets.
def name : Host → List Char
  | domain name => name.chars
  | address4 octets => ['.'].intercalate (List.ofFn fun i => Nat.toDigits 10 (octets i))
  | address6 address => address.chars

def isAddress6 : Host → Bool
  | address6 _ => true
  | _ => false

def chars (host : Host) : List Char :=
  if host.isAddress6 then '[' :: (host.name ++ [']']) else host.name

end Host

-- An address as a browser gives it out, by its parts. The path is what follows its first slash.
structure Address where
  scheme : Scheme
  credentials : Option (Component isCredentialChar × Option (Component isCredentialChar))
  host : Host
  port : Option (Fin 65536)
  path : List Char
  query : Option (Component isQueryChar)
  fragment : Option (Component isVisible)
  port_ne : ∀ n ∈ port, n.val ≠ scheme.impliedPort
  path_all : ∀ c ∈ path, isPathChar c = true

-- A part that may be missing, with the character in front that tells it is there.
def marked (c : Char) : Option (List Char) → List Char
  | none => []
  | some cs => c :: cs

namespace Address

variable (a : Address)

def username : List Char := a.credentials.elim [] (·.1.chars)

def password? : Option (List Char) := (a.credentials.bind (·.2)).map (·.chars)

def port? : Option (List Char) := a.port.map fun n => Nat.toDigits 10 n.val

def query? : Option (List Char) := a.query.map (·.chars)

def fragment? : Option (List Char) := a.fragment.map (·.chars)

-- What stands in front of the host.
def credentialChars : List Char :=
  if a.credentials.isNone then [] else a.username ++ marked ':' a.password? ++ ['@']

def fullPath : List Char := '/' :: a.path

-- The parts that a host is between, for a host written in one way or another.
def authorityWith (host : List Char) : List Char :=
  a.credentialChars ++ (host ++ marked ':' a.port?)

def charsWith (host : List Char) : List Char :=
  a.scheme.chars ++ ':' :: '/' :: '/' :: (a.authorityWith host ++
    (a.fullPath ++ marked '?' a.query? ++ marked '#' a.fragment?))

def text : String := String.ofList (a.charsWith a.host.chars)

end Address

open Text

theorem forall_mem_toDigits {P : Char → Prop} {b : Nat} (hb : 1 < b)
    (hdigit : ∀ d < b, P (Nat.digitChar d)) (n : Nat) : ∀ c ∈ Nat.toDigits b n, P c := by
  induction n using Nat.strongRecOn with
  | ind n ih =>
    intro c h
    rw [Nat.toDigits_eq_if hb] at h
    split at h
    · next hn =>
      rw [List.mem_singleton.mp h]
      exact hdigit n hn
    · next hn =>
      rw [List.mem_append, List.mem_singleton] at h
      obtain h | rfl := h
      · exact ih (n / b) (Nat.div_lt_self (by omega) hb) c h
      · exact hdigit _ (Nat.mod_lt _ (by omega))

namespace Address6

theorem group_all (n : Fin 65536) :
    ∀ c ∈ group n, isHexDigit c = true ∧ isDomainChar c = true ∧ c ≠ 'v' :=
  forall_mem_toDigits (by decide) (by decide) n

theorem group_ne_nil (n : Fin 65536) : group n ≠ [] := Nat.toDigits_ne_nil

theorem isGroup_group (n : Fin 65536) : isGroup (group n) = true := by
  have hall : (group n).all isHexDigit = true :=
    List.all_eq_true.mpr fun c h => (group_all n c h).1
  have hlength : (group n).length ≤ 4 :=
    (Nat.length_toDigits_le_iff (by decide) (by decide)).mpr n.isLt
  simp [isGroup, group_ne_nil n, hall, hlength]

theorem of_mem_side {groups : List (Fin 65536)} {part : List Char} (h : part ∈ side groups) :
    part = [] ∨ ∃ n, part = group n := by
  unfold side at h
  split at h
  · exact .inl (List.mem_singleton.mp h)
  · obtain ⟨n, -, rfl⟩ := List.mem_map.mp h
    exact .inr ⟨n, rfl⟩

theorem of_mem_parts {address : Address6} {part : List Char} (h : part ∈ address.parts) :
    part = [] ∨ ∃ n, part = group n := by
  cases address with
  | whole groups size =>
    obtain ⟨n, -, rfl⟩ := List.mem_map.mp h
    exact .inr ⟨n, rfl⟩
  | gapped high low size =>
    rw [parts, List.mem_append, List.mem_cons] at h
    obtain h | rfl | h := h
    · exact of_mem_side h
    · exact .inl rfl
    · exact of_mem_side h

theorem parts_ne_nil (address : Address6) : address.parts ≠ [] := by
  cases address with
  | whole groups size =>
    intro h
    rw [List.map_eq_nil_iff.mp h] at size
    cases size
  | gapped high low size => exact List.append_ne_nil_of_right_ne_nil _ (List.cons_ne_nil _ _)

theorem of_mem_chars {address : Address6} {c : Char} (h : c ∈ address.chars) :
    c = ':' ∨ isHexDigit c = true ∧ isDomainChar c = true ∧ c ≠ 'v' := by
  obtain rfl | ⟨part, hpart, hc⟩ := of_mem_intercalate h
  · exact .inl rfl
  · obtain rfl | ⟨n, rfl⟩ := of_mem_parts hpart
    · cases hc
    · exact .inr (group_all n c hc)

theorem notMem_chars {address : Address6} {c : Char} (hne : c ≠ ':')
    (hc : isHexDigit c = false) : c ∉ address.chars := by
  intro h
  obtain heq | ⟨hhex, -⟩ := of_mem_chars h
  · exact hne heq
  · rw [hc] at hhex
    cases hhex

theorem pieces_chars (address : Address6) : pieces ':' address.chars = address.parts := by
  refine pieces_intercalate (fun part hpart hc => ?_) (parts_ne_nil address)
  obtain rfl | ⟨n, rfl⟩ := of_mem_parts hpart
  · cases hc
  · cases (group_all n _ hc).1

theorem widened_parts (address : Address6) : widened address.parts = some address.parts := by
  have hpoint : '.' ∉ address.parts.getLast (parts_ne_nil address) := by
    intro hmem
    obtain hnil | ⟨n, hn⟩ := of_mem_parts (List.getLast_mem (parts_ne_nil address))
    · rw [hnil] at hmem
      cases hmem
    · rw [hn] at hmem
      cases (group_all n _ hmem).1
  rw [widened, List.getLast?_eq_some_getLast (parts_ne_nil address)]
  simp [hpoint]

theorem isEmpty_group (n : Fin 65536) : (group n).isEmpty = false :=
  List.isEmpty_eq_false_iff.mpr (group_ne_nil n)

theorem countP_groups (groups : List (Fin 65536)) :
    (groups.map group).countP (·.isEmpty) = 0 := by
  rw [List.countP_eq_zero]
  intro part hpart
  obtain ⟨n, -, rfl⟩ := List.mem_map.mp hpart
  simp [isEmpty_group]

theorem all_groups (groups : List (Fin 65536)) : (groups.map group).all isGroup = true := by
  rw [List.all_map, List.all_eq_true]
  exact fun n _ => isGroup_group n

section

variable (groups : List (Fin 65536))

theorem length_side : (side groups).length = max 1 groups.length := by
  cases groups with
  | nil => rfl
  | cons n more => simp [side]

-- Only the part of a side at the end of the text can be empty.
theorem drop_side : (side groups).drop 1 = (groups.drop 1).map group := by
  cases groups with
  | nil => rfl
  | cons n more => rfl

theorem dropLast_side : (side groups).dropLast = groups.dropLast.map group := by
  cases groups with
  | nil => rfl
  | cons n more => exact (List.map_dropLast ..).symm

theorem groups_side : (if side groups == [[]] then [] else side groups) = groups.map group := by
  cases groups with
  | nil => rfl
  | cons n more =>
    have hgap : ¬((side (n :: more) == [[]]) = true) := by
      intro heq
      exact group_ne_nil n (List.cons_eq_cons.mp (eq_of_beq heq)).1
    rw [if_neg hgap]
    rfl

end

-- The parts apart from the first and the last: the gap is the only empty one.
theorem inner_gapped (high low : List (Fin 65536)) :
    ((side high ++ [] :: side low).drop 1).dropLast =
      (high.drop 1).map group ++ [] :: low.dropLast.map group := by
  have hhigh : 1 ≤ (side high).length := by
    rw [length_side]
    exact Nat.le_max_left ..
  have hlow : side low ≠ [] := by
    rw [← List.length_pos_iff, length_side]
    omega
  rw [List.drop_append_of_le_length hhigh, drop_side,
    List.dropLast_append_of_ne_nil (List.cons_ne_nil _ _), List.dropLast_cons_of_ne_nil hlow,
    dropLast_side]

theorem findIdx_groups (high low : List (Fin 65536)) :
    (high.map group ++ [] :: low.map group).findIdx (·.isEmpty) = high.length := by
  induction high with
  | nil => rfl
  | cons n more ih =>
    rw [List.map_cons, List.cons_append, List.findIdx_cons, isEmpty_group, ih]
    rfl

theorem isAddress6_chars (address : Address6) : Url.isAddress6 address.chars = true := by
  have hzone : '%' ∉ address.chars := notMem_chars (by decide) rfl
  simp only [Url.isAddress6, cut_of_notMem hzone, pieces_chars, widened_parts, Option.all_none,
    Bool.true_and]
  cases address with
  | whole groups size =>
    have hlength : (groups.map group).length = 8 := by rw [List.length_map, size]
    have hcount : (((groups.map group).drop 1).dropLast).countP (·.isEmpty) = 0 := by
      rw [← List.map_drop, ← List.map_dropLast, countP_groups]
    simp only [parts, hcount, hlength, all_groups]
    rfl
  | gapped high low size =>
    have hlength : (side high ++ [] :: side low).length =
        max 1 high.length + (1 + max 1 low.length) := by
      rw [List.length_append, List.length_cons, length_side, length_side]
      omega
    have hcount :
        ((high.drop 1).map group ++ [] :: low.dropLast.map group).countP (·.isEmpty) = 1 := by
      rw [List.countP_append, List.countP_cons, countP_groups, countP_groups]
      rfl
    have hgap : (high.drop 1).length + 1 = (side high).length := by
      rw [List.length_drop, length_side]
      omega
    have hsize : 3 ≤ (side high ++ [] :: side low).length ∧
        (side high ++ [] :: side low).length ≤ 9 := by omega
    have htake : (side high ++ [] :: side low).take (side high).length = side high :=
      List.take_left
    have hdrop : (side high ++ [] :: side low).drop ((side high).length + 1) = side low := by
      rw [← List.drop_drop, List.drop_left]
      rfl
    simp only [parts, inner_gapped, if_pos hsize, hcount, findIdx_groups, hgap, htake, hdrop,
      groups_side, all_groups, List.length_map, size]
    rfl

theorem head?_chars (address : Address6) : address.chars.head? ≠ some 'v' := by
  intro h
  obtain heq | ⟨-, -, hne⟩ := of_mem_chars (List.mem_of_head? h)
  · cases heq
  · exact hne rfl

theorem isAddress4_chars (address : Address6) : isAddress4 address.chars = false := by
  have hpoint : '.' ∉ address.chars := notMem_chars (by decide) rfl
  rw [isAddress4, pieces_of_notMem hpoint]
  rfl

theorem notMem_bracket (address : Address6) : ']' ∉ address.chars := notMem_chars (by decide) rfl

end Address6

end Gleaner.Url
