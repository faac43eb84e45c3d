import Gleaner.Proofs.Number.Numeral
import Gleaner.Proofs.Url.Characters
import Mathlib.Data.List.TakeWhile

namespace Gleaner.Url

open Text

theorem cut_marked {c : Char} {front : List Char} (h : c ∉ front) (part : Option (List Char)) :
    cut c (front ++ marked c part) = (front, part) := by
  cases part with
  | none => rw [marked, List.append_nil, cut_of_notMem h]
  | some cs => exact cut_append h

theorem endsAuthority_authorityChar {c : Char} (h : isAuthorityChar c = true) :
    endsAuthority c = false := by
  simp only [endsAuthority, Bool.or_eq_false_iff, decide_eq_false_iff_not]
  refine ⟨⟨?_, ?_⟩, ?_⟩ <;>
  · rintro rfl
    cases h

theorem cutScheme_chars (s : Scheme) (rest : List Char) :
    cutScheme (s.chars ++ ':' :: rest) = (s.chars, rest) := by
  cases s <;> rfl

namespace Address

variable (a : Address)

-- The address taken apart.
def parts : Url :=
  ⟨a.scheme.chars, a.authority, a.fullPath, a.query?.getD [], a.fragment?.getD []⟩

theorem notMem_credentialChars {c : Char} (h : isFrontChar c = false) : c ∉ a.credentialChars :=
  notMem_of_all a.credentialChars_all h

theorem notMem_hostAndPort (h : a.host.isAddress6 = false) {c : Char}
    (hc : isDomainChar c = false) (hne : c ≠ ':') :
    c ∉ a.host.chars ++ marked ':' a.port? := by
  rw [List.mem_append, not_or]
  refine ⟨?_, fun hmem => ?_⟩
  · rw [Host.chars_eq_name h]
    exact notMem_of_all (a.host.name_all h) hc
  · exact notMem_marked hne (fun cs hcs => notMem_of_all (a.port_all cs hcs) hc) hmem

theorem checkBrackets_authority : checkBrackets a.authority = .ok () := by
  have hopen : '[' ∉ a.credentialChars := a.notMem_credentialChars rfl
  have hclose : ']' ∉ a.credentialChars := a.notMem_credentialChars rfl
  cases h : a.host.isAddress6 with
  | false =>
    have hno : a.authority.contains '[' = false ∧ a.authority.contains ']' = false := by
      simp only [authority, authorityWith, List.contains_eq_mem, List.mem_append,
        decide_eq_false_iff_not, not_or]
      have hhost := a.notMem_hostAndPort h (c := '[') rfl (by decide)
      have hhost' := a.notMem_hostAndPort h (c := ']') rfl (by decide)
      rw [List.mem_append, not_or] at hhost hhost'
      exact ⟨⟨hopen, hhost⟩, hclose, hhost'⟩
    rw [checkBrackets, hno.1, hno.2]
  | true =>
    obtain ⟨address, hhost⟩ := Host.exists_of_isAddress6 h
    have hauthority : a.authority =
        a.credentialChars ++ '[' :: (address.chars ++ ']' :: marked ':' a.port?) := by
      rw [authority, hhost, authorityWith, Host.chars_append]
    have hboth : a.authority.contains '[' = true ∧ a.authority.contains ']' = true := by
      simp [hauthority]
    rw [checkBrackets, hboth.1, hboth.2]
    simp only [hauthority, cut_append hopen, Option.getD_some, cut_append address.notMem_bracket,
      if_neg address.head?_chars, address.isAddress4_chars, address.isAddress6_chars]
    rfl

theorem split_text : split a.text = .ok a.parts := by
  have hvisible := a.chars_visible
  have hclean : ((a.charsWith a.host.chars).dropWhile isControlOrBlank).filter (!isBreak ·) =
      a.charsWith a.host.chars := by
    have hdrop : (a.charsWith a.host.chars).dropWhile isControlOrBlank = a.charsWith a.host.chars :=
      List.dropWhile_eq_self_iff.mpr fun hl => by
        simp [isControlOrBlank_visible (hvisible _ (List.getElem_mem hl))]
    rw [hdrop]
    exact List.filter_eq_self.mpr fun c hc => by simp [isBreak_visible (hvisible c hc)]
  have hauthority : Ends (fun c => !endsAuthority c)
      (a.fullPath ++ marked '?' a.query? ++ marked '#' a.fragment?) := ends_cons rfl
  have hends : ∀ c ∈ a.authorityWith a.host.chars, (!endsAuthority c) = true := fun c hc => by
    simp [endsAuthority_authorityChar (a.authority_all c hc)]
  have hfragment : '#' ∉ a.fullPath ++ marked '?' a.query? := by
    rw [List.mem_append, not_or]
    refine ⟨notMem_of_all a.fullPath_all rfl, notMem_marked (by decide) fun cs hcs => ?_⟩
    exact notMem_of_all (a.query_all cs hcs) rfl
  have hquery : '?' ∉ a.fullPath := notMem_of_all a.fullPath_all rfl
  have hplain : (a.authority.any fun c => disguises.contains c.toNat) = false :=
    List.any_eq_false.mpr fun c hc => by
      simp [notMem_disguises (isVisible_of_isAuthorityChar (a.authority_all c hc))]
  simp only [split, text, String.toList_ofList, hclean]
  simp only [charsWith, cutScheme_chars, hauthority.takeWhile_append hends,
    hauthority.dropWhile_append hends, cut_marked hfragment, cut_marked hquery]
  rw [← authority, checkBrackets_authority, hplain]
  rfl

-- The last sign at ends the credentials, if there are any.
theorem cutLast_authority :
    cutLast '@' a.parts.authority =
      (a.credentials.map fun _ => a.username ++ marked ':' a.password?,
        a.host.chars ++ marked ':' a.port?) := by
  have hhost : '@' ∉ a.host.chars ++ marked ':' a.port? := notMem_of_all a.hostAndPort_all rfl
  cases h : a.credentials with
  | none =>
    have hauthority : a.parts.authority = a.host.chars ++ marked ':' a.port? := by
      simp [parts, authority, authorityWith, credentialChars, h]
    rw [hauthority, cutLast_of_notMem hhost, Option.map_none]
  | some credentials =>
    have hauthority : a.parts.authority =
        (a.username ++ marked ':' a.password?) ++ '@' :: (a.host.chars ++ marked ':' a.port?) := by
      simp [parts, authority, authorityWith, credentialChars, h]
    rw [hauthority, cutLast_append hhost, Option.map_some]

theorem userInfo_parts : a.parts.userInfo = (a.username, a.password?.getD []) := by
  have hname : ':' ∉ a.username := notMem_of_all a.username_all rfl
  rw [userInfo, cutLast_authority]
  cases h : a.credentials with
  | none => simp [username, password?, h]
  | some credentials => simp only [Option.map_some, cut_marked hname]

theorem hostInfo_parts : a.parts.hostInfo = (a.host.name, a.port?.getD []) := by
  rw [hostInfo, cutLast_authority]
  cases h : a.host.isAddress6 with
  | false =>
    have hopen := a.notMem_hostAndPort h (c := '[') rfl (by decide)
    have hcolon : ':' ∉ a.host.name := notMem_of_all (a.host.name_all h) rfl
    rw [Host.chars_eq_name h] at hopen ⊢
    simp only [cut_of_notMem hopen, cut_marked hcolon]
  | true =>
    obtain ⟨address, hhost⟩ := Host.exists_of_isAddress6 h
    have hopen : cut '[' ('[' :: (address.chars ++ ']' :: marked ':' a.port?)) =
        ([], some (address.chars ++ ']' :: marked ':' a.port?)) := cut_append List.not_mem_nil
    have hport : cut ':' (marked ':' a.port?) = ([], a.port?) := cut_marked List.not_mem_nil a.port?
    rw [hhost, Host.chars_append]
    simp only [hopen, cut_append address.notMem_bracket, Option.getD_some, hport, Host.name]

theorem hostname_parts : a.parts.hostname = a.host.name := by
  have hzone : '%' ∉ a.host.name := fun hmem => by
    obtain h | h := a.host.of_mem_name hmem
    · cases h
    · cases h
  have hlower : ∀ c ∈ a.host.name, c.toNat < 128 ∧ c.isUpper = false := by
    intro c hc
    obtain h | rfl := a.host.of_mem_name hc
    · have hbound := (visible_bounds (isVisible_of_isHostChar (isHostChar_of_isDomainChar h))).2
      have hcase : c.isUpper = false := by simpa using (Bool.and_eq_true_iff.mp h).2
      exact ⟨by omega, hcase⟩
    · decide
  rw [hostname, hostInfo_parts]
  simp only [cut_of_notMem hzone, lowerChars_eq_self hlower]
  exact List.append_nil _

theorem port?_parts : a.parts.port? = .ok (a.port.map Fin.val) := by
  have hinfo := congrArg Prod.snd a.hostInfo_parts
  cases h : a.port with
  | none =>
    rw [port?, h] at hinfo
    rw [Url.port?, hinfo]
    rfl
  | some n =>
    rw [port?, h] at hinfo
    have hdigits : (Nat.toDigits 10 n).all Char.isDigit = true :=
      List.all_eq_true.mpr (Binary64.allDigits_toDigits n)
    have hsize : n.val < 10 ^ Integer.maximumDigits :=
      calc n.val < 10 ^ 5 := Nat.lt_of_lt_of_le n.isLt (by decide)
        _ ≤ 10 ^ Integer.maximumDigits := Nat.pow_le_pow_right (by decide) (by decide)
    have hempty : (Nat.toDigits 10 n.val).isEmpty = false :=
      List.isEmpty_eq_false_iff.mpr Nat.toDigits_ne_nil
    have hle : (n.val : Int) ≤ 65535 := by omega
    rw [Url.port?, hinfo]
    simp only [Option.map_some, Option.getD_some, hempty, hdigits, Integer.read_toDigits hsize]
    exact if_pos hle

end Address

namespace Address

variable (a : Address)

-- What each property of the address is. Nothing shows the brackets of a host but the whole.
def value : Property → List Char
  | .href => a.charsWith a.host.chars
  | .origin => a.scheme.chars ++ "://".toList ++ (a.host.name ++ marked ':' a.port?)
  | .protocol => a.scheme.chars ++ [':']
  | .username => a.username
  | .password => a.password?.getD []
  | .host => a.host.name ++ marked ':' a.port?
  | .hostname => a.host.name
  | .port => a.port?.getD []
  | .pathname => a.fullPath
  | .search => marked '?' a.query?
  | .hash => marked '#' a.fragment?

def shown (p : Property) : String := String.ofList (a.value p)

theorem defaultPort?_parts : a.parts.defaultPort? = some a.scheme.impliedPort := by
  unfold defaultPort? parts
  cases a.scheme <;> rfl

theorem shownPort_parts : a.parts.shownPort = .ok (a.port?.getD []) := by
  rw [shownPort, port?_parts, defaultPort?_parts]
  cases h : a.port with
  | none =>
    rw [port?, h]
    rfl
  | some n =>
    have hne : some a.scheme.impliedPort ≠ some n.val := fun heq =>
      a.port_ne n h (Option.some.inj heq).symm
    have hdigits : (toString n.val).toList = Nat.toDigits 10 n.val := by
      rw [Nat.toString_eq_ofList_toDigits, String.toList_ofList]
    rw [port?, h]
    exact congrArg Except.ok ((if_neg hne).trans hdigits)

theorem shownHost_parts : a.parts.shownHost = .ok (a.host.name ++ marked ':' a.port?) := by
  rw [shownHost, shownPort_parts, hostname_parts]
  cases h : a.port with
  | none => simp [port?, h, marked]
  | some n => simp [port?, h, marked]

theorem led_getD {c : Char} {part : Option (List Char)} (h : ∀ cs ∈ part, cs ≠ []) :
    led c (part.getD []) = marked c part := by
  cases part with
  | none => rfl
  | some cs => exact if_neg (by simpa using h cs rfl)

theorem get_parts (p : Property) : a.parts.get (a.charsWith a.host.chars) p = .ok (a.value p) := by
  cases p with
  | href => rfl
  | origin =>
    simp only [Url.get, defaultPort?_parts, shownHost_parts]
    rfl
  | protocol => rfl
  | username =>
    rw [Url.get, userInfo_parts]
    rfl
  | password =>
    rw [Url.get, userInfo_parts]
    rfl
  | host => exact a.shownHost_parts
  | hostname => exact congrArg Except.ok a.hostname_parts
  | port => exact a.shownPort_parts
  | pathname => rfl
  | search => exact congrArg Except.ok (led_getD fun _ hcs => (Component.of_mem_map hcs).1)
  | hash => exact congrArg Except.ok (led_getD fun _ hcs => (Component.of_mem_map hcs).1)

theorem property_text (p : Property) : property a.text p = .ok (a.shown p) := by
  rw [property, split_text]
  change (a.parts.get a.text.toList p).bind _ = _
  rw [text, String.toList_ofList, get_parts]
  rfl

end Address

-- The name and the password, as they stand in front of a host.
def signedIn (value : Property → String) : String :=
  if value .username = "" then ""
  else if value .password = "" then value .username ++ "@"
  else value .username ++ ":" ++ value .password ++ "@"

-- The properties of an address put together again.
def recomposed (value : Property → String) : String :=
  value .protocol ++ "//" ++ signedIn value ++ value .host ++ value .pathname ++ value .search ++
    value .hash

namespace Address

variable (a : Address)

theorem toList_shown (p : Property) : (a.shown p).toList = a.value p := String.toList_ofList

theorem shown_eq_empty_iff (p : Property) : a.shown p = "" ↔ a.value p = [] := by
  rw [← String.toList_eq_nil_iff, toList_shown]

theorem toList_signedIn : (signedIn a.shown).toList = a.credentialChars := by
  cases h : a.credentials with
  | none =>
    have hname : a.shown .username = "" := by
      rw [shown_eq_empty_iff, value, username, h]
      rfl
    rw [signedIn, if_pos hname, credentialChars, h]
    rfl
  | some credentials =>
    obtain ⟨name, password⟩ := credentials
    have hname : a.value .username = name.chars := by
      rw [value, username, h]
      rfl
    have hshown : a.shown .username ≠ "" := by
      rw [Ne, shown_eq_empty_iff, hname]
      exact name.ne_nil
    rw [signedIn, if_neg hshown, credentialChars, h]
    cases hpassword : password with
    | none =>
      have hnone : a.password? = none := by simp [password?, h, hpassword]
      have hempty : a.shown .password = "" := by
        rw [shown_eq_empty_iff, value, hnone]
        rfl
      rw [if_pos hempty, hnone, String.toList_append, toList_shown]
      simp [value, marked]
    | some cs =>
      have hsome : a.password? = some cs.chars := by simp [password?, h, hpassword]
      have hne : a.shown .password ≠ "" := by
        rw [Ne, shown_eq_empty_iff, value, hsome]
        exact cs.ne_nil
      rw [if_neg hne, hsome]
      simp [toList_shown, value, hsome, marked]

theorem recomposed_shown : recomposed a.shown = String.ofList (a.charsWith a.host.name) := by
  refine String.toList_inj.mp ?_
  simp [recomposed, toList_signedIn, toList_shown, value, charsWith, authorityWith]

theorem charsWith_inj {host other : List Char} (h : a.charsWith host = a.charsWith other) :
    host = other := by
  simpa [charsWith, authorityWith] using h

theorem name_eq_chars_iff (host : Host) : host.name = host.chars ↔ host.isAddress6 = false := by
  cases h : host.isAddress6 with
  | false => simp [Host.chars, h]
  | true =>
    constructor
    · intro heq
      rw [Host.chars, h] at heq
      have hlength := congrArg List.length heq
      simp at hlength
      omega
    · intro hfalse
      cases hfalse

theorem shown_host : a.shown .host = if a.shown .port = "" then a.shown .hostname
    else a.shown .hostname ++ ":" ++ a.shown .port := by
  refine String.toList_inj.mp ?_
  simp only [shown_eq_empty_iff]
  cases h : a.port with
  | none => simp [toList_shown, value, port?, h, marked]
  | some n => simp [toList_shown, value, port?, h, marked, Nat.toDigits_ne_nil]

theorem shown_origin : a.shown .origin = a.shown .protocol ++ "//" ++ a.shown .host := by
  refine String.toList_inj.mp ?_
  simp [toList_shown, value]

end Address

-- The properties of an address fit together as browsers have it, save for one: the host of an
-- IPv6 address is shown without its brackets, so the address is put together again without them.
theorem properties_recompose (a : Address) :
    (∀ p, property a.text p = .ok (a.shown p)) ∧
    a.shown .href = a.text ∧
    (a.shown .host = if a.shown .port = "" then a.shown .hostname
      else a.shown .hostname ++ ":" ++ a.shown .port) ∧
    a.shown .origin = a.shown .protocol ++ "//" ++ a.shown .host ∧
    recomposed a.shown = String.ofList (a.charsWith a.host.name) ∧
    (recomposed a.shown = a.shown .href ↔ a.host.isAddress6 = false) := by
  refine ⟨a.property_text, rfl, a.shown_host, a.shown_origin, a.recomposed_shown, ?_⟩
  rw [a.recomposed_shown, ← Address.name_eq_chars_iff]
  constructor
  · exact fun h => a.charsWith_inj (String.ofList_injective h)
  · exact fun h => congrArg (fun host => String.ofList (a.charsWith host)) h

-- The address of the machine itself.
def loopback : Address where
  scheme := .http
  credentials := none
  host := .address6 (.gapped [] [1] (by decide))
  port := none
  path := []
  query := none
  fragment := none
  port_ne := nofun
  path_all := List.forall_mem_nil _

theorem not_recomposed_loopback :
    loopback.text = "http://[::1]/" ∧
    ¬∃ value : Property → String, (∀ p, property loopback.text p = .ok (value p)) ∧
      recomposed value = value .href := by
  refine ⟨by decide +kernel, ?_⟩
  rintro ⟨value, hvalue, heq⟩
  have hshown : value = loopback.shown := funext fun p =>
    Except.ok.inj ((hvalue p).symm.trans (loopback.property_text p))
  rw [hshown] at heq
  revert heq
  decide +kernel

end Gleaner.Url
