import Gleaner.Proofs.Url.Address

namespace Gleaner.Url

open Text

-- What a kind of characters excludes does not occur among them.
theorem notMem_of_all {p : Char → Bool} {cs : List Char} (h : ∀ c ∈ cs, p c = true) {d : Char}
    (hd : p d = false) : d ∉ cs := by
  intro hmem
  rw [h d hmem] at hd
  cases hd

theorem visible_bounds {c : Char} (h : isVisible c = true) : 33 ≤ c.toNat ∧ c.toNat ≤ 126 := by
  simpa [isVisible] using h

theorem isControlOrBlank_visible {c : Char} (h : isVisible c = true) :
    isControlOrBlank c = false :=
  decide_eq_false (by have := visible_bounds h; omega)

theorem isBreak_visible {c : Char} (h : isVisible c = true) : isBreak c = false := by
  simp only [isBreak, Bool.or_eq_false_iff, decide_eq_false_iff_not]
  refine ⟨⟨?_, ?_⟩, ?_⟩ <;>
  · rintro rfl
    cases h

theorem notMem_disguises {c : Char} (h : isVisible c = true) : c.toNat ∉ disguises := by
  have hlarge : ∀ n ∈ disguises, 126 < n := by decide
  intro hmem
  exact absurd (visible_bounds h).2 (Nat.not_le.mpr (hlarge _ hmem))

theorem isCredentialChar_of_isDomainChar {c : Char} (h : isDomainChar c = true) :
    isCredentialChar c = true := by
  simp only [isDomainChar, Bool.and_eq_true] at h
  exact h.1.1

theorem isHostChar_of_isCredentialChar {c : Char} (h : isCredentialChar c = true) :
    isHostChar c = true :=
  (Bool.and_eq_true_iff.mp h).1

theorem isHostChar_of_isDomainChar {c : Char} (h : isDomainChar c = true) : isHostChar c = true :=
  isHostChar_of_isCredentialChar (isCredentialChar_of_isDomainChar h)

theorem isVisible_of_isHostChar {c : Char} (h : isHostChar c = true) : isVisible c = true :=
  (Bool.and_eq_true_iff.mp h).1

theorem isDomainChar_digit (n : Nat) : ∀ c ∈ Nat.toDigits 10 n, isDomainChar c = true :=
  forall_mem_toDigits (by decide) (by decide) n

namespace Host

theorem name_all (host : Host) (h : host.isAddress6 = false) :
    ∀ c ∈ host.name, isDomainChar c = true := by
  cases host with
  | domain name => exact name.all
  | address4 octets =>
    intro c hc
    obtain rfl | ⟨part, hpart, hc⟩ := of_mem_intercalate hc
    · decide
    · obtain ⟨i, rfl⟩ := (List.mem_ofFn ..).mp hpart
      exact isDomainChar_digit _ c hc
  | address6 address => cases h

-- Nothing but its brackets stands around an IPv6 address.
theorem chars_append (address : Address6) (rest : List Char) :
    (address6 address).chars ++ rest = '[' :: (address.chars ++ ']' :: rest) := by
  simp [chars, isAddress6, name]

theorem chars_eq_name {host : Host} (h : host.isAddress6 = false) : host.chars = host.name := by
  rw [chars, h]
  rfl

theorem chars_all (host : Host) : ∀ c ∈ host.chars, isHostChar c = true := by
  intro c hc
  cases host with
  | domain name => exact isHostChar_of_isDomainChar (name_all (domain name) rfl c hc)
  | address4 octets => exact isHostChar_of_isDomainChar (name_all (address4 octets) rfl c hc)
  | address6 address =>
    rw [← List.append_nil (address6 address).chars, chars_append] at hc
    simp only [List.mem_cons, List.mem_append, List.not_mem_nil, or_false] at hc
    obtain rfl | hmem | rfl := hc
    · decide
    · obtain rfl | ⟨-, hdomain, -⟩ := Address6.of_mem_chars hmem
      · decide
      · exact isHostChar_of_isDomainChar hdomain
    · decide

theorem of_mem_name (host : Host) {c : Char} (h : c ∈ host.name) :
    isDomainChar c = true ∨ c = ':' := by
  cases host with
  | domain name => exact .inl (name.all c h)
  | address4 octets => exact .inl (name_all (address4 octets) rfl c h)
  | address6 address =>
    obtain h | h := Address6.of_mem_chars h
    · exact .inr h
    · exact .inl h.2.1

theorem exists_of_isAddress6 {host : Host} (h : host.isAddress6 = true) :
    ∃ address, host = address6 address := by
  cases host with
  | address6 address => exact ⟨address, rfl⟩
  | _ => cases h

end Host

theorem notMem_marked {c d : Char} {part : Option (List Char)} (hne : d ≠ c)
    (hpart : ∀ cs ∈ part, d ∉ cs) : d ∉ marked c part := by
  cases part with
  | none => exact List.not_mem_nil
  | some cs => exact List.not_mem_cons_of_ne_of_not_mem hne (hpart cs rfl)

theorem forall_mem_marked {P : Char → Prop} {c : Char} {part : Option (List Char)} (hc : P c)
    (hpart : ∀ cs ∈ part, ∀ d ∈ cs, P d) : ∀ d ∈ marked c part, P d := by
  cases part with
  | none => exact nofun
  | some cs => exact List.forall_mem_cons.mpr ⟨hc, hpart cs rfl⟩

-- The characters in front of a host.
def isFrontChar (c : Char) : Bool := isCredentialChar c || c == ':' || c == '@'

def isAuthorityChar (c : Char) : Bool := isHostChar c || c == '@'

theorem isFrontChar_of_isCredentialChar {c : Char} (h : isCredentialChar c = true) :
    isFrontChar c = true := by
  simp [isFrontChar, h]

theorem isAuthorityChar_of_isHostChar {c : Char} (h : isHostChar c = true) :
    isAuthorityChar c = true := by
  simp [isAuthorityChar, h]

theorem isAuthorityChar_of_isFrontChar {c : Char} (h : isFrontChar c = true) :
    isAuthorityChar c = true := by
  simp only [isFrontChar, Bool.or_eq_true, beq_iff_eq] at h
  obtain (h | rfl) | rfl := h
  · exact isAuthorityChar_of_isHostChar (isHostChar_of_isCredentialChar h)
  · decide
  · decide

theorem isVisible_of_isAuthorityChar {c : Char} (h : isAuthorityChar c = true) :
    isVisible c = true := by
  simp only [isAuthorityChar, Bool.or_eq_true, beq_iff_eq] at h
  obtain h | rfl := h
  · exact isVisible_of_isHostChar h
  · decide

theorem isVisible_of_isPathChar {c : Char} (h : isPathChar c = true) : isVisible c = true := by
  simp only [isPathChar, Bool.and_eq_true] at h
  exact h.1.1

theorem Component.of_mem_map {p : Char → Bool} {part : Option (Component p)} {cs : List Char}
    (h : cs ∈ part.map (·.chars)) : cs ≠ [] ∧ ∀ c ∈ cs, p c = true := by
  obtain ⟨component, -, rfl⟩ := Option.map_eq_some_iff.mp h
  exact ⟨component.ne_nil, component.all⟩

namespace Address

variable (a : Address)

theorem username_all : ∀ c ∈ a.username, isCredentialChar c = true := by
  cases h : a.credentials with
  | none => simp [username, h]
  | some credentials =>
    rw [username, h]
    exact credentials.1.all

theorem password_all : ∀ cs ∈ a.password?, ∀ c ∈ cs, isCredentialChar c = true :=
  fun _ hcs => (Component.of_mem_map hcs).2

theorem port_all : ∀ cs ∈ a.port?, ∀ c ∈ cs, isDomainChar c = true := by
  intro cs hcs
  obtain ⟨n, -, rfl⟩ := Option.map_eq_some_iff.mp hcs
  exact isDomainChar_digit n

theorem query_all : ∀ cs ∈ a.query?, ∀ c ∈ cs, isQueryChar c = true :=
  fun _ hcs => (Component.of_mem_map hcs).2

theorem fragment_all : ∀ cs ∈ a.fragment?, ∀ c ∈ cs, isVisible c = true :=
  fun _ hcs => (Component.of_mem_map hcs).2

theorem fullPath_all : ∀ c ∈ a.fullPath, isPathChar c = true :=
  List.forall_mem_cons.mpr ⟨by decide, a.path_all⟩

theorem credentialChars_all : ∀ c ∈ a.credentialChars, isFrontChar c = true := by
  unfold credentialChars
  split
  · exact List.forall_mem_nil _
  · have hat : ∀ c ∈ ['@'], isFrontChar c = true := List.forall_mem_singleton.mpr (by decide)
    refine List.forall_mem_append.mpr ⟨List.forall_mem_append.mpr ⟨?_, ?_⟩, hat⟩
    · exact fun c hc => isFrontChar_of_isCredentialChar (a.username_all c hc)
    · exact forall_mem_marked (by decide) fun cs hcs c hc =>
        isFrontChar_of_isCredentialChar (a.password_all cs hcs c hc)

theorem marked_port_all : ∀ c ∈ marked ':' a.port?, isHostChar c = true :=
  forall_mem_marked (by decide) fun cs hcs c hc =>
    isHostChar_of_isDomainChar (a.port_all cs hcs c hc)

theorem hostAndPort_all : ∀ c ∈ a.host.chars ++ marked ':' a.port?, isHostChar c = true :=
  List.forall_mem_append.mpr ⟨a.host.chars_all, a.marked_port_all⟩

def authority : List Char := a.authorityWith a.host.chars

theorem authority_all : ∀ c ∈ a.authority, isAuthorityChar c = true :=
  List.forall_mem_append.mpr
    ⟨fun c hc => isAuthorityChar_of_isFrontChar (a.credentialChars_all c hc),
      fun c hc => isAuthorityChar_of_isHostChar (a.hostAndPort_all c hc)⟩

theorem chars_visible : ∀ c ∈ a.charsWith a.host.chars, isVisible c = true := by
  have hscheme : ∀ c ∈ a.scheme.chars, isVisible c = true := by
    apply List.all_eq_true.mp
    cases a.scheme <;> rfl
  have hquery : ∀ c ∈ marked '?' a.query?, isVisible c = true :=
    forall_mem_marked (by decide) fun cs hcs c hc =>
      (Bool.and_eq_true_iff.mp (a.query_all cs hcs c hc)).1
  have hfragment : ∀ c ∈ marked '#' a.fragment?, isVisible c = true :=
    forall_mem_marked (by decide) a.fragment_all
  simp only [charsWith, List.forall_mem_append, List.forall_mem_cons]
  exact ⟨hscheme, by decide, by decide, by decide,
    fun c hc => isVisible_of_isAuthorityChar (a.authority_all c hc),
    ⟨fun c hc => isVisible_of_isPathChar (a.fullPath_all c hc), hquery⟩, hfragment⟩

end Address

end Gleaner.Url
