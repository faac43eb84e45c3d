import Gleaner.Pattern.Reader
import Gleaner.Proofs.Pattern.Match
import Gleaner.Proofs.Template.Tokens
import Mathlib

namespace Gleaner.Template

open Pattern

-- How a token is told from the text around it: a kind, a comma that may be missing, and arguments
-- that may be missing.
def tokenPattern : String := "\\\x7b\\\x7b([^,\x7d]+),?([^\x7d]+)?\x7d\\\x7d"

-- One character or more, none of them among those given.
def othersNode (cs : List Char) : Node :=
  .repetition .greedy 1 none (.set true (cs.map fun c => .char c.toNat))

def kindNode : Node := .group 1 (.sequence [othersNode [',', '}']])

def commaNode : Node := .repetition .greedy 0 (some 1) (.char ','.toNat)

def argumentsNode : Node :=
  .repetition .greedy 0 (some 1) (.group 2 (.sequence [othersNode ['}']]))

def tokenNode : Node :=
  .sequence [.char '{'.toNat, .char '{'.toNat, kindNode, commaNode, argumentsNode,
    .char '}'.toNat, .char '}'.toNat]

theorem read_tokenPattern : Pattern.read tokenPattern.toList {} = .ok (tokenNode, {}) := by
  cbv

section

variable {text : Array Char}

theorem toNat_beq (c d : Char) : (c.toNat == d.toNat) = (c == d) := by
  rw [Bool.eq_iff_iff, beq_iff_eq, beq_iff_eq]
  exact ⟨Char.toNat_inj.mp, congrArg _⟩

theorem char_matcher (c : Char) : (Node.char c.toNat).matcher text {} = one text (· == c) := by
  change one text (fun d => d.toNat == c.toNat) = _
  congr 1
  funext d
  exact toNat_beq d c

theorem others_matcher (cs : List Char) :
    (Node.set true (cs.map fun c => .char c.toNat)).matcher text {} =
      one text fun d => !cs.contains d := by
  change one text (fun d => ((cs.map fun c => SetItem.char c.toNat).any (inItem {} d)) != true) = _
  congr 1
  funext d
  rw [List.any_map, List.contains_eq_any_beq, Bool.bne_true]
  congr 2
  funext c
  exact toNat_beq d c

variable {p : Place} {next : Place → Option Place}

theorem char_cons {c : Char} {rest : List Char} (h : text.toList.drop p.position = c :: rest) :
    (Node.char c.toNat).matcher text {} p next = next (p.shift 1) := by
  rw [char_matcher]
  exact one_cons h (beq_self_eq_true c)

theorem char_none {c : Char} (h : ∀ rest, text.toList.drop p.position ≠ c :: rest) :
    (Node.char c.toNat).matcher text {} p next = none := by
  rw [char_matcher]
  refine one_of_ends fun d rest hd => ?_
  rw [beq_eq_false_iff_ne]
  rintro rfl
  exact h rest hd

theorem char_eq_some {c : Char} {r : Place}
    (h : (Node.char c.toNat).matcher text {} p next = some r) :
    ∃ rest, text.toList.drop p.position = c :: rest ∧ next (p.shift 1) = some r := by
  rw [char_matcher] at h
  obtain ⟨d, rest, hdrop, hd, hnext⟩ := one_eq_some h
  cases beq_iff_eq.mp hd
  exact ⟨rest, hdrop, hnext⟩

-- The end of a token.
theorem closing_some {after : List Char}
    (h : text.toList.drop p.position = '}' :: '}' :: after) :
    sequenceMatcher text {} [.char '}'.toNat, .char '}'.toNat] p some = some (p.shift 2) := by
  change (Node.char '}'.toNat).matcher text {} p (fun q =>
    (Node.char '}'.toNat).matcher text {} q some) = _
  have hnext : text.toList.drop (p.shift 1).position = '}' :: after := drop_add ['}'] h
  rw [char_cons h, char_cons hnext, p.shift_shift]

-- Places in front of which no brace is closed before the given end.
def Before (text : Array Char) (tail : List Char) (i : Nat) : Prop :=
  ∃ front, text.toList.drop i = front ++ tail ∧ '}' ∉ front

-- Without two closing braces at its end, a token is not closed anywhere before.
theorem closing_none {tail : List Char} (htail : ∀ after, tail ≠ '}' :: '}' :: after)
    (h : Before text tail p.position) :
    sequenceMatcher text {} [.char '}'.toNat, .char '}'.toNat] p some = none := by
  change (Node.char '}'.toNat).matcher text {} p (fun q =>
    (Node.char '}'.toNat).matcher text {} q some) = _
  obtain ⟨front, hdrop, hfront⟩ := h
  by_cases hclose : ∃ rest, text.toList.drop p.position = '}' :: rest
  · obtain ⟨rest, hrest⟩ := hclose
    rw [char_cons hrest]
    refine char_none fun after hafter => ?_
    have hnext : text.toList.drop (p.shift 1).position = rest := drop_add ['}'] hrest
    rw [hnext] at hafter
    rw [hdrop, hafter] at hrest
    cases front with
    | nil => exact htail after hrest
    | cons d front =>
      obtain ⟨rfl, -⟩ := List.cons_eq_cons.mp hrest
      exact hfront List.mem_cons_self
  · exact char_none fun rest hrest => hclose ⟨rest, hrest⟩

-- No part of a token but its end goes beyond the first closing brace.
theorem within_one {tail : List Char} (htail : Ends (· ≠ '}') tail) {keep : Char → Bool}
    (hkeep : keep '}' = false) : Within (Before text tail) (one text keep) := by
  refine .one fun i c hi hc hkept => ?_
  obtain ⟨front, hdrop, hfront⟩ := hi
  have hchars := drop_of_getElem? hc
  rw [hdrop] at hchars
  cases front with
  | nil =>
    have hbrace : c = '}' := by simpa using htail c _ hchars
    rw [hbrace, hkeep] at hkept
    cases hkept
  | cons d front =>
    obtain ⟨-, hrest⟩ := List.cons_eq_cons.mp hchars
    exact ⟨front, hrest.symm, fun hmem => hfront (List.mem_cons_of_mem _ hmem)⟩

theorem within_parts {tail : List Char} (htail : Ends (· ≠ '}') tail) :
    Within (Before text tail) (sequenceMatcher text {} [kindNode, commaNode, argumentsNode]) := by
  have hothers : ∀ cs : List Char, '}' ∈ cs →
      Within (Before text tail) ((othersNode cs).matcher text {}) := fun cs hcs => by
    refine .repetition ?_ 1 none
    rw [others_matcher]
    exact within_one htail (by simp [hcs])
  have hgroup : ∀ (index : Nat) (cs : List Char), '}' ∈ cs → Within (Before text tail)
      ((Node.group index (.sequence [othersNode cs])).matcher text {}) := fun index cs hcs => by
    refine .group (.sequence fun n hn => ?_) index
    rw [List.mem_singleton.mp hn]
    exact hothers cs hcs
  refine .sequence fun n hn => ?_
  simp only [List.mem_cons, List.not_mem_nil, or_false] at hn
  rcases hn with rfl | rfl | rfl
  · exact hgroup 1 _ (by decide)
  · refine .repetition ?_ 0 (some 1)
    rw [char_matcher]
    exact within_one htail (by decide)
  · exact .repetition (hgroup 2 _ (by decide)) 0 (some 1)

theorem contains_others {c : Char} {cs : List Char} : (!cs.contains c) = true ↔ c ∉ cs := by
  simp

-- A group of others takes all of them there are, and fails if there is none.
theorem group_some (index : Nat) {cs xs rest : List Char} {r : Place}
    (hrun : text.toList.drop p.position = xs ++ rest) (hne : xs ≠ []) (hxs : ∀ c ∈ xs, c ∉ cs)
    (hends : Ends (fun c => !cs.contains c) rest)
    (hnext : next ⟨p.position + xs.length,
      (index, p.position, p.position + xs.length) :: p.spans.filter (·.1 != index)⟩ = some r) :
    (Node.group index (.sequence [othersNode cs])).matcher text {} p next = some r :=
  repetition_some (others_matcher cs) hrun hne (fun c hc => contains_others.mpr (hxs c hc)) hends
    hnext

theorem group_none (index : Nat) {cs : List Char}
    (hends : Ends (fun c => !cs.contains c) (text.toList.drop p.position)) :
    (Node.group index (.sequence [othersNode cs])).matcher text {} p next = none :=
  repetition_none (others_matcher cs) hends

theorem ends_closing {cs : List Char} (h : '}' ∈ cs) (rest : List Char) :
    Ends (fun c => !cs.contains c) ('}' :: rest) := by
  rintro c more hc
  cases hc
  simp [h]

-- The arguments, if there are some, and the end of the token.
theorem arguments_some (arguments : List Char) {after : List Char} (hclose : '}' ∉ arguments)
    (h : text.toList.drop p.position = arguments ++ '}' :: '}' :: after) :
    sequenceMatcher text {} [argumentsNode, .char '}'.toNat, .char '}'.toNat] p some =
      some ⟨p.position + arguments.length + 2,
        if arguments = [] then p.spans
        else (2, p.position, p.position + arguments.length) :: p.spans.filter (·.1 != 2)⟩ := by
  change argumentsNode.matcher text {} p (fun q =>
    sequenceMatcher text {} [.char '}'.toNat, .char '}'.toNat] q some) = _
  rw [argumentsNode, optional_eq]
  by_cases hnone : arguments = []
  · rw [hnone, List.nil_append] at h
    rw [group_none 2 (h ▸ ends_closing (by decide) _), Option.none_or, closing_some h, if_pos hnone,
      hnone]
    rfl
  · have hend : text.toList.drop (p.position + arguments.length) = '}' :: '}' :: after :=
      drop_add arguments h
    have hothers : ∀ c ∈ arguments, c ∉ ['}'] := fun c hc hbrace =>
      hclose (List.mem_singleton.mp hbrace ▸ hc)
    rw [group_some 2 h hnone hothers (ends_closing (by decide) _) (closing_some hend),
      Option.some_or, if_neg hnone]
    rfl

-- What follows the kind: its arguments behind a comma, or the end of the token at once.
theorem comma_none {after : List Char} (h : text.toList.drop p.position = '}' :: '}' :: after) :
    sequenceMatcher text {} [commaNode, argumentsNode, .char '}'.toNat, .char '}'.toNat] p some =
      some (p.shift 2) := by
  change commaNode.matcher text {} p (fun q =>
    sequenceMatcher text {} [argumentsNode, .char '}'.toNat, .char '}'.toNat] q some) = _
  have hcomma : ∀ rest, text.toList.drop p.position ≠ ',' :: rest := fun rest hrest =>
    absurd (List.cons_eq_cons.mp (h.symm.trans hrest)).1 (by decide)
  rw [commaNode, optional_eq, char_none hcomma, Option.none_or]
  exact arguments_some [] (by decide) h

theorem comma_some {arguments after : List Char} (hclose : '}' ∉ arguments)
    (h : text.toList.drop p.position = ',' :: (arguments ++ '}' :: '}' :: after)) :
    sequenceMatcher text {} [commaNode, argumentsNode, .char '}'.toNat, .char '}'.toNat] p some =
      some ⟨p.position + 1 + arguments.length + 2,
        if arguments = [] then p.spans
        else (2, p.position + 1, p.position + 1 + arguments.length) ::
          p.spans.filter (·.1 != 2)⟩ := by
  change commaNode.matcher text {} p (fun q =>
    sequenceMatcher text {} [argumentsNode, .char '}'.toNat, .char '}'.toNat] q some) = _
  have hnext : text.toList.drop (p.shift 1).position = arguments ++ '}' :: '}' :: after :=
    drop_add [','] h
  rw [commaNode, optional_eq, char_cons h, arguments_some arguments hclose hnext, Option.some_or]
  rfl

end

namespace Occurrence

variable (o : Occurrence)

theorem written_append (tail : List Char) :
    o.written ++ tail = '{' :: '{' :: (o.inside ++ '}' :: '}' :: tail) := by
  simp [written]

-- The kind ends at the first comma, and the arguments stand behind it.
theorem groups : (∀ c ∈ o.kind, c ≠ ',') ∧
    (o.inside = o.kind ∧ o.arguments = [] ∨ o.inside = o.kind ++ ',' :: o.arguments) :=
  cut_groups o.inside

theorem length_kind_le : o.kind.length ≤ o.inside.length := by
  rcases o.groups with ⟨-, ⟨hall, -⟩ | hsplit⟩
  · rw [← hall]
  · rw [hsplit, List.length_append]
    exact Nat.le_add_right _ _

theorem arguments_eq_nil_iff : o.arguments = [] ↔ o.inside.length ≤ o.kind.length + 1 := by
  rcases o.groups with ⟨-, ⟨hall, hnone⟩ | hsplit⟩
  · rw [← hall]
    exact iff_of_true hnone (Nat.le_succ _)
  · rw [hsplit, List.length_append, List.length_cons, ← List.length_eq_zero_iff]
    omega

end Occurrence

-- The place behind a token, with the kind and the arguments as its groups.
def placeOf (start : Nat) (o : Occurrence) : Place where
  position := start + 2 + o.inside.length + 2
  spans :=
    let kind := (1, start + 2, start + 2 + o.kind.length)
    if o.arguments = [] then [kind]
    else [(2, start + 2 + o.kind.length + 1, start + 2 + o.inside.length), kind]

variable {text : Array Char}

theorem tokenNode_open {start : Nat} {rest : List Char}
    (h : text.toList.drop start = '{' :: '{' :: rest) :
    tokenNode.matcher text {} ⟨start, []⟩ some = sequenceMatcher text {}
      [kindNode, commaNode, argumentsNode, .char '}'.toNat, .char '}'.toNat] ⟨start + 2, []⟩
        some := by
  change (Node.char '{'.toNat).matcher text {} ⟨start, []⟩ (fun q =>
    (Node.char '{'.toNat).matcher text {} q (fun q => sequenceMatcher text {}
      [kindNode, commaNode, argumentsNode, .char '}'.toNat, .char '}'.toNat] q some)) = _
  have hnext : text.toList.drop ((⟨start, []⟩ : Place).shift 1).position = '{' :: rest :=
    drop_add ['{'] h
  rw [char_cons h, char_cons hnext]
  rfl

-- Where a token opens, the pattern finds it with its kind and its arguments.
theorem tokenNode_some {start : Nat} {o : Occurrence}
    (h : opensAt? (text.toList.drop start) = some o) :
    tokenNode.matcher text {} ⟨start, []⟩ some = some (placeOf start o) := by
  obtain ⟨-, hinside, hdrop⟩ := opensAt?_eq_some_iff.mp h
  have hclose := hinside.no_closing
  rw [o.written_append] at hdrop
  have hbody : text.toList.drop (start + 2) = o.inside ++ '}' :: '}' :: o.after :=
    drop_add ['{', '{'] hdrop
  have hne : o.kind ≠ [] := by
    obtain ⟨c, rest, heq, hcomma, -⟩ := hinside
    simp [Occurrence.kind, heq, Text.cut, hcomma]
  obtain ⟨hkind, hgroups⟩ := o.groups
  have hothers : ∀ c ∈ o.kind, c ∉ [',', '}'] := fun c hc hmem => by
    rcases List.mem_pair.mp hmem with rfl | rfl
    · exact hkind _ hc rfl
    · rcases hgroups with ⟨hall, -⟩ | hsplit
      · exact hclose (hall ▸ hc)
      · exact hclose (hsplit ▸ List.mem_append_left _ hc)
  rw [tokenNode_open hdrop]
  change kindNode.matcher text {} ⟨start + 2, []⟩ (fun q => sequenceMatcher text {}
    [commaNode, argumentsNode, .char '}'.toNat, .char '}'.toNat] q some) = _
  rcases hgroups with ⟨hall, hnone⟩ | hsplit
  · rw [hall] at hbody
    refine group_some 1 hbody hne hothers (ends_closing (by decide) _) ?_
    rw [comma_none (drop_add o.kind hbody), placeOf, hnone, hall]
    rfl
  · rw [hsplit, List.append_assoc] at hbody
    have hcomma : Ends (fun c => !([',', '}'].contains c))
        (',' :: (o.arguments ++ '}' :: '}' :: o.after)) := by
      rintro c more hc
      cases hc
      decide
    have harguments : '}' ∉ o.arguments := fun hmem =>
      hclose (hsplit ▸ List.mem_append_right _ (List.mem_cons_of_mem _ hmem))
    have hlength : o.inside.length = o.kind.length + 1 + o.arguments.length := by
      rw [hsplit, List.length_append, List.length_cons]
      omega
    refine group_some 1 hbody hne hothers hcomma ?_
    rw [comma_some harguments (drop_add o.kind hbody), placeOf, hlength]
    simp only [Nat.add_assoc]
    rfl

-- Without two opening braces there is no token.
theorem tokenNode_closed {start : Nat}
    (h : ∀ rest, text.toList.drop start ≠ '{' :: '{' :: rest) :
    tokenNode.matcher text {} ⟨start, []⟩ some = none := by
  change (Node.char '{'.toNat).matcher text {} ⟨start, []⟩ (fun q =>
    (Node.char '{'.toNat).matcher text {} q (fun q => sequenceMatcher text {}
      [kindNode, commaNode, argumentsNode, .char '}'.toNat, .char '}'.toNat] q some)) = _
  by_cases hone : ∃ rest, text.toList.drop start = '{' :: rest
  · obtain ⟨rest, hrest⟩ := hone
    rw [char_cons hrest]
    refine char_none fun more hmore => h more ?_
    have hnext : text.toList.drop (start + 1) = rest := drop_add ['{'] hrest
    rw [hrest, ← hnext]
    exact congrArg _ hmore
  · exact char_none fun rest hrest => hone ⟨rest, hrest⟩

theorem tokenNode_none {start : Nat} (h : opensAt? (text.toList.drop start) = none) :
    tokenNode.matcher text {} ⟨start, []⟩ some = none := by
  by_cases hopen : ∃ rest, text.toList.drop start = '{' :: '{' :: rest
  case neg => exact tokenNode_closed fun rest hrest => hopen ⟨rest, hrest⟩
  obtain ⟨rest, hdrop⟩ := hopen
  have hbody : text.toList.drop (start + 2) = rest := drop_add ['{', '{'] hdrop
  rw [tokenNode_open hdrop]
  by_cases hkind : Ends (fun c => !([',', '}'].contains c)) rest
  · have hends : Ends (fun c => !([',', '}'].contains c)) (text.toList.drop (start + 2)) :=
      hbody ▸ hkind
    change kindNode.matcher text {} ⟨start + 2, []⟩ (fun q => sequenceMatcher text {}
      [commaNode, argumentsNode, .char '}'.toNat, .char '}'.toNat] q some) = none
    exact group_none 1 hends
  · have hsplit := List.takeWhile_append_dropWhile (p := (· ≠ '}')) (l := rest)
    have hfront : '}' ∉ rest.takeWhile (· ≠ '}') := fun hmem =>
      absurd (List.mem_takeWhile_imp hmem) (by decide)
    have htail : ∀ after, rest.dropWhile (· ≠ '}') ≠ '}' :: '}' :: after := by
      intro after hafter
      have hinside : IsInside (rest.takeWhile (· ≠ '}')) := by
        obtain ⟨c, more, rfl, hcomma, hbrace⟩ : ∃ c more, rest = c :: more ∧ c ≠ ',' ∧ c ≠ '}' := by
          simpa [Ends] using hkind
        refine ⟨c, more.takeWhile (· ≠ '}'), by simp [hbrace], hcomma, fun d hd heq => ?_⟩
        exact hfront (heq ▸ hd)
      rw [hdrop, ← hsplit, hafter, opensAt?_inside hinside] at h
      cases h
    change sequenceMatcher text {} [kindNode, commaNode, argumentsNode] ⟨start + 2, []⟩ (fun q =>
      sequenceMatcher text {} [.char '}'.toNat, .char '}'.toNat] q some) = none
    refine within_parts (ends_dropWhile _ rest) ⟨_, hbody.trans hsplit.symm, hfront⟩ fun q hq => ?_
    exact closing_none htail hq

theorem matcher_eq_opensAt? (text : List Char) (start : Nat) :
    tokenNode.matcher text.toArray {} ⟨start, []⟩ some =
      (opensAt? (text.drop start)).map (placeOf start) := by
  cases h : opensAt? (text.drop start) with
  | none => exact tokenNode_none h
  | some o => exact tokenNode_some h

theorem searchFrom_eq_first? (text : List Char) {fuel start : Nat}
    (hfuel : fuel + start = text.length + 1) :
    searchFrom text.toArray tokenNode {} fuel start = (first? (text.drop start)).map fun o =>
      (start + o.before.length, placeOf (start + o.before.length) o) := by
  induction fuel generalizing start with
  | zero =>
    rw [List.drop_eq_nil_of_le (by omega)]
    rfl
  | succ fuel ih =>
    have hrest : text.drop (start + 1) = (text.drop start).tail := by
      rw [← List.drop_one, List.drop_drop]
    rw [searchFrom, matcher_eq_opensAt?, ih (by omega), hrest]
    cases hdrop : text.drop start with
    | nil => rfl
    | cons c rest =>
      rw [first?_cons, List.tail_cons]
      cases hopen : opensAt? (c :: rest) with
      | some o =>
        obtain ⟨hbefore, -, -⟩ := opensAt?_eq_some_iff.mp hopen
        simp only [Option.map_some, hbefore, List.length_nil, Nat.add_zero]
      | none =>
        cases first? rest with
        | none => rfl
        | some o =>
          simp only [Option.map_some, Option.map_none, List.length_cons, Nat.add_assoc,
            Nat.add_comm 1]
          rfl

-- Searching for the pattern finds the first token.
theorem search_eq_first? (text : List Char) :
    Pattern.search text.toArray tokenNode {} = (first? text).map fun o =>
      (o.before.length, placeOf o.before.length o) := by
  rw [Pattern.search, searchFrom_eq_first? text (by simp)]
  simp only [List.drop_zero, Nat.zero_add]

-- A brace too many on both sides, and a comma without arguments.
example : Pattern.search "\x7b\x7b\x7ba,\x7d\x7d\x7d".toList.toArray tokenNode {} =
    some (0, ⟨7, [(1, 2, 4)]⟩) := by
  decide +kernel

-- A token by its places in a text: it opens at `p`, directly before the first character of its kind,
-- and the first closing brace behind that character, at `q`, is followed by another one.
structure Opening (text : List Char) (p q : Nat) : Prop where
  opening : text[p]? = some '{' ∧ text[p + 1]? = some '{'
  kind : ∃ c, text[p + 2]? = some c ∧ c ≠ ',' ∧ c ≠ '}'
  behind : p + 2 < q
  closing : text[q]? = some '}' ∧ text[q + 1]? = some '}'
  first : ∀ i, p + 2 < i → i < q → text[i]? ≠ some '}'

-- Where its kind ends: at the first comma, or with the token.
structure KindEnd (text : List Char) (p q r : Nat) : Prop where
  le : r ≤ q
  comma : r = q ∨ text[r]? = some ','
  first : ∀ i, p + 2 ≤ i → i < r → text[i]? ≠ some ','

section

variable {text : List Char}

theorem drop_eq_cons {i : Nat} {c : Char} (h : text[i]? = some c) :
    text.drop i = c :: text.drop (i + 1) := by
  obtain ⟨hi, rfl⟩ := List.getElem?_eq_some_iff.mp h
  exact List.drop_eq_getElem_cons hi

theorem getElem?_add {i : Nat} {cs : List Char} (h : text.drop i = cs) (j : Nat) :
    text[i + j]? = cs[j]? := by
  rw [← h, List.getElem?_drop]

-- What stands between the places is the inside of a token.
theorem Opening.isInside {p q : Nat} (h : Opening text p q) :
    IsInside ((text.drop (p + 2)).take (q - (p + 2))) := by
  obtain ⟨c, hc, hcomma, hbrace⟩ := h.kind
  have hbehind := h.behind
  obtain ⟨k, hk⟩ : ∃ k, q - (p + 2) = k + 1 := ⟨q - (p + 3), by omega⟩
  refine ⟨c, (text.drop (p + 3)).take k, ?_, hcomma, fun d hd heq => ?_⟩
  · rw [drop_eq_cons hc, hk, List.take_succ_cons]
  · obtain ⟨i, hi⟩ := List.getElem?_of_mem hd
    rw [List.getElem?_take, List.getElem?_drop, heq] at hi
    split at hi
    next hlt =>
      rcases Nat.eq_zero_or_pos i with rfl | hpos
      · exact hbrace (Option.some.inj (hc.symm.trans hi))
      · exact h.first (p + 2 + i) (by omega) (by omega) hi
    · cases hi

theorem Opening.drop {p q : Nat} (h : Opening text p q) :
    text.drop p = '{' :: '{' ::
      ((text.drop (p + 2)).take (q - (p + 2)) ++ '}' :: '}' :: text.drop (q + 2)) := by
  obtain ⟨⟨hone, htwo⟩, -, hbehind, ⟨hclose, hclose'⟩, -⟩ := h
  have hsplit := List.take_append_drop (q - (p + 2)) (text.drop (p + 2))
  rw [List.drop_drop, Nat.add_sub_of_le (Nat.le_of_lt hbehind), drop_eq_cons hclose,
    drop_eq_cons hclose'] at hsplit
  rw [drop_eq_cons hone, drop_eq_cons htwo]
  exact congrArg (fun cs => '{' :: '{' :: cs) hsplit.symm

theorem opening_of_drop {p : Nat} {inside after : List Char} (hinside : IsInside inside)
    (h : text.drop p = '{' :: '{' :: (inside ++ '}' :: '}' :: after)) :
    Opening text p (p + 2 + inside.length) := by
  have hbody : text.drop (p + 2) = inside ++ '}' :: '}' :: after := by
    rw [← List.drop_drop, h]
    rfl
  have hclosing : text.drop (p + 2 + inside.length) = '}' :: '}' :: after := by
    rw [← List.drop_drop, hbody, List.drop_left]
  have hclose := hinside.no_closing
  obtain ⟨c, rest, rfl, hcomma, hbrace⟩ := hinside
  exact {
    opening := ⟨getElem?_add h 0, getElem?_add h 1⟩
    kind := ⟨c, getElem?_add hbody 0, hcomma, hbrace c List.mem_cons_self⟩
    behind := Nat.lt_add_of_pos_right (Nat.succ_pos _)
    closing := ⟨getElem?_add hclosing 0, getElem?_add hclosing 1⟩
    first := fun i hi hq hmem => by
      obtain ⟨k, rfl⟩ : ∃ k, i = p + 2 + k := ⟨i - (p + 2), by omega⟩
      rw [getElem?_add hbody, List.getElem?_append_left (by omega)] at hmem
      exact hclose (List.mem_of_getElem? hmem) }

-- The first comma of a token ends its kind.
theorem kindEnd_of_drop {p : Nat} {o : Occurrence} {after : List Char}
    (h : text.drop (p + 2) = o.inside ++ after) :
    KindEnd text p (p + 2 + o.inside.length) (p + 2 + o.kind.length) := by
  obtain ⟨hkind, hgroups⟩ := o.groups
  have hle := o.length_kind_le
  refine ⟨by omega, ?_, fun i hi hlt hcomma => ?_⟩
  · rcases hgroups with ⟨hall, -⟩ | hsplit
    · rw [← hall]
      exact .inl rfl
    · refine .inr ?_
      rw [getElem?_add h, hsplit, List.append_assoc, List.getElem?_append_right (Nat.le_refl _),
        Nat.sub_self]
      rfl
  · obtain ⟨k, rfl⟩ : ∃ k, i = p + 2 + k := ⟨i - (p + 2), by omega⟩
    have hk : o.kind[k]? = some ',' := by
      rw [getElem?_add h, List.getElem?_append_left (by omega)] at hcomma
      rcases hgroups with ⟨hall, -⟩ | hsplit
      · rwa [← hall]
      · rwa [hsplit, List.getElem?_append_left (by omega)] at hcomma
    exact hkind _ (List.mem_of_getElem? hk) rfl

end

-- The groups of a token; the second one is missing if there are no arguments.
theorem placeOf_spans (start : Nat) (o : Occurrence) :
    (placeOf start o).span? 1 = some (start + 2, start + 2 + o.kind.length) ∧
    (placeOf start o).span? 2 =
      if start + 2 + o.kind.length + 1 < start + 2 + o.inside.length then
        some (start + 2 + o.kind.length + 1, start + 2 + o.inside.length)
      else none := by
  have hnone := o.arguments_eq_nil_iff
  by_cases h : o.arguments = []
  · have hshort := hnone.mp h
    rw [if_neg (by omega)]
    simp [placeOf, Place.span?, h]
  · have hlong := mt hnone.mpr h
    rw [if_pos (by omega)]
    simp [placeOf, Place.span?, h]

section

variable {text : List Char}

theorem Opening.isToken {p q : Nat} (h : Opening text p q) :
    ∃ token back, IsToken token ∧ text = text.take p ++ token ++ back := by
  refine ⟨_, text.drop (q + 2), isToken_iff.mpr ⟨_, h.isInside, rfl⟩, ?_⟩
  rw [List.append_assoc]
  refine (List.take_append_drop p text).symm.trans (congrArg _ (h.drop.trans ?_))
  simp only [List.cons_append, List.append_assoc, List.nil_append]

theorem Leftmost.drop_before {o : Occurrence} (h : Leftmost text o) :
    text.drop o.before.length = o.written ++ o.after := by
  rw [h.split, List.append_assoc, List.drop_left]

theorem Leftmost.opening {o : Occurrence} (h : Leftmost text o) :
    Opening text o.before.length (o.before.length + 2 + o.inside.length) := by
  obtain ⟨inside, hinside, hwritten⟩ := isToken_iff.mp h.isToken
  have hsame : o.inside = inside := by simpa [Occurrence.written] using hwritten
  rw [← hsame] at hinside
  exact opening_of_drop hinside (h.drop_before.trans (o.written_append _))

-- The text between the places of a token.
theorem Leftmost.take_drop {o : Occurrence} (h : Leftmost text o) {n : Nat}
    (hn : n = o.inside.length + 4) : (text.drop o.before.length).take n = o.written := by
  have hlength : o.written.length = n := by simp [Occurrence.written, hn]
  rw [h.drop_before, ← hlength, List.take_left]

end

-- The search for the pattern finds the first token, wherever braces stand around it: from its opening
-- to its closing braces, with the kind as the first group and the arguments as the second one, which
-- is missing if they are empty. It finds nothing if there is no token. What is found does not occur
-- further to the left, so that replacing its first occurrence replaces it.
theorem search_tokenPattern (text : List Char) :
    ∃ node, Pattern.read tokenPattern.toList {} = .ok (node, {}) ∧
      (Pattern.search text.toArray node {} = none ↔ ∀ p q, ¬ Opening text p q) ∧
      ∀ p place, Pattern.search text.toArray node {} = some (p, place) →
        ∃ q r, Opening text p q ∧ (∀ p' q', Opening text p' q' → p ≤ p') ∧
          place.position = q + 2 ∧ KindEnd text p q r ∧ place.span? 1 = some (p + 2, r) ∧
          place.span? 2 = (if r + 1 < q then some (r + 1, q) else none) ∧
          (∀ i, (text.drop p).take (q + 2 - p) <+: text.drop i → p ≤ i) ∧
          ∀ value, Text.replaceFirst ((text.drop p).take (q + 2 - p)) value text =
            text.take p ++ value ++ text.drop (q + 2) := by
  refine ⟨tokenNode, read_tokenPattern, ?_, fun p place hfound => ?_⟩
  · rw [search_eq_first?, Option.map_eq_none_iff]
    constructor
    · intro hnone p q h
      obtain ⟨token, back, htoken, hsplit⟩ := h.isToken
      exact first?_eq_none hnone htoken ⟨_, back, hsplit.symm⟩
    · intro hnone
      cases hfirst : first? text with
      | none => rfl
      | some o => exact absurd (first?_leftmost hfirst).opening (hnone _ _)
  · rw [search_eq_first?] at hfound
    obtain ⟨o, hfirst, hplace⟩ := Option.map_eq_some_iff.mp hfound
    cases hplace
    have hleft := first?_leftmost hfirst
    obtain ⟨hkind, harguments⟩ := placeOf_spans o.before.length o
    have hwritten := hleft.take_drop (n := o.before.length + 2 + o.inside.length + 2 -
      o.before.length) (by omega)
    have hbody : text.drop (o.before.length + 2) = o.inside ++ '}' :: '}' :: o.after := by
      rw [← List.drop_drop, hleft.drop_before, o.written_append]
      rfl
    refine ⟨_, _, hleft.opening, fun p' q' h => ?_, rfl, kindEnd_of_drop hbody, hkind, harguments,
      fun i hi => ?_, fun value => ?_⟩
    · obtain ⟨token, back, htoken, hsplit⟩ := h.isToken
      have hle := hleft.first _ _ _ hsplit htoken
      exact Nat.le_trans hle (List.length_take_le _ _)
    · rw [hwritten] at hi
      obtain ⟨back, hback⟩ := hi
      have hsplit : text = text.take i ++ o.written ++ back := by
        rw [List.append_assoc, hback, List.take_append_drop]
      exact Nat.le_trans (hleft.first _ _ _ hsplit hleft.isToken) (List.length_take_le _ _)
    · have hbefore : text.take o.before.length = o.before := by
        rw [hleft.split, List.append_assoc, List.take_left]
      have hafter : text.drop (o.before.length + 2 + o.inside.length + 2) = o.after := by
        rw [Nat.add_assoc, ← List.drop_drop, hbody]
        simp
      rw [hwritten, replaceFirst_first? hfirst, hbefore, hafter]

end Gleaner.Template
