import Gleaner.Template.Token
import Gleaner.Text.Basic
import Mathlib.Data.List.TakeWhile

namespace Gleaner.Template

-- A token as its pattern accepts it: two braces, a kind of at least one character that is neither a
-- comma nor a closing brace, a comma that may be missing, arguments without a closing brace, and two
-- closing braces.
def IsToken (cs : List Char) : Prop :=
  ∃ kind comma arguments : List Char,
    cs = ['{', '{'] ++ kind ++ comma ++ arguments ++ ['}', '}'] ∧
    kind ≠ [] ∧ (∀ c ∈ kind, c ≠ ',' ∧ c ≠ '}') ∧
    (comma = [] ∨ comma = [',']) ∧ ∀ c ∈ arguments, c ≠ '}'

-- What stands between the braces of a token.
def IsInside (cs : List Char) : Prop :=
  ∃ c rest, cs = c :: rest ∧ c ≠ ',' ∧ ∀ d ∈ cs, d ≠ '}'

theorem IsInside.no_closing {cs : List Char} (h : IsInside cs) : '}' ∉ cs := by
  obtain ⟨-, -, -, -, hclose⟩ := h
  exact fun hmem => hclose _ hmem rfl

-- The leftmost token of a text. Its kind takes as many characters as it can.
structure Leftmost (text : List Char) (o : Occurrence) : Prop where
  split : text = o.before ++ o.written ++ o.after
  isToken : IsToken o.written
  kind : ∀ c ∈ o.kind, c ≠ ','
  groups : o.inside = o.kind ∧ o.arguments = [] ∨ o.inside = o.kind ++ ',' :: o.arguments
  first : ∀ front back token, text = front ++ token ++ back → IsToken token →
    o.before.length ≤ front.length

theorem cut_groups (inside : List Char) :
    (∀ c ∈ (Text.cut ',' inside).1, c ≠ ',') ∧
      (inside = (Text.cut ',' inside).1 ∧ (Text.cut ',' inside).2.getD [] = [] ∨
        inside = (Text.cut ',' inside).1 ++ ',' :: (Text.cut ',' inside).2.getD []) := by
  induction inside with
  | nil => exact ⟨by simp [Text.cut], .inl ⟨rfl, rfl⟩⟩
  | cons c rest ih =>
    obtain ⟨hkind, hgroups⟩ := ih
    by_cases hc : c = ','
    · simp [Text.cut, hc]
    · simp only [Text.cut, hc, if_false]
      refine ⟨?_, ?_⟩
      · simpa [hc] using hkind
      · simpa using hgroups

theorem isToken_iff {cs : List Char} :
    IsToken cs ↔ ∃ inside, IsInside inside ∧ cs = '{' :: '{' :: (inside ++ ['}', '}']) := by
  constructor
  · rintro ⟨kind, comma, arguments, rfl, hne, hkind, hcomma, harguments⟩
    obtain ⟨c, rest, rfl⟩ := List.exists_cons_of_ne_nil hne
    refine ⟨c :: rest ++ comma ++ arguments, ⟨c, rest ++ comma ++ arguments, by simp, ?_, ?_⟩, by simp⟩
    · exact (hkind c (by simp)).1
    · intro d hd
      simp only [List.mem_append] at hd
      rcases hd with (hd | hd) | hd
      · exact (hkind d hd).2
      · rcases hcomma with rfl | rfl
        · simp at hd
        · rw [List.mem_singleton.mp hd]
          decide
      · exact harguments d hd
  · rintro ⟨inside, ⟨c, rest, rfl, hc, hclose⟩, rfl⟩
    obtain ⟨hkind, hgroups⟩ := cut_groups (c :: rest)
    have hne : (Text.cut ',' (c :: rest)).1 ≠ [] := by simp [Text.cut, hc]
    rcases hgroups with ⟨h, -⟩ | h
    · refine ⟨c :: rest, [], [], by simp, by simp, fun d hd => ⟨?_, hclose d hd⟩, .inl rfl, by simp⟩
      exact hkind d (h ▸ hd)
    · refine ⟨_, [','], (Text.cut ',' (c :: rest)).2.getD [], ?_, hne, ?_, .inr rfl, ?_⟩
      · simpa using congrArg (· ++ ['}', '}']) h
      · intro d hd
        exact ⟨hkind d hd, hclose d (h ▸ List.mem_append_left _ hd)⟩
      · intro d hd
        exact hclose d (h ▸ List.mem_append_right _ (List.mem_cons_of_mem _ hd))

-- The closing braces of a token are the first ones behind its opening braces.
theorem dropWhile_closing {cs : List Char} (h : '}' ∉ cs) (after : List Char) :
    (cs ++ '}' :: after).dropWhile (· ≠ '}') = '}' :: after := by
  have hcs : ∀ c ∈ cs, decide (c ≠ '}') := fun c hc => by
    simpa using fun heq : c = '}' => h (heq ▸ hc)
  rw [List.dropWhile_append_of_pos hcs]
  rfl

theorem takeWhile_closing {cs : List Char} (h : '}' ∉ cs) (after : List Char) :
    (cs ++ '}' :: after).takeWhile (· ≠ '}') = cs := by
  have hcs : ∀ c ∈ cs, decide (c ≠ '}') := fun c hc => by
    simpa using fun heq : c = '}' => h (heq ▸ hc)
  rw [List.takeWhile_append_of_pos hcs]
  simp

theorem opensAt?_inside {inside : List Char} (h : IsInside inside) (after : List Char) :
    opensAt? ('{' :: '{' :: (inside ++ '}' :: '}' :: after)) = some ⟨[], inside, after⟩ := by
  have hdrop := dropWhile_closing h.no_closing ('}' :: after)
  have htake := takeWhile_closing h.no_closing ('}' :: after)
  obtain ⟨c, rest, rfl, hc, hclose⟩ := h
  have hbar : ¬ (c = ',' ∨ c = '}') := by simp [hc, hclose c]
  simp only [List.cons_append] at hdrop htake ⊢
  rw [opensAt?, if_neg hbar, hdrop, htake]
  rfl

theorem opensAt?_eq_some_iff {cs : List Char} {o : Occurrence} :
    opensAt? cs = some o ↔ o.before = [] ∧ IsInside o.inside ∧ cs = o.written ++ o.after := by
  constructor
  · intro h
    unfold opensAt? at h
    split at h
    next c rest =>
      split at h
      · cases h
      next hbar =>
        split at h
        next after hdrop =>
          cases h
          have hsplit := List.takeWhile_append_dropWhile (p := (· ≠ '}')) (l := c :: rest)
          rw [hdrop] at hsplit
          obtain ⟨hcomma, hclose⟩ := not_or.mp hbar
          refine ⟨rfl, ⟨c, rest.takeWhile (· ≠ '}'), ?_, hcomma, ?_⟩, ?_⟩
          · simp [hclose]
          · intro d hd
            simpa using List.mem_takeWhile_imp hd
          · simpa [Occurrence.written] using hsplit.symm
        · cases h
    · cases h
  · rintro ⟨hbefore, hinside, rfl⟩
    obtain ⟨before, inside, after⟩ := o
    cases hbefore
    simpa [Occurrence.written] using opensAt?_inside hinside after

theorem opensAt?_eq_none {cs : List Char} (h : opensAt? cs = none) {token back : List Char}
    (ht : IsToken token) : cs ≠ token ++ back := by
  rintro rfl
  obtain ⟨inside, hinside, rfl⟩ := isToken_iff.mp ht
  have hopen := opensAt?_inside hinside back
  simp only [List.cons_append, List.append_assoc, List.nil_append] at h
  rw [hopen] at h
  cases h

-- How the search goes on: either a token opens here, or the first one is that of the rest.
theorem first?_cons (c : Char) (rest : List Char) :
    first? (c :: rest) = match opensAt? (c :: rest) with
      | some o => some o
      | none => (first? rest).map fun o => { o with before := c :: o.before } := by
  cases h : opensAt? (c :: rest) <;> simp only [first?, h]

theorem Leftmost.of_opensAt? {cs : List Char} {o : Occurrence} (h : opensAt? cs = some o) :
    Leftmost cs o := by
  obtain ⟨hbefore, hinside, hcs⟩ := opensAt?_eq_some_iff.mp h
  have hgroups := cut_groups o.inside
  refine ⟨?_, isToken_iff.mpr ⟨o.inside, hinside, rfl⟩, hgroups.1, hgroups.2, ?_⟩
  · simpa [hbefore] using hcs
  · intros
    simp [hbefore]

theorem Leftmost.cons {c : Char} {rest : List Char} {o : Occurrence}
    (h : opensAt? (c :: rest) = none) (ho : Leftmost rest o) :
    Leftmost (c :: rest) { o with before := c :: o.before } := by
  refine ⟨?_, ho.isToken, ho.kind, ho.groups, ?_⟩
  · simpa [Occurrence.written] using ho.split
  · intro front back token hsplit ht
    cases front with
    | nil => exact absurd hsplit (opensAt?_eq_none h ht)
    | cons d front =>
      obtain ⟨rfl, hrest⟩ : c = d ∧ rest = front ++ token ++ back := by simpa using hsplit
      exact Nat.succ_le_succ (ho.first front back token hrest ht)

theorem first?_leftmost {text : List Char} {o : Occurrence} (h : first? text = some o) :
    Leftmost text o := by
  induction text generalizing o with
  | nil => cases h
  | cons c rest ih =>
    rw [first?_cons] at h
    cases hopen : opensAt? (c :: rest) with
    | some p =>
      rw [hopen] at h
      cases h
      exact .of_opensAt? hopen
    | none =>
      rw [hopen] at h
      obtain ⟨p, hp, rfl⟩ := Option.map_eq_some_iff.mp h
      exact .cons hopen (ih hp)

theorem first?_eq_none {text : List Char} (h : first? text = none) {token : List Char}
    (ht : IsToken token) : ¬ token <:+: text := by
  rintro ⟨front, back, hsplit⟩
  induction text generalizing front with
  | nil =>
    obtain ⟨inside, -, rfl⟩ := isToken_iff.mp ht
    simp at hsplit
  | cons c rest ih =>
    rw [first?_cons] at h
    cases hopen : opensAt? (c :: rest) with
    | some p => simp [hopen] at h
    | none =>
      rw [hopen] at h
      cases front with
      | nil => exact opensAt?_eq_none hopen ht hsplit.symm
      | cons d front => exact ih (Option.map_eq_none_iff.mp h) front (List.cons_eq_cons.mp hsplit).2

-- What is written like the first token occurs nowhere in front of it, so that replacing by text
-- replaces the token.
theorem replaceFirst_first? {text : List Char} {o : Occurrence} (h : first? text = some o)
    (value : List Char) :
    Text.replaceFirst o.written value text = o.before ++ value ++ o.after := by
  induction text generalizing o with
  | nil => cases h
  | cons c rest ih =>
    have hsplit := (first?_leftmost h).split
    have htoken := (first?_leftmost h).isToken
    rw [first?_cons] at h
    cases hopen : opensAt? (c :: rest) with
    | some p =>
      rw [hopen] at h
      cases h
      have hbefore := (opensAt?_eq_some_iff.mp hopen).1
      rw [hbefore, List.nil_append] at hsplit
      rw [Text.replaceFirst, hsplit, if_pos (List.prefix_append _ _), List.drop_left, hbefore]
      simp
    | none =>
      rw [hopen] at h
      obtain ⟨p, hp, rfl⟩ := Option.map_eq_some_iff.mp h
      have hmiss : ¬ p.written <+: c :: rest := by
        rintro ⟨back, hback⟩
        exact opensAt?_eq_none hopen htoken hback.symm
      have hrest := ih hp
      simp only [Occurrence.written] at hmiss hrest ⊢
      rw [Text.replaceFirst, if_neg hmiss, hrest]
      simp

theorem after_lt {text : List Char} {o : Occurrence} (h : first? text = some o) :
    o.after.length < text.length := by
  have hsplit := congrArg List.length (first?_leftmost h).split
  simp only [Occurrence.written, List.length_append, List.length_cons] at hsplit
  omega

-- The tokens of a text from left to right, each the first one behind the one before it, and what
-- follows the last.
def split (text : List Char) : List Occurrence × List Char :=
  match _ : first? text with
  | none => ([], text)
  | some o => (o :: (split o.after).1, (split o.after).2)
termination_by text.length
decreasing_by all_goals exact after_lt ‹_›

inductive Splits : List Char → List Occurrence → List Char → Prop
  | rest {text : List Char} (none : ∀ token, IsToken token → ¬ token <:+: text) :
    Splits text [] text
  | token {text : List Char} {o : Occurrence} {os : List Occurrence} {rest : List Char}
    (leftmost : Leftmost text o) (more : Splits o.after os rest) : Splits text (o :: os) rest

theorem split_of_none {text : List Char} (h : first? text = none) : split text = ([], text) := by
  rw [split]
  split
  · rfl
  next o ho => rw [h] at ho; cases ho

theorem split_of_some {text : List Char} {o : Occurrence} (h : first? text = some o) :
    split text = (o :: (split o.after).1, (split o.after).2) := by
  rw [split]
  split
  next hn => rw [h] at hn; cases hn
  next p hp => rw [h] at hp; cases hp; rfl

theorem split_splits (text : List Char) : Splits text (split text).1 (split text).2 := by
  cases h : first? text with
  | none =>
    rw [split_of_none h]
    exact .rest fun token ht => first?_eq_none h ht
  | some o =>
    rw [split_of_some h]
    exact .token (first?_leftmost h) (split_splits o.after)
termination_by text.length
decreasing_by exact after_lt h

theorem split_length_le (text : List Char) : (split text).1.length ≤ text.length := by
  cases h : first? text with
  | none => simp [split_of_none h]
  | some o =>
    have hlt := after_lt h
    have ih := split_length_le o.after
    rw [split_of_some h, List.length_cons]
    omega
termination_by text.length
decreasing_by exact after_lt h

end Gleaner.Template
