import Mathlib.Data.Multiset.DershowitzManna
import Gleaner.Proofs.Template.SinglePass

namespace Gleaner.Template

-- A text whose characters know the values they came with: the value a character stands in, then the
-- value the token of that one stood in, and so on outwards.
abbrev Traced := List (Char × List String)

def plain (t : Traced) : List Char := t.map (·.1)

-- A text as it is given, no part of which came with a value.
def given (text : List Char) : Traced := text.map (·, [])

-- The values in which a token opens.
def around (t : Traced) (o : Occurrence) : List String :=
  ((t[o.before.length]?).map (·.2)).getD []

def brought (value : String) (within : List String) : Traced :=
  value.toList.map (·, value :: within)

-- A text with a value in the place of a token.
def put (t : Traced) (o : Occurrence) (value : String) : Traced :=
  t.take o.before.length ++ brought value (around t o) ++
    t.drop (o.before.length + o.written.length)

@[simp] theorem plain_append (s t : Traced) : plain (s ++ t) = plain s ++ plain t :=
  List.map_append

@[simp] theorem plain_given (text : List Char) : plain (given text) = text := by
  rw [plain, given, List.map_map]
  exact List.map_id text

@[simp] theorem plain_brought (value : String) (within : List String) :
    plain (brought value within) = value.toList := by
  rw [plain, brought, List.map_map]
  exact List.map_id _

-- The token that is replaced, and what stays on both sides of it.
theorem exists_split {t : Traced} {o : Occurrence} (h : first? (plain t) = some o) :
    ∃ front token back, t = front ++ ('{', around t o) :: token ++ back ∧
      plain front = o.before ∧ plain back = o.after ∧
      ∀ value, put t o value = front ++ brought value (around t o) ++ back := by
  have hsplit := (first?_leftmost h).split
  obtain ⟨most, back, rfl, hmost, hback⟩ := List.map_eq_append_iff.mp hsplit
  obtain ⟨front, token, rfl, hfront, htoken⟩ := List.map_eq_append_iff.mp hmost
  have hbefore : front.length = o.before.length := by
    rw [← hfront, List.length_map]
  have hwritten : token.length = o.written.length := by
    rw [← htoken, List.length_map]
  cases token with
  | nil => simp [Occurrence.written] at htoken
  | cons c token =>
    obtain ⟨brace, within⟩ := c
    obtain ⟨rfl, -⟩ : brace = '{' ∧ _ := List.cons_eq_cons.mp htoken
    have haround : around (front ++ ('{', within) :: token ++ back) o = within := by
      simp [around, ← hbefore]
    refine ⟨front, token, back, by rw [haround], hfront, hback, fun value => ?_⟩
    have hlength : o.before.length + o.written.length =
        (front ++ ('{', within) :: token).length := by
      rw [List.length_append, hbefore, hwritten]
    have htake : (front ++ ('{', within) :: token ++ back).take o.before.length = front := by
      rw [← hbefore, List.append_assoc, List.take_left]
    rw [put, htake, hlength, List.drop_left]

theorem brace_mem {t : Traced} {o : Occurrence} (h : first? (plain t) = some o) :
    ('{', around t o) ∈ t := by
  obtain ⟨front, token, back, ht, -, -, -⟩ := exists_split h
  have hmem : ('{', around t o) ∈ front ++ ('{', around t o) :: token ++ back := by simp
  rwa [← ht] at hmem

-- What stands in a text once a value is put into it stood there before, or came with the value.
theorem mem_put {t : Traced} {o : Occurrence} (h : first? (plain t) = some o) {value : String}
    {c : Char × List String} (hc : c ∈ put t o value) :
    c ∈ t ∨ c.1 ∈ value.toList ∧ c.2 = value :: around t o := by
  obtain ⟨front, token, back, ht, -, -, hput⟩ := exists_split h
  rw [hput, List.mem_append, List.mem_append, brought, List.mem_map] at hc
  rcases hc with (hc | ⟨d, hd, rfl⟩) | hc
  · rw [ht]
    exact .inl (by simp [hc])
  · exact .inr ⟨hd, rfl⟩
  · rw [ht]
    exact .inl (by simp [hc])

theorem plain_put {t : Traced} {o : Occurrence} (h : first? (plain t) = some o) (value : String) :
    plain (put t o value) = o.before ++ value.toList ++ o.after := by
  obtain ⟨front, token, back, -, hfront, hback, hput⟩ := exists_split h
  rw [hput, plain_append, plain_append, plain_brought, hfront, hback]

-- A value that took the place of a token, and the values in which the token opened.
structure Replacement where
  value : String
  around : List String
deriving DecidableEq, Repr

section

variable {σ : Type} (context : Context σ)

-- What the first so many rounds of the loop replace.
def replacements : Nat → Traced → σ → List Replacement
  | 0, _, _ => []
  | fuel + 1, t, world =>
    match first? (plain t) with
    | none => []
    | some o =>
      match o.value context world with
      | (.error _, _) => []
      | (.ok value, world) => ⟨value, around t o⟩ :: replacements fuel (put t o value) world

-- The loop comes to a result or a failure, which is the same for any larger number of rounds.
def Ends (text : List Char) (world : σ) : Prop :=
  ∃ rounds outcome, outcome.1 ≠ .error .unfinished ∧
    ∀ fuel, rounds < fuel → expandChars context fuel text world = outcome

-- No token that is replaced opens in more than so many values, one inside the other.
def NestedWithin (text : List Char) (world : σ) (depth : Nat) : Prop :=
  ∀ fuel, ∀ r ∈ replacements context fuel (given text) world, r.around.length ≤ depth

-- No token that is replaced opens in a value that is its own.
def NeverInItself (text : List Char) (world : σ) : Prop :=
  ∀ fuel, ∀ r ∈ replacements context fuel (given text) world, r.value ∉ r.around

end

section

variable {σ : Type} {context : Context σ} {t : Traced} {o : Occurrence} {world after : σ}

theorem replacements_of_none (h : first? (plain t) = none) (fuel : Nat) :
    replacements context fuel t world = [] := by
  cases fuel with
  | zero => rfl
  | succ fuel => rw [replacements, h]

theorem replacements_of_error (h : first? (plain t) = some o) {e : Failure}
    (hvalue : o.value context world = (.error e, after)) (fuel : Nat) :
    replacements context fuel t world = [] := by
  cases fuel with
  | zero => rfl
  | succ fuel => simp only [replacements, h, hvalue]

theorem replacements_of_ok (h : first? (plain t) = some o) {value : String}
    (hvalue : o.value context world = (.ok value, after)) (fuel : Nat) :
    replacements context (fuel + 1) t world =
      ⟨value, around t o⟩ :: replacements context fuel (put t o value) after := by
  simp only [replacements, h, hvalue]

theorem expandChars_of_error (h : first? (plain t) = some o) {e : Failure}
    (hvalue : o.value context world = (.error e, after)) (fuel : Nat) :
    expandChars context (fuel + 1) (plain t) world = (.error e, after) := by
  rw [expandChars_of_some h, Effect.bind_error hvalue]

theorem expandChars_of_ok (h : first? (plain t) = some o) {value : String}
    (hvalue : o.value context world = (.ok value, after)) (fuel : Nat) :
    expandChars context (fuel + 1) (plain t) world =
      expandChars context fuel (plain (put t o value)) after := by
  rw [expandChars_of_some h, Effect.bind_ok hvalue, plain_put h]

end

section

variable {σ : Type} {context : Context σ}

-- A loop that replaced a token in each of its rounds was cut off.
theorem expandChars_of_full {fuel : Nat} {t : Traced} {world : σ}
    (h : (replacements context fuel t world).length = fuel) :
    (expandChars context fuel (plain t) world).1 = .error .unfinished := by
  induction fuel generalizing t world with
  | zero => rfl
  | succ fuel ih =>
    rcases hf : first? (plain t) with _ | o
    · simp [replacements_of_none hf] at h
    · rcases hv : o.value context world with ⟨e | value, after⟩
      · simp [replacements_of_error hf hv] at h
      · rw [replacements_of_ok hf hv, List.length_cons, Nat.succ_inj] at h
        rw [expandChars_of_ok hf hv]
        exact ih h

-- A loop that did not is the same with more rounds.
theorem settled {fuel : Nat} {t : Traced} {world : σ}
    (h : (replacements context fuel t world).length < fuel) {more : Nat} (hmore : fuel ≤ more) :
    replacements context more t world = replacements context fuel t world ∧
      expandChars context more (plain t) world = expandChars context fuel (plain t) world := by
  induction fuel generalizing t world more with
  | zero => cases h
  | succ fuel ih =>
    obtain ⟨more, rfl⟩ := Nat.exists_eq_succ_of_ne_zero (Nat.ne_zero_of_lt hmore)
    rcases hf : first? (plain t) with _ | o
    · simp only [replacements_of_none hf, expandChars_of_none hf, and_self]
    · rcases hv : o.value context world with ⟨e | value, after⟩
      · simp only [replacements_of_error hf hv, expandChars_of_error hf hv, and_self]
      · rw [replacements_of_ok hf hv, List.length_cons, Nat.succ_lt_succ_iff] at h
        simp only [replacements_of_ok hf hv, expandChars_of_ok hf hv,
          ih h (Nat.le_of_succ_le_succ hmore), and_self]

theorem replacements_length_le (fuel : Nat) (t : Traced) (world : σ) :
    (replacements context fuel t world).length ≤ fuel := by
  induction fuel generalizing t world with
  | zero => exact Nat.le_refl _
  | succ fuel ih =>
    rcases hf : first? (plain t) with _ | o
    · simp [replacements_of_none hf]
    · rcases hv : o.value context world with ⟨e | value, after⟩
      · simp [replacements_of_error hf hv]
      · rw [replacements_of_ok hf hv, List.length_cons]
        exact Nat.succ_le_succ (ih _ _)

-- What more rounds replace begins with what fewer replace.
theorem replacements_grow {fuel more : Nat} (h : fuel ≤ more) (t : Traced) (world : σ) :
    replacements context fuel t world <+: replacements context more t world := by
  induction fuel generalizing more t world with
  | zero => exact List.nil_prefix
  | succ fuel ih =>
    obtain ⟨more, rfl⟩ := Nat.exists_eq_succ_of_ne_zero (Nat.ne_zero_of_lt h)
    rcases hf : first? (plain t) with _ | o
    · simp only [replacements_of_none hf, List.prefix_refl]
    · rcases hv : o.value context world with ⟨e | value, after⟩
      · simp only [replacements_of_error hf hv, List.prefix_refl]
      · rw [replacements_of_ok hf hv, replacements_of_ok hf hv, List.prefix_cons_inj]
        exact ih (Nat.le_of_succ_le_succ h) _ _

-- A loop that was not cut off made all the replacements there are.
theorem mem_of_settled {fuel : Nat} {t : Traced} {world : σ}
    (h : (replacements context fuel t world).length < fuel) {other : Nat} {r : Replacement}
    (hr : r ∈ replacements context other t world) : r ∈ replacements context fuel t world := by
  by_cases hle : other ≤ fuel
  · exact (replacements_grow hle t world).subset hr
  · rwa [(settled h (Nat.le_of_not_le hle)).1] at hr

-- Each replacement adds one value to those around what it brings.
theorem around_length_le {depth fuel : Nat} {t : Traced} {world : σ}
    (h : ∀ c ∈ t, c.2.length ≤ depth) :
    ∀ r ∈ replacements context fuel t world,
      r.around.length ≤ depth + (replacements context fuel t world).length := by
  induction fuel generalizing depth t world with
  | zero => simp [replacements]
  | succ fuel ih =>
    rcases hf : first? (plain t) with _ | o
    · simp [replacements_of_none hf]
    · rcases hv : o.value context world with ⟨e | value, after⟩
      · simp [replacements_of_error hf hv]
      · have haround : (around t o).length ≤ depth := h _ (brace_mem hf)
        have hlabels : ∀ c ∈ put t o value, c.2.length ≤ depth + 1 := by
          intro c hc
          rcases mem_put hf hc with hc | ⟨-, hc⟩
          · exact Nat.le_succ_of_le (h c hc)
          · rw [hc, List.length_cons]
            exact Nat.succ_le_succ haround
        intro r hr
        rw [replacements_of_ok hf hv] at hr ⊢
        rw [List.length_cons]
        rcases List.mem_cons.mp hr with rfl | hr
        · dsimp only
          omega
        · have hle := ih hlabels r hr
          omega

-- How much deeper than what it stands in each opening brace of a text can still get.
def heights (depth : Nat) (t : Traced) : Multiset Nat :=
  ((t.filter (·.1 = '{')).map fun c => depth - c.2.length : List Nat)

@[simp] theorem heights_append (depth : Nat) (s t : Traced) :
    heights depth (s ++ t) = heights depth s + heights depth t := by
  simp [heights]

@[simp] theorem heights_brace (depth : Nat) (within : List String) (t : Traced) :
    heights depth (('{', within) :: t) = (depth - within.length) ::ₘ heights depth t := by
  simp [heights]

theorem mem_heights_brought {depth : Nat} {value : String} {within : List String} {n : Nat}
    (h : n ∈ heights depth (brought value within)) : n = depth - (within.length + 1) := by
  simp only [heights, brought, List.filter_map, List.map_map, Multiset.mem_coe, List.mem_map] at h
  obtain ⟨c, -, rfl⟩ := h
  rfl

-- A token gives way to any number of braces, all of them deeper.
theorem heights_put_lt {depth : Nat} {t : Traced} {o : Occurrence} (h : first? (plain t) = some o)
    (hdepth : (around t o).length < depth) (value : String) :
    Multiset.IsDershowitzMannaLT (heights depth (put t o value)) (heights depth t) := by
  obtain ⟨front, token, back, ht, -, -, hput⟩ := exists_split h
  refine ⟨heights depth front + heights depth back,
    heights depth (brought value (around t o)),
    (depth - (around t o).length) ::ₘ heights depth token, Multiset.cons_ne_zero, ?_, ?_, ?_⟩
  · rw [hput, heights_append, heights_append, add_right_comm]
  · conv_lhs => rw [ht]
    rw [heights_append, heights_append, heights_brace, add_right_comm]
  · intro n hn
    refine ⟨_, Multiset.mem_cons_self _ _, ?_⟩
    rw [mem_heights_brought hn]
    omega

-- Where values cannot go on standing one inside the other, there is an end to replacing them.
theorem bounded_of_nested {depth : Nat} (t : Traced) (world : σ)
    (h : ∀ fuel, ∀ r ∈ replacements context fuel t world, r.around.length < depth) :
    ∃ rounds, ∀ fuel, (replacements context fuel t world).length ≤ rounds := by
  rcases hf : first? (plain t) with _ | o
  · exact ⟨0, fun fuel => by simp [replacements_of_none hf]⟩
  rcases hv : o.value context world with ⟨e | value, after⟩
  · exact ⟨0, fun fuel => by simp [replacements_of_error hf hv]⟩
  have hdepth : (around t o).length < depth := by
    refine h 1 ⟨value, around t o⟩ ?_
    rw [replacements_of_ok hf hv]
    exact List.mem_cons_self
  have hlater : ∀ fuel, ∀ r ∈ replacements context fuel (put t o value) after,
      r.around.length < depth := by
    intro fuel r hr
    refine h (fuel + 1) r ?_
    rw [replacements_of_ok hf hv]
    exact List.mem_cons_of_mem _ hr
  obtain ⟨rounds, hrounds⟩ := bounded_of_nested (put t o value) after hlater
  refine ⟨rounds + 1, fun fuel => ?_⟩
  cases fuel with
  | zero => exact Nat.zero_le _
  | succ fuel =>
    rw [replacements_of_ok hf hv, List.length_cons]
    exact Nat.succ_le_succ (hrounds fuel)
termination_by heights depth t
decreasing_by exact heights_put_lt hf hdepth value

end

end Gleaner.Template
