import Gleaner.Validation.Scalar

namespace Gleaner.Validation

section

variable {α β : Type}

theorem Checked.ap_eq_valid {f : Checked (α → β)} {x : Checked α} {b : β}
    (h : f <*> x = .valid b) : ∃ g a, f = .valid g ∧ x = .valid a ∧ g a = b := by
  change Checked.ap f (fun _ => x) = .valid b at h
  unfold Checked.ap at h
  cases f with
  | valid g =>
    cases x with
    | valid a => exact ⟨g, a, rfl, rfl, by simpa using h⟩
    | invalid issues => cases h
  | invalid issues => cases x <;> cases h

theorem Checked.map_eq_valid {f : α → β} {x : Checked α} {b : β} (h : f <$> x = .valid b) :
    ∃ a, x = .valid a ∧ f a = b := by
  obtain ⟨g, a, hg, ha, hb⟩ := Checked.ap_eq_valid (f := .valid f) (x := x) h
  cases hg
  exact ⟨a, ha, hb⟩

theorem Checked.under_eq_valid {step : Step} {c : Checked α} {a : α}
    (h : c.under step = .valid a) : c = .valid a := by
  cases c with
  | valid b => exact h
  | invalid issues => cases h

theorem Checked.andThen_eq_valid {c : Checked α} {next : α → Checked β} {b : β}
    (h : c.andThen next = .valid b) : ∃ a, c = .valid a ∧ next a = .valid b := by
  cases c with
  | valid a => exact ⟨a, rfl, h⟩
  | invalid issues => cases h

-- What is taken is taken by one of the members.
theorem Checked.firstOf_eq_valid {members : List (String × Checked α)} {a : α}
    (h : Checked.firstOf members = .valid a) : ∃ m ∈ members, m.2 = .valid a := by
  induction members with
  | nil => cases h
  | cons m rest ih =>
    obtain ⟨label, c⟩ := m
    unfold Checked.firstOf at h
    cases hc : c with
    | valid b =>
      rw [hc] at h
      exact ⟨_, List.mem_cons_self .., h⟩
    | invalid issues =>
      rw [hc] at h
      cases hrest : Checked.firstOf rest with
      | valid b =>
        rw [hrest] at h
        obtain ⟨n, hn, hvalid⟩ := ih (hrest.trans h)
        exact ⟨n, List.mem_cons_of_mem _ hn, hvalid⟩
      | invalid more =>
        rw [hrest] at h
        cases h

theorem Checked.ofItems_eq_valid {cs : List (Checked α)} {n : Nat} {xs : List α}
    (h : Checked.ofItems cs n = .valid xs) : ∀ x ∈ xs, .valid x ∈ cs := by
  induction cs generalizing n xs with
  | nil =>
    cases h
    nofun
  | cons c cs ih =>
    obtain ⟨g, more, hg, hmore, rfl⟩ := Checked.ap_eq_valid h
    obtain ⟨a, ha, rfl⟩ := Checked.map_eq_valid hg
    intro x hx
    rcases List.mem_cons.mp hx with rfl | hx
    · rw [Checked.under_eq_valid ha]
      exact List.mem_cons_self ..
    · exact List.mem_cons_of_mem _ (ih hmore x hx)

theorem requiredPart_eq_valid {fields : List (String × Value)} {key : String}
    {check : (v : Value) → sizeOf v < sizeOf fields → Checked α} {a : α}
    (h : requiredPart fields key check = .valid a) : ∃ v hv, check v hv = .valid a := by
  unfold requiredPart at h
  split at h
  · exact ⟨_, _, Checked.under_eq_valid h⟩
  · cases h

theorem required_eq_valid {fields : List (String × Value)} {key : String}
    {check : Value → Checked α} {a : α} (h : required fields key check = .valid a) :
    ∃ v, check v = .valid a := by
  obtain ⟨v, -, hv⟩ := requiredPart_eq_valid h
  exact ⟨v, hv⟩

theorem optionalPart_eq_valid {fields : List (String × Value)} {key : String} {default : α}
    {check : (v : Value) → sizeOf v < sizeOf fields → Checked α} {a : α}
    (h : optionalPart fields key default check = .valid a) :
    a = default ∨ ∃ v hv, check v hv = .valid a := by
  unfold optionalPart at h
  split at h
  · exact .inr ⟨_, _, Checked.under_eq_valid h⟩
  · cases h
    exact .inl rfl

theorem nullable_eq_valid {check : Value → Checked α} {v : Value} {a : α}
    (h : nullable check v = .valid (some a)) : check v = .valid a := by
  unfold nullable at h
  split at h
  · cases h
  · obtain ⟨b, hb, hsome⟩ := Checked.map_eq_valid h
    cases hsome
    exact hb

theorem model_eq_valid {name : String} {v : Value}
    {check : (fields : List (String × Value)) → sizeOf fields < sizeOf v → Checked α} {a : α}
    (h : model name v check = .valid a) : ∃ fields hf, check fields hf = .valid a := by
  unfold model at h
  split at h
  · exact ⟨_, _, h⟩
  · cases h

theorem tagged_eq_valid {key : String} {tags : List String} {v : Value}
    {check : (tag : String) → (fields : List (String × Value)) → sizeOf fields < sizeOf v →
      Checked α} {a : α} (h : tagged key tags v check = .valid a) :
    ∃ tag fields hf, check tag fields hf = .valid a := by
  cases v with
  | object fields =>
    unfold tagged at h
    dsimp only at h
    cases hfound : lookup? fields key with
    | none =>
      rw [hfound] at h
      cases h
    | some found =>
      obtain ⟨value, hsize⟩ := found
      rw [hfound] at h
      cases value with
      | text tag =>
        dsimp only at h
        split at h
        · exact ⟨tag, fields, _, Checked.under_eq_valid h⟩
        · cases h
      | _ => cases h
  | _ => cases h

theorem itemsPart_eq_valid {v : Value} {check : (x : Value) → sizeOf x < sizeOf v → Checked α}
    {xs : List α} (h : itemsPart v check = .valid xs) :
    ∀ x ∈ xs, ∃ y hy, check y hy = .valid x := by
  unfold itemsPart at h
  split at h
  · intro x hx
    have hmem := Checked.ofItems_eq_valid h x hx
    rw [List.mem_map] at hmem
    obtain ⟨y, -, hy⟩ := hmem
    exact ⟨_, _, hy⟩
  · cases h

theorem nonEmpty_eq_valid {c : Checked (List α)} {xs : List α} (h : nonEmpty c = .valid xs) :
    c = .valid xs ∧ xs ≠ [] := by
  obtain ⟨ys, hc, hys⟩ := Checked.andThen_eq_valid h
  split at hys
  · cases hys
  · rename_i hne
    cases hys
    exact ⟨hc, fun hnil => hne (by rw [hnil]; rfl)⟩

end

theorem atLeast_eq_valid {least n : Int} {v : Value} (h : atLeast least v = .valid n) :
    least ≤ n := by
  obtain ⟨m, -, hm⟩ := Checked.andThen_eq_valid h
  split at hm
  · cases hm
  · cases hm
    omega

theorem atLeast_int {least n : Int} (h : least ≤ n) : atLeast least (.int n) = .valid n :=
  if_neg (by omega)

theorem shapedText_eq_valid {pattern : String} {hasShape : List Char → Bool} {v : Value}
    {s : String} (h : shapedText pattern hasShape v = .valid s) : hasShape s.toList = true := by
  obtain ⟨t, -, ht⟩ := Checked.andThen_eq_valid h
  split at ht
  · rename_i hshape
    cases ht
    exact hshape
  · cases ht

section

variable {α : Type} {check : Value → Checked α} {write : α → Value}

-- What a check takes is taken again as it is written.
def Stable (check : Value → Checked α) (write : α → Value) : Prop :=
  ∀ ⦃v a⦄, check v = .valid a → check (write a) = .valid a

theorem stable_text : Stable text .text := fun _ _ _ => rfl

theorem stable_filledText : Stable filledText .text := by
  intro v s h
  obtain ⟨t, -, h⟩ := Checked.andThen_eq_valid h
  split at h
  · cases h
  · next hfilled =>
    cases h
    exact if_neg hfilled

theorem stable_shapedText (pattern : String) (hasShape : List Char → Bool) :
    Stable (shapedText pattern hasShape) .text := fun _ _ h => if_pos (shapedText_eq_valid h)

theorem stable_atLeast (least : Int) : Stable (atLeast least) .int :=
  fun _ _ h => atLeast_int (atLeast_eq_valid h)

theorem stable_between {least greatest : Int} (hleast : 0 ≤ least) :
    Stable (fun v => Int.toNat <$> between least greatest v) fun n : Nat => .int n := by
  intro v n h
  obtain ⟨m, hm, rfl⟩ := Checked.map_eq_valid h
  obtain ⟨i, -, hi⟩ := Checked.andThen_eq_valid hm
  split at hi
  · cases hi
  split at hi
  · cases hi
  cases hi
  have hsame : ((m.toNat : Nat) : Int) = m := Int.toNat_of_nonneg (by omega)
  have hagain : between least greatest (.int m) = .valid m := by
    change (if greatest < m then _ else if m < least then _ else _) = _
    rw [if_neg (by assumption), if_neg (by assumption)]
  dsimp only
  rw [hsame, hagain]
  rfl

def writeOptional (write : α → Value) : Option α → Value
  | none => .null
  | some a => write a

theorem stable_nullable (h : Stable check write) (hnull : ∀ a, write a ≠ .null) :
    Stable (nullable check) (writeOptional write) := by
  intro v o hv
  cases o with
  | none => rfl
  | some a =>
    have hagain : nullable check (write a) = some <$> check (write a) := by
      unfold nullable
      split
      · next hv => exact absurd hv (hnull a)
      · rfl
    change nullable check (write a) = _
    rw [hagain, h (nullable_eq_valid hv)]
    rfl

theorem items_list (check : Value → Checked α) (vs : List Value) :
    items check (.list vs) = .ofItems (vs.map check) 0 := by
  have hattach : vs.attach.map (fun v => check v.1) = vs.map check := List.attach_map_val
  exact congrArg (Checked.ofItems · 0) hattach

theorem ofItems_valid (as : List α) (n : Nat) :
    Checked.ofItems (as.map Checked.valid) n = .valid as := by
  induction as generalizing n with
  | nil => rfl
  | cons a as ih =>
    rw [List.map_cons, Checked.ofItems, ih]
    rfl

-- A list of written items is taken if each of them is.
theorem items_written {as : List α} (h : ∀ a ∈ as, check (write a) = .valid a) :
    items check (.list (as.map write)) = .valid as := by
  rw [items_list, List.map_map, List.map_congr_left (f := check ∘ write) (g := Checked.valid) h,
    ofItems_valid]

theorem stable_items (h : Stable check write) :
    Stable (items check) fun as => .list (as.map write) := by
  intro v as hv
  refine items_written fun a ha => ?_
  obtain ⟨u, -, hu⟩ := itemsPart_eq_valid hv a ha
  exact h hu

theorem ofEntries_valid (ms : List (String × α)) :
    Checked.ofEntries (ms.map fun (k, a) => (k, Checked.valid a)) = .valid ms := by
  induction ms with
  | nil => rfl
  | cons entry ms ih =>
    rw [List.map_cons, Checked.ofEntries, ih]
    rfl

-- A dictionary of written entries is taken if each of them is.
theorem entries_written (write : α → Value) {ms : List (String × α)}
    (h : ∀ m ∈ ms, check (write m.2) = .valid m.2) :
    entries check (.object (ms.map fun (k, a) => (k, write a))) = .valid ms := by
  have hagain : (ms.map fun m => (m.1, check (write m.2))) =
      ms.map fun m => (m.1, Checked.valid m.2) :=
    List.map_congr_left fun m hm => congrArg (Prod.mk m.1) (h m hm)
  change Checked.ofEntries ((ms.map fun m => (m.1, write m.2)).map fun m => (m.1, check m.2)) = _
  rw [List.map_map]
  exact (congrArg Checked.ofEntries hagain).trans (ofEntries_valid ms)

theorem Stable.required (h : Stable check write) {fields : List (String × Value)} {key : String}
    {a : α} (hf : required fields key check = .valid a) : check (write a) = .valid a := by
  obtain ⟨v, hv⟩ := required_eq_valid hf
  exact h hv

theorem Stable.optional (h : Stable check write) {fields : List (String × Value)} {key : String}
    {default a : α} (hdefault : check (write default) = .valid default)
    (hf : Validation.optional fields key default check = .valid a) : check (write a) = .valid a := by
  obtain rfl | ⟨v, -, hv⟩ := optionalPart_eq_valid hf
  · exact hdefault
  · exact h hv

end

end Gleaner.Validation
