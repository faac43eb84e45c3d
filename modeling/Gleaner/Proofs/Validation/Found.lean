import Gleaner.Proofs.Validation.Valid
import Mathlib.Data.List.Forall2

namespace Gleaner

theorem Fields.get?_cons (k name : String) (v : Value) (fields : List (String × Value)) :
    Fields.get? ((k, v) :: fields) name = if k = name then some v else Fields.get? fields name := by
  unfold Fields.get?
  by_cases h : k = name
  · rw [if_pos h, List.find?_cons_of_pos (by simpa using h), Option.map_some]
  · rw [if_neg h, List.find?_cons_of_neg (by simpa using h)]

namespace Validation

section

variable {α : Type} {fields : List (String × Value)} {key : String} {a : α}

theorem lookup?_eq_get? (fields : List (String × Value)) (key : String) :
    (lookup? fields key).map (·.1) = Fields.get? fields key := by
  induction fields with
  | nil => rfl
  | cons entry rest ih =>
    obtain ⟨k, v⟩ := entry
    rw [lookup?, Fields.get?_cons, ← ih]
    split
    · rfl
    · rw [Option.map_map]
      rfl

-- A field is found under its key or, if nothing stands there, under the name of its attribute.
theorem find?_cases (fields : List (String × Value)) (key : String) :
    (find? fields key).map (fun found => (found.1, found.2.1)) =
      match Fields.get? fields key with
      | some v => some (key, v)
      | none => (Fields.get? fields (attributeName key)).map (attributeName key, ·) := by
  rw [← lookup?_eq_get?, ← lookup?_eq_get?, find?]
  cases lookup? fields key with
  | some v => rfl
  | none =>
    cases lookup? fields (attributeName key) with
    | some v => rfl
    | none => rfl

-- No field stands under the name of an attribute that is not its key as well.
def KeyOnly (fields : List (String × Value)) (key : String) : Prop :=
  attributeName key = key ∨ Fields.get? fields (attributeName key) = none

theorem KeyOnly.find? (h : KeyOnly fields key) :
    (Validation.find? fields key).map (fun found => (found.1, found.2.1)) =
      (Fields.get? fields key).map (key, ·) := by
  rw [find?_cases]
  cases hkey : Fields.get? fields key with
  | some v => rfl
  | none =>
    obtain h | h := h
    · simp [h, hkey]
    · simp [h]

theorem KeyOnly.of_found (h : KeyOnly fields key)
    {found : String × { v : Value // sizeOf v < sizeOf fields }}
    (hfound : Validation.find? fields key = some found) :
    Fields.get? fields key = some found.2.1 := by
  have hfind := h.find?
  rw [hfound, Option.map_some] at hfind
  obtain ⟨v, hget, heq⟩ := Option.map_eq_some_iff.mp hfind.symm
  rw [hget, (Prod.mk.inj heq).2]

theorem KeyOnly.requiredPart (hkey : KeyOnly fields key)
    {check : (v : Value) → sizeOf v < sizeOf fields → Checked α}
    (h : Validation.requiredPart fields key check = .valid a) :
    ∃ v hv, Fields.get? fields key = some v ∧ check v hv = .valid a := by
  unfold Validation.requiredPart at h
  split at h
  · next used v hv hfound =>
    exact ⟨v, hv, hkey.of_found hfound, Checked.under_eq_valid h⟩
  · cases h

theorem KeyOnly.required (hkey : KeyOnly fields key) {check : Value → Checked α}
    (h : Validation.required fields key check = .valid a) :
    ∃ v, Fields.get? fields key = some v ∧ check v = .valid a := by
  obtain ⟨v, -, hget, hv⟩ := hkey.requiredPart h
  exact ⟨v, hget, hv⟩

theorem KeyOnly.optional (hkey : KeyOnly fields key) {default : α} {check : Value → Checked α}
    (h : Validation.optional fields key default check = .valid a) :
    (∃ v, Fields.get? fields key = some v ∧ check v = .valid a) ∨
      Fields.get? fields key = none ∧ a = default := by
  unfold Validation.optional optionalPart at h
  split at h
  · next used v hv hfound =>
    exact .inl ⟨v, hkey.of_found hfound, Checked.under_eq_valid h⟩
  · next hfound =>
    have hfind := hkey.find?
    rw [hfound, Option.map_none] at hfind
    cases h
    exact .inr ⟨Option.map_eq_none_iff.mp hfind.symm, rfl⟩

theorem tagged_found {tags : List String} {v : Value}
    {check : (tag : String) → (fields : List (String × Value)) → sizeOf fields < sizeOf v →
      Checked α} (h : tagged key tags v check = .valid a) :
    ∃ tag fields hf, v = .object fields ∧ Fields.get? fields key = some (.text tag) ∧
      tag ∈ tags ∧ check tag fields hf = .valid a := by
  cases v with
  | object fields =>
    have hlookup := lookup?_eq_get? fields key
    unfold tagged at h
    dsimp only at h
    cases hfound : lookup? fields key with
    | none =>
      rw [hfound] at h
      cases h
    | some found =>
      obtain ⟨value, hsize⟩ := found
      rw [hfound] at h hlookup
      cases value with
      | text tag =>
        dsimp only at h
        split at h
        · next htag =>
          exact ⟨tag, fields, _, rfl, hlookup.symm, List.contains_iff_mem.mp htag,
            Checked.under_eq_valid h⟩
        · cases h
      | _ => cases h
  | _ => cases h

theorem model_found {name : String} {v : Value}
    {check : (fields : List (String × Value)) → sizeOf fields < sizeOf v → Checked α}
    (h : model name v check = .valid a) :
    ∃ fields hf, v = .object fields ∧ check fields hf = .valid a := by
  unfold model at h
  split at h
  · exact ⟨_, _, rfl, h⟩
  · cases h

end

section

variable {α : Type}

end

end Validation

end Gleaner
