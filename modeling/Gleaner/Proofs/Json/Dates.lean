import Gleaner.Json.Dates

namespace Gleaner.Json

theorem encode?_object {fields : List (String × Value)} {v : Value}
    (h : encode? (.object fields) = some v) :
    ∃ written, encodeFields? fields = some written ∧ v = .object written := by
  rw [encode?] at h
  obtain ⟨written, hwritten, rfl⟩ := Option.map_eq_some_iff.mp h
  exact ⟨written, hwritten, rfl⟩

theorem encode?_list {items : List Value} {v : Value} (h : encode? (.list items) = some v) :
    ∃ written, encodeItems? items = some written ∧ v = .list written := by
  rw [encode?] at h
  obtain ⟨written, hwritten, rfl⟩ := Option.map_eq_some_iff.mp h
  exact ⟨written, hwritten, rfl⟩

theorem encodeFields?_cons {k : String} {v : Value} {fields written : List (String × Value)}
    (h : encodeFields? ((k, v) :: fields) = some written) :
    ∃ w rest, encode? v = some w ∧ encodeFields? fields = some rest ∧
      written = (k, w) :: rest := by
  rw [encodeFields?] at h
  obtain ⟨w, hw, h⟩ := Option.bind_eq_some_iff.mp h
  obtain ⟨rest, hrest, h⟩ := Option.bind_eq_some_iff.mp h
  exact ⟨w, rest, hw, hrest, (Option.some.inj h).symm⟩

theorem encodeItems?_cons {v : Value} {items written : List Value}
    (h : encodeItems? (v :: items) = some written) :
    ∃ w rest, encode? v = some w ∧ encodeItems? items = some rest ∧ written = w :: rest := by
  rw [encodeItems?] at h
  obtain ⟨w, hw, h⟩ := Option.bind_eq_some_iff.mp h
  obtain ⟨rest, hrest, h⟩ := Option.bind_eq_some_iff.mp h
  exact ⟨w, rest, hw, hrest, (Option.some.inj h).symm⟩

-- The items of a list are written one by one.
theorem encodeItems?_map {items written : List Value} (h : encodeItems? items = some written) :
    items.map encode? = written.map some := by
  induction items generalizing written with
  | nil =>
    cases h
    rfl
  | cons v items ih =>
    obtain ⟨w, rest, hw, hrest, rfl⟩ := encodeItems?_cons h
    rw [List.map_cons, List.map_cons, hw, ih hrest]

variable {k : String} {v : Value} {fields ws : List (String × Value)} {items : List Value}

-- Data without moments is written as it is.
theorem encodeFields?_self (h : ∀ v ∈ fields.map (·.2), encode? v = some v) :
    encodeFields? fields = some fields := by
  induction fields with
  | nil => rfl
  | cons field fields ih =>
    obtain ⟨hv, hrest⟩ := List.forall_mem_cons.mp h
    rw [encodeFields?, hv, ih hrest]
    rfl

theorem encodeItems?_self (h : ∀ v ∈ items, encode? v = some v) :
    encodeItems? items = some items := by
  induction items with
  | nil => rfl
  | cons v items ih =>
    obtain ⟨hv, hrest⟩ := List.forall_mem_cons.mp h
    rw [encodeItems?, hv, ih hrest]
    rfl

theorem decodeFields_cons (h : decodeFields ((k, v) :: fields) = .ok ws) :
    ∃ w rest, decode v = .ok w ∧ decodeFields fields = .ok rest ∧ ws = (k, w) :: rest := by
  rw [decodeFields] at h
  cases hw : decode v with
  | error e =>
    rw [hw] at h
    cases h
  | ok w =>
    cases hrest : decodeFields fields with
    | error e =>
      rw [hw, hrest] at h
      cases h
    | ok rest =>
      rw [hw, hrest] at h
      cases h
      exact ⟨w, rest, rfl, rfl, rfl⟩

theorem decodeItems_eq_cons {ws : List Value} (h : decodeItems (v :: items) = .ok ws) :
    ∃ w rest, decode v = .ok w ∧ decodeItems items = .ok rest ∧ ws = w :: rest := by
  rw [decodeItems] at h
  cases hw : decode v with
  | error e =>
    rw [hw] at h
    cases h
  | ok w =>
    cases hrest : decodeItems items with
    | error e =>
      rw [hw, hrest] at h
      cases h
    | ok rest =>
      rw [hw, hrest] at h
      cases h
      exact ⟨w, rest, rfl, rfl, rfl⟩

theorem decodeFields_ok (h : ∀ v ∈ fields.map (·.2), ∃ w, decode v = .ok w) :
    ∃ ws, decodeFields fields = .ok ws := by
  induction fields with
  | nil => exact ⟨[], rfl⟩
  | cons field fields ih =>
    obtain ⟨⟨w, hw⟩, hrest⟩ := List.forall_mem_cons.mp h
    obtain ⟨ws, hws⟩ := ih hrest
    rw [decodeFields, hw, hws]
    exact ⟨_, rfl⟩

theorem decode_object (h : decodeFields fields = .ok ws) : decode (.object fields) = untag ws := by
  rw [decode, h]
  rfl

theorem decodeItems_cons (v : Value) (items : List Value) : (decodeItems (v :: items)).toOption =
    (decode v).toOption.bind fun w => (decodeItems items).toOption.map (w :: ·) := by
  rw [decodeItems]
  cases decode v <;> cases decodeItems items <;> rfl

-- An object stands for a moment only if it starts with the name of the tag.
theorem untag_of_ne (hk : k ≠ dateTag) :
    untag ((k, v) :: fields) = .ok (.object ((k, v) :: fields)) := by
  unfold untag
  split
  · next heq =>
    cases heq
    exact if_neg hk
  · rfl

end Gleaner.Json
