import Gleaner.Document
import Gleaner.Proofs.Json.Dates
import Gleaner.Proofs.Json.RoundTrip

namespace Gleaner

namespace Json

mutual

-- Data without moments is encoded as it is.
theorem encode?_of_isJson : ∀ {v : Value}, v.isJson = true → encode? v = some v
  | .null, _ | .bool _, _ | .int _, _ | .float _, _ | .text _, _ => rfl
  | .list _, h => congrArg (Option.map Value.list) (encodeItems?_of_areJson h)
  | .object _, h =>
    congrArg (Option.map Value.object)
      (encodeFields?_of_haveJson (Bool.and_eq_true_iff.mp h).2)

theorem encodeItems?_of_areJson : ∀ {items : List Value}, Value.areJson items = true →
    encodeItems? items = some items
  | [], _ => rfl
  | v :: rest, h => by
    obtain ⟨hv, hrest⟩ := Bool.and_eq_true_iff.mp h
    rw [encodeItems?, encode?_of_isJson hv, encodeItems?_of_areJson hrest]
    rfl

theorem encodeFields?_of_haveJson : ∀ {fields : List (String × Value)},
    Value.haveJson fields = true → encodeFields? fields = some fields
  | [], _ => rfl
  | (k, v) :: rest, h => by
    obtain ⟨hv, hrest⟩ := Bool.and_eq_true_iff.mp h
    rw [encodeFields?, encode?_of_isJson hv, encodeFields?_of_haveJson hrest]
    rfl

end

end Json

-- A value without parts that JSON can hold.
def Value.isPlain : Value → Bool
  | .null | .bool _ | .int _ | .float _ | .text _ => true
  | _ => false

namespace Document

mutual

-- What is written as JSON: plain values, and entries and fields that have different names.
def isJson : Document → Bool
  | .leaf v => v.isPlain
  | .list items => areJson items
  | .entries items => decide (items.map (·.1)).Nodup && haveJson items
  | .record fields => decide (fields.map (·.1)).Nodup && haveJson fields

def areJson : List Document → Bool
  | [] => true
  | d :: rest => isJson d && areJson rest

def haveJson : List (String × Document) → Bool
  | [] => true
  | (_, d) :: rest => isJson d && haveJson rest

end

-- Entries that are a single text under the name of the tag of a moment.
def isTag : List (String × Document) → Bool
  | [(name, .leaf (.text _))] => name == Json.dateTag
  | _ => false

mutual

-- What is not taken for a moment, in any of its parts.
def isUntagged : Document → Bool
  | .leaf _ => true
  | .list items => areUntagged items
  | .entries items => !isTag items && haveUntagged items
  | .record fields => !(fields.map (·.1)).contains Json.dateTag && haveUntagged fields

def areUntagged : List Document → Bool
  | [] => true
  | d :: rest => isUntagged d && areUntagged rest

def haveUntagged : List (String × Document) → Bool
  | [] => true
  | (_, d) :: rest => isUntagged d && haveUntagged rest

end

theorem plain_of_isPlain {v : Value} (h : v.isPlain = true) : plain v = v := by
  cases v with
  | null | bool | int | float | text => rfl
  | _ => cases h

theorem isJson_of_isPlain {v : Value} (h : v.isPlain = true) : v.isJson = true := by
  cases v with
  | null | bool | int | float | text => rfl
  | _ => cases h

-- Fields keep their names and their order; some are left out.
theorem names_toFields (fields : List (String × Document)) :
    ((toFields .wire fields).map (·.1)).Sublist (fields.map (·.1)) := by
  induction fields with
  | nil => exact .slnil
  | cons field fields ih =>
    obtain ⟨k, d⟩ := field
    rw [toFields]
    split
    · exact ih.cons k
    · exact ih.cons_cons k

theorem names_toEntries (style : Style) (items : List (String × Document)) :
    (toEntries style items).map (·.1) = items.map (·.1) := by
  rw [toEntries_map, List.map_map]
  rfl

mutual

theorem isJson_wire : ∀ {d : Document}, d.isJson = true → (d.toValue .wire).isJson = true
  | .leaf v, h => by
    change (plain v).isJson = true
    rw [plain_of_isPlain h]
    exact isJson_of_isPlain h
  | .list items, h => areJson_wire h
  | .entries items, h => by
    rw [isJson, Bool.and_eq_true] at h
    rw [toValue, Value.isJson, Bool.and_eq_true, names_toEntries]
    exact ⟨h.1, haveJson_entries h.2⟩
  | .record fields, h => by
    rw [isJson, Bool.and_eq_true, decide_eq_true_eq] at h
    rw [toValue, Value.isJson, Bool.and_eq_true, decide_eq_true_eq]
    exact ⟨h.1.sublist (names_toFields fields), haveJson_fields h.2⟩

theorem areJson_wire : ∀ {items : List Document}, areJson items = true →
    Value.areJson (toValues .wire items) = true
  | [], _ => rfl
  | d :: rest, h => by
    rw [areJson, Bool.and_eq_true] at h
    rw [toValues, Value.areJson, Bool.and_eq_true]
    exact ⟨isJson_wire h.1, areJson_wire h.2⟩

theorem haveJson_entries : ∀ {items : List (String × Document)}, haveJson items = true →
    Value.haveJson (toEntries .wire items) = true
  | [], _ => rfl
  | (k, d) :: rest, h => by
    rw [haveJson, Bool.and_eq_true] at h
    rw [toEntries, Value.haveJson, Bool.and_eq_true]
    exact ⟨isJson_wire h.1, haveJson_entries h.2⟩

theorem haveJson_fields : ∀ {fields : List (String × Document)}, haveJson fields = true →
    Value.haveJson (toFields .wire fields) = true
  | [], _ => rfl
  | (k, d) :: rest, h => by
    rw [haveJson, Bool.and_eq_true] at h
    rw [toFields]
    split
    · exact haveJson_fields h.2
    · rw [Value.haveJson, Bool.and_eq_true]
      exact ⟨isJson_wire h.1, haveJson_fields h.2⟩

end

theorem untag_entries {items : List (String × Document)} (hj : haveJson items = true)
    (h : isTag items = false) :
    Json.untag (toEntries .wire items) = .ok (.object (toEntries .wire items)) := by
  match items with
  | [] => rfl
  | [(name, .leaf v)] =>
    rw [haveJson, Bool.and_eq_true, isJson] at hj
    change Json.untag [(name, plain v)] = .ok (.object [(name, plain v)])
    rw [plain_of_isPlain hj.1]
    cases v with
    | text s => exact if_neg (by simpa [isTag] using h)
    | _ => rfl
  | [(_, .list _)] | [(_, .entries _)] | [(_, .record _)] => rfl
  | (k, d) :: (l, e) :: rest =>
    rw [toEntries, toEntries]
    unfold Json.untag
    split
    · next heq => simp at heq
    · rfl

theorem untag_fields {fields : List (String × Document)}
    (h : (fields.map (·.1)).contains Json.dateTag = false) :
    Json.untag (toFields .wire fields) = .ok (.object (toFields .wire fields)) := by
  cases hw : toFields .wire fields with
  | nil => rfl
  | cons field rest =>
    have hmem : field.1 ∈ fields.map (·.1) := by
      refine (names_toFields fields).subset ?_
      rw [hw]
      exact List.mem_cons_self
    refine Json.untag_of_ne fun heq => ?_
    rw [heq, ← List.contains_iff_mem, h] at hmem
    cases hmem

mutual

theorem becomes_wire : ∀ {d : Document}, d.isJson = true → d.isUntagged = true →
    Json.Becomes Json.untag (d.toValue .wire) (d.toValue .wire)
  | .leaf v, hj, _ => by
    change Json.Becomes Json.untag (plain v) (plain v)
    rw [plain_of_isPlain hj]
    cases v with
    | null | bool | int | float | text => rfl
    | _ => cases hj
  | .list items, hj, h => ⟨_, itemsBecome_wire hj h, rfl⟩
  | .entries items, hj, h => by
    rw [isJson, Bool.and_eq_true] at hj
    rw [isUntagged, Bool.and_eq_true, Bool.not_eq_true'] at h
    exact ⟨_, entriesBecome_wire hj.2 h.2, untag_entries hj.2 h.1⟩
  | .record fields, hj, h => by
    rw [isJson, Bool.and_eq_true] at hj
    rw [isUntagged, Bool.and_eq_true, Bool.not_eq_true'] at h
    exact ⟨_, fieldsBecome_wire hj.2 h.2, untag_fields h.1⟩

theorem itemsBecome_wire : ∀ {items : List Document}, areJson items = true →
    areUntagged items = true → Json.ItemsBecome Json.untag (toValues .wire items) (toValues .wire items)
  | [], _, _ => rfl
  | d :: rest, hj, h => by
    rw [areJson, Bool.and_eq_true] at hj
    rw [areUntagged, Bool.and_eq_true] at h
    exact ⟨_, _, becomes_wire hj.1 h.1, itemsBecome_wire hj.2 h.2, rfl⟩

theorem entriesBecome_wire : ∀ {items : List (String × Document)}, haveJson items = true →
    haveUntagged items = true →
    Json.FieldsBecome Json.untag (toEntries .wire items) (toEntries .wire items)
  | [], _, _ => rfl
  | (k, d) :: rest, hj, h => by
    rw [haveJson, Bool.and_eq_true] at hj
    rw [haveUntagged, Bool.and_eq_true] at h
    exact ⟨_, _, becomes_wire hj.1 h.1, entriesBecome_wire hj.2 h.2, rfl⟩

theorem fieldsBecome_wire : ∀ {fields : List (String × Document)}, haveJson fields = true →
    haveUntagged fields = true →
    Json.FieldsBecome Json.untag (toFields .wire fields) (toFields .wire fields)
  | [], _, _ => rfl
  | (k, d) :: rest, hj, h => by
    rw [haveJson, Bool.and_eq_true] at hj
    rw [haveUntagged, Bool.and_eq_true] at h
    rw [toFields]
    split
    · exact fieldsBecome_wire hj.2 h.2
    · exact ⟨_, _, becomes_wire hj.1 h.1, fieldsBecome_wire hj.2 h.2, rfl⟩

end

-- What is written of a document as JSON text is read as the same data.
theorem load_wire (indent : Option Nat) {d : Document} (hj : d.isJson = true)
    (h : d.isUntagged = true) :
    (Json.encode? (d.toValue .wire)).map (fun v => Json.load (Json.write indent v)) =
      some (.ok (d.toValue .wire)) := by
  have hwire := isJson_wire hj
  rw [Json.encode?_of_isJson hwire, Option.map_some,
    Json.load_write indent hwire (becomes_wire hj h)]

end Document

end Gleaner
