import Gleaner.Proofs.Json.RoundTrip
import Gleaner.Proofs.Time.Theorems

namespace Gleaner

-- Fields that are a single text under the name of the tag of a moment.
def Fields.isTag : List (String × Value) → Bool
  | [(name, .text _)] => name == Json.dateTag
  | _ => false

namespace Value

mutual

-- Data that can be kept with the moments in it: no days, moments that have a UTC form, and objects
-- whose fields have different names and are not taken for the tag of a moment.
def isKeepable : Value → Bool
  | .moment t => t.toUtc?.isSome
  | .day _ => false
  | .list items => areKeepable items
  | .object fields =>
    decide (fields.map (·.1)).Nodup && !Fields.isTag fields && haveKeepable fields
  | _ => true

def areKeepable : List Value → Bool
  | [] => true
  | v :: rest => isKeepable v && areKeepable rest

def haveKeepable : List (String × Value) → Bool
  | [] => true
  | (_, v) :: rest => isKeepable v && haveKeepable rest

end

mutual

-- The same data, every moment of it shown by a UTC clock.
def AtUtc : Value → Value → Prop
  | .moment t, w =>
    ∃ u : DateTime, u.IsShown ∧ u.offset = some 0 ∧ u.instant = t.instant ∧ w = .moment u
  | .list items, w => ∃ ws, AreAtUtc items ws ∧ w = .list ws
  | .object fields, w => ∃ ws, HaveAtUtc fields ws ∧ w = .object ws
  | v, w => w = v

def AreAtUtc : List Value → List Value → Prop
  | [], ws => ws = []
  | v :: rest, ws => ∃ w more, AtUtc v w ∧ AreAtUtc rest more ∧ ws = w :: more

def HaveAtUtc : List (String × Value) → List (String × Value) → Prop
  | [], ws => ws = []
  | (k, v) :: rest, ws => ∃ w more, AtUtc v w ∧ HaveAtUtc rest more ∧ ws = (k, w) :: more

end

-- Only a text becomes a text.
theorem eq_text_of_atUtc {v : Value} {s : String} (h : v.AtUtc (.text s)) : v = .text s := by
  cases v with
  | moment t =>
    obtain ⟨_, -, -, -, h⟩ := h
    cases h
  | list items =>
    obtain ⟨_, -, h⟩ := h
    cases h
  | object fields =>
    obtain ⟨_, -, h⟩ := h
    cases h
  | _ => exact h.symm

end Value

namespace Json

open Value

-- What is no tag of a moment is none after the moments in it have been restored.
theorem untag_of_haveAtUtc {fields ws : List (String × Value)} (h : HaveAtUtc fields ws)
    (htag : Fields.isTag fields = false) : untag ws = .ok (.object ws) := by
  unfold untag
  split
  · next name s =>
    match fields, h with
    | (k, v) :: more, ⟨_, others, hv, hmore, heq⟩ =>
      cases heq
      match more, hmore with
      | [], _ =>
        rw [eq_text_of_atUtc hv] at htag
        exact if_neg (ne_of_beq_false htag)
      | _ :: _, ⟨_, _, _, _, heq⟩ => cases heq
  · rfl

-- A moment is kept as its UTC form, and that form as itself.
theorem restores_moment {t : DateTime} (ht : (Value.moment t).isKeepable = true) :
    ∃ written w, encode? (.moment t) = some written ∧ decode written = .ok w ∧
      AtUtc (.moment t) w ∧ encode? w = some written := by
  obtain ⟨u, hu⟩ := Option.isSome_iff_exists.mp ht
  obtain ⟨hshown, hoffset, hinstant, hself⟩ := DateTime.toUtc?_eq_some hu
  have hfields : decodeFields [(dateTag, .text u.text)] = .ok [(dateTag, .text u.text)] := rfl
  refine ⟨.object [(dateTag, .text u.text)], .moment u, ?_, ?_, ⟨u, hshown, hoffset, hinstant, rfl⟩,
    ?_⟩
  · rw [encode?, taggedMoment?, hu]
    rfl
  · rw [decode_object hfields, DateTime.untag_text hshown hoffset]
  · rw [encode?, taggedMoment?, hself]
    rfl

mutual

-- Encoded data is restored with its moments on the UTC clock, and encoded again as it was.
theorem restores : ∀ {v : Value}, v.isKeepable = true →
    ∃ written w, encode? v = some written ∧ decode written = .ok w ∧ v.AtUtc w ∧
      encode? w = some written
  | .moment _, hv => restores_moment hv
  | .list _, hv => by
    obtain ⟨written, ws, hencode, hdecode, hutc, hagain⟩ := restoresItems hv
    refine ⟨.list written, .list ws, ?_, ?_, ⟨ws, hutc, rfl⟩, ?_⟩
    · rw [encode?, hencode, Option.map_some]
    · rw [decode, hdecode]
      rfl
    · rw [encode?, hagain, Option.map_some]
  | .object _, hv => by
    rw [isKeepable, Bool.and_eq_true, Bool.and_eq_true, Bool.not_eq_true'] at hv
    obtain ⟨written, ws, hencode, hdecode, hutc, hagain⟩ := restoresFields hv.2
    refine ⟨.object written, .object ws, ?_, ?_, ⟨ws, hutc, rfl⟩, ?_⟩
    · rw [encode?, hencode, Option.map_some]
    · rw [decode_object hdecode, untag_of_haveAtUtc hutc hv.1.2]
    · rw [encode?, hagain, Option.map_some]
  | .null, _ | .bool _, _ | .int _, _ | .float _, _ | .text _, _ => ⟨_, _, rfl, rfl, rfl, rfl⟩

theorem restoresItems : ∀ {items : List Value}, areKeepable items = true →
    ∃ written ws, encodeItems? items = some written ∧ decodeItems written = .ok ws ∧
      AreAtUtc items ws ∧ encodeItems? ws = some written
  | [], _ => ⟨[], [], rfl, rfl, rfl, rfl⟩
  | _ :: _, h => by
    rw [areKeepable, Bool.and_eq_true] at h
    obtain ⟨written, w, hencode, hdecode, hutc, hagain⟩ := restores h.1
    obtain ⟨others, more, hencodes, hdecodes, hutcs, hagains⟩ := restoresItems h.2
    refine ⟨written :: others, w :: more, ?_, ?_, ⟨w, more, hutc, hutcs, rfl⟩, ?_⟩
    · rw [encodeItems?, hencode, hencodes]
      rfl
    · rw [decodeItems, hdecode, hdecodes]
      rfl
    · rw [encodeItems?, hagain, hagains]
      rfl

theorem restoresFields : ∀ {fields : List (String × Value)}, haveKeepable fields = true →
    ∃ written ws, encodeFields? fields = some written ∧ decodeFields written = .ok ws ∧
      HaveAtUtc fields ws ∧ encodeFields? ws = some written
  | [], _ => ⟨[], [], rfl, rfl, rfl, rfl⟩
  | (k, _) :: _, h => by
    rw [haveKeepable, Bool.and_eq_true] at h
    obtain ⟨written, w, hencode, hdecode, hutc, hagain⟩ := restores h.1
    obtain ⟨others, more, hencodes, hdecodes, hutcs, hagains⟩ := restoresFields h.2
    refine ⟨(k, written) :: others, (k, w) :: more, ?_, ?_, ⟨w, more, hutc, hutcs, rfl⟩, ?_⟩
    · rw [encodeFields?, hencode, hencodes]
      rfl
    · rw [decodeFields, hdecode, hdecodes]
      rfl
    · rw [encodeFields?, hagain, hagains]
      rfl

end

theorem names_encodeFields? {fields written : List (String × Value)}
    (h : encodeFields? fields = some written) : written.map (·.1) = fields.map (·.1) := by
  induction fields generalizing written with
  | nil =>
    cases h
    rfl
  | cons field fields ih =>
    obtain ⟨w, rest, -, hrest, rfl⟩ := encodeFields?_cons h
    rw [List.map_cons, List.map_cons, ih hrest]

mutual

-- What is encoded can be written as text.
theorem isJson_encode? : ∀ {v written : Value}, v.isKeepable = true →
    encode? v = some written → written.isJson = true
  | .moment t, written, _, h => by
    obtain ⟨u, -, rfl⟩ := Option.map_eq_some_iff.mp h
    rfl
  | .list items, written, hv, h => by
    obtain ⟨others, hothers, rfl⟩ := encode?_list h
    exact areJson_encodeItems? hv hothers
  | .object fields, written, hv, h => by
    rw [isKeepable, Bool.and_eq_true, Bool.and_eq_true] at hv
    obtain ⟨others, hothers, rfl⟩ := encode?_object h
    rw [isJson, Bool.and_eq_true, names_encodeFields? hothers]
    exact ⟨hv.1.1, haveJson_encodeFields? hv.2 hothers⟩
  | .null, _, _, h | .bool _, _, _, h | .int _, _, _, h | .float _, _, _, h
  | .text _, _, _, h => by
    cases h
    rfl

theorem areJson_encodeItems? : ∀ {items written : List Value}, areKeepable items = true →
    encodeItems? items = some written → areJson written = true
  | [], _, _, h => by
    cases h
    rfl
  | v :: items, written, hv, h => by
    rw [areKeepable, Bool.and_eq_true] at hv
    obtain ⟨w, rest, hw, hrest, rfl⟩ := encodeItems?_cons h
    rw [areJson, isJson_encode? hv.1 hw, areJson_encodeItems? hv.2 hrest, Bool.and_true]

theorem haveJson_encodeFields? : ∀ {fields written : List (String × Value)},
    haveKeepable fields = true → encodeFields? fields = some written → haveJson written = true
  | [], _, _, h => by
    cases h
    rfl
  | (k, v) :: fields, written, hv, h => by
    rw [haveKeepable, Bool.and_eq_true] at hv
    obtain ⟨w, rest, hw, hrest, rfl⟩ := encodeFields?_cons h
    rw [haveJson, isJson_encode? hv.1 hw, haveJson_encodeFields? hv.2 hrest, Bool.and_true]

end

-- Data with moments is restored from its encoded form, and from the text of that form, as the same
-- data with every moment on the UTC clock; this is encoded as before.
theorem decode_encode? {v : Value} (hv : v.isKeepable = true) :
    ∃ written w, encode? v = some written ∧ v.AtUtc w ∧ decode written = .ok w ∧
      (∀ indent, load (write indent written) = .ok w) ∧ encode? w = some written := by
  obtain ⟨written, w, hencode, hdecode, hutc, hagain⟩ := restores hv
  refine ⟨written, w, hencode, hutc, hdecode, fun indent => ?_, hagain⟩
  exact load_write indent (isJson_encode? hv hencode) (becomes_of_decode hdecode)

-- Moments at other offsets and at none, and fields under the name of the tag that are no tags.
def taggedVisits : Value :=
  .object [
    ("$date", .list [.moment ⟨⟨2024, 2, 29⟩, 23, 30, 0, 500000, some (-3600000000)⟩, .null]),
    ("first", .object [("$date", .moment ⟨⟨1999, 12, 31⟩, 8, 0, 0, 0, none⟩)]),
    ("second", .object [("$date", .int (-3)), ("by", .text "Z")]),
    ("share", .float (Binary64.ofInt 2))]

theorem decode_encode?_taggedVisits :
    taggedVisits.isKeepable = true ∧
    ∃ written w, encode? taggedVisits = some written ∧ taggedVisits.AtUtc w ∧
      decode written = .ok w ∧ load (write none written) = .ok w ∧ encode? w = some written := by
  have hv : taggedVisits.isKeepable = true := by decide +kernel
  obtain ⟨written, w, hencode, hutc, hdecode, hload, hagain⟩ := decode_encode? hv
  exact ⟨hv, written, w, hencode, hutc, hdecode, hload none, hagain⟩

end Json

end Gleaner
