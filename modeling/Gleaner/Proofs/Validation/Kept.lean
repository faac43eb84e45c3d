import Gleaner.Document
import Gleaner.Proofs.Json.Dates
import Gleaner.Proofs.Validation.Valid
import Mathlib.Data.Option.Basic

namespace Gleaner.Validation

variable {α β : Type}

-- What a check takes, without what it says otherwise.
def Checked.value? : Checked α → Option α
  | .valid a => some a
  | .invalid _ => none

theorem Checked.value?_eq_some {c : Checked α} {a : α} (h : c.value? = some a) : c = .valid a := by
  cases c <;> cases h
  rfl

theorem Checked.value?_under (step : Step) (c : Checked α) : (c.under step).value? = c.value? := by
  cases c <;> rfl

theorem Checked.value?_map (f : α → β) (c : Checked α) : (f <$> c).value? = c.value?.map f := by
  cases c <;> rfl

theorem Checked.value?_ap (f : Checked (α → β)) (c : Checked α) :
    (f <*> c).value? = f.value?.bind fun g => c.value?.map g := by
  cases f <;> cases c <;> rfl

theorem Checked.value?_andThen (c : Checked α) (next : α → Checked β) :
    (c.andThen next).value? = c.value?.bind fun a => (next a).value? := by
  cases c <;> rfl

-- What is kept, as it is read again: moments are restored in it before it is checked.
def reread (check : Value → Checked α) (v : Value) : Option α :=
  (Json.decode v).toOption.bind fun w => (check w).value?

-- Data that is kept as it is for something. It is read again as that if it is legible, and not at
-- all if it is not.
structure Kept (check : Value → Checked α) (v : Value) (legible : Bool) (a : α) : Prop where
  written : Json.encode? v = some v
  read : reread check v = if legible then some a else none

-- Fields that are kept, as far as a check reads them.
structure KeptFields (fields : List (String × Value)) (check : List (String × Value) → Checked α)
    (parts : List Value) (legible : Bool) (a : α) : Prop where
  written : ∀ v ∈ parts, Json.encode? v = some v
  decoded : legible = true → ∀ v ∈ parts, ∃ w, Json.decode v = .ok w
  read : ∀ {ws}, Json.decodeFields fields = .ok ws →
    (check ws).value? = if legible then some a else none

section

variable {check : Value → Checked α} {v : Value} {legible : Bool} {a : α}

theorem Kept.and_true (h : Kept check v (legible && true) a) : Kept check v legible a :=
  (Bool.and_true legible) ▸ h

theorem Kept.decoded (h : Kept check v legible a) (hl : legible = true) :
    ∃ w, Json.decode v = .ok w := by
  have hread := h.read
  rw [reread, hl] at hread
  cases hw : Json.decode v with
  | error e =>
    rw [hw] at hread
    cases hread
  | ok w => exact ⟨w, rfl⟩

theorem Kept.andThen {next : α → Checked β} {b : β} (h : Kept check v legible a)
    (hnext : next a = .valid b) : Kept (fun v => (check v).andThen next) v legible b where
  written := h.written
  read := by
    have hread : reread (fun v => (check v).andThen next) v =
        (reread check v).bind fun a => (next a).value? := by
      simp only [reread, Checked.value?_andThen, Option.bind_assoc]
    rw [hread, h.read]
    cases legible with
    | true => exact congrArg Checked.value? hnext
    | false => rfl

theorem Kept.nonEmpty {check : Value → Checked (List α)} {as : List α}
    (h : Kept check v legible as) (has : as ≠ []) :
    Kept (fun v => nonEmpty (check v)) v legible as :=
  h.andThen (if_neg (by simpa using has))

-- Data without parts that stands for no moment.
def isLeaf : Value → Bool
  | .null | .bool _ | .int _ | .text _ => true
  | _ => false

theorem Kept.leaf (hv : isLeaf v = true) (h : check v = .valid a) : Kept check v true a := by
  cases v with
  | null | bool | int | text => exact ⟨rfl, congrArg Checked.value? h⟩
  | _ => cases hv

theorem Stable.kept {write : α → Value} (h : Stable check write)
    (hwrite : ∀ a, isLeaf (write a) = true) {fields : List (String × Value)} {key : String}
    (hf : Validation.required fields key check = .valid a) : Kept check (write a) true a :=
  .leaf (hwrite a) (h.required hf)

theorem kept_optional {write : α → Value} {o : Option α} (hwrite : ∀ a, isLeaf (write a) = true)
    (h : nullable check (writeOptional write o) = .valid o) :
    Kept (nullable check) ((Document.optional (fun a => .leaf (write a)) o).toValue .stored) true
      o := by
  cases o with
  | none => exact .leaf rfl rfl
  | some a => exact .leaf (hwrite a) h

-- The items of a list, from some place on, as they are read again.
def rereadItems (check : Value → Checked α) (vs : List Value) (n : Nat) : Option (List α) :=
  (Json.decodeItems vs).toOption.bind fun ws => (Checked.ofItems (ws.map check) n).value?

theorem rereadItems_cons (v : Value) (vs : List Value) (n : Nat) :
    rereadItems check (v :: vs) n =
      (reread check v).bind fun a => (rereadItems check vs (n + 1)).map (List.cons a) := by
  rw [rereadItems, rereadItems, Json.decodeItems_cons, reread]
  cases (Json.decode v).toOption with
  | none => rfl
  | some w =>
    cases (Json.decodeItems vs).toOption with
    | none => simp
    | some ws => simp [Checked.ofItems, Checked.value?_ap, Checked.value?_map,
        Checked.value?_under, Option.bind_map]

theorem reread_items (vs : List Value) :
    reread (items check) (.list vs) = rereadItems check vs 0 := by
  rw [reread, Json.decode, rereadItems]
  cases Json.decodeItems vs with
  | error e => rfl
  | ok ws => exact congrArg Checked.value? (items_list check ws)

-- A list is legible if its items are.
theorem kept_items {as : List α} {write : α → Document} {isLegible : α → Bool}
    (h : ∀ a ∈ as, Kept check ((write a).toValue .stored) (isLegible a) a) :
    Kept (items check) ((Document.list (as.map write)).toValue .stored) (as.all isLegible) as := by
  rw [Document.toValue_list_map]
  refine ⟨congrArg (Option.map Value.list) (Json.encodeItems?_self ?_), ?_⟩
  · exact List.forall_mem_map.mpr fun a ha => (h a ha).written
  · rw [reread_items]
    generalize 0 = n
    induction as generalizing n with
    | nil => rfl
    | cons a as ih =>
      rw [List.map_cons, rereadItems_cons, (h a List.mem_cons_self).read,
        ih (fun b hb => h b (List.mem_cons_of_mem a hb)), List.all_cons]
      cases isLegible a <;> cases as.all isLegible <;> rfl

end

namespace KeptFields

variable {fields : List (String × Value)} {check : Value → Checked α} {key : String} {v : Value}
  {legible : Bool} {a : α}

-- Decoding leaves the names of fields.
theorem lookup?_decodeFields {ws : List (String × Value)} (h : Json.decodeFields fields = .ok ws)
    (hv : (lookup? fields key).map (·.1) = some v) :
    ∃ w, (lookup? ws key).map (·.1) = some w ∧ Json.decode v = .ok w := by
  induction fields generalizing ws with
  | nil => cases hv
  | cons field fields ih =>
    obtain ⟨k, u⟩ := field
    obtain ⟨w, rest, hw, hrest, rfl⟩ := Json.decodeFields_cons h
    unfold lookup? at hv ⊢
    by_cases hk : k = key
    · rw [if_pos hk] at hv ⊢
      cases hv
      exact ⟨w, rfl, hw⟩
    · rw [if_neg hk, Option.map_map] at hv ⊢
      exact ih hrest hv

theorem find?_decodeFields {ws : List (String × Value)} (h : Kept check v legible a)
    (hv : (lookup? fields key).map (·.1) = some v) (hws : Json.decodeFields fields = .ok ws) :
    ∃ w hsize, find? ws key = some (key, ⟨w, hsize⟩) ∧
      (check w).value? = if legible then some a else none := by
  obtain ⟨w, hlookup, hw⟩ := lookup?_decodeFields hws hv
  obtain ⟨⟨_, hsize⟩, hfound, rfl⟩ := Option.map_eq_some_iff.mp hlookup
  refine ⟨_, hsize, by rw [find?, hfound], ?_⟩
  rw [← h.read, reread, hw]
  rfl

theorem required (h : Kept check v legible a) (hv : (lookup? fields key).map (·.1) = some v) :
    KeptFields fields (fun ws => required ws key check) [v] legible a where
  written := by simpa using h.written
  decoded hl := by simpa using h.decoded hl
  read hws := by
    obtain ⟨w, hsize, hfound, hw⟩ := find?_decodeFields h hv hws
    rw [Validation.required, requiredPart, hfound]
    exact (Checked.value?_under _ _).trans hw

theorem optional {default : α} (h : Kept check v legible a)
    (hv : (lookup? fields key).map (·.1) = some v) :
    KeptFields fields (fun ws => optional ws key default check) [v] legible a where
  written := by simpa using h.written
  decoded hl := by simpa using h.decoded hl
  read hws := by
    obtain ⟨w, hsize, hfound, hw⟩ := find?_decodeFields h hv hws
    rw [Validation.optional, optionalPart, hfound]
    exact (Checked.value?_under _ _).trans hw

theorem pure : KeptFields fields (fun _ => .valid a) [] true a := ⟨nofun, fun _ => nofun, fun _ => rfl⟩

variable {read : List (String × Value) → Checked α} {parts : List Value}

theorem map {f : α → β} (h : KeptFields fields read parts legible a) :
    KeptFields fields (fun ws => f <$> read ws) parts legible (f a) where
  written := h.written
  decoded := h.decoded
  read hws := by
    rw [Checked.value?_map, h.read hws]
    cases legible <;> rfl

-- Fields are legible together if each of them is.
theorem ap {front : List (String × Value) → Checked (α → β)} {frontParts : List Value}
    {frontLegible : Bool} {f : α → β} (hf : KeptFields fields front frontParts frontLegible f)
    (h : KeptFields fields read parts legible a) :
    KeptFields fields (fun ws => front ws <*> read ws) (frontParts ++ parts)
      (frontLegible && legible) (f a) where
  written v hv := (List.mem_append.mp hv).elim (hf.written v) (h.written v)
  decoded hl v hv := by
    obtain ⟨hfront, hlast⟩ := Bool.and_eq_true_iff.mp hl
    exact (List.mem_append.mp hv).elim (hf.decoded hfront v) (h.decoded hlast v)
  read hws := by
    rw [Checked.value?_ap, hf.read hws, h.read hws]
    cases frontLegible <;> cases legible <;> rfl

-- An object is kept if all of its fields are read. The first one must not be a tag.
theorem object (h : KeptFields ((key, v) :: fields) read parts legible a)
    (hkey : key ≠ Json.dateTag) (hparts : ((key, v) :: fields).map (·.2) = parts)
    (hcheck : ∀ ws, Json.decodeFields ((key, v) :: fields) = .ok ws →
      (check (.object ws)).value? = (read ws).value?) :
    Kept check (.object ((key, v) :: fields)) legible a where
  written := congrArg (Option.map Value.object) (Json.encodeFields?_self (hparts ▸ h.written))
  read := by
    rw [reread, Json.decode]
    cases hws : Json.decodeFields ((key, v) :: fields) with
    | error e =>
      cases legible with
      | false => rfl
      | true =>
        obtain ⟨ws, hok⟩ := Json.decodeFields_ok (hparts ▸ h.decoded rfl)
        cases hws.symm.trans hok
    | ok ws =>
      rw [← h.read hws, ← hcheck ws hws]
      obtain ⟨w, rest, -, -, rfl⟩ := Json.decodeFields_cons hws
      have huntag : Json.untag ((key, w) :: rest) = .ok (.object ((key, w) :: rest)) :=
        Json.untag_of_ne hkey
      exact congrArg (fun o => Option.bind (Except.toOption o) fun w => (check w).value?) huntag

theorem tagged {tag : String}
    (h : KeptFields (("type", .text tag) :: fields) read parts legible a)
    (hparts : fields.map (·.2) = parts)
    (hcheck : ∀ ws, (check (.object (("type", .text tag) :: ws))).value? =
      (read (("type", .text tag) :: ws)).value?) :
    Kept check (.object (("type", .text tag) :: fields)) legible a := by
  have htag : KeptFields (("type", .text tag) :: fields) read (.text tag :: parts) legible a :=
    ⟨List.forall_mem_cons.mpr ⟨rfl, h.written⟩,
      fun hl => List.forall_mem_cons.mpr ⟨⟨_, rfl⟩, h.decoded hl⟩, h.read⟩
  refine htag.object (by decide) (congrArg (List.cons _) hparts) fun ws hws => ?_
  obtain ⟨w, rest, hw, -, rfl⟩ := Json.decodeFields_cons hws
  cases hw
  exact hcheck rest

end KeptFields

end Gleaner.Validation
