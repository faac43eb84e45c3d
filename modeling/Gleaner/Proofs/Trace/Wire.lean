import Gleaner.Proofs.Json.Documents
import Gleaner.Proofs.Run.Record
import Gleaner.Proofs.Script.Parts
import Gleaner.Proofs.Script.Wire
import Gleaner.Proofs.Validation.Found
import Gleaner.Trace.Log

namespace Gleaner

open Validation

namespace Value

mutual

-- Data as there is: the fields of each object in it have different names.
def isWellFormed : Value → Bool
  | .list items => areWellFormed items
  | .object fields => decide (fields.map (·.1)).Nodup && haveWellFormed fields
  | _ => true

def areWellFormed : List Value → Bool
  | [] => true
  | v :: rest => isWellFormed v && areWellFormed rest

def haveWellFormed : List (String × Value) → Bool
  | [] => true
  | (_, v) :: rest => isWellFormed v && haveWellFormed rest

end

theorem areWellFormed_iff (items : List Value) :
    areWellFormed items = true ↔ ∀ v ∈ items, v.isWellFormed = true := by
  induction items with
  | nil => simp [areWellFormed]
  | cons v items ih => simp [areWellFormed, ih]

theorem haveWellFormed_iff (fields : List (String × Value)) :
    haveWellFormed fields = true ↔ ∀ f ∈ fields, f.2.isWellFormed = true := by
  induction fields with
  | nil => simp [haveWellFormed]
  | cons f fields ih => simp [haveWellFormed, ih]

end Value

namespace Document

-- What is read again as it was written.
def Lasts (d : Document) : Prop := d.isJson = true ∧ d.isUntagged = true

theorem areJson_iff (ds : List Document) : areJson ds = true ↔ ∀ d ∈ ds, d.isJson = true := by
  induction ds with
  | nil => simp [areJson]
  | cons d ds ih => simp [areJson, ih]

theorem areUntagged_iff (ds : List Document) :
    areUntagged ds = true ↔ ∀ d ∈ ds, d.isUntagged = true := by
  induction ds with
  | nil => simp [areUntagged]
  | cons d ds ih => simp [areUntagged, ih]

theorem haveJson_iff (fields : List (String × Document)) :
    haveJson fields = true ↔ ∀ f ∈ fields, f.2.isJson = true := by
  induction fields with
  | nil => simp [haveJson]
  | cons f fields ih => simp [haveJson, ih]

theorem haveUntagged_iff (fields : List (String × Document)) :
    haveUntagged fields = true ↔ ∀ f ∈ fields, f.2.isUntagged = true := by
  induction fields with
  | nil => simp [haveUntagged]
  | cons f fields ih => simp [haveUntagged, ih]

theorem Lasts.list {α : Type} {write : α → Document} {as : List α}
    (h : ∀ a ∈ as, (write a).Lasts) : (list (as.map write)).Lasts :=
  ⟨(areJson_iff _).mpr (List.forall_mem_map.mpr fun a ha => (h a ha).1),
    (areUntagged_iff _).mpr (List.forall_mem_map.mpr fun a ha => (h a ha).2)⟩

-- A record lasts if its fields do; their names have to be different, and none may be that of a tag.
theorem Lasts.record {fields : List (String × Document)} (hnames : (fields.map (·.1)).Nodup)
    (htag : Json.dateTag ∉ fields.map (·.1)) (h : ∀ f ∈ fields, f.2.Lasts) :
    (record fields).Lasts := by
  constructor
  · rw [isJson, Bool.and_eq_true, decide_eq_true_eq, haveJson_iff]
    exact ⟨hnames, fun f hf => (h f hf).1⟩
  · rw [isUntagged, Bool.and_eq_true, Bool.not_eq_true', haveUntagged_iff]
    exact ⟨by simpa using htag, fun f hf => (h f hf).2⟩

-- A field that has a value is written.
theorem toFields_cons_of_isNull {key : String} {d : Document} {rest : List (String × Document)}
    (h : d.isNull = false) :
    toFields .wire ((key, d) :: rest) = (key, d.toValue .wire) :: toFields .wire rest := by
  rw [toFields, h]
  rfl

theorem lasts_leaf {v : Value} (h : v.isPlain = true) : (leaf v).Lasts := ⟨h, rfl⟩

theorem lasts_text (s : String) : (text s).Lasts := lasts_leaf rfl

theorem lasts_optional {α : Type} {write : α → Document} {o : Option α}
    (h : ∀ a, o = some a → (write a).Lasts) : (optional write o).Lasts := by
  cases o with
  | none => exact lasts_leaf rfl
  | some a => exact h a rfl

end Document

open Document

section

theorem TextMatcher.isUntagged (m : TextMatcher) : m.document.isUntagged = true := by
  cases m <;> rfl

-- What is legible is not taken for a moment.
theorem Selector.isUntagged {s : Selector} (h : s.isLegible = true) :
    s.document.isUntagged = true := by
  cases s with
  | query q => rfl
  | tagName n => rfl
  | textContent m => cases m <;> rfl
  | attributes ms =>
    have hentries : ∀ write : String × TextMatcher → String × Document,
        (∀ m, write m = (m.1, m.2.document)) →
          isTag (ms.map write) = false ∧ haveUntagged (ms.map write) = true := by
      intro write hwrite
      refine ⟨?_, ?_⟩
      · rcases ms with _ | ⟨⟨name, m⟩, _ | ⟨_, _⟩⟩
        · rfl
        · rw [List.map_singleton, hwrite]
          cases m with
          | containing p => rfl
          | exactly s =>
            have hname : name ≠ Json.dateTag := by simpa [isLegible] using h
            exact beq_false_of_ne hname
        · rw [List.map_cons, List.map_cons, hwrite]
          cases m <;> rfl
      · rw [haveUntagged_iff, List.forall_mem_map]
        intro m _
        rw [hwrite]
        exact m.2.isUntagged
    obtain ⟨htag, huntagged⟩ := hentries _ fun _ => rfl
    simp [document, Document.isUntagged, haveUntagged, htag, huntagged, Document.text,
      Json.dateTag]

theorem Selectors.isUntagged {ss : Selectors} (h : Selectors.isLegible ss = true) :
    (Selectors.document ss).isUntagged = true := by
  rw [document, Document.isUntagged, areUntagged_iff, List.forall_mem_map]
  exact fun s hs => Selector.isUntagged (List.all_eq_true.mp h s hs)

theorem Source.isUntagged {s : Source} (h : s.isLegible = true) : s.document.isUntagged = true := by
  cases s with
  | literal t => rfl
  | null => rfl
  | currentTimestamp => rfl
  | externalData key default => cases default <;> rfl
  | elementText ss page =>
    cases page <;> exact Bool.and_eq_true_iff.mpr ⟨Selectors.isUntagged h, rfl⟩
  | elementAttribute ss name page =>
    cases page <;> exact Bool.and_eq_true_iff.mpr ⟨Selectors.isUntagged h, rfl⟩

theorem Condition.isUntagged {c : Condition} (h : c.isLegible = true) :
    c.document.isUntagged = true := by
  cases c with
  | isVisible ss page =>
    cases page <;> exact Bool.and_eq_true_iff.mpr ⟨Selectors.isUntagged h, rfl⟩
  | textEquals source m =>
    have hm : (m.document.isUntagged && true) = true := by rw [m.isUntagged, Bool.true_and]
    exact Bool.and_eq_true_iff.mpr ⟨Source.isUntagged h, hm⟩

theorem BatchItem.isUntagged {i : BatchItem} (h : i.isLegible = true) :
    i.document.isUntagged = true :=
  Bool.and_eq_true_iff.mpr ⟨Source.isUntagged h, rfl⟩

theorem Action.isUntagged {a : Action} (h : a.isLegible = true) :
    a.document.isUntagged = true := by
  cases a with
  | wait duration => rfl
  | navigate url => rfl
  | click ss waits => exact Bool.and_eq_true_iff.mpr ⟨Selectors.isUntagged h, rfl⟩
  | type ss value clears enters waits =>
    obtain ⟨hss, hvalue⟩ := Bool.and_eq_true_iff.mp h
    exact Bool.and_eq_true_iff.mpr
      ⟨Selectors.isUntagged hss, Bool.and_eq_true_iff.mpr ⟨Source.isUntagged hvalue, rfl⟩⟩
  | scrollToTop => rfl
  | scrollToBottom => rfl
  | scrollToElement ss => exact Bool.and_eq_true_iff.mpr ⟨Selectors.isUntagged h, rfl⟩
  | evaluate code arguments =>
    have harguments : (Document.list (arguments.map Source.document)).isUntagged = true := by
      rw [Document.isUntagged, areUntagged_iff, List.forall_mem_map]
      exact fun s hs => Source.isUntagged (List.all_eq_true.mp h s hs)
    exact Bool.and_eq_true_iff.mpr ⟨harguments, rfl⟩

end

section

variable {α : Type} {check : Value → Checked α} {write : α → Document}

-- What a check takes from data can be written as JSON.
def WritesJson (check : Value → Checked α) (write : α → Document) : Prop :=
  ∀ ⦃v a⦄, v.isWellFormed = true → check v = .valid a → (write a).isJson = true

theorem wellFormed_of_find? {fields : List (String × Value)} {key used : String}
    {found : { v : Value // sizeOf v < sizeOf fields }}
    (hf : Value.haveWellFormed fields = true) (h : find? fields key = some (used, found)) :
    found.1.isWellFormed = true := by
  have hfound : ∃ name, Fields.get? fields name = some found.1 := by
    have hcases := find?_cases fields key
    rw [h, Option.map_some] at hcases
    split at hcases
    · next v hv =>
      cases hcases
      exact ⟨_, hv⟩
    · obtain ⟨v, hv, heq⟩ := Option.map_eq_some_iff.mp hcases.symm
      cases heq
      exact ⟨_, hv⟩
  obtain ⟨name, hname⟩ := hfound
  obtain ⟨field, hfield, heq⟩ := Option.map_eq_some_iff.mp hname
  exact heq ▸ (Value.haveWellFormed_iff fields).mp hf field (List.mem_of_find?_eq_some hfield)

-- A part of data that is taken has been data itself.
theorem requiredPart_wellFormed {fields : List (String × Value)} {key : String}
    {check : (v : Value) → sizeOf v < sizeOf fields → Checked α} {a : α}
    (hf : Value.haveWellFormed fields = true) (h : requiredPart fields key check = .valid a) :
    ∃ v hv, v.isWellFormed = true ∧ check v hv = .valid a := by
  unfold requiredPart at h
  split at h
  · next hfind => exact ⟨_, _, wellFormed_of_find? hf hfind, Checked.under_eq_valid h⟩
  · cases h

theorem optionalPart_wellFormed {fields : List (String × Value)} {key : String} {default : α}
    {check : (v : Value) → sizeOf v < sizeOf fields → Checked α} {a : α}
    (hf : Value.haveWellFormed fields = true)
    (h : optionalPart fields key default check = .valid a) :
    a = default ∨ ∃ v hv, v.isWellFormed = true ∧ check v hv = .valid a := by
  unfold optionalPart at h
  split at h
  · next hfind => exact .inr ⟨_, _, wellFormed_of_find? hf hfind, Checked.under_eq_valid h⟩
  · cases h
    exact .inl rfl

theorem itemsPart_wellFormed {v : Value} {check : (x : Value) → sizeOf x < sizeOf v → Checked α}
    {xs : List α} (hv : v.isWellFormed = true) (h : itemsPart v check = .valid xs) :
    ∀ x ∈ xs, ∃ y hy, y.isWellFormed = true ∧ check y hy = .valid x := by
  cases v with
  | list items =>
    intro x hx
    obtain ⟨⟨y, hy⟩, -, hvalid⟩ := List.mem_map.mp (Checked.ofItems_eq_valid h x hx)
    exact ⟨y, _, (Value.areWellFormed_iff items).mp hv y hy, hvalid⟩
  | _ => cases h

theorem WritesJson.required (hc : WritesJson check write) {fields : List (String × Value)}
    {key : String} {a : α} (hf : Value.haveWellFormed fields = true)
    (h : required fields key check = .valid a) :
    (write a).isJson = true := by
  obtain ⟨v, -, hv, hvalid⟩ := requiredPart_wellFormed hf h
  exact hc hv hvalid

theorem WritesJson.items (hc : WritesJson check write) :
    WritesJson (items check) fun as => .list (as.map write) := by
  intro v as hv h
  rw [Document.isJson, areJson_iff, List.forall_mem_map]
  intro a ha
  obtain ⟨y, -, hy, hvalid⟩ := itemsPart_wellFormed hv h a ha
  exact hc hy hvalid

theorem Checked.ofEntries_names {cs : List (String × Checked α)} {ms : List (String × α)}
    (h : Checked.ofEntries cs = .valid ms) : ms.map (·.1) = cs.map (·.1) := by
  induction cs generalizing ms with
  | nil =>
    cases h
    rfl
  | cons c cs ih =>
    obtain ⟨_, more, hfirst, hmore, rfl⟩ := Checked.ap_eq_valid h
    obtain ⟨a, -, rfl⟩ := Checked.map_eq_valid hfirst
    rw [List.map_cons, List.map_cons, ih hmore]

theorem entries_names {v : Value} {ms : List (String × α)} (h : entries check v = .valid ms) :
    ∃ fields, v = .object fields ∧ ms.map (·.1) = fields.map (·.1) := by
  cases v with
  | object fields =>
    refine ⟨fields, rfl, (Checked.ofEntries_names h).trans ?_⟩
    rw [List.map_map]
    rfl
  | _ => cases h

end

theorem wellFormed_fields {v : Value} {fields : List (String × Value)} (h : v = .object fields)
    (hv : v.isWellFormed = true) : Value.haveWellFormed fields = true := by
  subst h
  exact (Bool.and_eq_true_iff.mp hv).2

theorem TextMatcher.isJson_document (m : TextMatcher) : m.document.isJson = true := by
  cases m <;> rfl

-- Attributes keep their names, and those are different.
theorem Selector.writesJson_matchers :
    WritesJson matchers fun ms => .entries (ms.map fun m => (m.1, m.2.document)) := by
  intro v ms hv h
  obtain ⟨ns, hns, hms⟩ := Checked.andThen_eq_valid h
  split at hms
  · cases hms
  · cases hms
    obtain ⟨fields, rfl, hsame⟩ := entries_names hns
    rw [Value.isWellFormed, Bool.and_eq_true, decide_eq_true_eq, ← hsame] at hv
    rw [Document.isJson, Bool.and_eq_true, decide_eq_true_eq, haveJson_iff, List.map_map,
      List.forall_mem_map]
    exact ⟨hv.1, fun m _ => m.2.isJson_document⟩

theorem Selector.writesJson : WritesJson check document := by
  intro v s hv h
  obtain ⟨kind, fields, -, hobject, -, -, h⟩ := tagged_found h
  have hfields := wellFormed_fields hobject hv
  split at h
  · obtain ⟨q, -, rfl⟩ := Checked.map_eq_valid h
    rfl
  · obtain ⟨n, -, rfl⟩ := Checked.map_eq_valid h
    rfl
  · obtain ⟨m, -, rfl⟩ := Checked.map_eq_valid h
    cases m <;> rfl
  · obtain ⟨ms, hms, rfl⟩ := Checked.map_eq_valid h
    have hms := writesJson_matchers.required hfields hms
    simpa [document, Document.isJson, haveJson, Document.text, Value.isPlain] using hms

theorem Selectors.writesJson : WritesJson check document := by
  intro v ss hv h
  obtain ⟨_, hfilled, hdiffer⟩ := Checked.andThen_eq_valid h
  split at hdiffer
  · cases hdiffer
    exact Selector.writesJson.items hv (nonEmpty_eq_valid hfilled).1
  · cases hdiffer

theorem Source.writesJson : WritesJson check document := by
  intro v s hv h
  obtain ⟨kind, fields, -, hobject, -, -, h⟩ := tagged_found h
  have hfields := wellFormed_fields hobject hv
  split at h
  · obtain ⟨t, -, rfl⟩ := Checked.map_eq_valid h
    rfl
  · cases h
    rfl
  · cases h
    rfl
  · obtain ⟨_, default, hfirst, -, rfl⟩ := Checked.ap_eq_valid h
    obtain ⟨key, -, rfl⟩ := Checked.map_eq_valid hfirst
    cases default <;> rfl
  · obtain ⟨_, page, hfirst, -, rfl⟩ := Checked.ap_eq_valid h
    obtain ⟨ss, hss, rfl⟩ := Checked.map_eq_valid hfirst
    have hss := Selectors.writesJson.required hfields hss
    cases page <;> exact Bool.and_eq_true_iff.mpr ⟨hss, rfl⟩
  · obtain ⟨_, page, hfirst, -, rfl⟩ := Checked.ap_eq_valid h
    obtain ⟨_, name, hsecond, -, rfl⟩ := Checked.ap_eq_valid hfirst
    obtain ⟨ss, hss, rfl⟩ := Checked.map_eq_valid hsecond
    have hss := Selectors.writesJson.required hfields hss
    cases page <;> exact Bool.and_eq_true_iff.mpr ⟨hss, rfl⟩

theorem Condition.writesJson : WritesJson check document := by
  intro v c hv h
  obtain ⟨kind, fields, -, hobject, -, -, h⟩ := tagged_found h
  have hfields := wellFormed_fields hobject hv
  split at h
  · obtain ⟨_, page, hfirst, -, rfl⟩ := Checked.ap_eq_valid h
    obtain ⟨ss, hss, rfl⟩ := Checked.map_eq_valid hfirst
    have hss := Selectors.writesJson.required hfields hss
    cases page <;> exact Bool.and_eq_true_iff.mpr ⟨hss, rfl⟩
  · obtain ⟨_, m, hfirst, -, rfl⟩ := Checked.ap_eq_valid h
    obtain ⟨source, hsource, rfl⟩ := Checked.map_eq_valid hfirst
    have hm : (m.document.isJson && true) = true := by rw [m.isJson_document, Bool.true_and]
    exact Bool.and_eq_true_iff.mpr ⟨Source.writesJson.required hfields hsource, hm⟩

theorem BatchItem.writesJson : WritesJson check document := by
  intro v i hv h
  obtain ⟨fields, -, hobject, h⟩ := model_found h
  have hfields := wellFormed_fields hobject hv
  obtain ⟨_, source, hfirst, hsource, rfl⟩ := Checked.ap_eq_valid h
  obtain ⟨column, -, rfl⟩ := Checked.map_eq_valid hfirst
  exact Bool.and_eq_true_iff.mpr ⟨Source.writesJson.required hfields hsource, rfl⟩

theorem Action.writesJson : WritesJson check document := by
  intro v a hv h
  obtain ⟨kind, fields, -, hobject, -, -, h⟩ := tagged_found h
  have hfields := wellFormed_fields hobject hv
  split at h
  · obtain ⟨n, -, rfl⟩ := Checked.map_eq_valid h
    rfl
  · obtain ⟨url, -, rfl⟩ := Checked.map_eq_valid h
    rfl
  · obtain ⟨_, waits, hfirst, -, rfl⟩ := Checked.ap_eq_valid h
    obtain ⟨ss, hss, rfl⟩ := Checked.map_eq_valid hfirst
    exact Bool.and_eq_true_iff.mpr ⟨Selectors.writesJson.required hfields hss, rfl⟩
  · obtain ⟨_, waits, h₄, -, rfl⟩ := Checked.ap_eq_valid h
    obtain ⟨_, enters, h₃, -, rfl⟩ := Checked.ap_eq_valid h₄
    obtain ⟨_, clears, h₂, -, rfl⟩ := Checked.ap_eq_valid h₃
    obtain ⟨_, value, h₁, hvalue, rfl⟩ := Checked.ap_eq_valid h₂
    obtain ⟨ss, hss, rfl⟩ := Checked.map_eq_valid h₁
    have hvalue := Source.writesJson.required hfields hvalue
    exact Bool.and_eq_true_iff.mpr ⟨Selectors.writesJson.required hfields hss,
      Bool.and_eq_true_iff.mpr ⟨hvalue, rfl⟩⟩
  · cases h
    rfl
  · cases h
    rfl
  · obtain ⟨ss, hss, rfl⟩ := Checked.map_eq_valid h
    exact Bool.and_eq_true_iff.mpr ⟨Selectors.writesJson.required hfields hss, rfl⟩
  · obtain ⟨_, arguments, hfirst, harguments, rfl⟩ := Checked.ap_eq_valid h
    obtain ⟨code, -, rfl⟩ := Checked.map_eq_valid hfirst
    have hwritten : (Document.list (arguments.map Source.document)).isJson = true := by
      obtain rfl | ⟨w, -, hw, hitems⟩ := optionalPart_wellFormed hfields harguments
      · rfl
      · exact Source.writesJson.items hw hitems
    exact Bool.and_eq_true_iff.mpr ⟨hwritten, rfl⟩

theorem Instruction.writesJson ⦃v : Value⦄ ⦃i : Instruction⦄ (hv : v.isWellFormed = true)
    (h : check v = .valid i) : i.document.isJson = true := by
  rw [check] at h
  obtain ⟨kind, fields, hsize, hobject, -, -, h⟩ := tagged_found h
  have hfields := wellFormed_fields hobject hv
  split at h
  · obtain ⟨_, action, hfirst, haction, rfl⟩ := Checked.ap_eq_valid h
    obtain ⟨page, -, rfl⟩ := Checked.map_eq_valid hfirst
    exact Bool.and_eq_true_iff.mpr ⟨Action.writesJson.required hfields haction, rfl⟩
  · obtain ⟨_, alternative, hfirst, halternative, rfl⟩ := Checked.ap_eq_valid h
    obtain ⟨_, consequent, hsecond, hconsequent, rfl⟩ := Checked.ap_eq_valid hfirst
    obtain ⟨test, htest, rfl⟩ := Checked.map_eq_valid hsecond
    -- the steps of both branches are smaller parts of the same data
    have hsteps : ∀ {w : Value} {is : List Instruction}, sizeOf w < sizeOf v →
        w.isWellFormed = true → (itemsPart w fun x _ => check x) = .valid is →
        (Document.list (documents is)).isJson = true := by
      intro w is hw hwell hitems
      rw [documents_eq_map, Document.isJson, areJson_iff, List.forall_mem_map]
      intro i hi
      obtain ⟨x, hx, hxwell, hvalid⟩ := itemsPart_wellFormed hwell hitems i hi
      exact writesJson hxwell hvalid
    obtain ⟨w, hw, hwell, hthen⟩ := requiredPart_wellFormed hfields hconsequent
    have hthen := hsteps (Nat.lt_trans hw hsize) hwell hthen
    have helse : (alternativeDocument alternative).isJson = true := by
      obtain rfl | ⟨w, hw, hwell, hgiven⟩ := optionalPart_wellFormed hfields halternative
      · rfl
      · split at hgiven
        · cases hgiven
          rfl
        · obtain ⟨is, hitems, rfl⟩ := Checked.map_eq_valid hgiven
          exact hsteps (Nat.lt_trans hw hsize) hwell hitems
    exact Bool.and_eq_true_iff.mpr ⟨Condition.writesJson.required hfields htest,
      Bool.and_eq_true_iff.mpr ⟨hthen, Bool.and_eq_true_iff.mpr ⟨helse, rfl⟩⟩⟩
  · obtain ⟨_, value, hfirst, hvalue, rfl⟩ := Checked.ap_eq_valid h
    obtain ⟨key, -, rfl⟩ := Checked.map_eq_valid hfirst
    exact Bool.and_eq_true_iff.mpr ⟨Source.writesJson.required hfields hvalue, rfl⟩
  · obtain ⟨_, batch, hfirst, hbatch, rfl⟩ := Checked.ap_eq_valid h
    obtain ⟨source, -, rfl⟩ := Checked.map_eq_valid hfirst
    exact Bool.and_eq_true_iff.mpr ⟨BatchItem.writesJson.items.required hfields hbatch, rfl⟩
  · obtain ⟨source, -, rfl⟩ := Checked.map_eq_valid h
    rfl
  · obtain ⟨name, -, rfl⟩ := Checked.map_eq_valid h
    rfl
  · obtain ⟨name, -, rfl⟩ := Checked.map_eq_valid h
    rfl
termination_by sizeOf v

-- An instruction of a script that was taken, and that lasts when it is written.
structure Instruction.Lasts (i : Instruction) : Prop where
  checked : ∃ v, check v = .valid i
  json : i.document.isJson = true
  legible : i.isLegible = true

namespace Instruction

-- The steps of both branches of a condition have been taken too.
theorem check_branches {v : Value} {test : Condition} {consequent : List Instruction}
    {alternative : Option (List Instruction)}
    (h : check v = .valid (.condition test consequent alternative)) :
    (∀ i ∈ consequent, ∃ u, check u = .valid i) ∧
      ∀ is, alternative = some is → ∀ i ∈ is, ∃ u, check u = .valid i := by
  rw [check] at h
  obtain ⟨kind, fields, -, h⟩ := tagged_eq_valid h
  split at h
  · obtain ⟨_, action, hfirst, -, heq⟩ := Checked.ap_eq_valid h
    obtain ⟨page, -, rfl⟩ := Checked.map_eq_valid hfirst
    cases heq
  · obtain ⟨_, branch, hfirst, hbranch, heq⟩ := Checked.ap_eq_valid h
    obtain ⟨_, steps, hsecond, hsteps, rfl⟩ := Checked.ap_eq_valid hfirst
    obtain ⟨_, -, rfl⟩ := Checked.map_eq_valid hsecond
    cases heq
    constructor
    · obtain ⟨w, -, hitems⟩ := requiredPart_eq_valid hsteps
      intro i hi
      obtain ⟨u, -, hu⟩ := itemsPart_eq_valid hitems i hi
      exact ⟨u, hu⟩
    · rintro is rfl i hi
      obtain hnone | ⟨w, -, hgiven⟩ := optionalPart_eq_valid hbranch
      · cases hnone
      · split at hgiven
        · cases hgiven
        · obtain ⟨_, hitems, hsome⟩ := Checked.map_eq_valid hgiven
          cases hsome
          obtain ⟨u, -, hu⟩ := itemsPart_eq_valid hitems i hi
          exact ⟨u, hu⟩
  · obtain ⟨_, value, hfirst, -, heq⟩ := Checked.ap_eq_valid h
    obtain ⟨key, -, rfl⟩ := Checked.map_eq_valid hfirst
    cases heq
  · obtain ⟨_, batch, hfirst, -, heq⟩ := Checked.ap_eq_valid h
    obtain ⟨source, -, rfl⟩ := Checked.map_eq_valid hfirst
    cases heq
  · obtain ⟨source, -, heq⟩ := Checked.map_eq_valid h
    cases heq
  · obtain ⟨name, -, heq⟩ := Checked.map_eq_valid h
    cases heq
  · obtain ⟨name, -, heq⟩ := Checked.map_eq_valid h
    cases heq

theorem Lasts.of_list {is : List Instruction} (hchecked : ∀ i ∈ is, ∃ u, check u = .valid i)
    (hjson : Document.areJson (documents is) = true) (hlegible : areLegible is = true) :
    ∀ i ∈ is, i.Lasts := by
  rw [documents_eq_map, areJson_iff, List.forall_mem_map] at hjson
  rw [areLegible_eq_all, List.all_eq_true] at hlegible
  exact fun i hi => ⟨hchecked i hi, hjson i hi, hlegible i hi⟩

mutual

theorem Lasts.parts : ∀ {i : Instruction}, i.Lasts → ∀ p ∈ i.parts, p.Lasts
  | .condition test consequent alternative, h => by
    obtain ⟨v, hv⟩ := h.checked
    obtain ⟨hthen, helse⟩ := check_branches hv
    have hlegible := h.legible
    rw [isLegible, Bool.and_eq_true, Bool.and_eq_true] at hlegible
    have hjson := h.json
    simp only [document, Document.isJson, Document.haveJson, Bool.and_eq_true] at hjson
    rw [Instruction.parts, List.forall_mem_cons, List.forall_mem_append]
    refine ⟨h, lasts_partsOfList (Lasts.of_list hthen hjson.2.2.2.1 hlegible.1.2), ?_⟩
    exact lasts_partsOfBranch fun is his => by
      subst his
      exact Lasts.of_list (helse is rfl) hjson.2.2.2.2.1 hlegible.2
  | .pageAction _ _, h | .saveData _ _, h | .saveDataBatch _ _, h | .deleteData _, h
  | .marker _, h | .jump _, h => by
    intro p hp
    rw [List.mem_singleton.mp hp]
    exact h

theorem lasts_partsOfList : ∀ {is : List Instruction}, (∀ i ∈ is, i.Lasts) →
    ∀ p ∈ partsOfList is, p.Lasts
  | [], _ => nofun
  | i :: rest, h => by
    rw [List.forall_mem_cons] at h
    rw [partsOfList, List.forall_mem_append]
    exact ⟨h.1.parts, lasts_partsOfList h.2⟩

theorem lasts_partsOfBranch : ∀ {alternative : Option (List Instruction)},
    (∀ is, alternative = some is → ∀ i ∈ is, i.Lasts) →
    ∀ p ∈ partsOfBranch alternative, p.Lasts
  | none, _ => nofun
  | some is, h => lasts_partsOfList (h is rfl)

end

end Instruction

namespace InstructionInfo

-- What is recorded of an instruction is taken again, whatever has come of the instruction.
theorem check_wire {v : Value} {i : Instruction} {info : InstructionInfo}
    (h : Instruction.check v = .valid i) (hinfo : info.bare = ofInstruction i) :
    check (info.document.toValue .wire) = .valid info := by
  rw [Instruction.check] at h
  obtain ⟨kind, fields, -, h⟩ := tagged_eq_valid h
  split at h
  · obtain ⟨_, action, hfirst, haction, rfl⟩ := Checked.ap_eq_valid h
    obtain ⟨page, -, rfl⟩ := Checked.map_eq_valid hfirst
    cases info <;> cases hinfo
    next success error =>
      have haction := Action.stable.required haction
      cases error with
      | none =>
        change (pageAction <$> .valid page <*> (Action.check (action.document.toValue .wire)).under _ <*>
          .valid success <*> .valid none).under _ = _
        rw [haction]
        rfl
      | some message =>
        change (pageAction <$> .valid page <*> (Action.check (action.document.toValue .wire)).under _ <*>
          .valid success <*> .valid (some message)).under _ = _
        rw [haction]
        rfl
  · obtain ⟨_, alternative, hfirst, -, rfl⟩ := Checked.ap_eq_valid h
    obtain ⟨_, consequent, hsecond, -, rfl⟩ := Checked.ap_eq_valid hfirst
    obtain ⟨test, htest, rfl⟩ := Checked.map_eq_valid hsecond
    cases info <;> cases hinfo
    next isMet =>
      change (condition <$> (Condition.check (test.document.toValue .wire)).under _ <*>
        .valid isMet).under _ = _
      rw [Condition.stable.required htest]
      rfl
  · obtain ⟨_, value, hfirst, hvalue, rfl⟩ := Checked.ap_eq_valid h
    obtain ⟨key, -, rfl⟩ := Checked.map_eq_valid hfirst
    cases info <;> cases hinfo
    change (saveData <$> .valid key <*>
      (Source.check (value.document.toValue .wire)).under _).under _ = _
    rw [Source.stable.required hvalue]
    rfl
  · obtain ⟨_, batch, hfirst, hbatch, rfl⟩ := Checked.ap_eq_valid h
    obtain ⟨source, -, rfl⟩ := Checked.map_eq_valid hfirst
    cases info <;> cases hinfo
    have hbatch := (stable_items BatchItem.stable).required hbatch
    rw [← Document.toValue_list_map] at hbatch
    change (saveDataBatch <$> .valid source <*>
      (items BatchItem.check ((Document.list (batch.map BatchItem.document)).toValue .wire)).under _
        ).under _ = _
    rw [hbatch]
    rfl
  · obtain ⟨source, -, rfl⟩ := Checked.map_eq_valid h
    cases info <;> cases hinfo
    rfl
  · obtain ⟨name, -, rfl⟩ := Checked.map_eq_valid h
    cases info <;> cases hinfo
    rfl
  · obtain ⟨name, -, rfl⟩ := Checked.map_eq_valid h
    cases info <;> cases hinfo
    rfl

theorem isNull_document (info : InstructionInfo) : info.document.isNull = false := by
  cases info <;> rfl

theorem lasts_document {i : Instruction} {info : InstructionInfo} (h : i.Lasts)
    (hinfo : info.bare = ofInstruction i) : info.document.Lasts := by
  have hjson := h.json
  have hlegible := h.legible
  cases i with
  | pageAction page action =>
    simp only [Instruction.document, Document.isJson, Document.haveJson, Bool.and_eq_true] at hjson
    obtain ⟨-, -, hpage, haction, -⟩ := hjson
    cases info <;> cases hinfo
    refine .record (by simp) (by simp [Json.dateTag]) ?_
    simp only [List.forall_mem_cons]
    exact ⟨lasts_text _, lasts_leaf hpage, ⟨haction, Action.isUntagged hlegible⟩, lasts_leaf rfl,
      lasts_optional fun message _ => lasts_text message, nofun⟩
  | condition test consequent alternative =>
    simp only [Instruction.document, Document.isJson, Document.haveJson, Bool.and_eq_true] at hjson
    rw [Instruction.isLegible, Bool.and_eq_true, Bool.and_eq_true] at hlegible
    obtain ⟨-, -, htest, -⟩ := hjson
    cases info <;> cases hinfo
    refine .record (by simp) (by simp [Json.dateTag]) ?_
    simp only [List.forall_mem_cons]
    exact ⟨lasts_text _, ⟨htest, Condition.isUntagged hlegible.1.1⟩, lasts_leaf rfl, nofun⟩
  | saveData key value =>
    simp only [Instruction.document, Document.isJson, Document.haveJson, Bool.and_eq_true] at hjson
    obtain ⟨-, -, -, hvalue, -⟩ := hjson
    cases info <;> cases hinfo
    refine .record (by simp) (by simp [Json.dateTag]) ?_
    simp only [List.forall_mem_cons]
    exact ⟨lasts_text _, lasts_text _, ⟨hvalue, Source.isUntagged hlegible⟩, nofun⟩
  | saveDataBatch source items =>
    simp only [Instruction.document, Document.isJson, Document.haveJson, Bool.and_eq_true] at hjson
    obtain ⟨-, -, -, hitems, -⟩ := hjson
    rw [areJson_iff, List.forall_mem_map] at hitems
    cases info <;> cases hinfo
    refine .record (by simp) (by simp [Json.dateTag]) ?_
    simp only [List.forall_mem_cons]
    exact ⟨lasts_text _, lasts_text _, .list fun i hi =>
      ⟨hitems i hi, BatchItem.isUntagged (List.all_eq_true.mp hlegible i hi)⟩, nofun⟩
  | deleteData source =>
    cases info <;> cases hinfo
    exact ⟨rfl, rfl⟩
  | marker name =>
    cases info <;> cases hinfo
    exact ⟨rfl, rfl⟩
  | jump name =>
    cases info <;> cases hinfo
    exact ⟨rfl, rfl⟩

end InstructionInfo

-- What a run can have got from a data store: nothing, a text or a finite number.
def Value.isDatum : Value → Bool
  | .null | .int _ | .text _ => true
  | .float x => x.isFinite
  | _ => false

theorem Value.isPlain_of_isDatum {v : Value} (h : v.isDatum = true) : v.isPlain = true := by
  cases v with
  | null | int | text | float => rfl
  | _ => cases h

namespace PageUrl

theorem isNull_document (url : PageUrl) : url.document.isNull = false := by cases url <;> rfl

theorem nullable_wire (url : PageUrl) :
    nullable check (url.document.toValue .wire) = .valid (some url) := by
  cases url with
  | same url => rfl
  | changed before after => cases before <;> cases after <;> rfl

theorem lasts_document (url : PageUrl) : url.document.Lasts := by
  cases url with
  | same url => exact lasts_text url
  | changed before after => cases before <;> cases after <;> exact ⟨rfl, rfl⟩

end PageUrl

namespace Operation

theorem isNull_document (op : Operation) : op.document.isNull = false := by cases op <;> rfl

-- The data of an operation.
def data : Operation → List Value
  | get _ returned _ => [returned]
  | set _ value _ => [value]
  | setMany _ items _ => items.map (·.2)
  | delete .. => []

theorem checkItem_wire {i : String × Datum} (h : Value.isDatum i.2 = true) :
    checkItem ((itemDocument i).toValue .wire) = .valid i := by
  obtain ⟨column, value⟩ := i
  cases value with
  | null | text | int | float => rfl
  | _ => cases h

theorem check_wire {op : Operation} (h : ∀ v ∈ op.data, v.isDatum = true) :
    check (op.document.toValue .wire) = .valid op := by
  cases op with
  | get key returned error =>
    have hreturned := h returned List.mem_cons_self
    cases returned with
    | null | text | int | float => cases error <;> rfl
    | _ => cases hreturned
  | set key value error =>
    have hvalue := h value List.mem_cons_self
    cases value with
    | null | text | int | float => cases error <;> rfl
    | _ => cases hvalue
  | setMany source items error =>
    have hitems : Validation.items checkItem
        ((Document.list (items.map itemDocument)).toValue .wire) = .valid items := by
      rw [Document.toValue_list_map]
      exact items_written fun i hi => checkItem_wire (h i.2 (List.mem_map_of_mem hi))
    cases error with
    | none =>
      change (setMany <$> .valid source <*> (Validation.items checkItem
        ((Document.list (items.map itemDocument)).toValue .wire)).under _ <*> .valid none).under _ = _
      rw [hitems]
      rfl
    | some message =>
      change (setMany <$> .valid source <*> (Validation.items checkItem
        ((Document.list (items.map itemDocument)).toValue .wire)).under _ <*>
          .valid (some message)).under _ = _
      rw [hitems]
      rfl
  | delete source error => cases error <;> rfl

theorem lasts_document {op : Operation} (h : ∀ v ∈ op.data, v.isDatum = true) :
    op.document.Lasts := by
  have herror : ∀ error : Option String, (Document.optional .text error).Lasts := fun error =>
    lasts_optional fun message _ => lasts_text message
  cases op with
  | get key returned error =>
    refine .record (by simp) (by simp [Json.dateTag]) ?_
    simp only [List.forall_mem_cons]
    exact ⟨lasts_text _, lasts_text _,
      lasts_leaf (Value.isPlain_of_isDatum (h returned List.mem_cons_self)), herror error, nofun⟩
  | set key value error =>
    refine .record (by simp) (by simp [Json.dateTag]) ?_
    simp only [List.forall_mem_cons]
    exact ⟨lasts_text _, lasts_text _,
      lasts_leaf (Value.isPlain_of_isDatum (h value List.mem_cons_self)), herror error, nofun⟩
  | setMany source items error =>
    have hitem : ∀ i ∈ items, (itemDocument i).Lasts := by
      intro i hi
      refine .record (by simp) (by simp [Json.dateTag]) ?_
      simp only [List.forall_mem_cons]
      exact ⟨lasts_text _,
        lasts_leaf (Value.isPlain_of_isDatum (h i.2 (List.mem_map_of_mem hi))), nofun⟩
    refine .record (by simp) (by simp [Json.dateTag]) ?_
    simp only [List.forall_mem_cons]
    exact ⟨lasts_text _, lasts_text _, .list hitem, herror error, nofun⟩
  | delete source error =>
    refine .record (by simp) (by simp [Json.dateTag]) ?_
    simp only [List.forall_mem_cons]
    exact ⟨lasts_text _, lasts_text _, herror error, nofun⟩

end Operation

-- An entry that is read again as it was written.
structure Entry.Lasts (e : Entry) : Prop where
  checked : Entry.check (e.document.toValue .wire) = .valid e
  lasts : e.document.Lasts

namespace Entry

theorem lasts_instruction {i : Instruction} {info : InstructionInfo} (h : i.Lasts)
    (hinfo : info.bare = .ofInstruction i) (url : Option PageUrl) (duration : Binary64) :
    (instruction info url duration).Lasts where
  checked := by
    obtain ⟨v, hv⟩ := h.checked
    have hcheck := InstructionInfo.check_wire hv hinfo
    rw [document, Document.toValue, toFields_cons_of_isNull rfl,
      toFields_cons_of_isNull info.isNull_document]
    cases url with
    | none =>
      change (instruction <$> (InstructionInfo.check (info.document.toValue .wire)).under _ <*>
        .valid none <*> .valid duration).under _ = _
      rw [hcheck]
      rfl
    | some url =>
      have hurl : nullable PageUrl.check (url.document.toValue .wire) = .valid (some url) :=
        url.nullable_wire
      rw [toFields_cons_of_isNull (show Document.isNull (.optional PageUrl.document (some url)) = false
        from url.isNull_document)]
      change (instruction <$> (InstructionInfo.check (info.document.toValue .wire)).under _ <*>
        (nullable PageUrl.check (url.document.toValue .wire)).under _ <*> .valid duration).under _ = _
      rw [hcheck, hurl]
      rfl
  lasts := by
    refine .record (by simp) (by simp [Json.dateTag]) ?_
    simp only [List.forall_mem_cons]
    exact ⟨lasts_text _, InstructionInfo.lasts_document h hinfo,
      lasts_optional fun url _ => url.lasts_document, lasts_leaf rfl, nofun⟩

theorem lasts_operation {op : Operation} (h : ∀ v ∈ op.data, v.isDatum = true) :
    (operation op).Lasts where
  checked := by
    rw [document, Document.toValue, toFields_cons_of_isNull rfl,
      toFields_cons_of_isNull op.isNull_document]
    change (operation <$> (Operation.check (op.document.toValue .wire)).under _).under _ = _
    rw [Operation.check_wire h]
    rfl
  lasts := by
    refine .record (by simp) (by simp [Json.dateTag]) ?_
    simp only [List.forall_mem_cons]
    exact ⟨lasts_text _, Operation.lasts_document h, nofun⟩

theorem checkSummary_wire {duration : Binary64} (h : duration.compareInt? 0 ≠ some .lt) :
    checkSummary ((summary duration).toValue .wire) = .valid duration := by
  have hduration : unsignedNumber (.float duration) = .valid duration := if_neg h
  change (unsignedNumber (.float duration)).under _ = _
  rw [hduration]
  rfl

theorem lasts_summary (duration : Binary64) : (summary duration).Lasts :=
  .record (by simp) (by simp [Json.dateTag]) (List.forall_mem_singleton.mpr (lasts_leaf rfl))

theorem lasts_success {duration : Binary64} (h : duration.compareInt? 0 ≠ some .lt) :
    (success duration).Lasts where
  checked := by
    change (success <$> (checkSummary ((summary duration).toValue .wire)).under _).under _ = _
    rw [checkSummary_wire h]
    rfl
  lasts := by
    refine .record (by simp) (by simp [Json.dateTag]) ?_
    simp only [List.forall_mem_cons]
    exact ⟨lasts_text _, lasts_summary duration, nofun⟩

theorem lasts_error (message : String) {duration : Binary64}
    (h : duration.compareInt? 0 ≠ some .lt) : (error message duration).Lasts where
  checked := by
    change (error <$> .valid message <*>
      (checkSummary ((summary duration).toValue .wire)).under _).under _ = _
    rw [checkSummary_wire h]
    rfl
  lasts := by
    refine .record (by simp) (by simp [Json.dateTag]) ?_
    simp only [List.forall_mem_cons]
    exact ⟨lasts_text _, lasts_text _, lasts_summary duration, nofun⟩

end Entry

namespace TraceLog

-- What is written of entries that last is read again, and nothing is lost.
theorem ofJson_toJson (indent : Option Nat) {entries : Array Entry}
    (h : ∀ e ∈ entries.toList, e.Lasts) :
    ∃ text, toJson indent entries = some text ∧ ofJson text = .ok entries := by
  have hlasts : (document entries).Lasts := .list fun e he => (h e he).lasts
  have hload := Document.load_wire indent hlasts.1 hlasts.2
  rw [Option.map_eq_some_iff] at hload
  obtain ⟨v, hv, hload⟩ := hload
  have hentries : Entry.checkAll (wire entries) = .valid entries.toList := by
    rw [wire, document, toValue_list_map]
    exact items_written fun e he => (h e he).checked
  refine ⟨Json.write indent v, by rw [toJson, wire, hv]; rfl, ?_⟩
  rw [wire] at hentries
  rw [ofJson, hload]
  simp only [Except.mapError, bind, Except.bind, hentries]

end TraceLog

end Gleaner
