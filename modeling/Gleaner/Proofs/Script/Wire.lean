import Gleaner.Proofs.Script.Kept

namespace Gleaner

open Validation

theorem TextMatcher.check_wire (m : TextMatcher) :
    TextMatcher.check (m.document.toValue .wire) = .valid m := by
  cases m <;> rfl

namespace Selector

def wireEntries (ms : List (String × TextMatcher)) : List (String × Value) :=
  ms.map fun (k, m) => (k, m.document.toValue .wire)

theorem stable_matchers : Stable matchers fun ms => .object (wireEntries ms) := by
  intro v ms h
  obtain ⟨ns, -, hns⟩ := Checked.andThen_eq_valid h
  have hentries : entries TextMatcher.check (.object (wireEntries ms)) = .valid ms :=
    entries_written (fun m : TextMatcher => m.document.toValue .wire) fun m _ => m.2.check_wire
  dsimp only
  rw [matchers, hentries]
  split at hns
  · cases hns
  · next hne =>
    cases hns
    exact if_neg hne

theorem attributes_wire (ms : List (String × TextMatcher)) :
    (attributes ms).document.toValue .wire =
      .object [("type", .text "attributes"), ("attributes", .object (wireEntries ms))] := by
  have hentries : Document.toEntries .wire (ms.map fun (k, m) => (k, m.document)) =
      wireEntries ms := by
    rw [Document.toEntries_map, List.map_map]
    rfl
  rw [← hentries]
  rfl

theorem stable : Stable check fun s => s.document.toValue .wire := by
  intro v s h
  obtain ⟨kind, fields, -, h⟩ := tagged_eq_valid h
  split at h
  · obtain ⟨q, hq, rfl⟩ := Checked.map_eq_valid h
    change (query <$> (filledText (.text q)).under _).under _ = _
    rw [stable_filledText.required hq]
    rfl
  · obtain ⟨n, hn, rfl⟩ := Checked.map_eq_valid h
    change (tagName <$> (filledText (.text n)).under _).under _ = _
    rw [stable_filledText.required hn]
    rfl
  · obtain ⟨m, -, rfl⟩ := Checked.map_eq_valid h
    cases m <;> rfl
  · obtain ⟨ms, hms, rfl⟩ := Checked.map_eq_valid h
    dsimp only
    rw [attributes_wire]
    change (attributes <$> (matchers (.object (wireEntries ms))).under _).under _ = _
    rw [stable_matchers.required hms]
    rfl

end Selector

theorem Selectors.stable : Stable Selectors.check Selectors.wire := by
  intro v ss h
  obtain ⟨_, hfilled, hdiffer⟩ := Checked.andThen_eq_valid h
  split at hdiffer
  · next hkinds =>
    cases hdiffer
    obtain ⟨hread, hne⟩ := nonEmpty_eq_valid hfilled
    have hitems : items Selector.check (Selectors.wire ss) = .valid ss := by
      rw [Selectors.wire, Selectors.document, Document.toValue_list_map]
      exact stable_items Selector.stable hread
    have hagain : nonEmpty (.valid ss) = .valid ss := if_neg (by simpa using hne)
    rw [Selectors.check, hitems, hagain]
    exact if_pos hkinds
  · cases hdiffer

def writePage : Option Nat → Value := writeOptional fun n => .int n

theorem stable_page : Stable (nullable checkPageIndex) writePage :=
  stable_nullable stable_pageIndex nofun

theorem Source.stable : Stable Source.check fun s => s.document.toValue .wire := by
  intro v s h
  obtain ⟨kind, fields, -, h⟩ := tagged_eq_valid h
  split at h
  · obtain ⟨t, -, rfl⟩ := Checked.map_eq_valid h
    rfl
  · cases h
    rfl
  · cases h
    rfl
  · obtain ⟨_, default, hfirst, -, rfl⟩ := Checked.ap_eq_valid h
    obtain ⟨key, hkey, rfl⟩ := Checked.map_eq_valid hfirst
    have hkey := stable_dataKey.required hkey
    cases default with
    | none =>
      change (externalData <$> (checkDataKey (.text key)).under _ <*> .valid none).under _ = _
      rw [hkey]
      rfl
    | some t =>
      change (externalData <$> (checkDataKey (.text key)).under _ <*> .valid (some t)).under _ = _
      rw [hkey]
      rfl
  · obtain ⟨_, page, hfirst, hpage, rfl⟩ := Checked.ap_eq_valid h
    obtain ⟨ss, hss, rfl⟩ := Checked.map_eq_valid hfirst
    have hss := Selectors.stable.required hss
    have hpage := stable_page.optional rfl hpage
    cases page with
    | none =>
      change (elementText <$> (Selectors.check ss.wire).under _ <*> .valid none).under _ = _
      rw [hss]
      rfl
    | some n =>
      change (elementText <$> (Selectors.check ss.wire).under _ <*>
        (nullable checkPageIndex (writePage (some n))).under _).under _ = _
      rw [hss, hpage]
      rfl
  · obtain ⟨_, page, hfirst, hpage, rfl⟩ := Checked.ap_eq_valid h
    obtain ⟨_, name, hsecond, hname, rfl⟩ := Checked.ap_eq_valid hfirst
    obtain ⟨ss, hss, rfl⟩ := Checked.map_eq_valid hsecond
    have hss := Selectors.stable.required hss
    have hname := stable_filledText.required hname
    have hpage := stable_page.optional rfl hpage
    cases page with
    | none =>
      change (elementAttribute <$> (Selectors.check ss.wire).under _ <*>
        (filledText (.text name)).under _ <*> .valid none).under _ = _
      rw [hss, hname]
      rfl
    | some n =>
      change (elementAttribute <$> (Selectors.check ss.wire).under _ <*>
        (filledText (.text name)).under _ <*>
          (nullable checkPageIndex (writePage (some n))).under _).under _ = _
      rw [hss, hname, hpage]
      rfl

theorem Condition.stable : Stable Condition.check fun c => c.document.toValue .wire := by
  intro v c h
  obtain ⟨kind, fields, -, h⟩ := tagged_eq_valid h
  split at h
  · obtain ⟨_, page, hfirst, hpage, rfl⟩ := Checked.ap_eq_valid h
    obtain ⟨ss, hss, rfl⟩ := Checked.map_eq_valid hfirst
    have hss := Selectors.stable.required hss
    have hpage := stable_page.optional rfl hpage
    cases page with
    | none =>
      change (isVisible <$> (Selectors.check ss.wire).under _ <*> .valid none).under _ = _
      rw [hss]
      rfl
    | some n =>
      change (isVisible <$> (Selectors.check ss.wire).under _ <*>
        (nullable checkPageIndex (writePage (some n))).under _).under _ = _
      rw [hss, hpage]
      rfl
  · obtain ⟨_, m, hfirst, -, rfl⟩ := Checked.ap_eq_valid h
    obtain ⟨source, hsource, rfl⟩ := Checked.map_eq_valid hfirst
    have hfields : (textEquals source m).document.toValue .wire =
        .object [("type", .text "textEquals"), ("valueSelector", source.document.toValue .wire),
          ("text", m.document.toValue .wire)] := by
      cases m <;> rfl
    dsimp only
    rw [hfields]
    change (textEquals <$> (Source.check (source.document.toValue .wire)).under _ <*>
      (TextMatcher.check (m.document.toValue .wire)).under _).under _ = _
    rw [Source.stable.required hsource, m.check_wire]
    rfl

theorem BatchItem.stable : Stable BatchItem.check fun i => i.document.toValue .wire := by
  intro v i h
  obtain ⟨fields, -, h⟩ := model_eq_valid h
  obtain ⟨_, source, hfirst, hsource, rfl⟩ := Checked.ap_eq_valid h
  obtain ⟨column, hcolumn, rfl⟩ := Checked.map_eq_valid hfirst
  change BatchItem.mk <$> (filledText (.text column)).under _ <*>
    (Source.check (source.document.toValue .wire)).under _ = _
  rw [stable_filledText.required hcolumn, Source.stable.required hsource]
  rfl

theorem Action.stable : Stable Action.check fun a => a.document.toValue .wire := by
  intro v a h
  obtain ⟨kind, fields, -, h⟩ := tagged_eq_valid h
  split at h
  · obtain ⟨n, hn, rfl⟩ := Checked.map_eq_valid h
    obtain ⟨u, hu⟩ := required_eq_valid hn
    have hsame : ((n.toNat : Nat) : Int) = n := Int.toNat_of_nonneg (atLeast_eq_valid hu)
    change ((wait ·.toNat) <$> (atLeast 0 (.int n.toNat)).under (.key "duration")).under
      (.key "wait") = _
    rw [hsame, stable_atLeast 0 hu]
    rfl
  · obtain ⟨url, hurl, rfl⟩ := Checked.map_eq_valid h
    change (navigate <$> (filledText (.text url)).under _).under _ = _
    rw [stable_filledText.required hurl]
    rfl
  · obtain ⟨_, waits, hfirst, -, rfl⟩ := Checked.ap_eq_valid h
    obtain ⟨ss, hss, rfl⟩ := Checked.map_eq_valid hfirst
    change (click <$> (Selectors.check ss.wire).under _ <*> .valid waits).under _ = _
    rw [Selectors.stable.required hss]
    rfl
  · obtain ⟨_, waits, h₄, -, rfl⟩ := Checked.ap_eq_valid h
    obtain ⟨_, enters, h₃, -, rfl⟩ := Checked.ap_eq_valid h₄
    obtain ⟨_, clears, h₂, -, rfl⟩ := Checked.ap_eq_valid h₃
    obtain ⟨_, value, h₁, hvalue, rfl⟩ := Checked.ap_eq_valid h₂
    obtain ⟨ss, hss, rfl⟩ := Checked.map_eq_valid h₁
    change (type <$> (Selectors.check ss.wire).under _ <*>
      (Source.check (value.document.toValue .wire)).under _ <*> .valid clears <*> .valid enters <*>
        .valid waits).under _ = _
    rw [Selectors.stable.required hss, Source.stable.required hvalue]
    rfl
  · cases h
    rfl
  · cases h
    rfl
  · obtain ⟨ss, hss, rfl⟩ := Checked.map_eq_valid h
    change (scrollToElement <$> (Selectors.check ss.wire).under _).under _ = _
    rw [Selectors.stable.required hss]
    rfl
  · obtain ⟨_, arguments, hfirst, harguments, rfl⟩ := Checked.ap_eq_valid h
    obtain ⟨code, hcode, rfl⟩ := Checked.map_eq_valid hfirst
    have hagain := (stable_items Source.stable).optional rfl harguments
    rw [← Document.toValue_list_map] at hagain
    change (evaluate <$> (filledText (.text code)).under _ <*>
      (items Source.check ((Document.list (arguments.map Source.document)).toValue .wire)).under _
        ).under _ = _
    rw [stable_filledText.required hcode, hagain]
    rfl

namespace Instruction

theorem stable ⦃v : Value⦄ ⦃i : Instruction⦄ (h : check v = .valid i) :
    check (i.document.toValue .wire) = .valid i := by
  rw [check] at h
  obtain ⟨kind, fields, hfields, h⟩ := tagged_eq_valid h
  split at h
  · obtain ⟨_, action, hfirst, haction, rfl⟩ := Checked.ap_eq_valid h
    obtain ⟨page, hpage, rfl⟩ := Checked.map_eq_valid hfirst
    have hpage := stable_pageIndex.optional rfl hpage
    rw [check]
    change (pageAction <$> (checkPageIndex (.int page)).under _ <*>
      (Action.check (action.document.toValue .wire)).under _).under _ = _
    rw [hpage, Action.stable.required haction]
    rfl
  · obtain ⟨_, alternative, hfirst, halternative, rfl⟩ := Checked.ap_eq_valid h
    obtain ⟨_, consequent, hsecond, hconsequent, rfl⟩ := Checked.ap_eq_valid hfirst
    obtain ⟨test, htest, rfl⟩ := Checked.map_eq_valid hsecond
    -- the steps of both branches are smaller parts of the same data
    have hsteps : ∀ {w : Value} {is : List Instruction}, sizeOf w < sizeOf v →
        (itemsPart w fun x _ => check x) = .valid is →
        items check ((Document.list (documents is)).toValue .wire) = .valid is := by
      intro w is hw hitems
      rw [documents_eq_map, Document.toValue_list_map]
      refine items_written fun i hi => ?_
      obtain ⟨x, hx, hvalid⟩ := itemsPart_eq_valid hitems i hi
      exact stable hvalid
    obtain ⟨w, hw, hthen⟩ := requiredPart_eq_valid hconsequent
    have hthen := hsteps (Nat.lt_trans hw hfields) hthen
    rw [check]
    cases alternative with
    | none =>
      change (condition <$> (Condition.check (test.document.toValue .wire)).under _ <*>
        (items check ((Document.list (documents consequent)).toValue .wire)).under _ <*>
          .valid none).under _ = _
      rw [Condition.stable.required htest, hthen]
      rfl
    | some is =>
      have helse : items check ((Document.list (documents is)).toValue .wire) = .valid is := by
        obtain hnone | ⟨w, hw, hgiven⟩ := optionalPart_eq_valid halternative
        · cases hnone
        · split at hgiven
          · cases hgiven
          · obtain ⟨_, hitems, hsome⟩ := Checked.map_eq_valid hgiven
            cases hsome
            exact hsteps (Nat.lt_trans hw hfields) hitems
      change (condition <$> (Condition.check (test.document.toValue .wire)).under _ <*>
        (items check ((Document.list (documents consequent)).toValue .wire)).under _ <*>
          (some <$> items check ((Document.list (documents is)).toValue .wire)).under _).under _ = _
      rw [Condition.stable.required htest, hthen, helse]
      rfl
  · obtain ⟨_, value, hfirst, hvalue, rfl⟩ := Checked.ap_eq_valid h
    obtain ⟨key, hkey, rfl⟩ := Checked.map_eq_valid hfirst
    rw [check]
    change (saveData <$> (checkDataKey (.text key)).under _ <*>
      (Source.check (value.document.toValue .wire)).under _).under _ = _
    rw [stable_dataKey.required hkey, Source.stable.required hvalue]
    rfl
  · obtain ⟨_, batch, hfirst, hbatch, rfl⟩ := Checked.ap_eq_valid h
    obtain ⟨source, hsource, rfl⟩ := Checked.map_eq_valid hfirst
    have hbatch := (stable_items BatchItem.stable).required hbatch
    rw [← Document.toValue_list_map] at hbatch
    rw [check]
    change (saveDataBatch <$> (checkSourceName (.text source)).under _ <*>
      (items BatchItem.check ((Document.list (batch.map BatchItem.document)).toValue .wire)).under _
        ).under _ = _
    rw [stable_sourceName.required hsource, hbatch]
    rfl
  · obtain ⟨source, hsource, rfl⟩ := Checked.map_eq_valid h
    rw [check]
    change (deleteData <$> (checkSourceName (.text source)).under _).under _ = _
    rw [stable_sourceName.required hsource]
    rfl
  · obtain ⟨name, hname, rfl⟩ := Checked.map_eq_valid h
    rw [check]
    change (marker <$> (filledText (.text name)).under _).under _ = _
    rw [stable_filledText.required hname]
    rfl
  · obtain ⟨name, hname, rfl⟩ := Checked.map_eq_valid h
    rw [check]
    change (jump <$> (filledText (.text name)).under _).under _ = _
    rw [stable_filledText.required hname]
    rfl
termination_by sizeOf v

-- An instruction as it goes to others.
def wire (i : Instruction) : Value := i.document.toValue .wire

-- A script that was taken is taken again from its wire form, as the same one.
theorem checkAll_wire {v : Value} {is : List Instruction} (h : checkAll v = .valid is) :
    ∃ js, checkAll (.list (is.map wire)) = .valid js ∧ js = is ∧
      js.map wire = is.map wire := by
  have hagain : Stable checkAll fun is => .list (is.map wire) := stable_items stable
  exact ⟨is, hagain h, rfl, rfl⟩

-- A script in which names of attributes stand for keys, and fields are missing or empty.
def untidyScript : Value :=
  .list [
    .object [("type", .text "condition"),
      ("if_", .object [("type", .text "textEquals"),
        ("value_selector", .object [("type", .text "externalData"),
          ("data_key", .text "shops.name"), ("defaultValue", .null)]),
        ("text", .object [("source", .text "^A"), ("extra", .int 1)])]),
      ("then", .list []), ("else_", .null)],
    .object [("action", .object [("duration", .text " 1_0.0 "), ("type", .text "wait")]),
      ("type", .text "pageAction")]]

theorem checkAll_wire_untidyScript :
    ∃ is, checkAll untidyScript = .valid is ∧ is.length = 2 ∧
      ∃ js, checkAll (.list (is.map wire)) = .valid js ∧ js = is ∧
        js.map wire = is.map wire := by
  have h : checkAll untidyScript = .valid
      [.condition (.textEquals (.externalData "shops.name" none) (.containing ⟨"^A", ""⟩)) [] none,
        .pageAction 0 (.wait 10)] := by
    rw [checkAll, untidyScript, items_list, List.map_cons, List.map_cons, check, check]
    rfl
  exact ⟨_, h, rfl, checkAll_wire h⟩

end Instruction

end Gleaner
