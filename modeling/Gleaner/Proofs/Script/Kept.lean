import Gleaner.Json.Dates
import Gleaner.Proofs.Validation.Kept
import Gleaner.Script.Scraper

namespace Gleaner

-- What can be read again after it has been kept. Attributes cannot if they are a single text under
-- the name of the tag of a moment.
def Selector.isLegible : Selector → Bool
  | attributes [(name, .exactly _)] => name != Json.dateTag
  | _ => true

def Selectors.isLegible (ss : Selectors) : Bool := ss.all Selector.isLegible

def Source.isLegible : Source → Bool
  | elementText ss _ => Selectors.isLegible ss
  | elementAttribute ss _ _ => Selectors.isLegible ss
  | _ => true

def Action.isLegible : Action → Bool
  | click ss _ => Selectors.isLegible ss
  | type ss value _ _ _ => Selectors.isLegible ss && value.isLegible
  | scrollToElement ss => Selectors.isLegible ss
  | evaluate _ arguments => arguments.all Source.isLegible
  | _ => true

def Condition.isLegible : Condition → Bool
  | isVisible ss _ => Selectors.isLegible ss
  | textEquals source _ => source.isLegible

def BatchItem.isLegible (i : BatchItem) : Bool := i.value.isLegible

namespace Instruction

mutual

def isLegible : Instruction → Bool
  | pageAction _ action => action.isLegible
  | condition test consequent alternative =>
    test.isLegible && areLegible consequent && isAlternativeLegible alternative
  | saveData _ value => value.isLegible
  | saveDataBatch _ items => items.all BatchItem.isLegible
  | _ => true

def areLegible : List Instruction → Bool
  | [] => true
  | i :: rest => isLegible i && areLegible rest

def isAlternativeLegible : Option (List Instruction) → Bool
  | none => true
  | some is => areLegible is

end

theorem areLegible_eq_all (is : List Instruction) : areLegible is = is.all isLegible := by
  induction is with
  | nil => rfl
  | cons i is ih => rw [areLegible, ih, List.all_cons]

theorem documents_eq_map (is : List Instruction) : documents is = is.map document := by
  induction is with
  | nil => rfl
  | cons i is ih => rw [documents, ih, List.map_cons]

end Instruction

def Scraper.isLegible (s : Scraper) : Bool := Instruction.areLegible s.instructions

section

open Validation

theorem TextMatcher.check_document (m : TextMatcher) :
    TextMatcher.check (m.document.toValue .stored) = .valid m := by
  cases m <;> rfl

theorem TextMatcher.kept (m : TextMatcher) :
    Kept TextMatcher.check (m.document.toValue .stored) true m := by
  cases m <;> exact ⟨rfl, rfl⟩

namespace Selector

def entriesOf (ms : List (String × TextMatcher)) : List (String × Value) :=
  ms.map fun (k, m) => (k, m.document.toValue .stored)

theorem decodeFields_entriesOf (ms : List (String × TextMatcher)) :
    Json.decodeFields (entriesOf ms) = .ok (entriesOf ms) := by
  induction ms with
  | nil => rfl
  | cons entry ms ih =>
    obtain ⟨k, m⟩ := entry
    have hm : Json.decode (m.document.toValue .stored) = .ok (m.document.toValue .stored) := by
      cases m <;> rfl
    change Json.decodeFields ((k, m.document.toValue .stored) :: entriesOf ms) = _
    rw [Json.decodeFields, hm, ih]
    rfl

theorem untag_entriesOf {ms : List (String × TextMatcher)}
    (h : (attributes ms).isLegible = true) :
    Json.untag (entriesOf ms) = .ok (.object (entriesOf ms)) := by
  match ms with
  | [] | [(_, .containing _)] | (_, .exactly _) :: _ :: _ | (_, .containing _) :: _ :: _ => rfl
  | [(name, .exactly s)] => exact if_neg (by simpa [isLegible] using h)

theorem exists_of_not_isLegible {ms : List (String × TextMatcher)}
    (h : (attributes ms).isLegible = false) : ∃ s, ms = [(Json.dateTag, .exactly s)] := by
  match ms with
  | [] | [(_, .containing _)] | (_, .exactly _) :: _ :: _ | (_, .containing _) :: _ :: _ => cases h
  | [(name, .exactly s)] =>
    have hname : name = Json.dateTag := by simpa [isLegible] using h
    exact ⟨s, by rw [hname]⟩

-- Of all attributes only a single tagged text is taken for something else.
theorem matchers_kept {v : Value} {ms : List (String × TextMatcher)} (h : matchers v = .valid ms) :
    Kept matchers (.object (entriesOf ms)) (attributes ms).isLegible ms where
  written := by
    refine congrArg (Option.map Value.object) (Json.encodeFields?_self fun v hv => ?_)
    rw [entriesOf, List.map_map] at hv
    obtain ⟨m, -, rfl⟩ := List.mem_map.mp hv
    exact (TextMatcher.kept m.2).written
  read := by
    rw [reread, Json.decode, decodeFields_entriesOf]
    change (Json.untag (entriesOf ms)).toOption.bind _ = _
    cases hl : (attributes ms).isLegible with
    | true =>
      have hagain : matchers (.object (entriesOf ms)) = .valid ms := by
        obtain ⟨ns, -, hns⟩ := Checked.andThen_eq_valid h
        have hentries : entries TextMatcher.check (.object (entriesOf ms)) = .valid ms :=
          entries_written (fun m => m.document.toValue .stored) fun m _ =>
            TextMatcher.check_document m.2
        rw [matchers, hentries]
        split at hns
        · cases hns
        · next hne =>
          cases hns
          exact if_neg hne
      rw [untag_entriesOf hl]
      exact congrArg Checked.value? hagain
    | false =>
      obtain ⟨s, rfl⟩ := exists_of_not_isLegible hl
      change (((DateTime.read (Json.expandZulu s)).map Value.moment).toOption.bind _) = _
      cases DateTime.read (Json.expandZulu s) <;> rfl

theorem kept {v : Value} {s : Selector} (h : check v = .valid s) :
    Kept check (s.document.toValue .stored) s.isLegible s := by
  obtain ⟨kind, fields, -, h⟩ := tagged_eq_valid h
  split at h
  · obtain ⟨q, hq, rfl⟩ := Checked.map_eq_valid h
    have hq := stable_filledText.kept (fun _ => rfl) hq
    exact (KeptFields.required hq rfl).map.tagged rfl fun _ => Checked.value?_under _ _
  · obtain ⟨n, hn, rfl⟩ := Checked.map_eq_valid h
    have hn := stable_filledText.kept (fun _ => rfl) hn
    exact (KeptFields.required hn rfl).map.tagged rfl fun _ => Checked.value?_under _ _
  · obtain ⟨m, -, rfl⟩ := Checked.map_eq_valid h
    exact (KeptFields.required m.kept rfl).map.tagged rfl fun _ => Checked.value?_under _ _
  · obtain ⟨ms, hms, rfl⟩ := Checked.map_eq_valid h
    obtain ⟨u, hu⟩ := required_eq_valid hms
    have hwritten : (attributes ms).document.toValue .stored =
        .object [("type", .text "attributes"), ("attributes", .object (entriesOf ms))] := by
      have hentries : Document.toEntries .stored (ms.map fun (k, m) => (k, m.document)) =
          entriesOf ms := by
        rw [Document.toEntries_map, List.map_map]
        rfl
      rw [← hentries]
      rfl
    rw [hwritten]
    exact (KeptFields.required (matchers_kept hu) rfl).map.tagged rfl fun _ =>
      Checked.value?_under _ _

end Selector

theorem Selectors.kept {v : Value} {ss : Selectors} (h : Selectors.check v = .valid ss) :
    Kept Selectors.check ((Selectors.document ss).toValue .stored) (Selectors.isLegible ss) ss := by
  obtain ⟨_, hfilled, hdiffer⟩ := Checked.andThen_eq_valid h
  split at hdiffer
  · next hkinds =>
    cases hdiffer
    obtain ⟨hread, hne⟩ := nonEmpty_eq_valid hfilled
    have hitems : Kept (items Selector.check) ((Selectors.document ss).toValue .stored)
        (Selectors.isLegible ss) ss := by
      refine kept_items fun s hs => ?_
      obtain ⟨u, -, hu⟩ := itemsPart_eq_valid hread s hs
      exact Selector.kept hu
    exact (hitems.nonEmpty hne).andThen (if_pos hkinds)
  · cases hdiffer

theorem stable_pageIndex : Stable checkPageIndex fun n : Nat => .int n :=
  stable_between (Int.le_refl 0)

theorem stable_dataKey : Stable checkDataKey .text := stable_shapedText _ _

theorem kept_page {fields : List (String × Value)} {page : Option Nat}
    (h : optional fields "pageIndex" none (nullable checkPageIndex) = .valid page) :
    Kept (nullable checkPageIndex)
      ((Document.optional (fun n : Nat => .int n) page).toValue .stored) true page :=
  kept_optional (fun _ => rfl) ((stable_nullable stable_pageIndex nofun).optional rfl h)

theorem Source.kept {v : Value} {s : Source} (h : Source.check v = .valid s) :
    Kept Source.check (s.document.toValue .stored) s.isLegible s := by
  obtain ⟨kind, fields, -, h⟩ := tagged_eq_valid h
  split at h
  · obtain ⟨t, -, rfl⟩ := Checked.map_eq_valid h
    have ht : Kept text (.text t) true t := .leaf rfl rfl
    exact (KeptFields.required ht rfl).map.tagged rfl fun _ => Checked.value?_under _ _
  · cases h
    exact KeptFields.pure.tagged rfl fun _ => rfl
  · cases h
    exact KeptFields.pure.tagged rfl fun _ => rfl
  · obtain ⟨_, default, hfirst, hdefault, rfl⟩ := Checked.ap_eq_valid h
    obtain ⟨key, hkey, rfl⟩ := Checked.map_eq_valid hfirst
    have hkey := stable_dataKey.kept (fun _ => rfl) hkey
    have hdefault : Kept (nullable text) ((Document.optional .text default).toValue .stored) true
        default :=
      kept_optional (fun _ => rfl) ((stable_nullable stable_text nofun).optional rfl hdefault)
    exact ((KeptFields.required hkey rfl).map.ap (.optional hdefault rfl)).tagged rfl fun _ =>
      Checked.value?_under _ _
  · obtain ⟨_, page, hfirst, hpage, rfl⟩ := Checked.ap_eq_valid h
    obtain ⟨ss, hss, rfl⟩ := Checked.map_eq_valid hfirst
    obtain ⟨u, hu⟩ := required_eq_valid hss
    exact (((KeptFields.required (Selectors.kept hu) rfl).map.ap
      (.optional (kept_page hpage) rfl)).tagged rfl fun _ => Checked.value?_under _ _).and_true
  · obtain ⟨_, page, hfirst, hpage, rfl⟩ := Checked.ap_eq_valid h
    obtain ⟨_, name, hsecond, hname, rfl⟩ := Checked.ap_eq_valid hfirst
    obtain ⟨ss, hss, rfl⟩ := Checked.map_eq_valid hsecond
    obtain ⟨u, hu⟩ := required_eq_valid hss
    have hname := stable_filledText.kept (fun _ => rfl) hname
    exact ((((KeptFields.required (Selectors.kept hu) rfl).map.ap (.required hname rfl)).ap
      (.optional (kept_page hpage) rfl)).tagged rfl fun _ =>
        Checked.value?_under _ _).and_true.and_true

theorem Condition.kept {v : Value} {c : Condition} (h : Condition.check v = .valid c) :
    Kept Condition.check (c.document.toValue .stored) c.isLegible c := by
  obtain ⟨kind, fields, -, h⟩ := tagged_eq_valid h
  split at h
  · obtain ⟨_, page, hfirst, hpage, rfl⟩ := Checked.ap_eq_valid h
    obtain ⟨ss, hss, rfl⟩ := Checked.map_eq_valid hfirst
    obtain ⟨u, hu⟩ := required_eq_valid hss
    have hwritten : (isVisible ss page).document.toValue .stored =
        .object [("type", .text "isVisible"), ("selectors", (Selectors.document ss).toValue .stored),
          ("pageIndex", (Document.optional (fun n : Nat => .int n) page).toValue .stored)] := by
      cases page <;> rfl
    rw [hwritten]
    exact (((KeptFields.required (Selectors.kept hu) rfl).map.ap
      (.optional (kept_page hpage) rfl)).tagged rfl fun _ => Checked.value?_under _ _).and_true
  · obtain ⟨_, m, hfirst, -, rfl⟩ := Checked.ap_eq_valid h
    obtain ⟨source, hsource, rfl⟩ := Checked.map_eq_valid hfirst
    obtain ⟨u, hu⟩ := required_eq_valid hsource
    exact (((KeptFields.required (Source.kept hu) rfl).map.ap (.required m.kept rfl)).tagged rfl
      fun _ => Checked.value?_under _ _).and_true

theorem BatchItem.kept {v : Value} {i : BatchItem} (h : BatchItem.check v = .valid i) :
    Kept BatchItem.check (i.document.toValue .stored) i.isLegible i := by
  obtain ⟨fields, -, h⟩ := model_eq_valid h
  obtain ⟨_, source, hfirst, hsource, rfl⟩ := Checked.ap_eq_valid h
  obtain ⟨column, hcolumn, rfl⟩ := Checked.map_eq_valid hfirst
  obtain ⟨u, hu⟩ := required_eq_valid hsource
  have hcolumn := stable_filledText.kept (fun _ => rfl) hcolumn
  exact ((KeptFields.required hcolumn rfl).map.ap (.required (Source.kept hu) rfl)).object
    (by decide) rfl fun _ _ => rfl

theorem Action.kept {v : Value} {a : Action} (h : Action.check v = .valid a) :
    Kept Action.check (a.document.toValue .stored) a.isLegible a := by
  obtain ⟨kind, fields, -, h⟩ := tagged_eq_valid h
  split at h
  · obtain ⟨n, hn, rfl⟩ := Checked.map_eq_valid h
    obtain ⟨u, hu⟩ := required_eq_valid hn
    have hsame : ((n.toNat : Nat) : Int) = n := Int.toNat_of_nonneg (atLeast_eq_valid hu)
    have hduration : Kept (atLeast 0) (.int n.toNat) true n :=
      hsame.symm ▸ .leaf rfl (stable_atLeast 0 hu)
    have hwait : KeptFields [("type", .text "wait"), ("duration", .int n.toNat)]
        (fun ws => (wait ·.toNat) <$> required ws "duration" (atLeast 0)) [.int n.toNat] true
        (wait n.toNat) := (KeptFields.required hduration rfl).map
    exact hwait.tagged rfl fun _ => Checked.value?_under _ _
  · obtain ⟨url, hurl, rfl⟩ := Checked.map_eq_valid h
    have hurl := stable_filledText.kept (fun _ => rfl) hurl
    exact (KeptFields.required hurl rfl).map.tagged rfl fun _ => Checked.value?_under _ _
  · obtain ⟨_, waits, hfirst, hwaits, rfl⟩ := Checked.ap_eq_valid h
    obtain ⟨ss, hss, rfl⟩ := Checked.map_eq_valid hfirst
    obtain ⟨u, hu⟩ := required_eq_valid hss
    have hwaits : Kept boolean (.bool waits) true waits := .leaf rfl rfl
    exact (((KeptFields.required (Selectors.kept hu) rfl).map.ap (.optional hwaits rfl)).tagged rfl
      fun _ => Checked.value?_under _ _).and_true
  · obtain ⟨_, waits, h₄, hwaits, rfl⟩ := Checked.ap_eq_valid h
    obtain ⟨_, enters, h₃, henters, rfl⟩ := Checked.ap_eq_valid h₄
    obtain ⟨_, clears, h₂, hclears, rfl⟩ := Checked.ap_eq_valid h₃
    obtain ⟨_, value, h₁, hvalue, rfl⟩ := Checked.ap_eq_valid h₂
    obtain ⟨ss, hss, rfl⟩ := Checked.map_eq_valid h₁
    obtain ⟨u, hu⟩ := required_eq_valid hss
    obtain ⟨x, hx⟩ := required_eq_valid hvalue
    have hbool : ∀ b, Kept boolean (.bool b) true b := fun _ => .leaf rfl rfl
    exact (((((KeptFields.required (Selectors.kept hu) rfl).map.ap
      (.required (Source.kept hx) rfl)).ap (.optional (hbool clears) rfl)).ap
        (.optional (hbool enters) rfl)).ap (.optional (hbool waits) rfl)).tagged rfl (fun _ =>
          Checked.value?_under _ _) |>.and_true.and_true.and_true
  · cases h
    exact KeptFields.pure.tagged rfl fun _ => rfl
  · cases h
    exact KeptFields.pure.tagged rfl fun _ => rfl
  · obtain ⟨ss, hss, rfl⟩ := Checked.map_eq_valid h
    obtain ⟨u, hu⟩ := required_eq_valid hss
    exact (KeptFields.required (Selectors.kept hu) rfl).map.tagged rfl fun _ =>
      Checked.value?_under _ _
  · obtain ⟨_, arguments, hfirst, harguments, rfl⟩ := Checked.ap_eq_valid h
    obtain ⟨code, hcode, rfl⟩ := Checked.map_eq_valid hfirst
    have hcode := stable_filledText.kept (fun _ => rfl) hcode
    have hkept : Kept (items Source.check)
        ((Document.list (arguments.map Source.document)).toValue .stored)
        (arguments.all Source.isLegible) arguments := by
      refine kept_items fun s hs => ?_
      obtain rfl | ⟨w, -, hw⟩ := optionalPart_eq_valid harguments
      · cases hs
      · obtain ⟨u, -, hu⟩ := itemsPart_eq_valid hw s hs
        exact Source.kept hu
    exact ((KeptFields.required hcode rfl).map.ap (.optional hkept rfl)).tagged rfl fun _ =>
      Checked.value?_under _ _

theorem stable_sourceName : Stable checkSourceName .text := by
  intro v s h
  obtain ⟨t, ht, hs⟩ := Checked.andThen_eq_valid h
  have hsame : t = s := by
    change (if _ then Checked.valid t else _) = _ at hs
    split at hs
    · cases hs
      rfl
    · cases hs
  subst hsame
  rw [checkSourceName, stable_filledText ht]
  exact hs

theorem DataSource.stable : Stable DataSource.check fun s => s.document.toValue .stored := by
  intro v s h
  obtain ⟨fields, -, h⟩ := model_eq_valid h
  obtain ⟨_, table, hfirst, htable, rfl⟩ := Checked.ap_eq_valid h
  obtain ⟨name, hname, rfl⟩ := Checked.map_eq_valid hfirst
  change DataSource.mk <$> (checkSourceName (.text name)).under _ <*>
    (filledText (.text table)).under _ = _
  rw [stable_sourceName.required hname, stable_filledText.required htable]
  rfl

namespace Instruction

-- What stands for the steps of a branch that may be missing.
def checkAlternative (v : Value) : Checked (Option (List Instruction)) :=
  if v.isNull then .valid none else some <$> items check v

theorem alternative_kept {is : List Instruction}
    (h : Kept (items check) ((Document.list (documents is)).toValue .stored) (areLegible is) is) :
    Kept checkAlternative ((Document.list (documents is)).toValue .stored) (areLegible is)
      (some is) where
  written := h.written
  read := by
    have hread : reread checkAlternative ((Document.list (documents is)).toValue .stored) =
        (reread (items check) ((Document.list (documents is)).toValue .stored)).map some := by
      rw [Document.toValue, reread, reread, Json.decode]
      cases Json.decodeItems (Document.toValues .stored (documents is)) with
      | error e => rfl
      | ok ws => exact Checked.value?_map _ _
    rw [hread, h.read]
    cases areLegible is <;> rfl

theorem kept {v : Value} {i : Instruction} (h : check v = .valid i) :
    Kept check (i.document.toValue .stored) i.isLegible i := by
  rw [check] at h
  obtain ⟨kind, fields, hfields, h⟩ := tagged_eq_valid h
  split at h
  · obtain ⟨_, action, hfirst, haction, rfl⟩ := Checked.ap_eq_valid h
    obtain ⟨page, hpage, rfl⟩ := Checked.map_eq_valid hfirst
    obtain ⟨u, hu⟩ := required_eq_valid haction
    have hpage : Kept checkPageIndex (.int page) true page :=
      .leaf rfl (stable_pageIndex.optional rfl hpage)
    exact ((KeptFields.optional hpage rfl).map.ap (.required (Action.kept hu) rfl)).tagged rfl
      fun _ => by rw [check]; exact Checked.value?_under _ _
  · obtain ⟨_, alternative, hfirst, halternative, rfl⟩ := Checked.ap_eq_valid h
    obtain ⟨_, consequent, hsecond, hconsequent, rfl⟩ := Checked.ap_eq_valid hfirst
    obtain ⟨test, htest, rfl⟩ := Checked.map_eq_valid hsecond
    obtain ⟨u, hu⟩ := required_eq_valid htest
    -- the steps of both branches are smaller parts of the same data
    have hsteps : ∀ {w : Value} {is : List Instruction}, sizeOf w < sizeOf v →
        (itemsPart w fun x _ => check x) = .valid is →
        Kept (items check) ((Document.list (documents is)).toValue .stored) (areLegible is) is := by
      intro w is hw hitems
      rw [documents_eq_map, areLegible_eq_all]
      refine kept_items fun i hi => ?_
      obtain ⟨x, hx, hvalid⟩ := itemsPart_eq_valid hitems i hi
      exact kept hvalid
    have hthen : Kept (items check) ((Document.list (documents consequent)).toValue .stored)
        (areLegible consequent) consequent := by
      obtain ⟨w, hw, hitems⟩ := requiredPart_eq_valid hconsequent
      exact hsteps (Nat.lt_trans hw hfields) hitems
    have helse : Kept checkAlternative ((alternativeDocument alternative).toValue .stored)
        (isAlternativeLegible alternative) alternative := by
      cases alternative with
      | none => exact .leaf rfl rfl
      | some is =>
        obtain hnone | ⟨w, hw, hgiven⟩ := optionalPart_eq_valid halternative
        · cases hnone
        · split at hgiven
          · cases hgiven
          · obtain ⟨_, hitems, hsome⟩ := Checked.map_eq_valid hgiven
            cases hsome
            exact alternative_kept (hsteps (Nat.lt_trans hw hfields) hitems)
    exact (((KeptFields.required (Condition.kept hu) rfl).map.ap (.required hthen rfl)).ap
      (.optional helse rfl)).tagged rfl fun _ => by rw [check]; exact Checked.value?_under _ _
  · obtain ⟨_, value, hfirst, hvalue, rfl⟩ := Checked.ap_eq_valid h
    obtain ⟨key, hkey, rfl⟩ := Checked.map_eq_valid hfirst
    obtain ⟨u, hu⟩ := required_eq_valid hvalue
    have hkey := stable_dataKey.kept (fun _ => rfl) hkey
    exact ((KeptFields.required hkey rfl).map.ap (.required (Source.kept hu) rfl)).tagged rfl
      fun _ => by rw [check]; exact Checked.value?_under _ _
  · obtain ⟨_, batch, hfirst, hbatch, rfl⟩ := Checked.ap_eq_valid h
    obtain ⟨source, hsource, rfl⟩ := Checked.map_eq_valid hfirst
    obtain ⟨w, hw⟩ := required_eq_valid hbatch
    have hsource := stable_sourceName.kept (fun _ => rfl) hsource
    have hkept : Kept (items BatchItem.check)
        ((Document.list (batch.map BatchItem.document)).toValue .stored)
        (batch.all BatchItem.isLegible) batch := by
      refine kept_items fun i hi => ?_
      obtain ⟨u, -, hu⟩ := itemsPart_eq_valid hw i hi
      exact BatchItem.kept hu
    exact ((KeptFields.required hsource rfl).map.ap (.required hkept rfl)).tagged rfl
      fun _ => by rw [check]; exact Checked.value?_under _ _
  · obtain ⟨source, hsource, rfl⟩ := Checked.map_eq_valid h
    have hsource := stable_sourceName.kept (fun _ => rfl) hsource
    exact (KeptFields.required hsource rfl).map.tagged rfl fun _ => by
      rw [check]; exact Checked.value?_under _ _
  · obtain ⟨name, hname, rfl⟩ := Checked.map_eq_valid h
    have hname := stable_filledText.kept (fun _ => rfl) hname
    exact (KeptFields.required hname rfl).map.tagged rfl fun _ => by
      rw [check]; exact Checked.value?_under _ _
  · obtain ⟨name, hname, rfl⟩ := Checked.map_eq_valid h
    have hname := stable_filledText.kept (fun _ => rfl) hname
    exact (KeptFields.required hname rfl).map.tagged rfl fun _ => by
      rw [check]; exact Checked.value?_under _ _
termination_by sizeOf v

end Instruction

end

end Gleaner
