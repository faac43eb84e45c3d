import Gleaner.Proofs.Run.Reachable
import Gleaner.Proofs.Script.Parts
import Gleaner.Proofs.Template.SinglePass

namespace Gleaner

open Session

variable {σ α β : Type} {P : Failure → Prop}

-- All failures of some work have a property.
def FailsWith (P : Failure → Prop) (work : Effect σ α) : Prop :=
  ∀ s e t, work s = (.error e, t) → P e

theorem FailsWith.and {Q : Failure → Prop} {work : Effect σ α} (h : FailsWith P work)
    (hq : FailsWith Q work) : FailsWith (fun e => P e ∧ Q e) work :=
  fun s e t ht => ⟨h s e t ht, hq s e t ht⟩

theorem FailsWith.imp {Q : Failure → Prop} {work : Effect σ α} (h : FailsWith P work)
    (hq : ∀ e, P e → Q e) : FailsWith Q work := fun s e t ht => hq e (h s e t ht)

theorem failsWith_pure (a : α) : FailsWith P (pure a : Effect σ α) := by
  intro s e t h
  cases h

theorem failsWith_throw {e : Failure} (h : P e) : FailsWith P (throw e : Effect σ α) := by
  intro s e' t ht
  cases ht
  exact h

-- What follows may count on what the results of the first piece of work have in common.
theorem failsWith_bind_of {work : Effect σ α} {next : α → Effect σ β} {Q : α → Prop}
    (hw : FailsWith P work) (hq : ∀ s a t, work s = (.ok a, t) → Q a)
    (hn : ∀ a, Q a → FailsWith P (next a)) : FailsWith P (work >>= next) := by
  intro s e t h
  rcases Effect.bind_eq_error h with h | ⟨a, u, ha, h⟩
  · exact hw s e t h
  · exact hn a (hq s a u ha) u e t h

theorem failsWith_bind {work : Effect σ α} {next : α → Effect σ β} (hw : FailsWith P work)
    (hn : ∀ a, FailsWith P (next a)) : FailsWith P (work >>= next) :=
  failsWith_bind_of hw (fun _ _ _ _ => trivial) fun a _ => hn a

theorem failsWith_attempt (work : Effect σ α) : FailsWith P work.attempt := by
  intro s e t h
  cases h

theorem failsWith_get : FailsWith P (get : Effect σ σ) := by
  intro s e t h
  cases h

theorem failsWith_inWorld {work : Effect σ α} (h : FailsWith P work) :
    FailsWith P (inWorld work) := by
  intro s e t ht
  rw [inWorld_apply, Prod.mk.injEq] at ht
  exact h s.world e _ (Prod.ext ht.1 rfl)

theorem failsWith_observe (work : StateM σ α) : FailsWith P (observe work) := by
  intro s e t h
  cases h

theorem failsWith_record (e : Entry) : FailsWith P (record (σ := σ) e) := by
  intro s e t h
  cases h

theorem failsWith_amend (index : Nat) (change : Entry → Entry) :
    FailsWith P (amend (σ := σ) index change) := by
  intro s e t h
  cases h

theorem failsWith_setFrames (frames : List Frame) : FailsWith P (setFrames (σ := σ) frames) := by
  intro s e t h
  cases h

theorem failsWith_ofExcept {ε : Type} {cause : ε → Failure} (hc : ∀ e, P (cause e))
    (outcome : Except ε α) : FailsWith P (Effect.ofExcept (σ := σ) cause outcome) := by
  cases outcome with
  | ok a => exact failsWith_pure a
  | error e => exact failsWith_throw (hc e)

section

variable {env : Environment σ}

-- What looking at pages may fail with. An element that is not there is no failure of a run.
structure Pages.FailsWith (pages : Pages σ) (P : Failure → Prop) : Prop where
  isVisible : ∀ page selectors, Gleaner.FailsWith P (pages.isVisible page selectors)
  textOf : ∀ page selectors,
    Gleaner.FailsWith (fun e => P e ∨ ∃ m, e = .noElement m) (pages.textOf page selectors)
  attributeOf : ∀ page selectors name,
    Gleaner.FailsWith (fun e => P e ∨ ∃ m, e = .noElement m) (pages.attributeOf page selectors name)
  address : ∀ page, Gleaner.FailsWith P (pages.address page)

theorem Pages.FailsWith.and {Q : Failure → Prop} {pages : Pages σ} (h : pages.FailsWith P)
    (hq : pages.FailsWith Q) : pages.FailsWith fun e => P e ∧ Q e where
  isVisible page selectors := (h.isVisible page selectors).and (hq.isVisible page selectors)
  textOf page selectors := ((h.textOf page selectors).and (hq.textOf page selectors)).imp
    fun _ he => and_or_right.mpr he
  attributeOf page selectors name :=
    ((h.attributeOf page selectors name).and (hq.attributeOf page selectors name)).imp
      fun _ he => and_or_right.mpr he
  address page := (h.address page).and (hq.address page)

-- Pages on which nothing can be done and whose elements go away.
def brokenPages : Pages Rehearsal.World where
  perform _ _ _ _ := throw (.fault "crashed")
  isVisible _ _ := pure true
  textOf _ _ := throw (.noElement "gone")
  attributeOf _ _ _ := throw (.noElement "gone")
  address _ := pure none

theorem brokenPages_failsWith (P : Failure → Prop) : brokenPages.FailsWith P where
  isVisible _ _ := failsWith_pure _
  textOf _ _ := failsWith_throw (.inr ⟨_, rfl⟩)
  attributeOf _ _ _ := failsWith_throw (.inr ⟨_, rfl⟩)
  address _ := failsWith_pure _

-- What expanding the texts of an instruction and looking for its pattern may fail with.
structure Instruction.FailsWith (env : Environment σ) (P : Failure → Prop) (i : Instruction) :
    Prop where
  expand : ∀ text ∈ i.texts, Gleaner.FailsWith P (env.expand text)
  matcher : ∀ p ∈ i.pattern?, ∀ text e, p.occursIn text = .error e → P (.matcher e)

-- What the calls of an environment that can end a run may fail with, whatever its script. Reading
-- and writing data and acting on a page are not among them, except where a token of a text is a
-- datum.
structure Environment.FailsWith (env : Environment σ) (P : Failure → Prop) : Prop where
  pages : env.pages.FailsWith P
  expand : ∀ text, Gleaner.FailsWith P (env.expand text)
  matcher : ∀ e, P (.matcher e)

theorem Environment.FailsWith.instruction {env : Environment σ} (h : env.FailsWith P)
    (i : Instruction) : i.FailsWith env P :=
  ⟨fun text _ => h.expand text, fun _ _ _ e _ => h.matcher e⟩

theorem failsWith_resolve_token {context : Template.Context σ} (token : Template.Token)
    (hd : ∀ key, FailsWith P (context.datum key))
    (ha : ∀ address, context.address = some address → ∀ page, FailsWith P (address page))
    (hu : ∀ e, P (.url e)) : FailsWith P (Template.resolve context token) := by
  have hlift : ∀ work : StateM σ PUnit, FailsWith P (monadLift work : Effect σ PUnit) := by
    intro work s e t h
    cases h
  cases token with
  | datum key =>
    refine failsWith_bind (hd key) fun v => ?_
    cases v <;> exact failsWith_pure _
  | random length =>
    intro s e t h
    cases h
  | address property page unreadable =>
    have hpage : FailsWith P (Template.addressOf context page) := by
      unfold Template.addressOf
      cases hc : context.address with
      | none => exact failsWith_pure _
      | some address => exact ha address hc page
    have htext : ∀ address, FailsWith P (Template.addressText context property page address) := by
      intro address
      unfold Template.addressText
      split
      · exact failsWith_bind (hlift _) fun _ => failsWith_pure _
      · exact failsWith_bind (hlift _) fun _ => failsWith_pure _
      · exact failsWith_ofExcept hu _
    cases unreadable with
    | none => exact failsWith_bind hpage htext
    | some shown => exact failsWith_bind (hlift _) fun _ => failsWith_bind hpage htext

theorem failsWith_expand {context : Template.Context σ} (text : String)
    (hd : ∀ key, FailsWith P (context.datum key))
    (ha : ∀ address, context.address = some address → ∀ page, FailsWith P (address page))
    (hu : ∀ e, P (.url e)) (ht : ∀ e, P (.token e)) (hf : P .unfinished) :
    FailsWith P (Template.expand context text) := by
  have hchars : ∀ fuel text, FailsWith P (Template.expandChars context fuel text) := by
    intro fuel
    induction fuel with
    | zero => exact fun _ => failsWith_throw hf
    | succ fuel ih =>
      intro text
      rw [Template.expandChars]
      split
      · exact failsWith_pure _
      · refine failsWith_bind (failsWith_ofExcept ht _) fun token => ?_
        exact failsWith_bind (failsWith_resolve_token token hd ha hu) fun _ => ih _
  exact failsWith_bind (hchars _ _) fun _ => failsWith_pure _

theorem failsWith_expand_of_none {text : String} (h : Template.first? text.toList = none) :
    FailsWith P (env.expand text) := by
  rw [Environment.expand, Template.expand_of_none h]
  exact failsWith_pure text

theorem failsWith_expandMatcher {m : TextMatcher}
    (ht : ∀ text ∈ m.texts, FailsWith P (env.expand text)) : FailsWith P (m.expand env) := by
  cases m with
  | exactly s => exact failsWith_bind (ht s List.mem_cons_self) fun _ => failsWith_pure _
  | containing p => exact failsWith_pure _

theorem failsWith_expandMatchers {ms : List (String × TextMatcher)}
    (ht : ∀ m ∈ ms, ∀ text ∈ m.2.texts, FailsWith P (env.expand text)) :
    FailsWith P (expandMatchers env ms) := by
  induction ms with
  | nil => exact failsWith_pure _
  | cons m rest ih =>
    obtain ⟨name, m⟩ := m
    obtain ⟨hm, hrest⟩ := List.forall_mem_cons.mp ht
    exact failsWith_bind (failsWith_expandMatcher hm) fun _ =>
      failsWith_bind (ih hrest) fun _ => failsWith_pure _

theorem failsWith_expandSelector {selector : Selector}
    (ht : ∀ text ∈ selector.texts, FailsWith P (env.expand text)) :
    FailsWith P (selector.expand env) := by
  cases selector with
  | query q => exact failsWith_bind (ht q List.mem_cons_self) fun _ => failsWith_pure _
  | tagName name => exact failsWith_pure _
  | textContent m => exact failsWith_bind (failsWith_expandMatcher ht) fun _ => failsWith_pure _
  | attributes ms =>
    have hms : ∀ m ∈ ms, ∀ text ∈ m.2.texts, FailsWith P (env.expand text) :=
      fun m hm text htext => ht text (List.mem_flatMap.mpr ⟨m, hm, htext⟩)
    exact failsWith_bind (failsWith_expandMatchers hms) fun _ => failsWith_pure _

theorem failsWith_expandSelectors {selectors : Selectors}
    (ht : ∀ text ∈ selectors.texts, FailsWith P (env.expand text)) :
    FailsWith P (selectors.expand env) := by
  induction selectors with
  | nil => exact failsWith_pure _
  | cons selector rest ih =>
    have hfirst := fun text htext => ht text (List.mem_append_left _ htext)
    have hrest := fun text htext => ht text (List.mem_append_right _ htext)
    exact failsWith_bind (failsWith_expandSelector hfirst) fun _ =>
      failsWith_bind (ih hrest) fun _ => failsWith_pure _

theorem failsWith_resolveDatum (key : String) (default : Option String) :
    FailsWith P (resolveDatum env key default) := by
  have hrest : ∀ returned error, FailsWith P (do
      recordOperation (.get key returned error)
      if !returned.isNull then return some returned.display
      if default.isSome then return default
      observe (env.warn (missingDatum key))
      return none) := by
    intro returned error
    refine failsWith_bind (failsWith_record _) fun _ => ?_
    split
    · exact failsWith_pure _
    · split
      · exact failsWith_pure _
      · exact failsWith_bind (failsWith_observe _) fun _ => failsWith_pure _
  refine failsWith_bind (failsWith_inWorld (failsWith_attempt _)) fun outcome => ?_
  cases outcome with
  | ok v => exact hrest v none
  | error e => exact hrest .null (some e.text)

-- An element that is not there gives nothing.
theorem failsWith_readElement (kind : String) (page : Nat) {read : Effect σ (Option String)}
    (hr : FailsWith (fun e => P e ∨ ∃ m, e = .noElement m) read) :
    FailsWith P (readElement env kind page read) := by
  intro s e t ht
  rw [readElement, Effect.bind_apply, inWorld_apply, Effect.attempt_apply] at ht
  rcases hw : read s.world with ⟨e' | text, w⟩
  · rw [hw] at ht
    have he := hr _ _ _ hw
    cases e' with
    | noElement _ => cases ht
    | _ =>
      cases ht
      exact he.resolve_right (by rintro ⟨m, ⟨⟩⟩)
  · rw [hw] at ht
    cases ht

section

variable (h : env.pages.FailsWith P)
include h

theorem failsWith_resolve {source : Source}
    (ht : ∀ text ∈ source.texts, FailsWith P (env.expand text)) :
    FailsWith P (source.resolve env) := by
  cases source with
  | literal text => exact failsWith_pure _
  | null => exact failsWith_pure _
  | currentTimestamp => exact failsWith_bind (failsWith_observe _) fun _ => failsWith_pure _
  | externalData key default => exact failsWith_resolveDatum key default
  | elementText selectors page =>
    exact failsWith_bind (failsWith_inWorld (failsWith_expandSelectors ht)) fun _ =>
      failsWith_readElement _ _ (h.textOf _ _)
  | elementAttribute selectors name page =>
    exact failsWith_bind (failsWith_inWorld (failsWith_expandSelectors ht)) fun _ =>
      failsWith_readElement _ _ (h.attributeOf _ _ _)

theorem failsWith_resolveAll {sources : List Source}
    (ht : ∀ text ∈ sources.flatMap Source.texts, FailsWith P (env.expand text)) :
    FailsWith P (resolveAll env sources) := by
  induction sources with
  | nil => exact failsWith_pure _
  | cons source rest ih =>
    have hfirst := fun text htext => ht text (List.mem_append_left _ htext)
    have hrest := fun text htext => ht text (List.mem_append_right _ htext)
    exact failsWith_bind (failsWith_resolve h hfirst) fun _ =>
      failsWith_bind (ih hrest) fun _ => failsWith_pure _

theorem failsWith_resolveItems {items : List BatchItem}
    (ht : ∀ text ∈ items.flatMap fun item => item.value.texts, FailsWith P (env.expand text)) :
    FailsWith P (resolveItems env items) := by
  induction items with
  | nil => exact failsWith_pure _
  | cons item rest ih =>
    have hfirst := fun text htext => ht text (List.mem_append_left _ htext)
    have hrest := fun text htext => ht text (List.mem_append_right _ htext)
    exact failsWith_bind (failsWith_resolve h hfirst) fun _ =>
      failsWith_bind (ih hrest) fun _ => failsWith_pure _

theorem failsWith_evaluate {test : Condition} {consequent : List Instruction}
    {alternative : Option (List Instruction)}
    (hi : (Instruction.condition test consequent alternative).FailsWith env P) :
    FailsWith P (test.evaluate env) := by
  cases test with
  | isVisible selectors page =>
    exact failsWith_bind (failsWith_inWorld (failsWith_expandSelectors hi.expand)) fun _ =>
      failsWith_inWorld (h.isVisible _ _)
  | textEquals source matcher =>
    refine failsWith_bind (failsWith_resolve h hi.expand) fun value => failsWith_inWorld ?_
    cases matcher with
    | exactly s => exact failsWith_pure _
    | containing p =>
      cases hfound : p.occursIn (value.getD "") with
      | ok found =>
        rw [TextMatcher.test, hfound]
        exact failsWith_pure _
      | error e =>
        rw [TextMatcher.test, hfound]
        exact failsWith_throw (hi.matcher p rfl _ e hfound)

omit h in
theorem failsWith_expandAction {action : Action}
    (ht : ∀ text ∈ action.texts, FailsWith P (env.expand text)) :
    FailsWith P (action.expand env) := by
  cases action with
  | navigate url => exact failsWith_bind (ht url List.mem_cons_self) fun _ => failsWith_pure _
  | click selectors waits =>
    exact failsWith_bind (failsWith_expandSelectors ht) fun _ => failsWith_pure _
  | type selectors value clears enters waits =>
    exact failsWith_bind (failsWith_expandSelectors ht) fun _ => failsWith_pure _
  | scrollToElement selectors =>
    exact failsWith_bind (failsWith_expandSelectors ht) fun _ => failsWith_pure _
  | _ => exact failsWith_pure _

omit h in
-- The sources of an action are those it was written with.
theorem expandAction_sources {action expanded : Action} {s t : σ}
    (ha : action.expand env s = (.ok expanded, t)) : expanded.sources = action.sources := by
  cases action with
  | navigate url | click selectors waits | type selectors value clears enters waits
  | scrollToElement selectors =>
    obtain ⟨_, _, -, ha⟩ := Effect.bind_eq_ok ha
    cases ha
    rfl
  | _ =>
    cases ha
    rfl

theorem failsWith_inputs {action : Action}
    (ht : ∀ text ∈ action.sources.flatMap Source.texts, FailsWith P (env.expand text)) :
    FailsWith P (action.inputs env) := by
  cases action with
  | type selectors value clears enters waits =>
    have hvalue := fun text htext => ht text (List.mem_append_left _ htext)
    exact failsWith_bind (failsWith_resolve h hvalue) fun _ => failsWith_pure _
  | evaluate code arguments =>
    exact failsWith_bind (failsWith_resolveAll h ht) fun _ => failsWith_pure _
  | _ => exact failsWith_pure _

theorem failsWith_perform {action : Action} {page : Nat}
    (hi : (Instruction.pageAction page action).FailsWith env P) :
    FailsWith P (action.perform env page) := by
  have hexpand := failsWith_expandAction fun text ht => hi.expand text (List.mem_append_left _ ht)
  have hsources := fun text ht => hi.expand text (List.mem_append_right _ ht)
  refine failsWith_bind_of (Q := fun expanded => expanded.sources = action.sources)
    (failsWith_inWorld hexpand) (fun s expanded t he => ?_) fun expanded he => ?_
  · rw [inWorld_apply, Prod.mk.injEq] at he
    exact expandAction_sources (Prod.ext he.1 rfl)
  · rw [← he] at hsources
    refine failsWith_bind (failsWith_inputs h hsources) fun inputs => ?_
    refine failsWith_bind (failsWith_inWorld (failsWith_attempt _)) fun outcome => ?_
    cases outcome <;> exact failsWith_pure _

theorem failsWith_act (opened : OpenEntry) {i : Instruction} (hi : i.FailsWith env P) :
    FailsWith P (act env opened i) := by
  cases i with
  | pageAction page action =>
    exact failsWith_bind (failsWith_perform h hi) fun _ => failsWith_amend _ _
  | saveData key source =>
    exact failsWith_bind (failsWith_resolve h hi.expand) fun _ =>
      failsWith_bind (failsWith_inWorld (failsWith_attempt _)) fun _ => failsWith_record _
  | saveDataBatch source items =>
    exact failsWith_bind (failsWith_resolveItems h hi.expand) fun _ =>
      failsWith_bind (failsWith_inWorld (failsWith_attempt _)) fun _ => failsWith_record _
  | deleteData source =>
    exact failsWith_bind (failsWith_inWorld (failsWith_attempt _)) fun _ => failsWith_record _
  | _ => exact failsWith_pure _

theorem failsWith_close (opened : OpenEntry) : FailsWith P (close env opened) :=
  failsWith_bind (failsWith_inWorld (h.address _)) fun _ =>
    failsWith_bind (failsWith_observe _) fun _ => failsWith_amend _ _

theorem failsWith_closeAll (entries : List OpenEntry) : FailsWith P (closeAll env entries) := by
  induction entries with
  | nil => exact failsWith_pure _
  | cons opened rest ih => exact failsWith_bind (failsWith_close h opened) fun _ => ih

theorem failsWith_openEntry (i : Instruction) : FailsWith P (openEntry env i) := by
  refine failsWith_bind (failsWith_inWorld (h.address _)) fun _ => ?_
  refine failsWith_bind (failsWith_observe _) fun _ => ?_
  refine failsWith_bind failsWith_get fun _ => ?_
  exact failsWith_bind (failsWith_record _) fun _ => failsWith_pure _

theorem failsWith_dispatch (opened : OpenEntry) {i : Instruction} (hi : i.FailsWith env P)
    (hm : ∀ name, i ≠ .jump name) : FailsWith P (dispatch env opened i) := by
  cases i with
  | condition test consequent alternative =>
    have hbranch : FailsWith P (chooseBranch env opened test consequent alternative) :=
      failsWith_bind (failsWith_evaluate h hi) fun _ =>
        failsWith_bind (failsWith_amend _ _) fun _ => failsWith_pure _
    refine failsWith_bind hbranch fun _ => failsWith_bind failsWith_get fun _ => ?_
    exact failsWith_bind (failsWith_setFrames _) fun _ => failsWith_pure _
  | jump name => exact absurd rfl (hm name)
  | _ => exact failsWith_bind (failsWith_act h opened hi) fun _ => failsWith_pure _

-- What a jump fails with: there is no marker, or the entries it closes cannot be closed.
theorem dispatch_jump_error {opened : OpenEntry} {name : String} {s t : Session σ} {e : Failure}
    (ht : dispatch env opened (.jump name) s = (.error e, t)) :
    P e ∨ e = .noMarker name ∧ land? name s.frames = none := by
  rw [dispatch, Effect.bind_apply, Effect.get_apply] at ht
  dsimp only at ht
  cases hl : land? name s.frames with
  | none =>
    rw [hl] at ht
    cases ht
    exact .inr ⟨rfl, rfl⟩
  | some landing =>
    obtain ⟨left, staying⟩ := landing
    rw [hl] at ht
    have hrest : FailsWith P (do
        setFrames staying
        closeAll env (openEntries left)
        return false : Effect (Session σ) Bool) :=
      failsWith_bind (failsWith_setFrames _) fun _ =>
        failsWith_bind (failsWith_closeAll h _) fun _ => failsWith_pure _
    exact .inl (hrest s e t ht)

theorem carryOut_error {opened : OpenEntry} {i : Instruction} (hi : i.FailsWith env P)
    {s t : Session σ} {e : Failure} (ht : carryOut env opened i s = (.error e, t)) :
    P e ∨ ∃ name, i = .jump name ∧ e = .noMarker name ∧ land? name s.frames = none := by
  rw [carryOut, Effect.bind_apply, Effect.attempt_apply] at ht
  dsimp only at ht
  rcases hd : dispatch env opened i s with ⟨e' | keepsOpen, u⟩
  · rw [hd] at ht
    rcases Effect.bind_eq_error ht with ht | ⟨_, v, -, ht⟩
    · exact .inl (failsWith_close h opened u e t ht)
    · cases ht
      by_cases hj : ∃ name, i = .jump name
      · obtain ⟨name, rfl⟩ := hj
        rcases dispatch_jump_error h hd with hp | ⟨he, hl⟩
        · exact .inl hp
        · exact .inr ⟨name, rfl, he, hl⟩
      · exact .inl (failsWith_dispatch h opened hi (fun name he => hj ⟨name, he⟩) s e u hd)
  · rw [hd] at ht
    cases keepsOpen with
    | true => cases ht
    | false => exact .inl (failsWith_close h opened u e t ht)

-- What a turn fails with: a call of the environment, the limit of steps, or a jump whose marker
-- no list being run has.
theorem turn_fails {limit : Option Int} {s t : Session σ} {e : Failure}
    (hP : ∀ f rest i, s.frames = f :: rest → f.instructions[f.next]? = some i →
      i.FailsWith env P)
    (ht : turn env limit s = (.error e, t)) :
    P e ∨ (∃ most, limit = some most ∧ e = .stepLimit most) ∨ ∃ f rest name,
      s.frames = f :: rest ∧ f.instructions[f.next]? = some (.jump name) ∧ e = .noMarker name ∧
      land? name (f.advance :: rest) = none := by
  cases hf : s.frames with
  | nil =>
    rw [turn_nil env limit s hf] at ht
    cases ht
  | cons f rest =>
    obtain ⟨goesOn, u, hc⟩ := checkpoint_ok env s
    cases goesOn with
    | false =>
      rw [turn_cancelled env limit hf hc] at ht
      cases ht
    | true =>
      cases hi : f.instructions[f.next]? with
      | none =>
        rw [turn_leave env limit hf hc hi] at ht
        exact .inl (failsWith_bind (failsWith_closeAll h _) (fun _ => failsWith_pure _) _ _ _ ht)
      | some i =>
        rw [turn_run env limit hf hc hi] at ht
        rcases Effect.bind_eq_error ht with hcount | ⟨_, v, hcount, ht⟩
        · exact .inr (.inl (countStep_error hcount))
        · have hv : v.frames = f.advance :: rest := countStep_frames hcount
          rcases Effect.bind_eq_error ht with hrun | ⟨_, w, -, ht⟩
          · rcases Effect.bind_eq_error hrun with hopen | ⟨opened, w, hopen, hcarry⟩
            · exact .inl (failsWith_openEntry h i v e t hopen)
            · have hw := ((confined_openEntry env i).frames_eq hopen).trans hv
              rcases carryOut_error h (hP f rest i hf hi) hcarry with hp | ⟨name, rfl, he, hl⟩
              · exact .inl hp
              · rw [hw] at hl
                exact .inr (.inr ⟨f, rest, name, rfl, hi, he, hl⟩)
          · cases ht

end

theorem turn_error (h : env.FailsWith P) {limit : Option Int} {s t : Session σ} {e : Failure}
    (ht : turn env limit s = (.error e, t)) :
    P e ∨ (∃ most, e = .stepLimit most) ∨ ∃ f rest name, s.frames = f :: rest ∧
      f.instructions[f.next]? = some (.jump name) ∧ e = .noMarker name ∧
      land? name (f.advance :: rest) = none := by
  rcases turn_fails h.pages (fun _ _ i _ _ => h.instruction i) ht with hp | ⟨most, -, he⟩ | hlost
  · exact .inl hp
  · exact .inr (.inl ⟨most, he⟩)
  · exact .inr (.inr hlost)

end

end Gleaner
