import Gleaner.Proofs.Browser.Apart
import Gleaner.Proofs.Rehearsal.Standing

namespace Gleaner.Browser

-- What a script asks of the page of an index.
inductive Use
  | perform (action : Action) (value : Option String) (arguments : List (Option String))
  | isVisible (selectors : Selectors)
  | textOf (selectors : Selectors)
  | attributeOf (selectors : Selectors) (name : String)

def Use.run {σ : Type} (pages : Pages σ) (index : Nat) : Use → Effect σ Unit
  | .perform action value arguments => pages.perform index action value arguments
  | .isVisible selectors => discard (pages.isVisible index selectors)
  | .textOf selectors => discard (pages.textOf index selectors)
  | .attributeOf selectors name => discard (pages.attributeOf index selectors name)

-- What goes on in a window. Its pages are used, asked where they are and closed, and between that
-- the sites and whoever sits in front of it may open, move and close pages as they like.
inductive Deed {σ : Type} (view : σ → Standing)
  | use (index : Nat) (what : Use)
  | address (index : Nat)
  | elsewhere (work : σ → σ) (h : ∀ s, (view s).Later [] (view (work s)))
  | close

section

variable {σ : Type} (context : Context σ) (timeout : Int) (warn : String → StateM σ Unit)
  {view : σ → Standing}

def Deed.index? : Deed view → Option Nat
  | .use index _ => some index
  | _ => none

def Deed.after (s : σ) : Deed view → σ
  | .use index what => (what.run (pages context timeout warn) index s).2
  | .address index => ((pages context timeout warn).address index s).2
  | .elsewhere work _ => work s
  | .close => (Browser.close context s).2

-- What is left of a state by some deeds, one after the other. One that fails leaves what it has
-- done until then.
def afterAll (deeds : List (Deed view)) (s : σ) : σ :=
  deeds.foldl (Deed.after context timeout warn) s

def history (s : σ) (deeds : List (Deed view)) : History where
  served k := deeds[k]?.bind Deed.index?
  standing k := view (afterAll context timeout warn (deeds.take k) s)

variable {context timeout warn} (h : context.Lawful view)
include h

-- Closing some pages leaves everything else, and if it ends well they are all closed.
theorem later_closeAll (given : List (Nat × Nat)) (s : σ) :
    (∃ called, (view s).Later called (view (closeAll context given s).2)) ∧
      ∀ t, closeAll context given s = (.ok (), t) →
        ∀ entry ∈ given, entry.2 ∈ (view s).opened → (view t).closed entry.2 = true := by
  induction given generalizing s with
  | nil => exact ⟨⟨[], Standing.Later.refl _⟩, by simp⟩
  | cons entry rest ih =>
    obtain ⟨index, page⟩ := entry
    -- Once the page is closed it stays so while the rest is.
    have hrest : ∀ u, (view s).opened <+: (view u).opened →
        (page ∈ (view s).opened → (view u).closed page = true) →
        ∀ t, closeAll context rest u = (.ok (), t) → ∀ entry ∈ (index, page) :: rest,
          entry.2 ∈ (view s).opened → (view t).closed entry.2 = true := by
      intro u hopened hclosed t ht entry hentry hmem
      obtain ⟨⟨called, hlater⟩, hall⟩ := ih u
      rcases List.mem_cons.mp hentry with rfl | hentry
      · rw [ht] at hlater
        exact hlater.closed page (hclosed hmem)
      · exact hall t ht entry hentry (hopened.subset hmem)
    have hbegin : closeAll context ((index, page) :: rest) s =
        if (view s).closed page then closeAll context rest s
        else (context.closePage page >>= fun _ => closeAll context rest) s := by
      rw [closeAll]
      simp only [Effect.bind_apply, Effect.lift_apply, h.isClosed]
      cases (view s).closed page <;> simp [Effect.bind_apply]
    rw [hbegin]
    cases hclosed : (view s).closed page with
    | true => exact ⟨(ih s).1, hrest s (List.prefix_refl _) fun _ => hclosed⟩
    | false =>
      obtain ⟨n, hpage⟩ := h.closePage page s
      rw [if_neg (by simp), Effect.bind_apply]
      rcases hr : context.closePage page s with ⟨e | u, t⟩
      · rw [hr] at hpage
        exact ⟨⟨_, hpage⟩, fun _ heq => by cases heq⟩
      · rw [hr] at hpage
        obtain ⟨called, hlater⟩ := (ih t).1
        exact ⟨⟨_, hpage.trans hlater⟩, hrest t hpage.opened (h.closedPage page s t hr)⟩

theorem closes_close (s : σ) : (view s).Closes (view (Browser.close context s).2) := by
  obtain ⟨⟨called, hlater⟩, hall⟩ := later_closeAll h (view s).assigned s
  have hbegin : Browser.close context s =
      (closeAll context (view s).assigned >>= fun _ => monadLift (context.assign [])) s := by
    unfold Browser.close
    simp only [Effect.bind_apply, Effect.lift_apply, h.assigned]
  rw [hbegin, Effect.bind_apply]
  rcases hr : closeAll context (view s).assigned s with ⟨e | u, t⟩
  · rw [hr] at hlater
    exact ⟨hlater.opened, hlater.closed, .inl hlater.assigned⟩
  · rw [hr] at hlater
    have ht : view (context.assign [] t).2 = { view t with assigned := [] } := h.assign [] t
    change (view s).Closes (view (context.assign [] t).2)
    rw [ht]
    refine ⟨hlater.opened, hlater.closed, .inr ⟨rfl, fun index page hgiven => ?_⟩⟩
    exact hall t hr (index, page) (assignedTo?_mem hgiven)

theorem address_apply (index : Nat) (s : σ) :
    ((pages context timeout warn).address index s).2 = s := by
  change (addressOf context index s).2 = s
  rw [addressOf, Effect.bind_ok (livePage?_apply h index s)]
  cases (view s).livePage? index with
  | none => rfl
  | some page => simp [Effect.bind_apply, h.address]

variable (hw : ∀ message, Passes view (warn message))
include hw

omit h hw in
theorem served_discard {α β : Type} {work : Effect σ α} {f : α → β} {index : Nat} {v : Standing}
    {s : σ} (h : v.Served index (view (work s).2)) :
    v.Served index (view ((work >>= fun a => pure (f a)) s).2) := by
  rw [Effect.bind_apply]
  rcases hr : work s with ⟨e | a, t⟩ <;> rwa [hr] at h

theorem served_use (index : Nat) (what : Use) (s : σ) :
    (view s).Served index (view (what.run (pages context timeout warn) index s).2) := by
  cases what with
  | perform action value arguments => exact served_perform h hw index action value arguments s
  | isVisible selectors =>
    exact served_discard (served_discard (served_locate? h index selectors s))
  | textOf selectors =>
    exact served_discard (served_located h (fun page element he => he.text) s)
  | attributeOf selectors name =>
    exact served_discard (served_located h (fun page element he => he.attributeOf name) s)

theorem deed_move (deed : Deed view) (s : σ) :
    (view s).Move deed.index? (view (deed.after context timeout warn s)) := by
  cases deed with
  | use index what => exact .served (served_use h hw index what s)
  | address index =>
    have hs : (.address index : Deed view).after context timeout warn s = s :=
      address_apply h index s
    rw [hs]
    exact .later (Standing.Later.refl _)
  | elsewhere work hwork => exact .later (hwork s)
  | close => exact .closes (closes_close h s)

variable (timeout) in
theorem history_moves (s : σ) (deeds : List (Deed view)) (k : Nat) (hk : k < deeds.length) :
    ((history context timeout warn s deeds).standing k).Move
      ((history context timeout warn s deeds).served k)
      ((history context timeout warn s deeds).standing (k + 1)) := by
  have hstep : afterAll context timeout warn (deeds.take (k + 1)) s =
      deeds[k].after context timeout warn (afterAll context timeout warn (deeds.take k) s) := by
    unfold afterAll
    rw [List.take_succ_eq_append_getElem hk, List.foldl_append]
    rfl
  have hserved : deeds[k]?.bind Deed.index? = deeds[k].index? := by
    rw [List.getElem?_eq_getElem hk]
    rfl
  simp only [history, hstep, hserved]
  exact deed_move h hw deeds[k] _

variable (timeout) in
-- From the first moment on, when no index has a page, two of them never have the same open page
-- and what is done for one is never done on the page of another, exactly as long as the first index
-- does not come late and take over an empty page that another one has. While some page of the
-- first moment is open that cannot happen. Whatever happens, an index keeps its page until that is
-- closed.
theorem pages_apart_iff {s : σ} (hs : (view s).assigned = []) (deeds : List (Deed view)) :
    let past := history context timeout warn s deeds
    let n := deeds.length
    (past.Apart n ↔
      ∀ k < n, ∀ index, past.served k = some index → ¬(past.standing k).Intrudes index) ∧
    (∀ page ∈ (view s).opened, (∀ k < n, (past.standing k).closed page = false) →
      past.Apart n) ∧
    ∀ k < n, ∀ index page, (past.standing k).livePage? index = some page →
      ((past.standing (k + 1)).closed page = true ∨
        (past.standing (k + 1)).livePage? index = some page) ∧
      (past.served k = some index →
        ∀ called ∈ (past.standing k).callsTo (past.standing (k + 1)), called = page) := by
  intro past n
  have hmoves := history_moves timeout h hw s deeds
  refine ⟨History.apart_iff hmoves hs, ?_, ?_⟩
  · exact fun page hpage hopen => History.apart_of_open hmoves hs hpage hopen
  · exact fun k hk index page hlive => History.keeps hmoves hs hk hlive

end

-- A window of a rehearsal on its first pages.
def onPages (addresses : List String) : Rehearsal.World :=
  (Rehearsal.Browser.openWindow 1 { firstPages := addresses }).2

def deedsOf (uses : List (Nat × Action)) : List (Deed (Rehearsal.Browser.standing 1)) :=
  uses.map fun (index, action) => .use index (.perform action none [])

def rehearsedUses (addresses : List String) (uses : List (Nat × Action)) : History :=
  history (Rehearsal.Browser.context 1) 30000 Rehearsal.World.warn (onPages addresses)
    (deedsOf uses)

-- The second index is used before the first, which goes elsewhere then.
def secondFirst : List (Nat × Action) := [(1, .wait 5), (0, .navigate "https://a/")]

-- On a window with a page each index gets one of its own.
theorem pages_apart_iff_firstPage :
    (∀ message, Passes (Rehearsal.Browser.standing 1) (Rehearsal.World.warn message)) ∧
    (Rehearsal.Browser.standing 1 (onPages [emptyAddress])).assigned = [] ∧
    (rehearsedUses [emptyAddress] secondFirst).Apart 2 := by
  have hw : ∀ message, Passes (Rehearsal.Browser.standing 1) (Rehearsal.World.warn message) :=
    fun message w => Rehearsal.Browser.standing_congr rfl rfl
  have hopen : ∀ k < 2,
      ((rehearsedUses [emptyAddress] secondFirst).standing k).closed 0 = false := by
    decide +kernel
  refine ⟨hw, rfl, ?_⟩
  have hpast := pages_apart_iff 30000 (Rehearsal.Browser.context_lawful 1) hw
    (s := onPages [emptyAddress]) rfl (deedsOf secondFirst)
  exact hpast.2.1 0 (by decide) hopen

-- On one without pages the first index takes over the page of the second and goes elsewhere there.
theorem not_apart_secondFirst :
    ¬(rehearsedUses [] secondFirst).Apart 2 ∧
    ((rehearsedUses [] secondFirst).standing 1).livePage? 1 = some 0 ∧
    ((rehearsedUses [] secondFirst).standing 1).callsTo
      ((rehearsedUses [] secondFirst).standing 2) = [0, 0] ∧
    ((rehearsedUses [] secondFirst).standing 2).livePage? 1 = some 0 ∧
    ((rehearsedUses [] secondFirst).standing 2).livePage? 0 = some 0 ∧
    ((rehearsedUses [] secondFirst).standing 2).address 0 = "https://a/" := by
  have hfacts :
      ((rehearsedUses [] secondFirst).standing 1).livePage? 1 = some 0 ∧
      ((rehearsedUses [] secondFirst).standing 1).callsTo
        ((rehearsedUses [] secondFirst).standing 2) = [0, 0] ∧
      ((rehearsedUses [] secondFirst).standing 2).livePage? 1 = some 0 ∧
      ((rehearsedUses [] secondFirst).standing 2).livePage? 0 = some 0 ∧
      ((rehearsedUses [] secondFirst).standing 2).address 0 = "https://a/" := by
    decide +kernel
  refine ⟨fun hapart => ?_, hfacts⟩
  obtain ⟨-, -, hsecond, hfirst, -⟩ := hfacts
  have hsame := hapart.isolated 2 (Nat.le_refl 2) 1 0 0 hsecond hfirst
  omega

end Gleaner.Browser
