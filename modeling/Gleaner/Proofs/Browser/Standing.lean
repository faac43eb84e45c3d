import Gleaner.Browser.Pages
import Gleaner.Proofs.Run.Leaves

namespace Gleaner.Browser

-- What is seen of a window: the pages that have been opened, in their order, which of them are
-- closed, where each is, the index it belongs to, and the page of each call so far.
structure Standing where
  opened : List Nat
  closed : Nat → Bool
  address : Nat → String
  assigned : List (Nat × Nat)
  called : List Nat

namespace Standing

def openPages (v : Standing) : List Nat := v.opened.filter fun page => !v.closed page

def livePage? (v : Standing) (index : Nat) : Option Nat :=
  (assignedTo? v.assigned index).filter fun page => !v.closed page

def takenOver? (v : Standing) (index : Nat) : Option Nat :=
  if index = 0 then v.openPages.head?.filter fun page => v.address page = emptyAddress else none

def call (v : Standing) (page : Nat) : Standing := { v with called := v.called ++ [page] }

def give (v : Standing) (index page : Nat) : Standing :=
  { v with assigned := reassigned index page v.assigned }

-- A later standing, after some calls. Pages may open and close meanwhile, and go elsewhere.
structure Later (called : List Nat) (v w : Standing) : Prop where
  opened : v.opened <+: w.opened
  closed : ∀ page, v.closed page = true → w.closed page = true
  assigned : w.assigned = v.assigned
  called : w.called = v.called ++ called

theorem Later.refl (v : Standing) : v.Later [] v :=
  { opened := List.prefix_refl _, closed := fun _ h => h, assigned := rfl, called := by simp }

theorem Later.trans {v w x : Standing} {called more : List Nat} (h : Later called v w)
    (h' : Later more w x) : Later (called ++ more) v x where
  opened := h.opened.trans h'.opened
  closed page hp := h'.closed page (h.closed page hp)
  assigned := h'.assigned.trans h.assigned
  called := by rw [h'.called, h.called, List.append_assoc]

end Standing

theorem assignedTo?_cons (index page : Nat) (pages : List (Nat × Nat)) (other : Nat) :
    assignedTo? ((index, page) :: pages) other =
      if index = other then some page else assignedTo? pages other := by
  by_cases h : index = other <;> simp [assignedTo?, h]

theorem assignedTo?_mem {pages : List (Nat × Nat)} {index page : Nat}
    (h : assignedTo? pages index = some page) : (index, page) ∈ pages := by
  induction pages with
  | nil => cases h
  | cons entry rest ih =>
    rw [assignedTo?_cons] at h
    by_cases hi : entry.1 = index
    · rw [if_pos hi] at h
      cases h
      cases hi
      exact List.mem_cons_self
    · rw [if_neg hi] at h
      exact List.mem_cons_of_mem entry (ih h)

-- Only the index that is given a page has another one than before.
theorem assignedTo?_reassigned (pages : List (Nat × Nat)) (index page other : Nat) :
    assignedTo? (reassigned index page pages) other =
      if index = other then some page else assignedTo? pages other := by
  induction pages with
  | nil => rw [reassigned, assignedTo?_cons]
  | cons entry rest ih =>
    obtain ⟨i, p⟩ := entry
    by_cases hi : i = index
    · rw [reassigned, if_pos hi, assignedTo?_cons, assignedTo?_cons, hi]
      by_cases h : index = other <;> simp [h]
    · rw [reassigned, if_neg hi, assignedTo?_cons, assignedTo?_cons, ih]
      by_cases h : i = other
      · have hne : ¬index = other := fun heq => hi (h.trans heq.symm)
        simp [h, hne]
      · simp [h]

-- Work that makes calls of one page only.
def Tells {σ α : Type} (view : σ → Standing) (page : Nat) (work : Effect σ α) : Prop :=
  ∀ s, ∃ n, (view s).Later (List.replicate n page) (view (work s).2)

-- What is found on a page belongs to it.
structure FoundElement.Tells {σ : Type} (element : FoundElement σ) (view : σ → Standing)
    (page : Nat) : Prop where
  click : Browser.Tells view page element.click
  fill : ∀ text, Browser.Tells view page (element.fill text)
  type : ∀ text, Browser.Tells view page (element.type text)
  press : ∀ key, Browser.Tells view page (element.press key)
  scrollIntoView : Browser.Tells view page element.scrollIntoView
  text : Browser.Tells view page element.text
  attributeOf : ∀ name, Browser.Tells view page (element.attributeOf name)

-- How a window behaves. To look at it changes nothing, a page is told something by its own calls
-- only, a new page is one that there has not been, and who belongs to which page is noted by the
-- scripts alone. Otherwise pages open, close and move as they like.
structure Context.Lawful {σ : Type} (context : Context σ) (view : σ → Standing) : Prop where
  openPages : ∀ s, context.openPages s = ((view s).openPages, s)
  address : ∀ page s, context.address page s = ((view s).address page, s)
  isClosed : ∀ page s, context.isClosed page s = ((view s).closed page, s)
  assigned : ∀ s, context.assigned s = ((view s).assigned, s)
  assign : ∀ pages s, view (context.assign pages s).2 = { view s with assigned := pages }
  openPage : ∀ s, (view s).Later [] (view (context.openPage s).2)
  newPage : ∀ s page t, context.openPage s = (.ok page, t) →
    page ∉ (view s).opened ∧ page ∈ (view t).opened ∧ (view t).closed page = false
  limitNavigation : ∀ page timeout s,
    view (context.limitNavigation page timeout s).2 = (view s).call page
  navigate : ∀ page address timeout, Tells view page (context.navigate page address timeout)
  evaluate : ∀ page script, Tells view page (context.evaluate page script)
  locate : ∀ page selectors, Tells view page (context.locate page selectors)
  located : ∀ page selectors s element t,
    context.locate page selectors s = (.ok (some element), t) → element.Tells view page
  dispose : ∀ page, Tells view page (context.dispose page)
  wait : ∀ page duration, Tells view page (context.wait page duration)
  waitUntilIdle : ∀ page timeout, Tells view page (context.waitUntilIdle page timeout)
  closePage : ∀ page, Tells view page (context.closePage page)
  closedPage : ∀ page s t, context.closePage page s = (.ok (), t) → page ∈ (view s).opened →
    (view t).closed page = true

section

variable {σ α β : Type} {view : σ → Standing} {page : Nat}

theorem tells_pure (a : α) : Tells view page (pure a : Effect σ α) := fun _ =>
  ⟨0, Standing.Later.refl _⟩

theorem tells_throw (e : Failure) : Tells view page (throw e : Effect σ α) := fun _ =>
  ⟨0, Standing.Later.refl _⟩

theorem tells_of_leaves {work : Effect σ α} (h : Leaves view work) : Tells view page work := by
  intro s
  rw [h s]
  exact ⟨0, Standing.Later.refl _⟩

-- What follows may count on what the results of the first piece of work have in common.
theorem tells_bind_of {work : Effect σ α} {next : α → Effect σ β} {Q : α → Prop}
    (hw : Tells view page work) (hq : ∀ s a t, work s = (.ok a, t) → Q a)
    (hn : ∀ a, Q a → Tells view page (next a)) : Tells view page (work >>= next) := by
  intro s
  obtain ⟨n, hs⟩ := hw s
  rw [Effect.bind_apply]
  rcases hr : work s with ⟨e | a, t⟩
  · rw [hr] at hs
    exact ⟨n, hs⟩
  · rw [hr] at hs
    obtain ⟨m, ht⟩ := hn a (hq s a t hr) t
    have htotal := hs.trans ht
    rw [List.replicate_append_replicate] at htotal
    exact ⟨n + m, htotal⟩

theorem tells_bind {work : Effect σ α} {next : α → Effect σ β} (hw : Tells view page work)
    (hn : ∀ a, Tells view page (next a)) : Tells view page (work >>= next) :=
  tells_bind_of hw (fun _ _ _ _ => trivial) fun a _ => hn a

theorem tells_attempt {work : Effect σ α} (h : Tells view page work) :
    Tells view page work.attempt := h

theorem tells_if {asked : Bool} {work : Effect σ Unit} (h : Tells view page work) :
    Tells view page (if asked then work else pure ()) := by
  cases asked with
  | false => exact tells_pure _
  | true => exact h

end

end Gleaner.Browser
