import Gleaner.Proofs.Browser.Serving

namespace Gleaner.Browser

namespace Standing

-- What closing a window comes to. If a page cannot be closed all indexes keep theirs.
structure Closes (v w : Standing) : Prop where
  opened : v.opened <+: w.opened
  closed : ∀ page, v.closed page = true → w.closed page = true
  assigned : w.assigned = v.assigned ∨
    w.assigned = [] ∧ ∀ index page, assignedTo? v.assigned index = some page →
      page ∈ v.opened → w.closed page = true

-- What one step makes of a window, and the index it was done for.
inductive Move (v : Standing) : Option Nat → Standing → Prop
  | served {index : Nat} {w : Standing} (h : v.Served index w) : Move v (some index) w
  | later {w : Standing} (h : Later [] v w) : Move v none w
  | closes {w : Standing} (h : v.Closes w) : Move v none w

-- No two indexes have the same open page.
def Isolated (v : Standing) : Prop :=
  ∀ i j page, v.livePage? i = some page → v.livePage? j = some page → i = j

-- An index without a page is about to take over the page of another one.
def Intrudes (v : Standing) (index : Nat) : Prop :=
  v.livePage? index = none ∧
    ∃ page other, v.takenOver? index = some page ∧ other ≠ index ∧ v.livePage? other = some page

-- The calls that have come since.
def callsTo (v w : Standing) : List Nat := w.called.drop v.called.length

variable {v w : Standing} {index page : Nat}

theorem livePage?_eq_some :
    v.livePage? index = some page ↔
      assignedTo? v.assigned index = some page ∧ v.closed page = false := by
  simp [livePage?, Option.filter_eq_some_iff]

theorem takenOver?_eq_some :
    v.takenOver? index = some page ↔
      index = 0 ∧ v.openPages.head? = some page ∧ v.address page = emptyAddress := by
  by_cases hi : index = 0 <;> simp [takenOver?, hi, Option.filter_eq_some_iff]

theorem open_of_takenOver? (h : v.takenOver? index = some page) :
    page ∈ v.opened ∧ v.closed page = false := by
  have hhead := (takenOver?_eq_some.mp h).2.1
  simpa [openPages] using List.mem_of_head? hhead

theorem Later.callsTo {called : List Nat} (h : Later called v w) : v.callsTo w = called := by
  rw [Standing.callsTo, h.called, List.drop_left]

-- A page that is still open stays with the index that has it.
theorem Later.livePage? {called : List Nat} (h : Later called v w)
    (hlive : v.livePage? index = some page) (hopen : w.closed page = false) :
    w.livePage? index = some page :=
  livePage?_eq_some.mpr ⟨h.assigned ▸ (livePage?_eq_some.mp hlive).1, hopen⟩

-- Pages that are open later were open before.
theorem Later.livePage?_before {called : List Nat} (h : Later called v w)
    (hlive : w.livePage? index = some page) : v.livePage? index = some page := by
  obtain ⟨hassigned, hopen⟩ := livePage?_eq_some.mp hlive
  refine livePage?_eq_some.mpr ⟨h.assigned ▸ hassigned, ?_⟩
  cases hv : v.closed page with
  | false => rfl
  | true => exact absurd (h.closed page hv) (by simp [hopen])

theorem give_livePage? (v : Standing) (index page other : Nat) :
    (v.give index page).livePage? other =
      if index = other then (some page).filter fun page => !v.closed page
      else v.livePage? other := by
  unfold livePage? give
  rw [assignedTo?_reassigned]
  split <;> rfl

-- The pages that indexes have are some that have been opened.
def Grounded (v : Standing) : Prop :=
  ∀ index page, assignedTo? v.assigned index = some page → page ∈ v.opened

theorem grounded_of_unassigned (h : v.assigned = []) : v.Grounded := by
  intro index page hpage
  rw [h] at hpage
  cases hpage

theorem isolated_of_unassigned (h : v.assigned = []) : v.Isolated := by
  intro i j page hi
  have hpage := (livePage?_eq_some.mp hi).1
  rw [h] at hpage
  cases hpage

theorem Later.grounded {called : List Nat} (h : Later called v w) (hv : v.Grounded) :
    w.Grounded :=
  fun index page hpage => h.opened.subset (hv index page (h.assigned ▸ hpage))

theorem Later.isolated {called : List Nat} (h : Later called v w) (hv : v.Isolated) :
    w.Isolated :=
  fun i j page hi hj => hv i j page (h.livePage?_before hi) (h.livePage?_before hj)

theorem Offers.later (h : v.Offers index page w) : Later [] v w ∧ page ∈ w.opened := by
  cases h with
  | takenOver h => exact ⟨Later.refl v, (open_of_takenOver? h).1⟩
  | new htaken hw hfresh hopened hopen => exact ⟨hw, hopened⟩

theorem Lookup.grounded {found : Option Nat} (h : v.Lookup index found w) (hv : v.Grounded) :
    w.Grounded := by
  cases h with
  | live => exact hv
  | unopened hnone h hw => exact hw.grounded hv
  | unlimited hnone ho => exact ho.later.1.grounded hv
  | @given page x hnone ho =>
    intro other p hp
    change assignedTo? (reassigned index page x.assigned) other = some p at hp
    rw [assignedTo?_reassigned] at hp
    split at hp
    · exact Option.some.inj hp ▸ ho.later.2
    · exact ho.later.1.grounded hv other p hp

theorem Move.grounded {served : Option Nat} (h : v.Move served w) (hv : v.Grounded) :
    w.Grounded := by
  cases h with
  | later h => exact h.grounded hv
  | served h =>
    cases h with
    | missed h => exact h.grounded hv
    | found h hx => exact hx.grounded (h.grounded hv)
  | closes h =>
    rcases h.assigned with hsame | ⟨hnone, -⟩
    · exact fun index page hpage => h.opened.subset (hv index page (hsame ▸ hpage))
    · exact grounded_of_unassigned hnone

-- A page that no index but one has.
def FreeFor (v : Standing) (index page : Nat) : Prop :=
  ∀ other, v.livePage? other = some page → other = index

-- A page that is free can be given to an index.
theorem Isolated.give (hv : v.Isolated) (hfree : v.FreeFor index page) :
    (v.give index page).Isolated := by
  intro i j p hi hj
  rw [give_livePage?] at hi hj
  by_cases hii : index = i
  · by_cases hij : index = j
    · exact hii.symm.trans hij
    · rw [if_pos hii] at hi
      rw [if_neg hij] at hj
      have hp := Option.some.inj (Option.filter_eq_some_iff.mp hi).1
      exact hii.symm.trans (hfree j (hp ▸ hj)).symm
  · rw [if_neg hii] at hi
    by_cases hij : index = j
    · rw [if_pos hij] at hj
      have hp := Option.some.inj (Option.filter_eq_some_iff.mp hj).1
      exact (hfree i (hp ▸ hi)).trans hij
    · rw [if_neg hij] at hj
      exact hv i j p hi hj

-- Unless an index intrudes the page that it is offered is free.
theorem Offers.free (h : v.Offers index page w) (hg : v.Grounded)
    (hnone : v.livePage? index = none) (hkept : ¬v.Intrudes index) : v.FreeFor index page := by
  intro other hother
  cases h with
  | takenOver h =>
    refine Classical.byContradiction fun hne => ?_
    exact hkept ⟨hnone, page, other, h, hne, hother⟩
  | new htaken hw hfresh hopened hopen =>
    exact absurd (hg other page (livePage?_eq_some.mp hother).1) hfresh

theorem Later.free {called : List Nat} (h : Later called v w) (hfree : v.FreeFor index page) :
    w.FreeFor index page := fun other hother => hfree other (h.livePage?_before hother)

-- A lookup that does not intrude leaves the indexes apart. What it has called is free.
theorem Lookup.isolated {found : Option Nat} (h : v.Lookup index found w) (hg : v.Grounded)
    (hv : v.Isolated) (hkept : ¬v.Intrudes index) :
    w.Isolated ∧ (∃ called, w.called = v.called ++ called ∧ ∀ page ∈ called, v.FreeFor index page) ∧
      ∀ page, found = some page → v.FreeFor index page := by
  have hcall : ∀ {page : Nat} {x : Standing}, v.livePage? index = none → v.Offers index page x →
      ∃ called, (x.call page).called = v.called ++ called ∧
        ∀ page ∈ called, v.FreeFor index page := by
    intro page x hnone ho
    have hcalled := ho.later.1.called
    refine ⟨[page], by simp [Standing.call, hcalled], ?_⟩
    intro p hp
    rw [List.mem_singleton.mp hp]
    exact ho.free hg hnone hkept
  cases h with
  | @live page h =>
    refine ⟨hv, ⟨[], by simp⟩, ?_⟩
    intro p hp other hother
    cases hp
    exact hv other index page hother h
  | unopened hnone h hw =>
    exact ⟨hw.isolated hv, ⟨[], hw.called, by simp⟩, by simp⟩
  | unlimited hnone ho =>
    exact ⟨ho.later.1.isolated hv, hcall hnone ho, by simp⟩
  | @given page x hnone ho =>
    have hfree := ho.free hg hnone hkept
    have hx : (x.call page).Isolated := ho.later.1.isolated hv
    refine ⟨hx.give (ho.later.1.free hfree), hcall hnone ho, ?_⟩
    intro p hp
    cases hp
    exact hfree

-- The calls of a step for an index, on pages that are free for it.
def CallsApart (v w : Standing) (index : Nat) : Prop :=
  ∀ page ∈ v.callsTo w, v.FreeFor index page

theorem Served.isolated (h : v.Served index w) (hg : v.Grounded) (hv : v.Isolated)
    (hkept : ¬v.Intrudes index) : w.Isolated ∧ v.CallsApart w index := by
  cases h with
  | missed h =>
    obtain ⟨hw, ⟨called, hcalled, hfree⟩, -⟩ := h.isolated hg hv hkept
    refine ⟨hw, ?_⟩
    rw [CallsApart, Standing.callsTo, hcalled, List.drop_left]
    exact hfree
  | @found page n x _ h hx =>
    obtain ⟨hw, ⟨called, hcalled, hfree⟩, hpage⟩ := h.isolated hg hv hkept
    refine ⟨hx.isolated hw, ?_⟩
    rw [CallsApart, Standing.callsTo, hx.called, hcalled, List.append_assoc, List.drop_left]
    intro p hp
    rcases List.mem_append.mp hp with hp | hp
    · exact hfree p hp
    · rw [List.eq_of_mem_replicate hp]
      exact hpage page rfl

theorem Closes.isolated (h : v.Closes w) (hv : v.Isolated) : w.Isolated := by
  rcases h.assigned with hsame | ⟨hnone, -⟩
  · intro i j page hi hj
    have hbefore : ∀ index, w.livePage? index = some page → v.livePage? index = some page := by
      intro index hlive
      obtain ⟨hpage, hopen⟩ := livePage?_eq_some.mp hlive
      refine livePage?_eq_some.mpr ⟨hsame ▸ hpage, ?_⟩
      exact Bool.eq_false_iff.mpr fun hclosed => by simp [h.closed page hclosed] at hopen
    exact hv i j page (hbefore i hi) (hbefore j hj)
  · exact isolated_of_unassigned hnone

-- An index that intrudes makes a call of the page of another one.
theorem Offers.intrudes (h : v.Offers index page w) (hin : v.Intrudes index) :
    ¬v.FreeFor index page := by
  obtain ⟨hnone, taken, other, htaken, hne, hother⟩ := hin
  cases h with
  | takenOver h =>
    rw [h] at htaken
    cases htaken
    exact fun hfree => hne (hfree other hother)
  | new h => simp [h] at htaken

theorem Lookup.intrudes {found : Option Nat} (h : v.Lookup index found w)
    (hin : v.Intrudes index) : ∃ page called, w.called = v.called ++ page :: called ∧
      ¬v.FreeFor index page := by
  cases h with
  | live h =>
    obtain ⟨hnone, -⟩ := hin
    simp [h] at hnone
  | unopened hnone h hw =>
    obtain ⟨-, page, other, htaken, -⟩ := hin
    simp [h] at htaken
  | unlimited hnone ho =>
    exact ⟨_, [], by simp [Standing.call, ho.later.1.called], ho.intrudes hin⟩
  | given hnone ho =>
    exact ⟨_, [], by simp [Standing.call, Standing.give, ho.later.1.called], ho.intrudes hin⟩

theorem Served.intrudes (h : v.Served index w) (hin : v.Intrudes index) :
    ¬v.CallsApart w index := by
  have hfirst : ∃ page called, w.called = v.called ++ page :: called ∧
      ¬v.FreeFor index page := by
    cases h with
    | missed h => exact h.intrudes hin
    | @found taken n x _ h hx =>
      obtain ⟨page, called, hcalled, htaken⟩ := h.intrudes hin
      refine ⟨page, called ++ List.replicate n taken, ?_, htaken⟩
      simp [hx.called, hcalled]
  obtain ⟨page, called, hcalled, htaken⟩ := hfirst
  intro hall
  refine htaken (hall page ?_)
  simp [Standing.callsTo, hcalled]

theorem Later.keeps {called : List Nat} (h : Later called v w)
    (hlive : v.livePage? index = some page) :
    w.closed page = true ∨ w.livePage? index = some page := by
  cases hopen : w.closed page with
  | true => exact .inl rfl
  | false => exact .inr (h.livePage? hlive hopen)

theorem Lookup.keeps {found : Option Nat} {other : Nat} (h : v.Lookup other found w)
    (hlive : v.livePage? index = some page) :
    w.closed page = true ∨ w.livePage? index = some page := by
  cases h with
  | live => exact .inr hlive
  | unopened hnone h hw => exact hw.keeps hlive
  | unlimited hnone ho => exact ho.later.1.keeps hlive
  | given hnone ho =>
    have hother : other ≠ index := by
      rintro rfl
      simp [hnone] at hlive
    rw [give_livePage?, if_neg hother]
    exact ho.later.1.keeps hlive

-- Whatever a step is done for, an index keeps its page until that is closed.
theorem Move.keeps {served : Option Nat} (h : v.Move served w) (hg : v.Grounded)
    (hlive : v.livePage? index = some page) :
    w.closed page = true ∨ w.livePage? index = some page := by
  cases h with
  | later h => exact h.keeps hlive
  | served h =>
    cases h with
    | missed h => exact h.keeps hlive
    | found h hx =>
      rcases h.keeps hlive with hclosed | hkept
      · exact .inl (hx.closed page hclosed)
      · exact hx.keeps hkept
  | closes h =>
    have hpage := (livePage?_eq_some.mp hlive).1
    rcases h.assigned with hsame | ⟨-, hclosed⟩
    · cases hopen : w.closed page with
      | true => exact .inl rfl
      | false => exact .inr (livePage?_eq_some.mpr ⟨hsame ▸ hpage, hopen⟩)
    · exact .inl (hclosed index page hpage (hg index page hpage))

-- As long as an index has a page all that is done for it is done there.
theorem Move.calls_eq {called : Nat} (h : v.Move (some index) w)
    (hlive : v.livePage? index = some page) (hcalled : called ∈ v.callsTo w) : called = page := by
  cases h with
  | served h =>
    cases h with
    | missed h =>
      cases h with
      | unopened hnone | unlimited hnone => simp [hnone] at hlive
    | found h hx =>
      cases h with
      | live h =>
        rw [h] at hlive
        cases hlive
        rw [hx.callsTo] at hcalled
        exact List.eq_of_mem_replicate hcalled
      | given hnone => simp [hnone] at hlive

theorem Move.isolated {served : Option Nat} (h : v.Move served w) (hg : v.Grounded)
    (hv : v.Isolated) (hkept : ∀ index, served = some index → ¬v.Intrudes index) :
    w.Isolated ∧ ∀ index, served = some index → v.CallsApart w index := by
  cases h with
  | @served index _ h =>
    obtain ⟨hw, hcalls⟩ := h.isolated hg hv (hkept index rfl)
    refine ⟨hw, ?_⟩
    rintro other ⟨⟩
    exact hcalls
  | later h => exact ⟨h.isolated hv, by simp⟩
  | closes h => exact ⟨h.isolated hv, by simp⟩

-- Some first pages are still in their places, and only the first index has been given one of them.
structure GivesFirst (v : Standing) (pages : List Nat) : Prop where
  opened : pages <+: v.opened
  first : ∀ index page, assignedTo? v.assigned index = some page → page ∈ pages → index = 0

variable {pages : List Nat}

theorem Later.givesFirst {called : List Nat} (h : Later called v w) (hv : v.GivesFirst pages) :
    w.GivesFirst pages where
  opened := hv.opened.trans h.opened
  first index page hgiven := hv.first index page (h.assigned ▸ hgiven)

theorem Offers.first (h : v.Offers index page w) (hv : v.GivesFirst pages)
    (hpage : page ∈ pages) : index = 0 := by
  cases h with
  | takenOver h => exact (takenOver?_eq_some.mp h).1
  | new h hw hfresh => exact absurd (hv.opened.subset hpage) hfresh

theorem Lookup.givesFirst {found : Option Nat} (h : v.Lookup index found w)
    (hv : v.GivesFirst pages) : w.GivesFirst pages := by
  cases h with
  | live => exact hv
  | unopened hnone h hw => exact hw.givesFirst hv
  | unlimited hnone ho =>
    have hw := ho.later.1.givesFirst hv
    exact ⟨hw.opened, hw.first⟩
  | @given page x hnone ho =>
    have hw := ho.later.1.givesFirst hv
    refine ⟨hw.opened, ?_⟩
    intro other p hgiven hp
    change assignedTo? (reassigned index page x.assigned) other = some p at hgiven
    rw [assignedTo?_reassigned] at hgiven
    split at hgiven
    · next hsame =>
        cases hgiven
        exact hsame ▸ ho.first hv hp
    · exact hw.first other p hgiven hp

theorem Move.givesFirst {served : Option Nat} (h : v.Move served w) (hv : v.GivesFirst pages) :
    w.GivesFirst pages := by
  cases h with
  | later h => exact h.givesFirst hv
  | served h =>
    cases h with
    | missed h => exact h.givesFirst hv
    | found h hx => exact hx.givesFirst (h.givesFirst hv)
  | closes h =>
    refine ⟨hv.opened.trans h.opened, fun index page hgiven hpage => ?_⟩
    rcases h.assigned with hsame | ⟨hnone, -⟩
    · exact hv.first index page (hsame ▸ hgiven) hpage
    · simp [hnone, assignedTo?] at hgiven

-- As long as one of the first pages is open the page that can be taken over is another of them.
theorem GivesFirst.mem_of_takenOver? {taken : Nat} (h : v.GivesFirst pages)
    (hpage : page ∈ pages) (hopen : v.closed page = false)
    (htaken : v.takenOver? index = some taken) : taken ∈ pages := by
  obtain ⟨rest, hopened⟩ := h.opened
  have hhead := (takenOver?_eq_some.mp htaken).2.1
  have hsome : page ∈ pages.filter fun page => !v.closed page :=
    List.mem_filter.mpr ⟨hpage, by simp [hopen]⟩
  obtain ⟨first, more, hfirst⟩ := List.exists_cons_of_ne_nil (List.ne_nil_of_mem hsome)
  rw [openPages, ← hopened, List.filter_append, hfirst] at hhead
  cases hhead
  have hmem : taken ∈ pages.filter fun page => !v.closed page :=
    hfirst ▸ List.mem_cons_self
  exact (List.mem_filter.mp hmem).1

end Standing

-- What is seen of a window before each of some steps and after the last, and the index that each
-- step is done for.
structure History where
  served : Nat → Option Nat
  standing : Nat → Standing

namespace History

open Standing

-- Up to some time no two indexes have had the same open page, and what was done for an index was
-- done on pages that no other one had.
structure Apart (h : History) (n : Nat) : Prop where
  isolated : ∀ m ≤ n, (h.standing m).Isolated
  calls : ∀ k < n, ∀ index, h.served k = some index →
    (h.standing k).CallsApart (h.standing (k + 1)) index

variable {h : History} {n : Nat}
  (hmoves : ∀ k < n, (h.standing k).Move (h.served k) (h.standing (k + 1)))
  (hstart : (h.standing 0).assigned = [])
include hmoves hstart

theorem grounded (m : Nat) (hm : m ≤ n) : (h.standing m).Grounded := by
  induction m with
  | zero => exact grounded_of_unassigned hstart
  | succ m ih => exact (hmoves m hm).grounded (ih (by omega))

-- An index keeps its page until that is closed, and what is done for it is done there.
theorem keeps {k : Nat} (hk : k < n) {index page : Nat}
    (hlive : (h.standing k).livePage? index = some page) :
    ((h.standing (k + 1)).closed page = true ∨
      (h.standing (k + 1)).livePage? index = some page) ∧
    (h.served k = some index →
      ∀ called ∈ (h.standing k).callsTo (h.standing (k + 1)), called = page) := by
  have hmove := hmoves k hk
  refine ⟨hmove.keeps (grounded hmoves hstart k (by omega)) hlive, ?_⟩
  intro hserved called hcalled
  rw [hserved] at hmove
  exact hmove.calls_eq hlive hcalled

-- The indexes stay apart exactly as long as none intrudes.
theorem apart_iff :
    h.Apart n ↔ ∀ k < n, ∀ index, h.served k = some index → ¬(h.standing k).Intrudes index := by
  constructor
  · intro hapart k hk index hserved hin
    have hmove := hmoves k hk
    rw [hserved] at hmove
    cases hmove with
    | served hs => exact hs.intrudes hin (hapart.calls k hk index hserved)
  · intro hkept
    have hisolated : ∀ m ≤ n, (h.standing m).Isolated := by
      intro m hm
      induction m with
      | zero => exact isolated_of_unassigned hstart
      | succ m ih =>
        have hg := grounded hmoves hstart m (by omega)
        exact ((hmoves m hm).isolated hg (ih (by omega)) (hkept m hm)).1
    refine ⟨hisolated, fun k hk => ?_⟩
    have hg := grounded hmoves hstart k (by omega)
    exact ((hmoves k hk).isolated hg (hisolated k (by omega)) (hkept k hk)).2

-- While a page of the first moment is open there is no other one to take over.
theorem apart_of_open {page : Nat} (hpage : page ∈ (h.standing 0).opened)
    (hopen : ∀ k < n, (h.standing k).closed page = false) : h.Apart n := by
  have hfirst : ∀ k ≤ n, (h.standing k).GivesFirst (h.standing 0).opened := by
    intro k hk
    induction k with
    | zero =>
      refine ⟨List.prefix_refl _, fun index page hgiven => ?_⟩
      simp [hstart, assignedTo?] at hgiven
    | succ k ih => exact (hmoves k hk).givesFirst (ih (by omega))
  refine (apart_iff hmoves hstart).mpr ?_
  rintro k hk index - ⟨-, taken, other, htaken, hne, hother⟩
  have hgives := hfirst k (by omega)
  have hzero := (takenOver?_eq_some.mp htaken).1
  have htaken := hgives.mem_of_takenOver? hpage (hopen k hk) htaken
  have hother := hgives.first other taken (livePage?_eq_some.mp hother).1 htaken
  omega

end History

end Gleaner.Browser
