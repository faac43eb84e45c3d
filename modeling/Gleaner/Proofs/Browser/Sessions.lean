import Gleaner.Browser.Session
import Gleaner.Proofs.Run.Effects
import Mathlib.Logic.Function.Basic

namespace Gleaner.Browser

namespace Sessions

variable {s t u : Sessions} {key other : String} {browser : Nat}

theorem active?_remove : (s.remove key).active? other =
    if other = key then none else s.active? other := by
  simp only [active?, remove, List.find?_filter]
  by_cases h : other = key
  · simp [h]
  · rw [if_neg h]
    congr 2
    funext x
    by_cases hx : x.1 = other <;> simp [hx, h]

theorem active?_add : (s.add key browser).active? other =
    if other = key then some browser else s.active? other := by
  have happend : (s.add key browser).active? other = ((s.remove key).active? other).or
      (([(key, browser)].find? (·.1 == other)).map (·.2)) := by
    simp only [active?, add, remove, List.find?_append, Option.map_or]
  rw [happend, active?_remove]
  by_cases h : other = key
  · simp [h]
  · simp [h, Ne.symm h]

-- A browser that is forgotten takes no other one with it.
theorem active?_forget : (s.forget key browser).active? other =
    if other = key ∧ s.active? key = some browser then none else s.active? other := by
  unfold forget
  by_cases h : s.active? key = some browser
  · simp [h, active?_remove]
  · simp [h]

theorem keyOf?_mem (h : s.keyOf? browser = some key) : (browser, key) ∈ s.keys := by
  unfold keyOf? at h
  split at h
  · cases h
  · obtain ⟨⟨found, _⟩, hfound, rfl⟩ := Option.map_eq_some_iff.mp h
    obtain rfl : found = browser := by simpa using List.find?_some hfound
    exact List.mem_of_find?_eq_some hfound

theorem scheduledKey?_mem (h : s.scheduledKey? browser = some key) :
    (browser, key) ∈ s.scheduled := by
  obtain ⟨⟨found, _⟩, hfound, rfl⟩ := Option.map_eq_some_iff.mp h
  obtain rfl : found = browser := by simpa using List.find?_some hfound
  exact List.mem_of_find?_eq_some hfound

-- What happens to the sessions while a browser is waited for: browsers that have a key may go away,
-- and their cleanup is scheduled then.
structure Meanwhile (s t : Sessions) : Prop where
  active : t.active = s.active
  keys : t.keys = s.keys
  scheduled : ∀ x ∈ t.scheduled, x ∈ s.scheduled ∨ x ∈ s.keys

theorem Meanwhile.refl (s : Sessions) : s.Meanwhile s := ⟨rfl, rfl, fun _ h => .inl h⟩

theorem Meanwhile.trans (h : s.Meanwhile t) (h' : t.Meanwhile u) : s.Meanwhile u where
  active := h'.active.trans h.active
  keys := h'.keys.trans h.keys
  scheduled x hx := by
    rcases h'.scheduled x hx with hold | hkey
    · exact h.scheduled x hold
    · exact .inr (h.keys ▸ hkey)

theorem Meanwhile.active? (h : s.Meanwhile t) : t.active? = s.active? := by
  funext key
  simp only [Sessions.active?, h.active]

end Sessions

-- What happens to a browser when the launcher is called.
inductive Call
  | started (browser : Nat)
  | launched (browser : Nat)
  | closing (browser : Nat)
  | stopping (browser : Nat)
deriving DecidableEq, Repr

variable {σ α : Type}

section

variable (view : σ → Sessions) (book : σ → List Call)

-- Some time has passed in which a browser was waited for. The calls are written down in a book, the
-- last one first.
structure Waited (s t : σ) (calls : List Call) : Prop where
  sessions : (view s).Meanwhile (view t)
  book : book t = calls ++ book s

-- A launcher that keeps the sessions, and a book of what it is told to do: of each start and launch
-- that succeeds, and of each attempt to close a browser or to stop one.
structure Launcher.Booked (launcher : Launcher σ) : Prop where
  looking : ∀ s, (launcher.sessions s).1 = view s ∧
    view (launcher.sessions s).2 = view s ∧ book (launcher.sessions s).2 = book s
  keeping : ∀ sessions s, view (launcher.keep sessions s).2 = sessions ∧
    book (launcher.keep sessions s).2 = book s
  start : ∀ s, Waited view book s (launcher.start s).2
    (match (launcher.start s).1 with | .ok browser => [.started browser] | .error _ => [])
  launch : ∀ browser headless s, Waited view book s (launcher.launch browser headless s).2
    (match (launcher.launch browser headless s).1 with
      | .ok () => [.launched browser] | .error _ => [])
  openContext : ∀ browser s, Waited view book s (launcher.openContext browser s).2 []
  closeBrowser : ∀ browser s,
    Waited view book s (launcher.closeBrowser browser s).2 [.closing browser]
  stop : ∀ browser s, Waited view book s (launcher.stop browser s).2 [.stopping browser]

end

section

def noting (work : Effect σ α) (note : Except Failure α → List Call) :
    Effect (σ × List Call) α := fun s =>
  let (outcome, w) := work s.1
  (outcome, (w, note outcome ++ s.2))

def unnoted (work : StateM σ α) : StateM (σ × List Call) α := fun s =>
  let (a, w) := work s.1
  (a, (w, s.2))

-- A launcher with a book.
def Launcher.noted (launcher : Launcher σ) : Launcher (σ × List Call) where
  start := noting launcher.start fun
    | .ok browser => [.started browser]
    | .error _ => []
  launch browser headless := noting (launcher.launch browser headless) fun
    | .ok () => [.launched browser]
    | .error _ => []
  openContext browser := noting (launcher.openContext browser) fun _ => []
  closeBrowser browser := noting (launcher.closeBrowser browser) fun _ => [.closing browser]
  stop browser := noting (launcher.stop browser) fun _ => [.stopping browser]
  sessions := unnoted launcher.sessions
  keep sessions := unnoted (launcher.keep sessions)

-- A launcher that keeps the sessions.
structure Launcher.Registers (launcher : Launcher σ) (view : σ → Sessions) : Prop where
  looking : ∀ s, (launcher.sessions s).1 = view s ∧ view (launcher.sessions s).2 = view s
  keeping : ∀ sessions s, view (launcher.keep sessions s).2 = sessions
  start : ∀ s, (view s).Meanwhile (view (launcher.start s).2)
  launch : ∀ browser headless s,
    (view s).Meanwhile (view (launcher.launch browser headless s).2)
  openContext : ∀ browser s, (view s).Meanwhile (view (launcher.openContext browser s).2)
  closeBrowser : ∀ browser s, (view s).Meanwhile (view (launcher.closeBrowser browser s).2)
  stop : ∀ browser s, (view s).Meanwhile (view (launcher.stop browser s).2)

-- Any launcher that keeps the sessions can be given a book.
theorem Launcher.Registers.booked {launcher : Launcher σ} {view : σ → Sessions}
    (h : launcher.Registers view) : launcher.noted.Booked (fun s => view s.1) (·.2) where
  looking s := ⟨(h.looking s.1).1, (h.looking s.1).2, rfl⟩
  keeping sessions s := ⟨h.keeping sessions s.1, rfl⟩
  start s := ⟨h.start s.1, rfl⟩
  launch browser headless s := ⟨h.launch browser headless s.1, rfl⟩
  openContext browser s := ⟨h.openContext browser s.1, rfl⟩
  closeBrowser browser s := ⟨h.closeBrowser browser s.1, rfl⟩
  stop browser s := ⟨h.stop browser s.1, rfl⟩

end

-- A browser that has been started is stopped again, and one that has been launched is closed too,
-- unless they have a key in the end. No key is lost otherwise.
structure Accounted (before after : String → Option Nat) (calls : List Call) : Prop where
  started : ∀ browser, .started browser ∈ calls →
    (∃ key, after key = some browser) ∨ .stopping browser ∈ calls
  launched : ∀ browser, .launched browser ∈ calls →
    (∃ key, after key = some browser) ∨ .closing browser ∈ calls ∧ .stopping browser ∈ calls
  kept : ∀ browser, (∃ key, before key = some browser) →
    (∃ key, after key = some browser) ∨ .closing browser ∈ calls ∧ .stopping browser ∈ calls

namespace Accounted

variable {a b c : String → Option Nat} {calls more : List Call}

theorem refl (a : String → Option Nat) : Accounted a a [] :=
  ⟨nofun, nofun, fun _ h => .inl h⟩

-- What has a key at some time is still accounted for later.
theorem trans (h : Accounted a b calls) (h' : Accounted b c more) :
    Accounted a c (more ++ calls) := by
  have hlater : ∀ browser, (∃ key, b key = some browser) → (∃ key, c key = some browser) ∨
      .closing browser ∈ more ++ calls ∧ .stopping browser ∈ more ++ calls := by
    intro browser hkey
    exact (h'.kept browser hkey).imp_right (And.imp (List.mem_append_left _) (List.mem_append_left _))
  constructor
  · intro browser hstarted
    rcases List.mem_append.mp hstarted with hnew | hold
    · exact (h'.started browser hnew).imp_right (List.mem_append_left _)
    · rcases h.started browser hold with hkey | hstop
      · exact (hlater browser hkey).imp_right And.right
      · exact .inr (List.mem_append_right _ hstop)
  · intro browser hlaunched
    rcases List.mem_append.mp hlaunched with hnew | hold
    · exact (h'.launched browser hnew).imp_right
        (And.imp (List.mem_append_left _) (List.mem_append_left _))
    · rcases h.launched browser hold with hkey | hdone
      · exact hlater browser hkey
      · exact .inr ⟨List.mem_append_right _ hdone.1, List.mem_append_right _ hdone.2⟩
  · intro browser hkey
    rcases h.kept browser hkey with hkey | hdone
    · exact hlater browser hkey
    · exact .inr ⟨List.mem_append_right _ hdone.1, List.mem_append_right _ hdone.2⟩

end Accounted

end Gleaner.Browser
