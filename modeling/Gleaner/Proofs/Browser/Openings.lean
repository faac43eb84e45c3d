import Gleaner.Proofs.Browser.Registry
import Gleaner.Proofs.Rehearsal.Standing

namespace Gleaner.Browser

variable {σ : Type}

-- What may happen to the registry, in any order. A block is its beginning, what is done in it, and
-- its end.
inductive Act
  | opens (key : String) (headless : Bool)
  | closes (key : String)
  | enters (key : String) (headless : Bool)
  | leaves (key : String)
  -- a browser disconnects, or its context is closed
  | goes (browser : Nat) (canSchedule : Bool)
  -- the cleanup that has been scheduled for a browser runs
  | cleans (browser : Nat)

namespace Act

def run (launcher : Launcher σ) (warn : String → StateM σ Unit) : Act → Effect σ (Option Nat)
  | opens key headless => do return some (← openSession launcher key headless)
  | closes key => do
    closeSession launcher key
    return none
  | enters key headless => do return some (← enter launcher key headless)
  | leaves key => do
    leave launcher key
    return none
  | goes browser canSchedule => do
    noteGone launcher warn browser canSchedule
    return none
  | cleans browser => do
    cleanUp launcher browser
    return none

-- A cleanup runs only if it has been scheduled.
def IsDue (s : Sessions) : Act → Prop
  | cleans browser => ∃ key, s.scheduledKey? browser = some key
  | _ => True

end Act

-- What has happened, and what came of it.
structure Entry where
  act : Act
  result : Except Failure (Option Nat)

namespace Entry

-- A browser has been opened under a key.
def Opens (e : Entry) (key : String) (browser : Nat) : Prop :=
  (∃ headless, e.act = .opens key headless ∨ e.act = .enters key headless) ∧
    e.result = .ok (some browser)

-- What takes its key from a browser: the key is opened or closed, whether this succeeds or not, or
-- this browser is cleaned up.
def Removes (e : Entry) (key : String) (browser : Nat) : Prop :=
  match e.act with
  | .opens k _ | .closes k | .enters k _ | .leaves k => k = key
  | .cleans b => b = browser
  | .goes .. => False

-- The browsers that have keys afterwards.
def seats (e : Entry) (a : String → Option Nat) : String → Option Nat :=
  match e.act with
  | .opens key _ | .enters key _ => Function.update a key (e.result.toOption.join)
  | .closes key | .leaves key => Function.update a key none
  | .goes .. => a
  | .cleans browser => fun key => if a key = some browser then none else a key

variable {e : Entry} {a : String → Option Nat} {key : String} {browser : Nat}

theorem join_toOption_eq_some {r : Except Failure (Option Nat)} :
    r.toOption.join = some browser ↔ r = .ok (some browser) := by
  cases r with
  | error e => simp [Except.toOption]
  | ok b => simp [Except.toOption]

theorem seats_eq_some_iff : e.seats a key = some browser ↔
    e.Opens key browser ∨ ¬e.Removes key browser ∧ a key = some browser := by
  obtain ⟨act, result⟩ := e
  cases act with
  | opens k headless | enters k headless =>
    by_cases hkey : key = k
    · subst hkey
      simp [seats, Opens, Removes, join_toOption_eq_some]
    · simp [seats, Opens, Removes, hkey, Ne.symm hkey]
  | closes k | leaves k =>
    by_cases hkey : key = k
    · simp [seats, Opens, Removes, hkey]
    · simp [seats, Opens, Removes, hkey, Ne.symm hkey]
  | goes b canSchedule => simp [seats, Opens, Removes]
  | cleans b =>
    by_cases hb : b = browser
    · simp [seats, Opens, Removes, hb]
    · by_cases ha : a key = some b
      · simp [seats, Opens, Removes, ha, hb]
      · simp [seats, Opens, Removes, ha, hb]

end Entry

-- The browsers that have keys after all that has happened, the last of it first.
def seated : List Entry → String → Option Nat
  | [] => fun _ => none
  | e :: earlier => e.seats (seated earlier)

-- A browser has a key if the key was opened for it and nothing has taken it away since.
theorem seated_eq_some_iff {log : List Entry} {key : String} {browser : Nat} :
    seated log key = some browser ↔ ∃ later e earlier, log = later ++ e :: earlier ∧
      e.Opens key browser ∧ ∀ e' ∈ later, ¬e'.Removes key browser := by
  induction log with
  | nil => simp [seated]
  | cons last log ih =>
    rw [seated, Entry.seats_eq_some_iff, ih]
    constructor
    · rintro (hopens | ⟨hkept, later, e, earlier, rfl, hopens, hlater⟩)
      · exact ⟨[], last, log, rfl, hopens, by simp⟩
      · exact ⟨last :: later, e, earlier, rfl, hopens, by simpa using ⟨hkept, hlater⟩⟩
    · rintro ⟨later, e, earlier, hlog, hopens, hlater⟩
      cases later with
      | nil =>
        cases hlog
        exact .inl hopens
      | cons first later =>
        cases hlog
        obtain ⟨hkept, hlater⟩ := List.forall_mem_cons.mp hlater
        exact .inr ⟨hkept, later, e, earlier, rfl, hopens, hlater⟩

section

variable (launcher : Launcher σ) (warn : String → StateM σ Unit) (view : σ → Sessions)
  (book : σ → List Call)

-- All that can have happened since the registry was empty, and what it has led to.
inductive Runs : List Entry → σ → Prop
  | begin {s : σ} (hview : view s = {}) (hbook : book s = []) : Runs [] s
  | next {log : List Entry} {s : σ} (act : Act) (h : Runs log s) (hdue : act.IsDue (view s)) :
      Runs (⟨act, (act.run launcher warn s).1⟩ :: log) (act.run launcher warn s).2

end

section

variable {view : σ → Sessions} {book : σ → List Call}

-- What an act makes of the registry follows from what has come of it.
def Follows (view : σ → Sessions) (book : σ → List Call) (act : Act)
    (ended : Except Failure (Option Nat) × σ) (s : σ) : Prop :=
  ∃ (opened : List (Nat × String)) (place : (String → Option Nat) → String → Option Nat),
    (opened.map (·.1)).Nodup ∧
    (∀ key browser, (Entry.mk act ended.1).Opens key browser → (browser, key) ∈ opened) ∧
    Leads view book place opened s ended.2 ∧
    (Tied (view s) (book s) → place (view s).active? = (Entry.mk act ended.1).seats (view s).active?)

theorem follows_opening {key : String} {act : Act} {work : Effect σ Nat} {s : σ}
    (hact : ∃ headless, act = .opens key headless ∨ act = .enters key headless)
    (hcases : (∃ browser t, work s = (.ok browser, t) ∧
        Leads view book (Function.update · key (some browser)) [(browser, key)] s t) ∨
      ∃ e t, work s = (.error e, t) ∧ Leads view book (Function.update · key none) [] s t) :
    Follows view book act ((do return some (← work) : Effect σ (Option Nat)) s) s := by
  obtain ⟨headless, hact⟩ := hact
  rcases hcases with ⟨browser, t, hwork, hleads⟩ | ⟨e, t, hwork, hleads⟩
  · rw [Effect.bind_ok hwork]
    refine ⟨[(browser, key)], _, List.nodup_singleton _, ?_, hleads, fun _ => ?_⟩
    · rintro k b ⟨⟨_, hopens⟩, hresult⟩
      cases hresult
      rcases hact with rfl | rfl <;> rcases hopens with hopens | hopens <;> cases hopens <;>
        exact List.mem_singleton.mpr rfl
    · rcases hact with rfl | rfl <;> rfl
  · rw [Effect.bind_error hwork]
    refine ⟨[], _, List.nodup_nil, ?_, hleads, fun _ => ?_⟩
    · rintro k b ⟨-, hresult⟩
      cases hresult
    · rcases hact with rfl | rfl <;> rfl

-- Other acts open nothing.
theorem follows_bind {act : Act} {work : Effect σ Unit} {s t : σ}
    {place : (String → Option Nat) → String → Option Nat} (hwork : work s = (.ok (), t))
    (hleads : Leads view book place [] s t)
    (hseats : Tied (view s) (book s) →
      place (view s).active? = (Entry.mk act (.ok none)).seats (view s).active?) :
    Follows view book act ((do
      work
      return none : Effect σ (Option Nat)) s) s := by
  rw [Effect.bind_ok hwork]
  refine ⟨[], place, List.nodup_nil, ?_, hleads, hseats⟩
  rintro key browser ⟨-, hresult⟩
  cases hresult

end

section

variable {launcher : Launcher σ} {warn : String → StateM σ Unit} {view : σ → Sessions}
  {book : σ → List Call} (h : launcher.Booked view book)
  (hw : ∀ message s, Waited view book s (warn message s).2 [])
include h hw

theorem act_follows (act : Act) {s : σ} (hdue : act.IsDue (view s)) :
    Follows view book act (act.run launcher warn s) s := by
  cases act with
  | opens key headless => exact follows_opening ⟨_, .inl rfl⟩ (openSession_cases h key headless s)
  | enters key headless => exact follows_opening ⟨_, .inr rfl⟩ (enter_cases h key headless s)
  | closes key =>
    obtain ⟨t, hclose, hleads⟩ := closeSession_leads h key s
    exact follows_bind hclose hleads fun _ => rfl
  | leaves key =>
    obtain ⟨t, hleave, hleads⟩ := leave_leads h key s
    exact follows_bind hleave hleads fun _ => rfl
  | goes browser canSchedule =>
    obtain ⟨t, hgone, hwaited⟩ := noteGone_waited h hw browser canSchedule s
    exact follows_bind hgone (hwaited.leads fun a => .refl a) fun _ => rfl
  | cleans browser =>
    obtain ⟨key, hkey⟩ := hdue
    obtain ⟨t, hclean, hleads⟩ := cleanUp_leads h hkey
    refine follows_bind hclean hleads fun hs => ?_
    funext k
    simp only [Entry.seats, hs.forget hkey k]

-- As long as no two browsers have one number, the registry holds what follows from all that has
-- happened, and all browsers are accounted for.
theorem Runs.tracked {log : List Entry} {s : σ} (hruns : Runs launcher warn view book log s)
    (hapart : (startedIn (book s)).Nodup) : Tied (view s) (book s) ∧
      (view s).active? = seated log ∧ Accounted (fun _ => none) (view s).active? (book s) := by
  induction hruns with
  | @begin s hview hbook =>
    have hactive : (view s).active? = fun _ => none := by
      rw [hview]
      rfl
    rw [hactive, hview, hbook]
    exact ⟨⟨nofun, nofun, List.nodup_nil, nofun⟩, rfl, .refl _⟩
  | @next log s act hruns hdue ih =>
    obtain ⟨opened, place, hnodup, hopens, hleads, hplace⟩ := act_follows h hw act hdue
    obtain ⟨calls, hbook, haccounted, -⟩ := hleads.calls
    have hbefore : (startedIn (book s)).Nodup := by
      rw [hbook, startedIn, List.filterMap_append] at hapart
      exact hapart.of_append_right
    obtain ⟨hs, hactive, hall⟩ := ih hbefore
    refine ⟨hs.leads hleads hapart hnodup fun key browser hseat => ?_, ?_, ?_⟩
    · rw [hplace hs] at hseat
      rcases Entry.seats_eq_some_iff.mp hseat with hopened | ⟨-, hold⟩
      · exact .inr (hopens key browser hopened)
      · exact .inl hold
    · rw [hleads.active, hplace hs, hactive]
      rfl
    · rw [hbook]
      exact hall.trans haccounted

omit hw

theorem activeBrowser_apply (key : String) (s : σ) : (activeBrowser launcher key s).1 =
    match (view s).active? key with
    | some browser => .ok browser
    | none => .error (.noSession key) := by
  obtain ⟨t, hlook, -⟩ := sessions_apply h s
  rw [activeBrowser, Effect.bind_ok hlook]
  cases (view s).active? key with
  | none => rfl
  | some browser => rfl

theorem activeBrowser_eq_ok {key : String} {s : σ} {browser : Nat} :
    (activeBrowser launcher key s).1 = .ok browser ↔ (view s).active? key = some browser := by
  rw [activeBrowser_apply h]
  cases (view s).active? key with
  | none => simp
  | some other => simp

-- A block is its beginning, then whatever is done in it, and its end, however that has gone. One
-- that cannot begin is nothing else.
theorem Runs.within {α : Type} {log : List Entry} {s : σ}
    (hruns : Runs launcher warn view book log s) {key : String} {headless : Bool}
    {work : Nat → Effect σ α}
    (hwork : ∀ browser t, enter launcher key headless s = (.ok browser, t) → ∃ inside,
      Runs launcher warn view book
        (inside ++ ⟨.enters key headless, .ok (some browser)⟩ :: log) (work browser t).2) :
    ∃ more, Runs launcher warn view book (more ++ log) (within launcher key headless work s).2 ∧
      ((∃ e, more = [⟨.enters key headless, .error e⟩]) ∨ ∃ browser inside,
        more = ⟨.leaves key, .ok none⟩ :: inside ++ [⟨.enters key headless, .ok (some browser)⟩]) := by
  rcases henter : enter launcher key headless s with ⟨e | browser, t⟩
  · have hrun : (Act.enters key headless).run launcher warn s = (.error e, t) :=
      Effect.bind_error henter _
    have hnext := hruns.next (.enters key headless) trivial
    rw [hrun] at hnext
    rw [Browser.within, Effect.bind_error henter]
    exact ⟨[⟨.enters key headless, .error e⟩], hnext, .inl ⟨e, rfl⟩⟩
  · obtain ⟨inside, hinside⟩ := hwork browser t henter
    obtain ⟨u, hleave, -⟩ := leave_leads h key (work browser t).2
    have hrun : (Act.leaves key).run launcher warn (work browser t).2 = (.ok none, u) :=
      Effect.bind_ok hleave _
    have hnext := hinside.next (.leaves key) trivial
    have hended : (Browser.within launcher key headless work s).2 = u := by
      rw [Browser.within, Effect.bind_ok henter, Effect.bind_ok (Effect.attempt_apply _ t),
        Effect.bind_ok hleave]
      cases (work browser t).1 <;> rfl
    rw [hrun] at hnext
    rw [hended]
    exact ⟨_, by simpa using hnext, .inr ⟨browser, inside, rfl⟩⟩

include hw

-- Take whatever has happened since the registry was empty, as long as the browsers that were started
-- have different numbers. A key has the browser it was opened for, if this has not been taken from it
-- since, and otherwise there is no session. A cleanup takes no other browser's key. And each browser
-- that was started has been told to stop, and each that was launched to close too, but for those
-- that have a key.
theorem registry_tracks {log : List Entry} {s : σ} (hruns : Runs launcher warn view book log s)
    (hapart : (startedIn (book s)).Nodup) :
    (∀ key browser, (activeBrowser launcher key s).1 = .ok browser ↔
      ∃ later e earlier, log = later ++ e :: earlier ∧ e.Opens key browser ∧
        ∀ e' ∈ later, ¬e'.Removes key browser) ∧
    (∀ key e, (activeBrowser launcher key s).1 = .error e → e = .noSession key) ∧
    (∀ old key browser, (Act.cleans old).IsDue (view s) → old ≠ browser →
      (activeBrowser launcher key s).1 = .ok browser →
      (activeBrowser launcher key ((Act.cleans old).run launcher warn s).2).1 = .ok browser) ∧
    (∀ browser, .started browser ∈ book s →
      (∃ key, (activeBrowser launcher key s).1 = .ok browser) ∨ .stopping browser ∈ book s) ∧
    ∀ browser, .launched browser ∈ book s →
      (∃ key, (activeBrowser launcher key s).1 = .ok browser) ∨
        .closing browser ∈ book s ∧ .stopping browser ∈ book s := by
  obtain ⟨hs, hactive, haccounted⟩ := hruns.tracked h hw hapart
  simp only [activeBrowser_eq_ok h]
  refine ⟨fun key browser => ?_, fun key e he => ?_, fun old key browser hdue hne hkey => ?_,
    haccounted.started, haccounted.launched⟩
  · rw [hactive]
    exact seated_eq_some_iff
  · rw [activeBrowser_apply h] at he
    split at he <;> cases he
    rfl
  · obtain ⟨opened, place, -, -, hleads, hplace⟩ := act_follows h hw (.cleans old) hdue
    have hother : (view s).active? key ≠ some old := by
      rw [hkey]
      simpa using Ne.symm hne
    rw [hleads.active, hplace hs]
    exact (if_neg hother).trans hkey

end

open Rehearsal (World)

theorem leaves_sessions_tell (kind : String) (call : List Value) :
    Leaves World.sessions (Rehearsal.Browser.tell kind call) := by
  intro w
  rw [Rehearsal.Browser.tell_state]
  rfl

theorem meanwhile_of_leaves {α : Type} {view : σ → Sessions} {work : Effect σ α}
    (h : Leaves view work) (s : σ) : (view s).Meanwhile (view (work s).2) := by
  rw [h s]
  exact .refl _

theorem launcher_registers : Rehearsal.Browser.launcher.Registers World.sessions where
  looking _ := ⟨rfl, rfl⟩
  keeping _ _ := rfl
  start := meanwhile_of_leaves (leaves_bind leaves_get fun _ => leaves_bind (fun _ => rfl) fun _ =>
    leaves_bind (leaves_sessions_tell _ _) fun _ => leaves_pure _)
  launch _ _ := meanwhile_of_leaves (leaves_sessions_tell _ _)
  openContext _ := meanwhile_of_leaves (leaves_bind (leaves_sessions_tell _ _) fun _ => fun _ => rfl)
  closeBrowser _ := meanwhile_of_leaves (leaves_sessions_tell _ _)
  stop _ := meanwhile_of_leaves (leaves_sessions_tell _ _)

def notedLauncher : Launcher (World × List Call) := Rehearsal.Browser.launcher.noted

def notedWarning (message : String) : StateM (World × List Call) Unit :=
  unnoted (World.warn message)

-- A key is opened twice, and the first browser goes away and is cleaned up after that.
def replacing : List Act := [.opens "a" true, .opens "a" true, .goes 1 true, .cleans 1]

def replaced (n : Nat) : World × List Call :=
  (replacing.take n).foldl (fun s act => (act.run notedLauncher notedWarning s).2) ({}, [])

theorem registry_tracks_replaced :
    let view := fun s : World × List Call => s.1.sessions
    notedLauncher.Booked view Prod.snd ∧
    (∀ message s, Waited view Prod.snd s (notedWarning message s).2 []) ∧
    (∃ log, Runs notedLauncher notedWarning view Prod.snd log (replaced 4) ∧
      log.map (·.act) = replacing.reverse) ∧
    (startedIn (replaced 4).2).Nodup ∧
    (activeBrowser notedLauncher "a" (replaced 4)).1 = .ok 2 ∧
    .closing 1 ∈ (replaced 4).2 ∧ .stopping 1 ∈ (replaced 4).2 := by
  intro view
  have hbooked : notedLauncher.Booked view Prod.snd := launcher_registers.booked
  have hwarn : ∀ message s, Waited view Prod.snd s (notedWarning message s).2 [] :=
    fun message s => ⟨.refl _, rfl⟩
  have hfacts : (replaced 3).1.sessions.scheduledKey? 1 = some "a" ∧
      startedIn (replaced 4).2 = [2, 1] ∧ .launched 1 ∈ (replaced 4).2 ∧
      (activeBrowser notedLauncher "a" (replaced 4)).1.toOption = some 2 := by
    decide +kernel
  obtain ⟨hdue, hstarted, hlaunched, hactive⟩ := hfacts
  have hbegun : Runs notedLauncher notedWarning view Prod.snd [] (replaced 0) := .begin rfl rfl
  have hruns := (((hbegun.next (.opens "a" true) trivial).next (.opens "a" true) trivial).next
    (.goes 1 true) trivial).next (.cleans 1) ⟨"a", hdue⟩
  have hapart : (startedIn (replaced 4).2).Nodup := by
    rw [hstarted]
    decide
  obtain ⟨htracks, -, -, -, hclosed⟩ := registry_tracks hbooked hwarn hruns hapart
  refine ⟨hbooked, hwarn, ⟨_, hruns, rfl⟩, hapart, ?_, ?_⟩
  · cases hended : (activeBrowser notedLauncher "a" (replaced 4)).1 with
    | error e =>
      rw [hended] at hactive
      cases hactive
    | ok browser =>
      rw [hended] at hactive
      cases hactive
      rfl
  · rcases hclosed 1 hlaunched with ⟨key, hkey⟩ | hdone
    · -- the cleanup has come last, so no key can be left
      obtain ⟨later, e, earlier, hlog, hopens, hlater⟩ := (htracks key 1).mp hkey
      cases later with
      | nil =>
        cases hlog
        obtain ⟨⟨headless, hact | hact⟩, -⟩ := hopens <;> cases hact
      | cons last later =>
        obtain ⟨hlast, -⟩ := List.cons.inj hlog
        have hkept := hlater last (List.mem_cons_self ..)
        rw [← hlast] at hkept
        exact absurd rfl hkept
    · exact hdone

end Gleaner.Browser
