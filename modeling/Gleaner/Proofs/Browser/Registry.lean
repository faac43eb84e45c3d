import Gleaner.Proofs.Browser.Sessions
import Mathlib.Data.List.Nodup

namespace Gleaner.Browser

variable {σ : Type}

section

variable (view : σ → Sessions) (book : σ → List Call)

-- What some work makes of the browsers that have keys, and which it gives a key for the first time.
structure Leads (place : (String → Option Nat) → String → Option Nat)
    (opened : List (Nat × String)) (s t : σ) : Prop where
  active : (view t).active? = place (view s).active?
  keys : (view t).keys = opened ++ (view s).keys
  scheduled : ∀ x ∈ (view t).scheduled, x ∈ (view s).scheduled ∨ x ∈ (view t).keys
  calls : ∃ calls, book t = calls ++ book s ∧
    Accounted (view s).active? (view t).active? calls ∧ ∀ x ∈ opened, .started x.1 ∈ calls

end

section

variable {view : σ → Sessions} {book : σ → List Call} {launcher : Launcher σ}

theorem Leads.trans {place place' : (String → Option Nat) → String → Option Nat}
    {opened opened' : List (Nat × String)} {s t u : σ} (h : Leads view book place opened s t)
    (h' : Leads view book place' opened' t u) :
    Leads view book (fun a => place' (place a)) (opened' ++ opened) s u where
  active := by rw [h'.active, h.active]
  keys := by rw [h'.keys, h.keys, List.append_assoc]
  scheduled x hx := by
    rcases h'.scheduled x hx with hold | hkey
    · rcases h.scheduled x hold with hold | hkey
      · exact .inl hold
      · exact .inr (h'.keys ▸ List.mem_append_right _ hkey)
    · exact .inr hkey
  calls := by
    obtain ⟨calls, hbook, haccounted, hstarted⟩ := h.calls
    obtain ⟨calls', hbook', haccounted', hstarted'⟩ := h'.calls
    refine ⟨calls' ++ calls, by rw [hbook', hbook, List.append_assoc],
      haccounted.trans haccounted', fun x hx => ?_⟩
    rcases List.mem_append.mp hx with hx | hx
    · exact List.mem_append_left _ (hstarted' x hx)
    · exact List.mem_append_right _ (hstarted x hx)

theorem Waited.trans {s t u : σ} {calls more : List Call} (h : Waited view book s t calls)
    (h' : Waited view book t u more) : Waited view book s u (more ++ calls) :=
  ⟨h.sessions.trans h'.sessions, by rw [h'.book, h.book, List.append_assoc]⟩

-- Only waiting gives no key and takes none.
theorem Waited.leads {s t : σ} {calls : List Call} (h : Waited view book s t calls)
    (hcalls : ∀ a, Accounted a a calls) : Leads view book id [] s t where
  active := h.sessions.active?
  keys := h.sessions.keys
  scheduled x hx := h.sessions.keys ▸ h.sessions.scheduled x hx
  calls := ⟨calls, h.book, h.sessions.active? ▸ hcalls _, nofun⟩

-- A browser that loses its key, as the only one, is shut down after that.
theorem Waited.leads_removed {place : (String → Option Nat) → String → Option Nat} {browser : Nat}
    {s t u : σ} (h : Waited view book t u [.stopping browser, .closing browser])
    (hactive : (view t).active? = place (view s).active?) (hkeys : (view t).keys = (view s).keys)
    (hscheduled : ∀ x ∈ (view t).scheduled, x ∈ (view s).scheduled) (hbook : book t = book s)
    (hother : ∀ key other, (view s).active? key = some other →
      other = browser ∨ (view t).active? key = some other) : Leads view book place [] s u where
  active := h.sessions.active?.trans hactive
  keys := h.sessions.keys.trans hkeys
  scheduled x hx := by
    rw [h.sessions.keys]
    exact (h.sessions.scheduled x hx).imp_left (hscheduled x)
  calls := by
    refine ⟨[.stopping browser, .closing browser], by rw [h.book, hbook], ⟨?_, ?_, ?_⟩, nofun⟩
    · simp
    · simp
    · rintro other ⟨key, hkey⟩
      rcases hother key other hkey with rfl | hkept
      · exact .inr (by simp)
      · exact .inl ⟨key, by rw [h.sessions.active?, hkept]⟩

variable (h : launcher.Booked view book)
include h

theorem sessions_apply (s : σ) : ∃ t,
    (monadLift launcher.sessions : Effect σ Sessions) s = (.ok (view s), t) ∧
      view t = view s ∧ book t = book s := by
  obtain ⟨hfound, hview, hbook⟩ := h.looking s
  exact ⟨_, by rw [Effect.lift_apply, hfound], hview, hbook⟩

theorem change_apply (f : Sessions → Sessions) (s : σ) :
    ∃ t, change launcher f s = (.ok (), t) ∧ view t = f (view s) ∧ book t = book s := by
  obtain ⟨u, hlook, hview, hbook⟩ := sessions_apply h s
  obtain ⟨hkept, hkeptBook⟩ := h.keeping (f (view s)) u
  refine ⟨_, (Effect.bind_ok hlook _).trans rfl, hkept, hkeptBook.trans hbook⟩

theorem shutDown_apply (browser : Nat) (s : σ) : ∃ t, shutDown launcher browser s = (.ok (), t) ∧
    Waited view book s t [.stopping browser, .closing browser] := by
  have hclose := h.closeBrowser browser s
  have hstop := h.stop browser (launcher.closeBrowser browser s).2
  refine ⟨(launcher.stop browser (launcher.closeBrowser browser s).2).2, rfl, ?_, ?_⟩
  · exact hclose.sessions.trans hstop.sessions
  · rw [hstop.book, hclose.book]
    rfl

-- The browser under a key, if there is one, is taken from it and shut down.
theorem closeSession_leads (key : String) (s : σ) :
    ∃ t, closeSession launcher key s = (.ok (), t) ∧
      Leads view book (Function.update · key none) [] s t := by
  obtain ⟨u, hlook, hview, hbook⟩ := sessions_apply h s
  cases hactive : (view s).active? key with
  | none =>
    refine ⟨u, ?_, ?_, ?_, ?_, ?_⟩
    · rw [closeSession, Effect.bind_ok hlook]
      simp only [hactive]
      rfl
    · rw [hview, Function.update_eq_self_iff.mpr hactive.symm]
    · rw [hview, List.nil_append]
    · rw [hview]
      exact fun x hx => .inl hx
    · exact ⟨[], hbook, hview ▸ .refl _, nofun⟩
  | some browser =>
    obtain ⟨v, hremove, hremoved, hbook'⟩ := change_apply h (·.remove key) u
    obtain ⟨t, hshut, hwaited⟩ := shutDown_apply h browser v
    have hv : (view v).active? = Function.update (view s).active? key none := by
      funext other
      rw [hremoved, hview, Sessions.active?_remove, Function.update_apply]
    have hother : ∀ k other, (view s).active? k = some other →
        other = browser ∨ (view v).active? k = some other := by
      intro k other hk
      by_cases hkey : k = key
      · rw [hkey, hactive] at hk
        exact .inl (Option.some.inj hk).symm
      · exact .inr (by rw [hv, Function.update_of_ne hkey, hk])
    refine ⟨t, ?_, hwaited.leads_removed hv ?_ ?_ (hbook'.trans hbook) hother⟩
    · rw [closeSession, Effect.bind_ok hlook]
      simp only [hactive]
      rw [Effect.bind_ok hremove, hshut]
    · rw [hremoved, hview]
      rfl
    · rw [hremoved, hview]
      exact fun x hx => hx

-- A browser that could not be launched has been stopped again.
theorem startBrowser_cases (headless : Bool) (s : σ) :
    (∃ browser t, startBrowser launcher headless s = (.ok browser, t) ∧
      Waited view book s t [.launched browser, .started browser]) ∨
    ∃ e t calls, startBrowser launcher headless s = (.error e, t) ∧ Waited view book s t calls ∧
      (calls = [] ∨ ∃ browser, calls = [.stopping browser, .started browser]) := by
  have hstart := h.start s
  rcases hstarted : launcher.start s with ⟨e | browser, u⟩ <;> rw [hstarted] at hstart
  · exact .inr ⟨e, u, [], Effect.bind_error hstarted _, hstart, .inl rfl⟩
  have hlaunch := h.launch browser headless u
  rcases hlaunched : launcher.launch browser headless u with ⟨e | ⟨⟩, v⟩ <;>
    rw [hlaunched] at hlaunch
  · have hstop := h.stop browser v
    have hwaited : Waited view book s (launcher.stop browser v).2
        [.stopping browser, .started browser] := by
      refine ⟨hstart.sessions.trans (hlaunch.sessions.trans hstop.sessions), ?_⟩
      rw [hstop.book, hlaunch.book, hstart.book]
      rfl
    have hended : startBrowser launcher headless s =
        (launcher.stop browser >>= fun _ => (throw e : Effect σ Nat)) v := by
      rw [startBrowser, Effect.bind_ok hstarted,
        Effect.bind_ok ((Effect.attempt_apply _ u).trans (by rw [hlaunched]))]
    refine .inr ?_
    rcases hstopped : launcher.stop browser v with ⟨e' | ⟨⟩, w⟩ <;> rw [hstopped] at hwaited
    · exact ⟨e', w, _, hended.trans (Effect.bind_error hstopped _), hwaited, .inr ⟨browser, rfl⟩⟩
    · exact ⟨e, w, _, hended.trans (Effect.bind_ok hstopped _), hwaited, .inr ⟨browser, rfl⟩⟩
  · refine .inl ⟨browser, v, ?_, hstart.sessions.trans hlaunch.sessions, ?_⟩
    · rw [startBrowser, Effect.bind_ok hstarted,
        Effect.bind_ok ((Effect.attempt_apply _ u).trans (by rw [hlaunched]))]
      rfl
    · rw [hlaunch.book, hstart.book]
      rfl

-- A browser that has been launched is given the key, which is free.
theorem add_leads {key : String} {browser : Nat} {s t : σ}
    (hfree : (view s).active? key = none)
    (hwaited : Waited view book s t [.launched browser, .started browser]) :
    ∃ u, change launcher (·.add key browser) t = (.ok (), u) ∧
      Leads view book (Function.update · key (some browser)) [(browser, key)] s u := by
  obtain ⟨u, hadd, hview, hbook⟩ := change_apply h (·.add key browser) t
  have hactive : (view u).active? = Function.update (view s).active? key (some browser) := by
    funext other
    rw [hview, Sessions.active?_add, hwaited.sessions.active?, Function.update_apply]
  have hkeys : (view u).keys = [(browser, key)] ++ (view s).keys := by
    rw [hview, ← hwaited.sessions.keys]
    rfl
  have hkey : ∃ k, (view u).active? k = some browser := ⟨key, by rw [hactive, Function.update_self]⟩
  refine ⟨u, hadd, hactive, hkeys, fun x hx => ?_,
    [.launched browser, .started browser], hbook.trans hwaited.book, ⟨?_, ?_, ?_⟩, ?_⟩
  · have hscheduled : (view u).scheduled = (view t).scheduled := by
      rw [hview]
      rfl
    rw [hscheduled] at hx
    rw [hkeys]
    exact (hwaited.sessions.scheduled x hx).imp_right (List.mem_append_right _)
  · intro other hother
    obtain rfl : other = browser := by simpa using hother
    exact .inl hkey
  · intro other hother
    obtain rfl : other = browser := by simpa using hother
    exact .inl hkey
  · rintro other ⟨k, hk⟩
    have hne : k ≠ key := by
      rintro rfl
      rw [hfree] at hk
      cases hk
    exact .inl ⟨k, by rw [hactive, Function.update_of_ne hne, hk]⟩
  · intro x hx
    cases List.mem_singleton.mp hx
    simp

-- An attempt to open a browser takes the key from the one that had it, and gives it to the new one
-- if there is one.
theorem openSession_cases (key : String) (headless : Bool) (s : σ) :
    (∃ browser t, openSession launcher key headless s = (.ok browser, t) ∧
      Leads view book (Function.update · key (some browser)) [(browser, key)] s t) ∨
    ∃ e t, openSession launcher key headless s = (.error e, t) ∧
      Leads view book (Function.update · key none) [] s t := by
  obtain ⟨u, hclose, hclosed⟩ := closeSession_leads h key s
  have hfree : (view u).active? key = none := by rw [hclosed.active, Function.update_self]
  rcases startBrowser_cases h headless u with ⟨browser, v, hstart, hstarted⟩ |
    ⟨e, t, calls, hstart, hstarted, hcalls⟩
  · have hcontext := h.openContext browser v
    rcases hopened : launcher.openContext browser v with ⟨e | ⟨⟩, w⟩ <;> rw [hopened] at hcontext
    · obtain ⟨t, hshut, hshutDown⟩ := shutDown_apply h browser w
      have hwaited := (hstarted.trans hcontext).trans hshutDown
      have hleads := hwaited.leads fun a => ⟨by simp, by simp, fun _ hk => .inl hk⟩
      refine .inr ⟨e, t, ?_, hclosed.trans hleads⟩
      rw [openSession, Effect.bind_ok hclose, Effect.bind_ok hstart,
        Effect.bind_ok ((Effect.attempt_apply _ v).trans (by rw [hopened]))]
      dsimp only
      rw [Effect.bind_ok hshut]
      rfl
    · obtain ⟨t, hadd, hadded⟩ := add_leads h hfree (hstarted.trans hcontext)
      refine .inl ⟨browser, t, ?_, ?_⟩
      · rw [openSession, Effect.bind_ok hclose, Effect.bind_ok hstart,
          Effect.bind_ok ((Effect.attempt_apply _ v).trans (by rw [hopened]))]
        dsimp only
        rw [Effect.bind_ok hadd]
        rfl
      · simpa using hclosed.trans hadded
  · refine .inr ⟨e, t, ?_, hclosed.trans (hstarted.leads fun a => ?_)⟩
    · rw [openSession, Effect.bind_ok hclose, Effect.bind_error hstart]
    · rcases hcalls with rfl | ⟨browser, rfl⟩
      · exact .refl a
      · exact ⟨by simp, by simp, fun _ hk => .inl hk⟩

theorem change_waited {f : Sessions → Sessions} (s : σ) (hf : (view s).Meanwhile (f (view s))) :
    ∃ t, change launcher f s = (.ok (), t) ∧ Waited view book s t [] := by
  obtain ⟨t, hchange, hview, hbook⟩ := change_apply h f s
  exact ⟨t, hchange, hview ▸ hf, hbook⟩

theorem enter_cases (key : String) (headless : Bool) (s : σ) :
    (∃ browser t, enter launcher key headless s = (.ok browser, t) ∧
      Leads view book (Function.update · key (some browser)) [(browser, key)] s t) ∨
    ∃ e t, enter launcher key headless s = (.error e, t) ∧
      Leads view book (Function.update · key none) [] s t := by
  obtain ⟨u, hhold, hheld⟩ := change_waited h (f := (·.hold key)) s ⟨rfl, rfl, fun _ => .inl⟩
  have hheld := hheld.leads fun a => .refl a
  rcases openSession_cases h key headless u with ⟨browser, t, hopen, hopened⟩ |
    ⟨e, v, hopen, hopened⟩
  · refine .inl ⟨browser, t, ?_, hheld.trans hopened⟩
    rw [enter, Effect.bind_ok hhold,
      Effect.bind_ok ((Effect.attempt_apply _ u).trans (by rw [hopen]))]
    rfl
  · obtain ⟨t, hrelease, hreleased⟩ := change_waited h (f := (·.release key)) v
      ⟨rfl, rfl, fun _ => .inl⟩
    have hreleased := hreleased.leads fun a => .refl a
    refine .inr ⟨e, t, ?_, (hheld.trans hopened).trans hreleased⟩
    rw [enter, Effect.bind_ok hhold,
      Effect.bind_ok ((Effect.attempt_apply _ u).trans (by rw [hopen]))]
    dsimp only
    rw [Effect.bind_ok hrelease]
    rfl

theorem leave_leads (key : String) (s : σ) : ∃ t, leave launcher key s = (.ok (), t) ∧
    Leads view book (Function.update · key none) [] s t := by
  obtain ⟨u, hclose, hclosed⟩ := closeSession_leads h key s
  obtain ⟨t, hrelease, hreleased⟩ := change_waited h (f := (·.release key)) u
    ⟨rfl, rfl, fun _ => .inl⟩
  refine ⟨t, ?_, hclosed.trans (hreleased.leads fun a => .refl a)⟩
  rw [leave, Effect.bind_ok hclose, hrelease]

-- A browser that goes away has no part of the registry changed by that alone.
theorem noteGone_waited {warn : String → StateM σ Unit}
    (hw : ∀ message s, Waited view book s (warn message s).2 []) (browser : Nat)
    (canSchedule : Bool) (s : σ) :
    ∃ t, noteGone launcher warn browser canSchedule s = (.ok (), t) ∧
      Waited view book s t [] := by
  obtain ⟨u, hlook, hview, hbook⟩ := sessions_apply h s
  have hlooked : Waited view book s u [] := ⟨hview ▸ .refl _, hbook⟩
  cases hkey : (view s).keyOf? browser with
  | none =>
    refine ⟨u, ?_, hlooked⟩
    rw [noteGone, Effect.bind_ok hlook]
    simp only [hkey]
    rfl
  | some key =>
    obtain ⟨v, hfinish, hfinished⟩ := change_waited h (f := (·.finish browser)) u
      ⟨rfl, rfl, fun _ => .inl⟩
    have hended : noteGone launcher warn browser canSchedule s =
        (if canSchedule then change launcher (·.schedule browser key)
          else (warn (noLoop key) : Effect σ Unit)) v := by
      rw [noteGone, Effect.bind_ok hlook]
      simp only [hkey]
      rw [Effect.bind_ok hfinish]
    cases canSchedule with
    | false => exact ⟨_, hended, (hlooked.trans hfinished).trans (hw _ v)⟩
    | true =>
      have hmem : (browser, key) ∈ (view v).keys := by
        rw [hfinished.sessions.keys, hview]
        exact Sessions.keyOf?_mem hkey
      obtain ⟨t, hschedule, hscheduled⟩ := change_waited h (f := (·.schedule browser key)) v
        ⟨rfl, rfl, fun x hx => by
          rcases List.mem_append.mp hx with hold | hnew
          · exact .inl hold
          · exact .inr (List.mem_singleton.mp hnew ▸ hmem)⟩
      exact ⟨t, hended.trans hschedule, (hlooked.trans hfinished).trans hscheduled⟩

end

def Call.started? : Call → Option Nat
  | .started browser => some browser
  | _ => none

-- The browsers that have been started, the last one first.
def startedIn (calls : List Call) : List Nat := calls.filterMap Call.started?

theorem mem_startedIn {calls : List Call} {browser : Nat} :
    browser ∈ startedIn calls ↔ .started browser ∈ calls := by
  simp only [startedIn, List.mem_filterMap]
  constructor
  · rintro ⟨call, hcall, hstarted⟩
    cases call <;> cases hstarted
    exact hcall
  · exact fun h => ⟨_, h, rfl⟩

-- Each browser has had one key at most, and those that have one now, or are to be cleaned up, go by
-- the key they have had.
structure Tied (s : Sessions) (calls : List Call) : Prop where
  active : ∀ key browser, s.active? key = some browser → (browser, key) ∈ s.keys
  scheduled : ∀ x ∈ s.scheduled, x ∈ s.keys
  apart : (s.keys.map (·.1)).Nodup
  started : ∀ x ∈ s.keys, .started x.1 ∈ calls

theorem Tied.key_eq {s : Sessions} {calls : List Call} (h : Tied s calls) {browser : Nat}
    {key other : String} (hkey : (browser, key) ∈ s.keys) (hother : (browser, other) ∈ s.keys) :
    key = other :=
  congrArg Prod.snd (List.inj_on_of_nodup_map h.apart hkey hother rfl)

section

variable {view : σ → Sessions} {book : σ → List Call} {launcher : Launcher σ}

theorem Tied.leads {place : (String → Option Nat) → String → Option Nat}
    {opened : List (Nat × String)} {s t : σ} (hs : Tied (view s) (book s))
    (h : Leads view book place opened s t) (hapart : (startedIn (book t)).Nodup)
    (hopened : (opened.map (·.1)).Nodup)
    (hplace : ∀ key browser, place (view s).active? key = some browser →
      (view s).active? key = some browser ∨ (browser, key) ∈ opened) : Tied (view t) (book t) := by
  obtain ⟨calls, hbook, -, hstarted⟩ := h.calls
  constructor
  · intro key browser hactive
    rw [h.active] at hactive
    rw [h.keys]
    rcases hplace _ _ hactive with hold | hnew
    · exact List.mem_append_right _ (hs.active _ _ hold)
    · exact List.mem_append_left _ hnew
  · intro x hx
    rcases h.scheduled x hx with hold | hkey
    · exact h.keys ▸ List.mem_append_right _ (hs.scheduled x hold)
    · exact hkey
  · rw [h.keys, List.map_append]
    refine hopened.append hs.apart fun browser hnew hold => ?_
    obtain ⟨x, hx, rfl⟩ := List.mem_map.mp hnew
    obtain ⟨y, hy, hsame⟩ := List.mem_map.mp hold
    have hxstarted := mem_startedIn.mpr (hstarted x hx)
    have hystarted := mem_startedIn.mpr (hs.started y hy)
    rw [hbook, startedIn, List.filterMap_append] at hapart
    exact List.disjoint_of_nodup_append hapart hxstarted (hsame ▸ hystarted)
  · intro x hx
    rw [hbook]
    rw [h.keys] at hx
    rcases List.mem_append.mp hx with hnew | hold
    · exact List.mem_append_left _ (hstarted x hnew)
    · exact List.mem_append_right _ (hs.started x hold)

variable (h : launcher.Booked view book)
include h

-- The cleanup of a browser takes the key from it that it was scheduled with, if it has it still, and
-- shuts the browser down.
theorem cleanUp_leads {browser : Nat} {key : String} {s : σ}
    (hkey : (view s).scheduledKey? browser = some key) :
    ∃ t, cleanUp launcher browser s = (.ok (), t) ∧
      Leads view book (fun a k => if k = key ∧ a key = some browser then none else a k) [] s t := by
  obtain ⟨u, hlook, hview, hbook⟩ := sessions_apply h s
  obtain ⟨v, hforget, hforgotten, hbook'⟩ :=
    change_apply h (fun s => (s.unschedule browser).forget key browser) u
  obtain ⟨t, hshut, hwaited⟩ := shutDown_apply h browser v
  have hactive : (view v).active? = fun k =>
      if k = key ∧ (view s).active? key = some browser then none else (view s).active? k := by
    funext k
    rw [hforgotten, hview, Sessions.active?_forget]
    rfl
  have hkeys : (view v).keys = (view s).keys := by
    rw [hforgotten, hview, Sessions.forget]
    split <;> rfl
  have hscheduled : ∀ x ∈ (view v).scheduled, x ∈ (view s).scheduled := by
    rw [hforgotten, hview, Sessions.forget]
    intro x hx
    split at hx <;> exact List.mem_of_mem_filter hx
  have hother : ∀ k other, (view s).active? k = some other →
      other = browser ∨ (view v).active? k = some other := by
    intro k other hk
    by_cases hforgets : k = key ∧ (view s).active? key = some browser
    · rw [hforgets.1, hforgets.2] at hk
      exact .inl (Option.some.inj hk).symm
    · rw [hactive]
      exact .inr ((if_neg hforgets).trans hk)
  refine ⟨t, ?_, hwaited.leads_removed hactive hkeys hscheduled (hbook'.trans hbook) hother⟩
  rw [cleanUp, Effect.bind_ok hlook]
  simp only [hkey]
  rw [Effect.bind_ok hforget, hshut]

omit h in
-- The key a browser was scheduled with is the only one it can have.
theorem Tied.forget {s : Sessions} {calls : List Call} (hs : Tied s calls) {browser : Nat}
    {key : String} (hkey : s.scheduledKey? browser = some key) (k : String) :
    (k = key ∧ s.active? key = some browser) ↔ s.active? k = some browser := by
  have hmem := hs.scheduled _ (Sessions.scheduledKey?_mem hkey)
  constructor
  · rintro ⟨rfl, hactive⟩
    exact hactive
  · intro hactive
    obtain rfl := hs.key_eq (hs.active k browser hactive) hmem
    exact ⟨rfl, hactive⟩

end

end Gleaner.Browser
