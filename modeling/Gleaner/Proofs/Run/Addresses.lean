import Gleaner.Proofs.Run.Nesting
import Gleaner.Rehearsal.KeyedStore
import Gleaner.Rehearsal.ScriptedPages
import Mathlib.Data.List.Nodup

namespace Gleaner

open Session

def Entry.url? : Entry → Option (Option PageUrl)
  | .instruction _ url _ => some url
  | _ => none

-- The address that is shown for the instruction recorded at some place.
def urlAt (entries : Array Entry) (j : Nat) : Option (Option PageUrl) :=
  entries[j]?.bind Entry.url?

-- What is to be shown of a page that had one address when an instruction started, and gives another
-- one when it ends. A page that gives none is shown as it was.
def shownUrl (before : Option String) : Except Failure (Option String) → Option PageUrl
  | .ok after => if after = before then before.map .same else some (.changed before after)
  | .error _ => before.map .same

theorem shownUrl_eq_iff {before : Option String} {outcome : Except Failure (Option String)} :
    shownUrl before outcome = before.map .same ↔ ∀ after, outcome = .ok after → after = before := by
  cases outcome with
  | error e => exact ⟨fun _ => nofun, fun _ => rfl⟩
  | ok after =>
    by_cases h : after = before
    · rw [shownUrl, if_pos h]
      exact ⟨fun _ other he => Except.ok.inj he ▸ h, fun _ => rfl⟩
    · rw [shownUrl, if_neg h]
      refine ⟨fun he => ?_, fun hall => absurd (hall after rfl) h⟩
      cases before <;> cases he

section

variable {a : Array Entry} {change : Entry → Entry}

theorem urlAt_eq_none {j : Nat} (h : a.size ≤ j) : urlAt a j = none := by
  rw [urlAt, Array.getElem?_eq_none h]
  rfl

theorem urlAt_push (e : Entry) (j : Nat) :
    urlAt (a.push e) j = if j = a.size then e.url? else urlAt a j := by
  unfold urlAt
  rw [Array.getElem?_push]
  split <;> rfl

theorem urlAt_push_of_not_instruction {e : Entry} (he : e.url? = none) :
    urlAt (a.push e) = urlAt a := by
  funext j
  rw [urlAt_push]
  split
  · next hj => rw [he, urlAt_eq_none (Nat.le_of_eq hj.symm)]
  · rfl

theorem urlAt_modify_of_ne {k j : Nat} (h : j ≠ k) : urlAt (a.modify k change) j = urlAt a j := by
  rw [urlAt, Array.getElem?_modify, if_neg (Ne.symm h), urlAt]

theorem urlAt_modify (k : Nat) (hc : ∀ e, (change e).url? = e.url?) :
    urlAt (a.modify k change) = urlAt a := by
  funext j
  unfold urlAt
  rw [Array.getElem?_modify]
  split
  · cases a[j]? with
    | none => rfl
    | some e => exact hc e
  · rfl

theorem urlAt_append_calls (calls : List StoreCall) :
    urlAt (a ++ (calls.map StoreCall.entry).toArray) = urlAt a := by
  funext j
  by_cases hj : j < a.size
  · rw [urlAt, Array.getElem?_append_left hj, urlAt]
  · have hle := Nat.le_of_not_lt hj
    rw [urlAt_eq_none hle, urlAt, Array.getElem?_append_right hle, List.getElem?_toArray,
      List.getElem?_map]
    cases calls[j - a.size]? <;> rfl

end

variable {σ : Type} {env : Environment σ} {limit : Option Int}

section

variable {s t : Session σ}

theorem Reports.urlAt_eq {α : Type} {work : Effect (Session σ) α} {calls : σ → List StoreCall}
    {outcome : Except Failure α} (hw : Reports work calls) (h : work s = (outcome, t)) :
    urlAt t.entries = urlAt s.entries := by
  have ht := hw s
  rw [h] at ht
  cases ht
  exact urlAt_append_calls _

theorem url?_withInfo (change : InstructionInfo → InstructionInfo) (e : Entry) :
    (e.withInfo change).url? = e.url? := by cases e <;> rfl

theorem url?_withDuration (duration : Binary64) (e : Entry) :
    (e.withDuration duration).url? = e.url? := by cases e <;> rfl

theorem chooseBranch_urlAt {opened : OpenEntry} {test : Condition} {consequent : List Instruction}
    {alternative : Option (List Instruction)} {outcome : Except Failure (List Instruction)}
    (h : chooseBranch env opened test consequent alternative s = (outcome, t)) :
    urlAt t.entries = urlAt s.entries := by
  rcases he : test.evaluate env s with ⟨e | isMet, u⟩ <;>
    have hu := (reports_evaluate env test consequent alternative).urlAt_eq he
  · rw [chooseBranch, Effect.bind_error he] at h
    cases h
    exact hu
  · rw [chooseBranch, Effect.bind_ok he] at h
    cases h
    exact (urlAt_modify _ (url?_withInfo _)).trans hu

theorem act_urlAt {opened : OpenEntry} {i : Instruction} {outcome : Except Failure Unit}
    (h : act env opened i s = (outcome, t)) : urlAt t.entries = urlAt s.entries := by
  cases i with
  | pageAction page action =>
    rcases he : action.perform env page s with ⟨e | error, u⟩ <;>
      have hu := (reports_perform env action page).urlAt_eq he
    · rw [act, Effect.bind_error he] at h
      cases h
      exact hu
    · rw [act, Effect.bind_ok he] at h
      cases h
      exact (urlAt_modify _ (url?_withInfo _)).trans hu
  | saveData key source => exact (reports_saveData env opened key source).urlAt_eq h
  | saveDataBatch source items => exact (reports_saveDataBatch env opened source items).urlAt_eq h
  | deleteData source => exact (reports_deleteData env opened source).urlAt_eq h
  | _ =>
    cases h
    rfl

-- An entry that shows the address its page had at first, and is closed.
theorem close_urlAt {opened : OpenEntry} {outcome : Except Failure Unit}
    (hs : urlAt s.entries opened.index = some (opened.address.map .same))
    (h : close env opened s = (outcome, t)) :
    urlAt t.entries opened.index =
        some (shownUrl opened.address (env.pages.address opened.page s.world).1) ∧
      ∀ j, j ≠ opened.index → urlAt t.entries j = urlAt s.entries j := by
  rcases ha : env.pages.address opened.page s.world with ⟨e | after, world⟩
  · rw [close, Effect.bind_apply, inWorld_apply, ha] at h
    cases h
    exact ⟨hs, fun _ _ => rfl⟩
  · rw [close_apply ha] at h
    cases h
    refine ⟨?_, fun j hj => urlAt_modify_of_ne hj⟩
    unfold urlAt at hs ⊢
    dsimp only
    rw [Array.getElem?_modify, if_pos rfl]
    cases he : s.entries[opened.index]? with
    | none =>
      rw [he] at hs
      cases hs
    | some e =>
      rw [he] at hs
      cases e with
      | instruction info url duration =>
        cases hs
        rfl
      | _ => cases hs

-- The state of the world in which each of some entries is closed, one after the other. The first
-- one whose page gives no address is the last.
def closingWorlds (env : Environment σ) : List OpenEntry → σ → List (OpenEntry × σ)
  | [], _ => []
  | opened :: rest, world =>
    (opened, world) :: match env.pages.address opened.page world with
      | (.ok _, world) => closingWorlds env rest (env.timer world).2
      | (.error _, _) => []

theorem mem_of_mem_closingWorlds {inside : List OpenEntry} {o : OpenEntry} {w world : σ}
    (h : (o, w) ∈ closingWorlds env inside world) : o ∈ inside := by
  induction inside generalizing world with
  | nil => cases h
  | cons first rest ih =>
    rw [closingWorlds] at h
    rcases List.mem_cons.mp h with h | h
    · cases h
      exact List.mem_cons_self
    · split at h
      · exact List.mem_cons_of_mem _ (ih h)
      · cases h

theorem closingWorlds_toList (owner : Option OpenEntry) (world : σ) :
    closingWorlds env owner.toList world = owner.toList.map (·, world) := by
  cases owner with
  | none => rfl
  | some o =>
    change (o, world) :: _ = [(o, world)]
    rcases env.pages.address o.page world with ⟨e | after, w⟩ <;> rfl

theorem closingWorlds_unique {inside : List OpenEntry} (hnodup : inside.Nodup) {o : OpenEntry}
    {w w' world : σ} (h : (o, w) ∈ closingWorlds env inside world)
    (h' : (o, w') ∈ closingWorlds env inside world) : w = w' := by
  induction inside generalizing world with
  | nil => cases h
  | cons first rest ih =>
    obtain ⟨hfirst, hrest⟩ := List.nodup_cons.mp hnodup
    rw [closingWorlds] at h h'
    have hlater : ∀ {w}, (o, w) ∈ (match env.pages.address first.page world with
        | (.ok _, world) => closingWorlds env rest (env.timer world).2
        | (.error _, _) => []) → o ≠ first := by
      rintro w hm rfl
      split at hm
      · exact hfirst (mem_of_mem_closingWorlds hm)
      · cases hm
    rcases List.mem_cons.mp h with h | h <;> rcases List.mem_cons.mp h' with h' | h'
    · cases h
      cases h'
      rfl
    · cases h
      exact absurd rfl (hlater h')
    · cases h'
      exact absurd rfl (hlater h)
    · split at h
      · next hread =>
        rw [hread] at h'
        exact ih hrest h h'
      · cases h

-- What a series of closings makes of the addresses that are shown, and what it takes for none of
-- them to be left out.
structure ClosesUrls (env : Environment σ) (inside : List OpenEntry) (world : σ)
    (before after : Nat → Option (Option PageUrl)) (whole : Prop) : Prop where
  ended : ∀ o w, (o, w) ∈ closingWorlds env inside world →
    after o.index = some (shownUrl o.address (env.pages.address o.page w).1)
  kept : ∀ j, (∀ o w, (o, w) ∈ closingWorlds env inside world → o.index ≠ j) → after j = before j
  all : whole → ∀ o ∈ inside, ∃ w, (o, w) ∈ closingWorlds env inside world

theorem ClosesUrls.nil {world : σ} {before after : Nat → Option (Option PageUrl)} {whole : Prop}
    (h : after = before) : ClosesUrls env [] world before after whole :=
  ⟨nofun, fun j _ => congrFun h j, fun _ => nofun⟩

theorem ClosesUrls.mono {inside : List OpenEntry} {world : σ}
    {before after : Nat → Option (Option PageUrl)} {whole part : Prop}
    (h : ClosesUrls env inside world before after whole) (hp : part → whole) :
    ClosesUrls env inside world before after part :=
  { h with all := fun hpart => h.all (hp hpart) }

theorem closeAll_urlAt {inside : List OpenEntry} {outcome : Except Failure Unit}
    (hnested : inside.Pairwise fun inner outer => outer.index < inner.index)
    (hs : ∀ o ∈ inside, urlAt s.entries o.index = some (o.address.map .same))
    (h : closeAll env inside s = (outcome, t)) :
    ClosesUrls env inside s.world (urlAt s.entries) (urlAt t.entries)
      (outcome = .ok () ∨ env.ReadsAddresses) := by
  induction inside generalizing s with
  | nil =>
    cases h
    exact .nil rfl
  | cons first rest ih =>
    obtain ⟨houter, hrest⟩ := List.pairwise_cons.mp hnested
    rcases hc : close env first s with ⟨closed, u⟩
    obtain ⟨hown, hothers⟩ := close_urlAt (hs first List.mem_cons_self) hc
    rcases ha : env.pages.address first.page s.world with ⟨e | after, world⟩
    · have hfail : close env first s = (.error e, { s with world }) := by
        rw [close, Effect.bind_apply, inWorld_apply, ha]
      rw [closeAll, Effect.bind_error hfail] at h
      cases h
      have hworlds : closingWorlds env (first :: rest) s.world = [(first, s.world)] := by
        rw [closingWorlds, ha]
      rw [hfail] at hc
      cases hc
      refine ⟨fun o w hm => ?_, fun j hj => rfl, ?_⟩
      · rw [hworlds] at hm
        cases List.mem_singleton.mp hm
        exact hown
      · rintro (h | hr)
        · cases h
        · obtain ⟨address, hread⟩ := hr first.page s.world
          rw [ha] at hread
          cases hread
    · rw [close_apply ha] at hc
      rw [closeAll, Effect.bind_ok (close_apply ha)] at h
      cases hc
      have hworlds : closingWorlds env (first :: rest) s.world =
          (first, s.world) :: closingWorlds env rest (env.timer world).2 := by
        rw [closingWorlds, ha]
      obtain ⟨hended, hkept, hall⟩ := ih hrest (fun o ho => by
        have := houter o ho
        rw [hothers _ (by omega)]
        exact hs o (List.mem_cons_of_mem _ ho)) h
      refine ⟨fun o w hm => ?_, fun j hj => ?_, fun hok o ho => ?_⟩
      · rw [hworlds] at hm
        rcases List.mem_cons.mp hm with hm | hm
        · cases hm
          rw [hkept first.index fun o w hm => by
            have := houter o (mem_of_mem_closingWorlds hm)
            omega]
          exact hown
        · exact hended o w hm
      · rw [hworlds] at hj
        rw [hkept j fun o w hm => hj o w (List.mem_cons_of_mem _ hm)]
        exact hothers j (Ne.symm (hj first s.world List.mem_cons_self))
      · rw [hworlds]
        rcases List.mem_cons.mp ho with rfl | ho
        · exact ⟨s.world, List.mem_cons_self⟩
        · obtain ⟨w, hw⟩ := hall hok o ho
          exact ⟨w, List.mem_cons_of_mem _ hw⟩

-- The conditions whose branches an instruction leaves.
def Instruction.leaves (i : Instruction) (frames : List Frame) : List OpenEntry :=
  match i with
  | .jump name => ((land? name frames).map fun landing => openEntries landing.1).getD []
  | _ => []

theorem mem_of_mem_leaves {i : Instruction} {frames : List Frame} {o : OpenEntry}
    (h : o ∈ i.leaves frames) : o ∈ openEntries frames := by
  cases i with
  | jump name =>
    cases hl : land? name frames with
    | none =>
      rw [Instruction.leaves, hl] at h
      cases h
    | some landing =>
      rw [Instruction.leaves, hl] at h
      rw [land?_openEntries hl]
      exact List.mem_append_left _ h
  | _ => cases h

-- An instruction that does not stay open leaves some branches, and enters none.
structure LeavesBranches (env : Environment σ) (inside : List OpenEntry) (s t : Session σ)
    (outcome : Except Failure Bool) : Prop where
  isOver : outcome ≠ .ok true
  stack : openEntries s.frames = inside ++ openEntries t.frames
  urls : ClosesUrls env inside s.world (urlAt s.entries) (urlAt t.entries)
    ((∃ b, outcome = .ok b) ∨ env.ReadsAddresses)

theorem map_false_ne_true (acted : Except Failure Unit) :
    (acted.map fun _ => false) ≠ .ok true := by cases acted <;> nofun

theorem ok_of_map_ok {α : Type} {a : α} {acted : Except Failure Unit}
    (h : ∃ b, (acted.map fun _ => a) = .ok b) : acted = .ok () := by
  obtain ⟨b, h⟩ := h
  cases acted with
  | ok _ => rfl
  | error e => cases h

theorem act_leavesBranches {opened : OpenEntry} {i : Instruction} {outcome : Except Failure Bool}
    (h : (do act env opened i; return false : Effect (Session σ) Bool) s = (outcome, t)) :
    LeavesBranches env [] s t outcome := by
  obtain ⟨acted, ha, rfl⟩ := Effect.bind_pure_inv h
  have hframes := (confined_act env opened i).frames_eq ha
  exact ⟨map_false_ne_true acted, congrArg openEntries hframes.symm, .nil (act_urlAt ha)⟩

theorem jump_leavesBranches {opened : OpenEntry} {name : String} {outcome : Except Failure Bool}
    (hnested : (openEntries s.frames).Pairwise fun inner outer => outer.index < inner.index)
    (hs : ∀ o ∈ openEntries s.frames, urlAt s.entries o.index = some (o.address.map .same))
    (h : dispatch env opened (.jump name) s = (outcome, t)) :
    LeavesBranches env ((Instruction.jump name).leaves s.frames) s t outcome := by
  rw [dispatch, Effect.bind_apply, Effect.get_apply] at h
  rw [Instruction.leaves]
  dsimp only at h ⊢
  cases hl : land? name s.frames with
  | none =>
    rw [hl] at h
    cases h
    exact ⟨by rintro ⟨⟩, rfl, .nil rfl⟩
  | some landing =>
    obtain ⟨left, staying⟩ := landing
    have hstack := land?_openEntries hl
    rw [hl] at h
    dsimp only at h
    rw [Effect.bind_ok (setFrames_apply staying s)] at h
    obtain ⟨closed, hc, rfl⟩ := Effect.bind_pure_inv h
    rw [hstack] at hnested hs
    have hcloses := closeAll_urlAt (s := { s with frames := staying })
      (List.pairwise_append.mp hnested).1 (fun o ho => hs o (List.mem_append_left _ ho)) hc
    refine ⟨map_false_ne_true closed, ?_, hcloses.mono (Or.imp_left ok_of_map_ok)⟩
    rw [(confined_closeAll env _).frames_eq hc]
    exact hstack

-- A condition that finds its branch enters it; any other instruction is over.
theorem dispatch_urlAt {opened : OpenEntry} {i : Instruction} {outcome : Except Failure Bool}
    (hnested : (openEntries s.frames).Pairwise fun inner outer => outer.index < inner.index)
    (hs : ∀ o ∈ openEntries s.frames, urlAt s.entries o.index = some (o.address.map .same))
    (h : dispatch env opened i s = (outcome, t)) :
    (outcome = .ok true ∧ i.leaves s.frames = [] ∧
      openEntries t.frames = opened :: openEntries s.frames ∧
      urlAt t.entries = urlAt s.entries) ∨
    LeavesBranches env (i.leaves s.frames) s t outcome := by
  cases i with
  | condition test consequent alternative =>
    rcases hb : chooseBranch env opened test consequent alternative s with ⟨e | chosen, u⟩ <;>
      have hurls := chooseBranch_urlAt hb <;>
      have hframes := (confined_chooseBranch env opened _ _ _).frames_eq hb <;>
      rw [dispatch] at h
    · rw [Effect.bind_error hb] at h
      cases h
      exact .inr ⟨by rintro ⟨⟩, congrArg openEntries hframes.symm, .nil hurls⟩
    · rw [Effect.bind_ok hb] at h
      cases h
      exact .inl ⟨rfl, rfl, congrArg (opened :: openEntries ·) hframes, hurls⟩
  | jump name => exact .inr (jump_leavesBranches hnested hs h)
  | _ => exact .inr (act_leavesBranches h)

-- What remains of an instruction that has found its branch is left to later turns; any other one is
-- closed.
theorem carryOut_cases {own : OpenEntry} {i : Instruction} {x : Session σ}
    {result : Except Failure Bool} {outcome : Except Failure Unit}
    (hd : dispatch env own i s = (result, x)) (h : carryOut env own i s = (outcome, t)) :
    (result = .ok true ∧ t = x) ∨ result ≠ .ok true ∧ (∃ closed, close env own x = (closed, t)) ∧
      (outcome = .ok () → ∃ b, result = .ok b) := by
  have hattempt : (dispatch env own i).attempt s = (.ok result, x) := by
    rw [Effect.attempt_apply, hd]
  rw [carryOut, Effect.bind_ok hattempt] at h
  cases result with
  | ok keepsOpen =>
    cases keepsOpen with
    | true =>
      cases h
      exact .inl ⟨rfl, rfl⟩
    | false => exact .inr ⟨by rintro ⟨⟩, ⟨_, h⟩, fun _ => ⟨_, rfl⟩⟩
  | error e =>
    dsimp only at h
    rcases hc : close env own x with ⟨closed, y⟩
    have ht := Effect.bind_throw_snd (β := Unit) (close env own) e x
    rw [h, hc] at ht
    obtain rfl : t = y := ht
    refine .inr ⟨by rintro ⟨⟩, ⟨closed, rfl⟩, ?_⟩
    rintro rfl
    obtain ⟨_, _, -, h⟩ := Effect.bind_eq_ok h
    cases h

-- The turn that comes next starts an instruction: it is the next one of the innermost list, the run
-- goes on, and the page of the instruction gives an address.
inductive TurnStarts (env : Environment σ) (limit : Option Int) (s : Session σ) (i : Instruction)
    (o : OpenEntry) (v : Session σ) : Prop
  | intro {f : Frame} {rest : List Frame} {u w : Session σ} (hf : s.frames = f :: rest)
      (hc : checkpoint env s = (.ok true, u)) (hi : f.instructions[f.next]? = some i)
      (hcount : countStep limit { u with frames := f.advance :: rest } = (.ok (), w))
      (hopen : openEntry env i w = (.ok o, v))

-- The turn that comes next ends an instruction, in some state of the world: the branch of a
-- condition is used up; or a jump leaves it, together with all that are inside of it; or the
-- instruction that the turn has started is over, if it is no condition that has found its branch.
inductive TurnEnds (env : Environment σ) (limit : Option Int) (s : Session σ) (o : OpenEntry)
    (w : σ) : Prop
  | exhausted {f : Frame} {rest : List Frame} {u : Session σ} (hf : s.frames = f :: rest)
      (hc : checkpoint env s = (.ok true, u)) (hn : f.instructions[f.next]? = none)
      (ho : f.owner = some o) (hw : w = u.world)
  | left {i : Instruction} {own : OpenEntry} {v : Session σ} (hs : TurnStarts env limit s i own v)
      (hw : (o, w) ∈ closingWorlds env (i.leaves v.frames) v.world)
  | over {i : Instruction} {v x : Session σ} {outcome : Except Failure Bool}
      (hs : TurnStarts env limit s i o v) (hd : dispatch env o i v = (outcome, x))
      (hnot : outcome ≠ .ok true) (hw : w = x.world)

theorem TurnStarts.inv {i : Instruction} {o : OpenEntry} {v u : Session σ} {f : Frame}
    {rest : List Frame} (h : TurnStarts env limit s i o v) (hf : s.frames = f :: rest)
    (hc : checkpoint env s = (.ok true, u)) :
    f.instructions[f.next]? = some i ∧ ∃ w,
      countStep limit { u with frames := f.advance :: rest } = (.ok (), w) ∧
      openEntry env i w = (.ok o, v) := by
  obtain ⟨hf', hc', hi, hcount, hopen⟩ := h
  rw [hf] at hf'
  rw [hc] at hc'
  cases hf'
  cases hc'
  exact ⟨hi, _, hcount, hopen⟩

theorem TurnStarts.unique {i i' : Instruction} {o o' : OpenEntry} {v v' : Session σ}
    (h : TurnStarts env limit s i o v) (h' : TurnStarts env limit s i' o' v') :
    i = i' ∧ o = o' ∧ v = v' := by
  obtain ⟨hf, hc, hi, hcount, hopen⟩ := h
  obtain ⟨hi', w, hcount', hopen'⟩ := h'.inv hf hc
  rw [hi] at hi'
  cases hi'
  rw [hcount] at hcount'
  cases hcount'
  rw [hopen] at hopen'
  cases hopen'
  exact ⟨rfl, rfl, rfl⟩

theorem openEntry_error {i : Instruction} {e : Failure} (h : openEntry env i s = (.error e, t)) :
    t.entries = s.entries := by
  rcases ha : env.pages.address i.page s.world with ⟨e' | address, world⟩
  · rw [openEntry, Effect.bind_apply, inWorld_apply, ha] at h
    cases h
    rfl
  · rw [openEntry_apply ha] at h
    cases h

theorem openEntry_eq_ok {i : Instruction} {o : OpenEntry} (h : openEntry env i s = (.ok o, t)) :
    o.index = s.entries.size ∧ o.page = i.page ∧
      (env.pages.address i.page s.world).1 = .ok o.address ∧
      t.entries = s.entries.push
        (.instruction (.ofInstruction i) (o.address.map .same) Binary64.zero) := by
  rcases ha : env.pages.address i.page s.world with ⟨e | address, world⟩
  · rw [openEntry, Effect.bind_apply, inWorld_apply, ha] at h
    cases h
  · rw [openEntry_apply ha] at h
    cases h
    exact ⟨rfl, rfl, rfl, rfl⟩

-- What an instruction that has started finds: an entry of its own behind those there were, and the
-- address its page has when the run has just gone on.
theorem TurnStarts.session {i : Instruction} {o : OpenEntry} {v : Session σ}
    (h : TurnStarts env limit s i o v) :
    openEntries v.frames = openEntries s.frames ∧ o.index = s.entries.size ∧
      v.entries = s.entries.push
        (.instruction (.ofInstruction i) (o.address.map .same) Binary64.zero) ∧
      o.page = i.page ∧ ∃ u, checkpoint env s = (.ok true, u) ∧
        (env.pages.address i.page u.world).1 = .ok o.address := by
  obtain ⟨hf, hc, hi, hcount, hopen⟩ := h
  rename_i f rest u w
  have hw := countStep_under limit u (f.advance :: rest)
  rw [hcount, Prod.mk.injEq] at hw
  obtain ⟨-, rfl⟩ := hw
  obtain ⟨hindex, hpage, haddress, hentries⟩ := openEntry_eq_ok hopen
  have hbefore := checkpoint_entries hc
  refine ⟨?_, ?_, ?_, hpage, u, hc, haddress⟩
  · rw [(confined_openEntry env i).frames_eq hopen, hf]
    rfl
  · rw [hindex]
    exact congrArg Array.size hbefore
  · rw [hentries]
    exact congrArg (Array.push · _) hbefore

theorem TurnStarts.goesOn {i : Instruction} {o : OpenEntry} {v : Session σ}
    (h : TurnStarts env limit s i o v) : s.frames ≠ [] ∧ ∃ u, checkpoint env s = (.ok true, u) := by
  obtain ⟨hf, hc, -, -, -⟩ := h
  exact ⟨hf ▸ List.cons_ne_nil _ _, _, hc⟩

theorem TurnEnds.goesOn {o : OpenEntry} {w : σ} (h : TurnEnds env limit s o w) :
    s.frames ≠ [] ∧ ∃ u, checkpoint env s = (.ok true, u) := by
  rcases h with ⟨hf, hc, -, -, -⟩ | ⟨hs, -⟩ | ⟨hs, -, -, -⟩
  · exact ⟨hf ▸ List.cons_ne_nil _ _, _, hc⟩
  · exact hs.goesOn
  · exact hs.goesOn

theorem ends_iff_of_starts {i : Instruction} {own : OpenEntry} {v x : Session σ}
    {outcome : Except Failure Bool} (hs : TurnStarts env limit s i own v)
    (hd : dispatch env own i v = (outcome, x)) (o : OpenEntry) (w : σ) :
    TurnEnds env limit s o w ↔ (o, w) ∈ closingWorlds env (i.leaves v.frames) v.world ∨
      o = own ∧ outcome ≠ .ok true ∧ w = x.world := by
  constructor
  · rintro (⟨hf, hc, hn, -, -⟩ | ⟨hs', hw⟩ | ⟨hs', hd', hnot, hw⟩)
    · rw [(hs.inv hf hc).1] at hn
      cases hn
    · obtain ⟨rfl, rfl, rfl⟩ := hs.unique hs'
      exact .inl hw
    · obtain ⟨rfl, rfl, rfl⟩ := hs.unique hs'
      rw [hd] at hd'
      cases hd'
      exact .inr ⟨rfl, hnot, hw⟩
  · rintro (hw | ⟨rfl, hnot, hw⟩)
    · exact .left hs hw
    · exact .over hs hd hnot hw

-- The conditions whose branches are being run, and the instruction that comes next.
def Present (env : Environment σ) (limit : Option Int) (s : Session σ) (o : OpenEntry) : Prop :=
  o ∈ openEntries s.frames ∨ ∃ i v, TurnStarts env limit s i o v

theorem TurnEnds.present {o : OpenEntry} {w : σ} (h : TurnEnds env limit s o w) :
    Present env limit s o := by
  rcases h with ⟨hf, -, -, ho, -⟩ | ⟨hstart, hw⟩ | ⟨hstart, -, -, -⟩
  · rw [Present, hf]
    exact .inl (List.mem_filterMap.mpr ⟨_, List.mem_cons_self, ho⟩)
  · have hstack := hstart.session.1
    exact .inl (hstack ▸ mem_of_mem_leaves (mem_of_mem_closingWorlds hw))
  · exact .inr ⟨_, _, hstart⟩

-- What a turn makes of the addresses that are shown, and of the instructions that are not over.
structure TurnUrls (env : Environment σ) (limit : Option Int) (s t : Session σ) (whole : Prop) :
    Prop where
  size : s.entries.size ≤ t.entries.size
  ended : ∀ o w, TurnEnds env limit s o w →
    urlAt t.entries o.index = some (shownUrl o.address (env.pages.address o.page w).1)
  begun : ∀ i o v, TurnStarts env limit s i o v → (∀ w, ¬ TurnEnds env limit s o w) →
    urlAt t.entries o.index = some (o.address.map .same)
  kept : ∀ j, (∀ o w, TurnEnds env limit s o w → o.index ≠ j) →
    (∀ i o v, TurnStarts env limit s i o v → o.index ≠ j) → urlAt t.entries j = urlAt s.entries j
  stack : ∀ o ∈ openEntries t.frames, Present env limit s o ∧ ∀ w, ¬ TurnEnds env limit s o w
  stays : whole → ∀ o, Present env limit s o → (∀ w, ¬ TurnEnds env limit s o w) →
    o ∈ openEntries t.frames

theorem TurnUrls.mono {whole part : Prop} (h : TurnUrls env limit s t whole) (hp : part → whole) :
    TurnUrls env limit s t part :=
  { h with stays := fun hpart => h.stays (hp hpart) }

-- A turn that neither starts an instruction nor ends one.
theorem TurnUrls.idle {whole : Prop} (hstart : ∀ i o v, ¬ TurnStarts env limit s i o v)
    (hend : ∀ o w, ¬ TurnEnds env limit s o w) (hentries : t.entries = s.entries)
    (hframes : openEntries t.frames = openEntries s.frames) : TurnUrls env limit s t whole where
  size := Nat.le_of_eq (congrArg Array.size hentries.symm)
  ended o w h := absurd h (hend o w)
  begun i o v h := absurd h (hstart i o v)
  kept j _ _ := by rw [hentries]
  stack o ho := ⟨.inl (hframes ▸ ho), hend o⟩
  stays _ o ho _ := by
    rw [hframes]
    exact ho.resolve_right fun ⟨i, v, h⟩ => hstart i o v h

-- No instruction is started, and some branches are left.
theorem TurnUrls.leave {whole : Prop} {inside : List OpenEntry} {world : σ} (hs : OpenInside s)
    (hstart : ∀ i o v, ¬ TurnStarts env limit s i o v)
    (hend : ∀ o w, TurnEnds env limit s o w ↔ (o, w) ∈ closingWorlds env inside world)
    (hstack : openEntries s.frames = inside ++ openEntries t.frames)
    (hsize : s.entries.size ≤ t.entries.size)
    (hurls : ClosesUrls env inside world (urlAt s.entries) (urlAt t.entries) whole) :
    TurnUrls env limit s t whole where
  size := hsize
  ended o w h := hurls.ended o w ((hend o w).mp h)
  begun i o v h := absurd h (hstart i o v)
  kept j h _ := hurls.kept j fun o w hm => h o w ((hend o w).mpr hm)
  stack o ho := by
    refine ⟨.inl (hstack ▸ List.mem_append_right _ ho), fun w he => ?_⟩
    have hin := mem_of_mem_closingWorlds ((hend o w).mp he)
    have hnested := hs.nested
    rw [hstack] at hnested
    exact Nat.lt_irrefl _ ((List.pairwise_append.mp hnested).2.2 o hin o ho)
  stays hwhole o ho hnot := by
    have hmem := ho.resolve_right fun ⟨i, v, h⟩ => hstart i o v h
    rw [hstack] at hmem
    refine (List.mem_append.mp hmem).resolve_left fun hin => ?_
    obtain ⟨w, hw⟩ := hurls.all hwhole o hin
    exact hnot w ((hend o w).mpr hw)

theorem OpenInside.urlAt_eq (hs : OpenInside s) {o : OpenEntry} (ho : o ∈ openEntries s.frames) :
    urlAt s.entries o.index = some (o.address.map .same) := by
  obtain ⟨test, isMet, he⟩ := hs.isOpen o ho
  rw [urlAt, he]
  rfl

-- The branch that is used up is left.
theorem turn_urlAt_leave (hs : OpenInside s) {outcome : Except Failure (Option Ending)} {f : Frame}
    {rest : List Frame} {u : Session σ} (hf : s.frames = f :: rest)
    (hc : checkpoint env s = (.ok true, u)) (hn : f.instructions[f.next]? = none)
    (h : turn env limit s = (outcome, t)) :
    TurnUrls env limit s t ((∃ ending, outcome = .ok ending) ∨ env.ReadsAddresses) := by
  have hsize : s.entries.size ≤ t.entries.size := by
    obtain ⟨told, added, -, ⟨closed, kept, -, -, hrecord⟩, -⟩ := turn_advances h
    exact hrecord.size_le
  have hstack : openEntries s.frames = f.owner.toList ++ openEntries rest := by
    rw [hf]
    cases ho : f.owner <;> simp [openEntries, ho]
  have hstart : ∀ i o v, ¬ TurnStarts env limit s i o v := by
    intro i o v hs'
    rw [(hs'.inv hf hc).1] at hn
    cases hn
  have hend : ∀ o w, TurnEnds env limit s o w ↔
      (o, w) ∈ closingWorlds env f.owner.toList u.world := by
    intro o w
    rw [closingWorlds_toList]
    constructor
    · rintro (⟨hf', hc', -, ho, rfl⟩ | ⟨hs', -⟩ | ⟨hs', -⟩)
      · rw [hf] at hf'
        rw [hc] at hc'
        cases hf'
        cases hc'
        simp [ho]
      · exact absurd hs' (hstart _ _ _)
      · exact absurd hs' (hstart _ _ _)
    · intro hm
      obtain ⟨o', ho, he⟩ := List.mem_map.mp hm
      cases he
      exact .exhausted hf hc hn (Option.mem_toList.mp ho) rfl
  have hentries := checkpoint_entries hc
  have hnested := hs.nested
  rw [hstack] at hnested
  rw [turn_leave env limit hf hc hn] at h
  obtain ⟨closed, hclose, rfl⟩ := Effect.bind_pure_inv h
  have hurls := closeAll_urlAt (s := { u with frames := rest })
    (List.pairwise_append.mp hnested).1 (fun o ho => by
      dsimp only
      rw [hentries]
      exact hs.urlAt_eq (hstack ▸ List.mem_append_left _ ho)) hclose
  have hframes := (confined_closeAll env f.owner.toList).frames_eq hclose
  dsimp only at hurls
  rw [hentries] at hurls
  refine .leave hs hstart hend (by rw [hstack, hframes]) hsize
    (hurls.mono (Or.imp_left ok_of_map_ok))

namespace TurnStarts

variable {i : Instruction} {own : OpenEntry} {v : Session σ}
  (hstart : TurnStarts env limit s i own v)
include hstart

theorem urlAt_index : urlAt v.entries own.index = some (own.address.map .same) := by
  obtain ⟨-, hindex, hentries, -⟩ := hstart.session
  rw [hentries, urlAt_push, if_pos hindex]
  rfl

theorem urlAt_of_ne {j : Nat} (hj : j ≠ own.index) : urlAt v.entries j = urlAt s.entries j := by
  obtain ⟨-, hindex, hentries, -⟩ := hstart.session
  rw [hentries, urlAt_push, if_neg (hindex ▸ hj)]

theorem index_lt (hs : OpenInside s) {o : OpenEntry} (ho : o ∈ openEntries v.frames) :
    o.index < own.index := by
  obtain ⟨hstack, hindex, -⟩ := hstart.session
  rw [hindex]
  exact (hs.isOpen o (hstack ▸ ho)).index_lt

theorem nested (hs : OpenInside s) :
    (openEntries v.frames).Pairwise fun inner outer => outer.index < inner.index := by
  rw [hstart.session.1]
  exact hs.nested

theorem urlAt_open (hs : OpenInside s) {o : OpenEntry} (ho : o ∈ openEntries v.frames) :
    urlAt v.entries o.index = some (o.address.map .same) := by
  rw [hstart.urlAt_of_ne (Nat.ne_of_lt (hstart.index_lt hs ho))]
  exact hs.urlAt_eq (hstart.session.1 ▸ ho)

theorem present_iff (o : OpenEntry) :
    Present env limit s o ↔ o ∈ openEntries v.frames ∨ o = own := by
  rw [Present, hstart.session.1]
  refine or_congr_right ⟨?_, ?_⟩
  · rintro ⟨_, _, hstart'⟩
    exact (hstart.unique hstart').2.1.symm
  · rintro rfl
    exact ⟨i, v, hstart⟩

-- A condition that has found its branch is left to later turns.
theorem enters {whole : Prop} (hd : dispatch env own i v = (.ok true, t))
    (hleaves : i.leaves v.frames = []) (hstack : openEntries t.frames = own :: openEntries v.frames)
    (hurls : urlAt t.entries = urlAt v.entries) (hsize : s.entries.size ≤ t.entries.size) :
    TurnUrls env limit s t whole := by
  have hnone : ∀ o w, ¬ TurnEnds env limit s o w := by
    intro o w he
    rcases (ends_iff_of_starts hstart hd o w).mp he with hm | ⟨-, hne, -⟩
    · rw [hleaves] at hm
      cases hm
    · exact hne rfl
  have hpresent : ∀ o, o ∈ openEntries t.frames ↔ Present env limit s o := fun o => by
    rw [hstack, List.mem_cons, hstart.present_iff, or_comm]
  refine ⟨hsize, fun o w he => absurd he (hnone o w), fun _ _ _ hs' _ => ?_, fun j _ hj => ?_,
    fun o ho => ⟨(hpresent o).mp ho, hnone o⟩, fun _ o ho _ => (hpresent o).mpr ho⟩
  · obtain ⟨rfl, rfl, rfl⟩ := hstart.unique hs'
    rw [hurls]
    exact hstart.urlAt_index
  · rw [hurls]
    exact hstart.urlAt_of_ne (hj i own v hstart).symm

-- Any other instruction is over once the branches it leaves are closed.
theorem isOver (hs : OpenInside s) {x : Session σ} {result : Except Failure Bool}
    {closed : Except Failure Unit} (hd : dispatch env own i v = (result, x))
    (hleaves : LeavesBranches env (i.leaves v.frames) v x result)
    (hclose : close env own x = (closed, t)) (hsize : s.entries.size ≤ t.entries.size) :
    TurnUrls env limit s t ((∃ b, result = .ok b) ∨ env.ReadsAddresses) := by
  obtain ⟨hover, hstack, hended', hkept, hall⟩ := hleaves
  have hends := ends_iff_of_starts hstart hd
  have hleft : ∀ o w, (o, w) ∈ closingWorlds env (i.leaves v.frames) v.world →
      o.index < own.index :=
    fun o w hm => hstart.index_lt hs (mem_of_mem_leaves (mem_of_mem_closingWorlds hm))
  have hown := hkept own.index fun o w hm => Nat.ne_of_lt (hleft o w hm)
  obtain ⟨hended, hothers⟩ := close_urlAt (hown.trans hstart.urlAt_index) hclose
  have hendsOwn : TurnEnds env limit s own x.world := (hends _ _).mpr (.inr ⟨rfl, hover, rfl⟩)
  have hframes := (confined_close env own).frames_eq hclose
  refine ⟨hsize, fun o w he => ?_, fun _ _ _ hs' hno => ?_, fun j hE hS => ?_, fun o ho => ?_,
    fun hwhole o ho hno => ?_⟩
  · rcases (hends o w).mp he with hm | ⟨rfl, -, rfl⟩
    · rw [hothers _ (Nat.ne_of_lt (hleft o w hm))]
      exact hended' o w hm
    · exact hended
  · obtain ⟨rfl, rfl, rfl⟩ := hstart.unique hs'
    exact absurd hendsOwn (hno _)
  · have hj := (hS i own v hstart).symm
    rw [hothers j hj, hkept j fun o w hm => hE o w ((hends o w).mpr (.inl hm))]
    exact hstart.urlAt_of_ne hj
  · rw [hframes] at ho
    have hin : o ∈ openEntries v.frames := hstack ▸ List.mem_append_right _ ho
    refine ⟨(hstart.present_iff o).mpr (.inl hin), fun w he => ?_⟩
    have hnested := hstart.nested hs
    rw [hstack] at hnested
    rcases (hends o w).mp he with hm | ⟨rfl, -, -⟩
    · have hin' := mem_of_mem_closingWorlds hm
      exact Nat.lt_irrefl _ ((List.pairwise_append.mp hnested).2.2 o hin' o ho)
    · exact Nat.lt_irrefl _ (hstart.index_lt hs hin)
  · rw [hframes]
    rcases (hstart.present_iff o).mp ho with ho | rfl
    · rw [hstack] at ho
      refine (List.mem_append.mp ho).resolve_left fun hin => ?_
      obtain ⟨w, hw⟩ := hall hwhole o hin
      exact hno w ((hends o w).mpr (.inl hw))
    · exact absurd hendsOwn (hno _)

-- The instruction that is next is started, and carried out.
theorem run (hs : OpenInside s) {outcome : Except Failure Unit}
    (h : carryOut env own i v = (outcome, t)) :
    TurnUrls env limit s t (outcome = .ok () ∨ env.ReadsAddresses) := by
  obtain ⟨-, hindex, hentries, -⟩ := hstart.session
  have hgrown : v.entries.size = s.entries.size + 1 := by rw [hentries, Array.size_push]
  have hsize : s.entries.size ≤ t.entries.size := by
    obtain ⟨added, ⟨closed, kept, -, -, hrecord⟩, -⟩ :=
      carryOut_advances (show own.index ≤ v.entries.size by omega) (Nat.le_refl _)
        (by rw [hentries, hindex, Array.getElem?_push_size]) h
    have := hrecord.size_le
    omega
  rcases hd : dispatch env own i v with ⟨result, x⟩
  rcases dispatch_urlAt (hstart.nested hs) (fun o ho => hstart.urlAt_open hs ho) hd with
    ⟨rfl, hleaves, hstack, hurls⟩ | hleaves
  · obtain ⟨-, rfl⟩ := (carryOut_cases hd h).resolve_right fun hr => hr.1 rfl
    exact hstart.enters hd hleaves hstack hurls hsize
  · obtain ⟨-, ⟨closed, hclose⟩, hok⟩ :=
      (carryOut_cases hd h).resolve_left fun hl => hleaves.isOver hl.1
    exact (hstart.isOver hs hd hleaves hclose hsize).mono (Or.imp_left hok)

end TurnStarts

theorem TurnUrls.stops {whole : Prop}
    (h : s.frames ≠ [] → ∀ u, checkpoint env s ≠ (.ok true, u)) (hentries : t.entries = s.entries)
    (hframes : openEntries t.frames = openEntries s.frames) : TurnUrls env limit s t whole := by
  refine .idle (fun i o v hs => ?_) (fun o w he => ?_) hentries hframes
  · obtain ⟨hne, u, hc⟩ := hs.goesOn
    exact h hne u hc
  · obtain ⟨hne, u, hc⟩ := he.goesOn
    exact h hne u hc

-- The instruction that is next is not started: there are no more steps, or no address.
theorem TurnUrls.startless {whole : Prop} {f : Frame} {rest : List Frame}
    {i : Instruction} (hf : s.frames = f :: rest) (hi : f.instructions[f.next]? = some i)
    (hstart : ∀ i o v, ¬ TurnStarts env limit s i o v) (hentries : t.entries = s.entries)
    (hframes : openEntries t.frames = openEntries s.frames) : TurnUrls env limit s t whole := by
  refine .idle hstart (fun o w he => ?_) hentries hframes
  rcases he with ⟨hf', -, hn, -, -⟩ | ⟨hs, -⟩ | ⟨hs, -, -, -⟩
  · rw [hf] at hf'
    cases hf'
    rw [hi] at hn
    cases hn
  · exact hstart _ _ _ hs
  · exact hstart _ _ _ hs

-- The instruction that is next is started, unless there are no more steps or its page gives no
-- address.
theorem turn_urlAt_run (hs : OpenInside s) {outcome : Except Failure (Option Ending)} {f : Frame}
    {rest : List Frame} {u : Session σ} {i : Instruction} (hf : s.frames = f :: rest)
    (hc : checkpoint env s = (.ok true, u)) (hi : f.instructions[f.next]? = some i)
    (h : turn env limit s = (outcome, t)) :
    TurnUrls env limit s t ((∃ ending, outcome = .ok ending) ∨ env.ReadsAddresses) := by
  have hentries := checkpoint_entries hc
  have hcount := countStep_under limit u (f.advance :: rest)
  have hstack : openEntries (f.advance :: rest) = openEntries s.frames := by
    rw [hf]
    rfl
  rw [turn_run env limit hf hc hi] at h
  rcases hfirst : (countStep limit u).1 with e | _ <;> rw [hfirst] at hcount
  · cases (Effect.bind_error hcount _).symm.trans h
    refine .startless hf hi (fun i' o v hs' => ?_) hentries hstack
    obtain ⟨-, w, hok, -⟩ := hs'.inv hf hc
    rw [hcount] at hok
    cases hok
  · obtain ⟨result, hrun, rfl⟩ := Effect.bind_pure_inv ((Effect.bind_ok hcount _).symm.trans h)
    rcases hopen : openEntry env i
      { u with frames := f.advance :: rest, steps := u.steps + 1 } with ⟨e | own, v⟩
    · rw [execute, Effect.bind_error hopen] at hrun
      cases hrun
      refine .startless hf hi (fun i' o v' hs' => ?_) ?_ ?_
      · obtain ⟨hi', w, hok, hopen'⟩ := hs'.inv hf hc
        rw [hi] at hi'
        cases hi'
        rw [hcount] at hok
        cases hok
        rw [hopen] at hopen'
        cases hopen'
      · exact (openEntry_error hopen).trans hentries
      · rw [(confined_openEntry env i).frames_eq hopen]
        exact hstack
    · rw [execute, Effect.bind_ok hopen] at hrun
      have hstart : TurnStarts env limit s i own v := .intro hf hc hi hcount hopen
      exact (hstart.run hs hrun).mono (Or.imp_left ok_of_map_ok)

theorem turn_urlAt (hs : OpenInside s) {outcome : Except Failure (Option Ending)}
    (h : turn env limit s = (outcome, t)) :
    TurnUrls env limit s t ((∃ ending, outcome = .ok ending) ∨ env.ReadsAddresses) := by
  cases hf : s.frames with
  | nil =>
    rw [turn_nil env limit s hf] at h
    cases h
    exact .stops (fun hne => absurd hf hne) rfl rfl
  | cons f rest =>
    obtain ⟨goesOn, u, hc⟩ := checkpoint_ok env s
    cases goesOn with
    | false =>
      have hframes := (confined_checkpoint env).frames_eq hc
      rw [turn_cancelled env limit hf hc] at h
      cases h
      refine .stops (fun _ u hc' => ?_) (checkpoint_entries hc) (congrArg openEntries hframes)
      rw [hc] at hc'
      cases hc'
    | true =>
      cases hi : f.instructions[f.next]? with
      | none => exact turn_urlAt_leave hs hf hc hi h
      | some i => exact turn_urlAt_run hs hf hc hi h

theorem present_inj (hs : OpenInside s) {o o' : OpenEntry} (h : Present env limit s o)
    (h' : Present env limit s o') (he : o.index = o'.index) : o = o' := by
  rcases h with h | ⟨i, v, h⟩ <;> rcases h' with h' | ⟨i', v', h'⟩
  · have hapart : ((openEntries s.frames).map OpenEntry.index).Nodup :=
      List.pairwise_map.mpr (hs.nested.imp fun hlt => (Nat.ne_of_lt hlt).symm)
    exact List.inj_on_of_nodup_map hapart h h' he
  · have := (hs.isOpen o h).index_lt
    have := h'.session.2.1
    omega
  · have := (hs.isOpen o' h').index_lt
    have := h.session.2.1
    omega
  · exact (h.unique h').2.1

theorem leaves_nodup {i : Instruction} {frames : List Frame} (h : (openEntries frames).Nodup) :
    (i.leaves frames).Nodup := by
  cases i with
  | jump name =>
    cases hl : land? name frames with
    | none =>
      rw [Instruction.leaves, hl]
      exact .nil
    | some landing =>
      rw [land?_openEntries hl] at h
      rw [Instruction.leaves, hl]
      exact (List.nodup_append.mp h).1
  | _ => exact .nil

theorem TurnEnds.unique (hs : OpenInside s) {o : OpenEntry} {w w' : σ}
    (h : TurnEnds env limit s o w) (h' : TurnEnds env limit s o w') : w = w' := by
  by_cases hstart : ∃ i own v, TurnStarts env limit s i own v
  · obtain ⟨i, own, v, hstart⟩ := hstart
    obtain ⟨hstack, hindex, -⟩ := hstart.session
    have hleft : ∀ {w}, (own, w) ∉ closingWorlds env (i.leaves v.frames) v.world := fun hm => by
      have hin := mem_of_mem_leaves (mem_of_mem_closingWorlds hm)
      have := (hs.isOpen own (hstack ▸ hin)).index_lt
      omega
    rcases hd : dispatch env own i v with ⟨outcome, x⟩
    have hends := ends_iff_of_starts hstart hd
    rcases (hends o w).mp h with hm | ⟨ho, -, hw⟩ <;>
      rcases (hends o w').mp h' with hm' | ⟨ho', -, hw'⟩
    · exact closingWorlds_unique (leaves_nodup (hstack ▸ hs.nodup)) hm hm'
    · exact absurd (ho' ▸ hm) hleft
    · exact absurd (ho ▸ hm') hleft
    · rw [hw, hw']
  · have hnone : ∀ {w}, TurnEnds env limit s o w → ∃ u, checkpoint env s = (.ok true, u) ∧
        w = u.world := by
      rintro w (⟨-, hc, -, -, hw⟩ | ⟨hs', -⟩ | ⟨hs', -, -, -⟩)
      · exact ⟨_, hc, hw⟩
      · exact absurd ⟨_, _, _, hs'⟩ hstart
      · exact absurd ⟨_, _, _, hs'⟩ hstart
    obtain ⟨u, hc, rfl⟩ := hnone h
    obtain ⟨u', hc', rfl⟩ := hnone h'
    rw [hc] at hc'
    cases hc'
    rfl

namespace TurnUrls

variable {whole : Prop} (h : TurnUrls env limit s t whole) (hs : OpenInside s) {o : OpenEntry}
include h hs

theorem unended (ho : Present env limit s o) (hno : ∀ w, ¬ TurnEnds env limit s o w) :
    urlAt t.entries o.index = some (o.address.map .same) := by
  rcases ho with hin | ⟨_, _, hstart⟩
  · rw [h.kept o.index (fun o' _ he hindex => ?_) fun _ o' _ hstart hindex => ?_]
    · exact hs.urlAt_eq hin
    · obtain rfl := present_inj hs he.present (.inl hin) hindex
      exact hno _ he
    · have := (hs.isOpen o hin).index_lt
      have := hstart.session.2.1
      omega
  · exact h.begun _ o _ hstart hno

omit hs in
theorem untouched {j : Nat} (hj : ∀ o, Present env limit s o → o.index ≠ j) :
    urlAt t.entries j = urlAt s.entries j :=
  h.kept j (fun o _ he => hj o he.present) fun i o v hstart => hj o (.inr ⟨i, v, hstart⟩)

theorem index_lt (ho : Present env limit s o) : o.index < t.entries.size := by
  by_contra hle
  have hnone := urlAt_eq_none (Nat.le_of_not_lt hle)
  by_cases he : ∃ w, TurnEnds env limit s o w
  · obtain ⟨w, he⟩ := he
    rw [h.ended o w he] at hnone
    cases hnone
  · rw [h.unended hs ho fun w hw => he ⟨w, hw⟩] at hnone
    cases hnone

end TurnUrls

-- The instructions that some turn of a run starts, and those that some turn ends.
def Started (env : Environment σ) (limit : Option Int) (s : Session σ) (o : OpenEntry) : Prop :=
  ∃ n u i v, Turns env limit n s u ∧ TurnStarts env limit u i o v

def Ended (env : Environment σ) (limit : Option Int) (s : Session σ) (o : OpenEntry)
    (w : σ) : Prop :=
  ∃ n u, Turns env limit n s u ∧ TurnEnds env limit u o w

theorem started_iff (o : OpenEntry) : Started env limit s o ↔
    (∃ i v, TurnStarts env limit s i o v) ∨
      ∃ t, turn env limit s = (.ok none, t) ∧ Started env limit t o := by
  constructor
  · rintro ⟨n, u, i, v, hturns, hstart⟩
    cases hturns with
    | zero => exact .inl ⟨i, v, hstart⟩
    | next ht hn => exact .inr ⟨_, ht, _, u, i, v, hn, hstart⟩
  · rintro (⟨i, v, hstart⟩ | ⟨t, ht, n, u, i, v, hn, hstart⟩)
    · exact ⟨0, s, i, v, .zero s, hstart⟩
    · exact ⟨n + 1, u, i, v, .next ht hn, hstart⟩

theorem ended_iff (o : OpenEntry) (w : σ) : Ended env limit s o w ↔
    TurnEnds env limit s o w ∨ ∃ t, turn env limit s = (.ok none, t) ∧ Ended env limit t o w := by
  constructor
  · rintro ⟨n, u, hturns, hend⟩
    cases hturns with
    | zero => exact .inl hend
    | next ht hn => exact .inr ⟨_, ht, _, u, hn, hend⟩
  · rintro (hend | ⟨t, ht, n, u, hn, hend⟩)
    · exact ⟨0, s, .zero s, hend⟩
    · exact ⟨n + 1, u, .next ht hn, hend⟩

-- The conditions whose branches are being run, and the instructions that are still to be started.
def Known (env : Environment σ) (limit : Option Int) (s : Session σ) (o : OpenEntry) : Prop :=
  o ∈ openEntries s.frames ∨ Started env limit s o

-- What the rest of a run makes of the addresses that are shown.
structure RunUrls (env : Environment σ) (limit : Option Int) (s stopped : Session σ) : Prop where
  ended : ∀ o w, Ended env limit s o w →
    urlAt stopped.entries o.index = some (shownUrl o.address (env.pages.address o.page w).1)
  unended : ∀ o, Known env limit s o → (∀ w, ¬ Ended env limit s o w) →
    urlAt stopped.entries o.index = some (o.address.map .same)
  kept : ∀ j, (∀ o, Known env limit s o → o.index ≠ j) →
    urlAt stopped.entries j = urlAt s.entries j
  later : ∀ o, Started env limit s o → s.entries.size ≤ o.index
  apart : ∀ o o', Started env limit s o → Started env limit s o' → o.index = o'.index → o = o'
  known : ∀ o w, Ended env limit s o w → Known env limit s o
  stack : ∀ o ∈ openEntries stopped.frames, Known env limit s o ∧ ∀ w, ¬ Ended env limit s o w
  once : ∀ o w w', Ended env limit s o w → Ended env limit s o w' → w = w'
  stays : env.ReadsAddresses → ∀ o, Known env limit s o → (∀ w, ¬ Ended env limit s o w) →
    o ∈ openEntries stopped.frames

-- The last turn of a run.
theorem TurnUrls.last (h : TurnUrls env limit s t env.ReadsAddresses) (hs : OpenInside s)
    (hlast : ∀ u, turn env limit s ≠ (.ok none, u)) : RunUrls env limit s t := by
  have hstarted : ∀ o, Started env limit s o ↔ ∃ i v, TurnStarts env limit s i o v := fun o =>
    (started_iff o).trans (or_iff_left fun ⟨u, hu, _⟩ => hlast u hu)
  have hended : ∀ o w, Ended env limit s o w ↔ TurnEnds env limit s o w := fun o w =>
    (ended_iff o w).trans (or_iff_left fun ⟨u, hu, _⟩ => hlast u hu)
  have hknown : ∀ o, Known env limit s o ↔ Present env limit s o := fun o =>
    or_congr_right (hstarted o)
  have hopen : ∀ {o}, (∀ w, ¬ Ended env limit s o w) → ∀ w, ¬ TurnEnds env limit s o w :=
    fun hno w he => hno w ((hended _ w).mpr he)
  exact {
    ended o w he := h.ended o w ((hended o w).mp he)
    unended o ho hno := h.unended hs ((hknown o).mp ho) (hopen hno)
    kept j hj := h.untouched fun o ho => hj o ((hknown o).mpr ho)
    later o ho := by
      obtain ⟨i, v, hstart⟩ := (hstarted o).mp ho
      exact Nat.le_of_eq hstart.session.2.1.symm
    apart o o' ho ho' _ := by
      obtain ⟨i, v, hstart⟩ := (hstarted o).mp ho
      obtain ⟨i', v', hstart'⟩ := (hstarted o').mp ho'
      exact (hstart.unique hstart').2.1
    known o w he := (hknown o).mpr ((hended o w).mp he).present
    stack o ho := by
      obtain ⟨hpresent, hno⟩ := h.stack o ho
      exact ⟨(hknown o).mpr hpresent, fun w he => hno w ((hended o w).mp he)⟩
    once o w w' he he' := ((hended o w).mp he).unique hs ((hended o w').mp he')
    stays hr o ho hno := h.stays hr o ((hknown o).mp ho) (hopen hno) }

-- A turn that does not end the run, and the rest of it.
theorem TurnUrls.next {stopped : Session σ} (h : TurnUrls env limit s t True) (hs : OpenInside s)
    (ht : turn env limit s = (.ok none, t)) (hrest : RunUrls env limit t stopped) :
    RunUrls env limit s stopped := by
  have hnext : ∀ {u}, turn env limit s = (.ok none, u) → u = t := fun hu => by
    rw [ht] at hu
    cases hu
    rfl
  have hstarted : ∀ o, Started env limit s o ↔
      (∃ i v, TurnStarts env limit s i o v) ∨ Started env limit t o := fun o =>
    (started_iff o).trans (or_congr_right
      ⟨fun ⟨u, hu, h⟩ => hnext hu ▸ h, fun h => ⟨t, ht, h⟩⟩)
  have hended : ∀ o w, Ended env limit s o w ↔
      TurnEnds env limit s o w ∨ Ended env limit t o w := fun o w =>
    (ended_iff o w).trans (or_congr_right ⟨fun ⟨u, hu, h⟩ => hnext hu ▸ h, fun h => ⟨t, ht, h⟩⟩)
  have hknown : ∀ o, Known env limit s o ↔ Present env limit s o ∨ Started env limit t o :=
    fun o => (or_congr_right (hstarted o)).trans or_assoc.symm
  -- What is known after the turn was known before it, and an instruction that has ended is not.
  have hbefore : ∀ {o}, Known env limit t o → Known env limit s o := by
    rintro o (ho | ho)
    · exact (hknown o).mpr (.inl (h.stack o ho).1)
    · exact (hknown o).mpr (.inr ho)
  have hover : ∀ {o w}, TurnEnds env limit s o w →
      ∀ o', Known env limit t o' → o'.index ≠ o.index := by
    rintro o w he o' (ho' | ho') hindex
    · obtain ⟨hpresent, hno⟩ := h.stack o' ho'
      obtain rfl := present_inj hs hpresent he.present hindex
      exact hno w he
    · have := h.index_lt hs he.present
      have := hrest.later o' ho'
      omega
  have hgoesOn : ∀ {o}, Known env limit s o → (∀ w, ¬ Ended env limit s o w) →
      Known env limit t o ∧ ∀ w, ¬ Ended env limit t o w := by
    intro o ho hno
    have hnow : ∀ w, ¬ TurnEnds env limit s o w := fun w he => hno w ((hended o w).mpr (.inl he))
    refine ⟨((hknown o).mp ho).imp_left fun hp => h.stays trivial o hp hnow, fun w he => ?_⟩
    exact hno w ((hended o w).mpr (.inr he))
  exact {
    ended o w he := by
      rcases (hended o w).mp he with he | he
      · rw [hrest.kept o.index (hover he)]
        exact h.ended o w he
      · exact hrest.ended o w he
    unended o ho hno := hrest.unended o (hgoesOn ho hno).1 (hgoesOn ho hno).2
    kept j hj := by
      rw [hrest.kept j fun o ho => hj o (hbefore ho)]
      exact h.untouched fun o ho => hj o ((hknown o).mpr (.inl ho))
    later o ho := by
      rcases (hstarted o).mp ho with ⟨i, v, hstart⟩ | ho
      · exact Nat.le_of_eq hstart.session.2.1.symm
      · exact Nat.le_trans h.size (hrest.later o ho)
    apart o o' ho ho' hindex := by
      rcases (hstarted o).mp ho with hstart | ho <;> rcases (hstarted o').mp ho' with hstart' | ho'
      · exact present_inj hs (.inr hstart) (.inr hstart') hindex
      · have := h.index_lt hs (.inr hstart)
        have := hrest.later o' ho'
        omega
      · have := h.index_lt hs (.inr hstart')
        have := hrest.later o ho
        omega
      · exact hrest.apart o o' ho ho' hindex
    known o w he := by
      rcases (hended o w).mp he with he | he
      · exact (hknown o).mpr (.inl he.present)
      · exact hbefore (hrest.known o w he)
    stack o ho := by
      obtain ⟨hknown', hno⟩ := hrest.stack o ho
      refine ⟨hbefore hknown', fun w he => ?_⟩
      rcases (hended o w).mp he with he | he
      · exact hover he o hknown' rfl
      · exact hno w he
    once o w w' he he' := by
      rcases (hended o w).mp he with he | he <;> rcases (hended o w').mp he' with he' | he'
      · exact he.unique hs he'
      · exact absurd rfl (hover he o (hrest.known o w' he'))
      · exact absurd rfl (hover he' o (hrest.known o w he))
      · exact hrest.once o w w' he he'
    stays hr o ho hno := hrest.stays hr o (hgoesOn ho hno).1 (hgoesOn ho hno).2 }

theorem loop_runUrls {n : Nat} (hs : OpenInside s) {outcome : Except Failure Ending}
    (h : loop env limit n s = (outcome, t)) (hend : outcome ≠ .error .unfinished) :
    RunUrls env limit s t := by
  induction n generalizing s with
  | zero =>
    cases h
    exact absurd rfl hend
  | succ n ih =>
    rw [loop_succ] at h
    rcases ht : turn env limit s with ⟨e | _ | ending, u⟩ <;> rw [ht] at h
    · cases h
      exact ((turn_urlAt hs ht).mono .inr).last hs fun u hu => by
        rw [ht] at hu
        cases hu
    · exact ((turn_urlAt hs ht).mono fun _ => .inl ⟨none, rfl⟩).next hs ht
        (ih (turn_openInside hs ht) h)
    · cases h
      exact ((turn_urlAt hs ht).mono .inr).last hs fun u hu => by
        rw [ht] at hu
        cases hu

theorem settle_urlAt {inside : List OpenEntry} {outcome : Except Failure Unit}
    (h : settle env inside s = (outcome, t)) : urlAt t.entries = urlAt s.entries := by
  induction inside generalizing t outcome with
  | nil =>
    cases h
    rfl
  | cons opened rest ih =>
    rcases hs : settle env rest s with ⟨outcome', u⟩
    obtain rfl := (settle_records 0 hs).1
    rw [settle, Effect.bind_ok hs] at h
    have hu := ih hs
    cases h
    exact (urlAt_modify _ (url?_withDuration _)).trans hu

-- Nothing that is done when a run has stopped changes the addresses that are shown.
theorem conclude_urlAt {started : Seconds} {inside : List OpenEntry}
    {outcome : Except Failure Ending} {result : Except Failure Unit}
    (h : conclude env started inside outcome s = (result, t)) :
    urlAt t.entries = urlAt s.entries := by
  cases outcome with
  | ok ending =>
    cases ending with
    | completed =>
      cases h
      exact urlAt_push_of_not_instruction rfl
    | cancelled => exact settle_urlAt h
  | error e =>
    by_cases he : e = .unfinished
    · subst he
      cases h
      rfl
    · rcases hsettle : settle env inside s with ⟨settled, u⟩
      obtain rfl := (settle_records 0 hsettle).1
      have hu := settle_urlAt hsettle
      rw [conclude_error env started inside he, Effect.bind_ok hsettle] at h
      cases h
      exact (urlAt_push_of_not_instruction rfl).trans hu

-- An instruction ends in some state of the world, or, if it never does, when the run stops.
def EndsAt (env : Environment σ) (limit : Option Int) (start stopped : Session σ) (o : OpenEntry)
    (w : σ) : Prop :=
  Ended env limit start o w ∨ (∀ w', ¬ Ended env limit start o w') ∧ w = stopped.world

-- An entry shows the address that the page had when its instruction started, or a change, if there
-- is another one in the state of the world in which the instruction ends.
def ShowsAddress (env : Environment σ) (all : Array Entry) (o : OpenEntry) (w : σ) : Prop :=
  urlAt all o.index = some (shownUrl o.address (env.pages.address o.page w).1)

-- The addresses that the entries of a run show. There is an entry for each instruction that has
-- started, which ends once. It shows how its page has changed until then, unless the instruction is
-- a condition that is still open when the run stops: then it shows the page as it was, whatever has
-- become of that.
structure ShowsAddresses (env : Environment σ) (limit : Option Int) (start stopped : Session σ)
    (outcome : Except Failure Ending) (entries all : Array Entry) : Prop where
  earlier : ∀ j, j < entries.size → urlAt all j = urlAt entries j
  address : ∀ n s i o v, Turns env limit n start s → TurnStarts env limit s i o v →
    o.page = i.page ∧ ∃ u, checkpoint env s = (.ok true, u) ∧
      (env.pages.address i.page u.world).1 = .ok o.address
  entry : ∀ j, entries.size ≤ j →
    ((∃ url, urlAt all j = some url) ↔ ∃ o, Started env limit start o ∧ o.index = j)
  apart : ∀ o o', Started env limit start o → Started env limit start o' →
    o.index = o'.index → o = o'
  once : ∀ o, Started env limit start o → ∃! w, EndsAt env limit start stopped o w
  ended : ∀ o w, Ended env limit start o w → ShowsAddress env all o w
  unended : ∀ o, Started env limit start o → (∀ w, ¬ Ended env limit start o w) →
    urlAt all o.index = some (o.address.map .same)
  stillOpen : ∀ o ∈ openEntries stopped.frames,
    Started env limit start o ∧ ∀ w, ¬ Ended env limit start o w
  mem_stillOpen : env.ReadsAddresses → ∀ o, Started env limit start o →
    (∀ w, ¬ Ended env limit start o w) → o ∈ openEntries stopped.frames
  completed : env.ReadsAddresses → outcome = .ok .completed → ∀ o, Started env limit start o →
    ∃ w, Ended env limit start o w
  allShown : (∀ o w, Started env limit start o → EndsAt env limit start stopped o w →
      ShowsAddress env all o w) ↔
    ∀ o, Started env limit start o → (∀ w, ¬ Ended env limit start o w) →
      ∀ after, (env.pages.address o.page stopped.world).1 = .ok after → after = o.address

theorem run_showsAddresses {fuel : Nat} {script : List Instruction} {entries all : Array Entry}
    {world : σ} (h : (run env limit fuel script entries world).1 = .ok all) :
    let start := begun env script entries world
    let stopped := loop env limit (turnLimit limit fuel) start
    ShowsAddresses env limit start stopped.2 stopped.1 entries all := by
  intro start stopped
  rcases hloop : stopped with ⟨outcome, stopped⟩
  have hwhole := wholeRun_of_loop env limit hloop
  rw [run_eq_wholeRun] at h
  rcases hfinal : wholeRun env limit fuel script entries world with ⟨e | _, final⟩ <;>
    rw [hfinal] at h
  · cases h
  cases h
  have hconclude := hwhole.symm.trans hfinal
  have hend : outcome ≠ .error .unfinished := by
    rintro rfl
    cases hconclude
  have hurls : RunUrls env limit start stopped :=
    loop_runUrls (openInside_begun script entries world) hloop hend
  have hsame : ∀ j, urlAt final.entries j = urlAt stopped.entries j :=
    congrFun (conclude_urlAt hconclude)
  have hknown : ∀ o, Known env limit start o ↔ Started env limit start o := fun o =>
    or_iff_right (List.not_mem_nil (a := o))
  have hkept : ∀ j, (∀ o, Started env limit start o → o.index ≠ j) →
      urlAt final.entries j = urlAt entries j := fun j hj =>
    (hsame j).trans (hurls.kept j fun o ho => hj o ((hknown o).mp ho))
  have hunended : ∀ o, Started env limit start o → (∀ w, ¬ Ended env limit start o w) →
      urlAt final.entries o.index = some (o.address.map .same) := fun o ho hno => by
    rw [hsame]
    exact hurls.unended o ((hknown o).mpr ho) hno
  have hended : ∀ o w, Ended env limit start o w → ShowsAddress env final.entries o w :=
    fun o w he => by
      rw [ShowsAddress, hsame]
      exact hurls.ended o w he
  exact {
    earlier j hj := hkept j fun o ho => Nat.ne_of_gt (Nat.lt_of_lt_of_le hj (hurls.later o ho))
    address _ _ _ _ _ _ hstart := hstart.session.2.2.2
    entry j hj := by
      constructor
      · rintro ⟨url, hurl⟩
        by_contra hnone
        rw [hkept j fun o ho hindex => hnone ⟨o, ho, hindex⟩, urlAt_eq_none hj] at hurl
        cases hurl
      · rintro ⟨o, ho, rfl⟩
        by_cases he : ∃ w, Ended env limit start o w
        · obtain ⟨w, he⟩ := he
          exact ⟨_, hended o w he⟩
        · exact ⟨_, hunended o ho fun w hw => he ⟨w, hw⟩⟩
    apart := hurls.apart
    once o _ := by
      by_cases he : ∃ w, Ended env limit start o w
      · obtain ⟨w, he⟩ := he
        refine ⟨w, .inl he, fun w' he' => ?_⟩
        exact hurls.once o w' w (he'.resolve_right fun hno => hno.1 w he) he
      · have hno : ∀ w, ¬ Ended env limit start o w := fun w hw => he ⟨w, hw⟩
        exact ⟨stopped.world, .inr ⟨hno, rfl⟩, fun w' he' => (he'.resolve_left (hno w')).2⟩
    ended := hended
    unended := hunended
    stillOpen o ho := (hurls.stack o ho).imp_left (hknown o).mp
    mem_stillOpen hr o ho hno := hurls.stays hr o ((hknown o).mpr ho) hno
    completed hr hcompleted o ho := by
      have hframes : stopped.frames = [] := by
        rcases loop_outcome env limit hloop _ hcompleted with ⟨-, hframes⟩ | ⟨h, -⟩
        · exact hframes
        · cases h
      by_contra hnone
      have hopen := hurls.stays hr o ((hknown o).mpr ho) fun w hw => hnone ⟨w, hw⟩
      rw [hframes] at hopen
      cases hopen
    allShown := by
      constructor
      · intro hall o ho hno
        have hshown := hall o stopped.world ho (.inr ⟨hno, rfl⟩)
        rw [ShowsAddress, hunended o ho hno] at hshown
        exact shownUrl_eq_iff.mp (Option.some.inj hshown).symm
      · rintro hsteady o w ho (he | ⟨hno, rfl⟩)
        · exact hended o w he
        · rw [ShowsAddress, hunended o ho hno, shownUrl_eq_iff.mpr (hsteady o ho hno)] }

-- A condition in whose branch the page goes elsewhere.
def seenAndFollowed : List Instruction :=
  [.condition (.isVisible [.tagName "a"] none)
    [.pageAction 0 (.navigate "https://next/"), .marker "there"] none]

-- A world with a link, that gives some signals when something is done on its page.
def linked (signals : List (Nat × Rehearsal.Signal)) : Rehearsal.World where
  elements := [{ selectors := Selectors.wire [.tagName "a"], visible := [true] }]
  addresses := [(0, some "https://first/")]
  signals

-- The condition spans its branch: it shows the change that is made there.
theorem run_showsAddresses_seenAndFollowed :
    let env := Rehearsal.environment Rehearsal.scriptedPages (Rehearsal.KeyedStore.store none)
    let start := begun env seenAndFollowed #[] (linked [])
    let stopped := loop env (some 5) (turnLimit (some 5) 0) start
    let changed := some (PageUrl.changed (some "https://first/") (some "https://next/"))
    ∃ all, (run env (some 5) 0 seenAndFollowed #[] (linked [])).1 = .ok all ∧
      ShowsAddresses env (some 5) start stopped.2 stopped.1 #[] all ∧
      (List.range 4).map (urlAt all) =
        [some changed, some changed, some (some (.same "https://next/")), none] := by
  intro env
  let changed := some (PageUrl.changed (some "https://first/") (some "https://next/"))
  have hurls : (run env (some 5) 0 seenAndFollowed #[] (linked [])).1.toOption.map
      (fun all => (List.range 4).map (urlAt all)) =
      some [some changed, some changed, some (some (.same "https://next/")), none] := by
    decide +kernel
  dsimp only
  cases h : (run env (some 5) 0 seenAndFollowed #[] (linked [])).1 with
  | ok all =>
    rw [h] at hurls
    exact ⟨all, rfl, run_showsAddresses h, Option.some.inj hurls⟩
  | error e =>
    rw [h] at hurls
    cases hurls

-- A run that is cancelled once the page has gone elsewhere leaves the condition as it was.
theorem not_allShown_cancelled :
    let env := Rehearsal.environment Rehearsal.scriptedPages (Rehearsal.KeyedStore.store none)
    let world := linked [(1, .cancel)]
    let start := begun env seenAndFollowed #[] world
    let stopped := (loop env (some 5) (turnLimit (some 5) 0) start).2
    ∃ all, (run env (some 5) 0 seenAndFollowed #[] world).1 = .ok all ∧
      ¬ ∀ o w, Started env (some 5) start o → EndsAt env (some 5) start stopped o w →
        ShowsAddress env all o w := by
  intro env world start stopped
  let opened : OpenEntry := ⟨0, 0, some "https://first/", Rehearsal.World.wholeSeconds 0⟩
  have hshown : (run env (some 5) 0 seenAndFollowed #[] world).1.toOption.map (urlAt · 0) =
      some (some (some (.same "https://first/"))) := by decide +kernel
  have hstack : openEntries stopped.frames = [opened] := by decide +kernel
  have haddress : (env.pages.address 0 stopped.world).1 = .ok (some "https://next/") :=
    congrArg Except.ok (by decide +kernel)
  rcases hloop : loop env (some 5) (turnLimit (some 5) 0) start with ⟨outcome, last⟩
  have hcancelled : (loop env (some 5) (turnLimit (some 5) 0) start).1.toOption =
      some .cancelled := by decide +kernel
  obtain rfl : stopped = last := congrArg Prod.snd hloop
  have hurls := loop_runUrls (openInside_begun seenAndFollowed #[] world) hloop <| by
    rintro rfl
    rw [hloop] at hcancelled
    cases hcancelled
  obtain ⟨hknown, hno⟩ := hurls.stack opened (hstack ▸ List.mem_singleton_self opened)
  cases h : (run env (some 5) 0 seenAndFollowed #[] world).1 with
  | ok all =>
    refine ⟨all, rfl, fun hall => ?_⟩
    have hright := hall opened stopped.world (hknown.resolve_left List.not_mem_nil)
      (.inr ⟨hno, rfl⟩)
    have hurl : urlAt all 0 = some (some (.same "https://first/")) := by
      rw [h] at hshown
      exact Option.some.inj hshown
    rw [ShowsAddress, haddress, hurl] at hright
    cases hright
  | error e =>
    rw [h] at hshown
    cases hshown

end

end Gleaner
