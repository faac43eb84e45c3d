import Gleaner.Proofs.Run.Calls
import Gleaner.Proofs.Run.Simulation

namespace Gleaner

open Session

-- What an instruction is recorded with when it starts, whatever has come of it.
def InstructionInfo.bare : InstructionInfo → InstructionInfo
  | .pageAction page action _ _ => .pageAction page action true none
  | .condition test _ => .condition test false
  | info => info

namespace Entry

-- What an entry is about: an instruction, or an operation and all that is known of it.
def bare : Entry → Entry
  | .instruction info _ _ => .instruction info.bare none Binary64.zero
  | e => e

-- An entry without what it gets when it is closed.
def untimed : Entry → Entry
  | .instruction info _ _ => .instruction info none Binary64.zero
  | e => e

@[simp] theorem bare_untimed (e : Entry) : e.untimed.bare = e.bare := by cases e <;> rfl

@[simp] theorem untimed_withDuration (duration : Binary64) (e : Entry) :
    (e.withDuration duration).untimed = e.untimed := by cases e <;> rfl

@[simp] theorem untimed_withAddress (before after : Option String) (e : Entry) :
    (e.withAddress before after).untimed = e.untimed := by cases e <;> rfl

@[simp] theorem bare_withResult (error : Option String) (e : Entry) :
    (e.withInfo (·.withResult error)).bare = e.bare := by
  cases e with
  | instruction info url duration => cases info <;> rfl
  | _ => rfl

@[simp] theorem bare_withTruth (isMet : Bool) (e : Entry) :
    (e.withInfo (·.withTruth isMet)).bare = e.bare := by
  cases e with
  | instruction info url duration => cases info <;> rfl
  | _ => rfl

theorem bare_eq_of_untimed {e e' : Entry} (h : e.untimed = e'.untimed) : e.bare = e'.bare := by
  rw [← bare_untimed e, h, bare_untimed]

end Entry

-- What has become of a record when some entries have been added. Of those before a place, the
-- given open ones may have got their duration and address; no other has changed.
structure Records (place : Nat) (closed : List OpenEntry) (told : List Entry)
    (before after : Array Entry) : Prop where
  bare : after.toList.map Entry.bare = before.toList.map Entry.bare ++ told
  untimed : ∀ j, j < place → after[j]?.map Entry.untimed = before[j]?.map Entry.untimed
  kept : ∀ j, j < place → (∀ o ∈ closed, o.index ≠ j) → after[j]? = before[j]?

namespace Records

variable {place : Nat} {closed others : List OpenEntry} {told more : List Entry}
  {a b c : Array Entry}

theorem refl (place : Nat) (closed : List OpenEntry) (a : Array Entry) :
    Records place closed [] a a :=
  ⟨(List.append_nil _).symm, fun _ _ => rfl, fun _ _ _ => rfl⟩

theorem trans (h : Records place closed told a b) (h' : Records place others more b c) :
    Records place (closed ++ others) (told ++ more) a c where
  bare := by rw [h'.bare, h.bare, List.append_assoc]
  untimed j hj := (h'.untimed j hj).trans (h.untimed j hj)
  kept j hj ho :=
    (h'.kept j hj fun o hm => ho o (List.mem_append_right _ hm)).trans
      (h.kept j hj fun o hm => ho o (List.mem_append_left _ hm))

theorem mono (h : Records place closed told a b) (hm : ∀ o ∈ closed, o.index < place → o ∈ others) :
    Records place others told a b where
  bare := h.bare
  untimed := h.untimed
  kept j hj ho := h.kept j hj fun o hc he => ho o (hm o hc (he ▸ hj)) he

theorem before {place' : Nat} (h : Records place closed told a b) (hp : place' ≤ place) :
    Records place' closed told a b where
  bare := h.bare
  untimed j hj := h.untimed j (Nat.lt_of_lt_of_le hj hp)
  kept j hj := h.kept j (Nat.lt_of_lt_of_le hj hp)

theorem of_eq (h : Records place closed told a b) (he : told = more) :
    Records place closed more a b := he ▸ h

theorem size_le (h : Records place closed told a b) : a.size ≤ b.size := by
  have := congrArg List.length h.bare
  simp only [List.length_map, Array.length_toList, List.length_append] at this
  omega

theorem size_eq (h : Records place closed [] a b) : b.size = a.size := by
  have := congrArg List.length h.bare
  simpa using this

theorem append (hp : place ≤ a.size) (added : List Entry) :
    Records place [] (added.map Entry.bare) a (a ++ added.toArray) where
  bare := by simp
  untimed j hj := by rw [Array.getElem?_append_left (Nat.lt_of_lt_of_le hj hp)]
  kept j hj _ := Array.getElem?_append_left (Nat.lt_of_lt_of_le hj hp)

theorem push (hp : place ≤ a.size) (e : Entry) : Records place [] [e.bare] a (a.push e) := by
  rw [Array.push_eq_append]
  exact append hp [e]

theorem map_bare_modify {change : Entry → Entry} (hc : ∀ e, (change e).bare = e.bare)
    (index : Nat) (a : Array Entry) :
    (a.modify index change).toList.map Entry.bare = a.toList.map Entry.bare := by
  rw [Array.toList_modify]
  refine List.ext_getElem? fun j => ?_
  rw [List.getElem?_map, List.getElem?_map, List.getElem?_modify]
  cases a.toList[j]? with
  | none => rfl
  | some e =>
    by_cases hij : index = j
    · simp [hij, hc]
    · simp [hij]

-- An entry of the present is written to.
theorem amend {index : Nat} {change : Entry → Entry} (hp : place ≤ index)
    (hc : ∀ e, (change e).bare = e.bare) : Records place [] [] a (a.modify index change) where
  bare := by rw [map_bare_modify hc, List.append_nil]
  untimed j hj := by rw [Array.getElem?_modify, if_neg (by omega)]
  kept j hj _ := by rw [Array.getElem?_modify, if_neg (by omega)]

-- An open entry gets its duration and address.
theorem close (opened : OpenEntry) {change : Entry → Entry}
    (hc : ∀ e, (change e).untimed = e.untimed) :
    Records place [opened] [] a (a.modify opened.index change) where
  bare := by
    rw [map_bare_modify fun e => Entry.bare_eq_of_untimed (hc e), List.append_nil]
  untimed j hj := by
    rw [Array.getElem?_modify]
    split
    · cases a[j]? with
      | none => rfl
      | some e => exact congrArg some (hc e)
    · rfl
  kept j hj ho := by
    rw [Array.getElem?_modify, if_neg (ho opened (List.mem_singleton.mpr rfl))]

end Records

-- An entry that a closing has not reached yet: that of a condition, with its plain address and no
-- duration.
def IsOpen (entries : Array Entry) (opened : OpenEntry) : Prop :=
  ∃ test isMet, entries[opened.index]? =
    some (.instruction (.condition test isMet) (opened.address.map .same) Binary64.zero)

variable {σ : Type} {env : Environment σ}

theorem close_apply {opened : OpenEntry} {s : Session σ} {address : Option String} {world : σ}
    (ha : env.pages.address opened.page s.world = (.ok address, world)) :
    close env opened s = (.ok (), { s with
      world := (env.timer world).2
      entries := s.entries.modify opened.index fun e =>
        (e.withDuration (elapsed opened.started (env.timer world).1)).withAddress
          opened.address address }) := by
  rw [close, Effect.bind_apply, inWorld_apply, ha]
  rfl

-- An entry stays as it is when the address of its page cannot be read.
theorem close_records (place : Nat) {opened : OpenEntry} {s t : Session σ}
    {outcome : Except Failure Unit} (h : close env opened s = (outcome, t)) :
    Records place [opened] [] s.entries t.entries := by
  rcases ha : env.pages.address opened.page s.world with ⟨e | address, world⟩
  · rw [close, Effect.bind_apply, inWorld_apply, ha] at h
    cases h
    exact .refl _ _ _
  · rw [close_apply ha] at h
    cases h
    dsimp only
    refine Records.close opened fun e => ?_
    rw [Entry.untimed_withAddress, Entry.untimed_withDuration]

theorem closeAll_records (place : Nat) {entries : List OpenEntry} {s t : Session σ}
    {outcome : Except Failure Unit} (h : closeAll env entries s = (outcome, t)) :
    Records place entries [] s.entries t.entries := by
  induction entries generalizing s with
  | nil =>
    cases h
    exact .refl _ _ _
  | cons opened rest ih =>
    rcases hc : close env opened s with ⟨e | _, u⟩
    · rw [closeAll, Effect.bind_error hc] at h
      cases h
      exact (close_records place hc).mono fun o ho _ =>
        List.mem_cons.mpr (.inl (List.mem_singleton.mp ho))
    · rw [closeAll, Effect.bind_ok hc] at h
      exact (close_records place hc).trans (ih h)

theorem settle_records (place : Nat) {entries : List OpenEntry} {s t : Session σ}
    {outcome : Except Failure Unit} (h : settle env entries s = (outcome, t)) :
    outcome = .ok () ∧ Records place entries [] s.entries t.entries := by
  induction entries generalizing t outcome with
  | nil =>
    cases h
    exact ⟨rfl, .refl _ _ _⟩
  | cons opened rest ih =>
    rcases hc : settle env rest s with ⟨outcome', u⟩
    obtain ⟨rfl, hu⟩ := ih hc
    rw [settle, Effect.bind_ok hc] at h
    cases h
    refine ⟨rfl, (hu.trans (.close opened fun e => by simp)).mono fun o ho _ => ?_⟩
    simpa [or_comm] using ho

theorem Reports.records {α : Type} {work : Effect (Session σ) α} {calls : σ → List StoreCall}
    (hw : Reports work calls) {place : Nat} {s t : Session σ} {outcome : Except Failure α}
    (hp : place ≤ s.entries.size) (h : work s = (outcome, t)) :
    Records place [] ((calls s.world).map StoreCall.entry) s.entries t.entries := by
  have ht := hw s
  rw [h] at ht
  cases ht
  have hbare : ((calls s.world).map StoreCall.entry).map Entry.bare =
      (calls s.world).map StoreCall.entry := by
    rw [List.map_map]
    rfl
  have hadded := Records.append hp ((calls s.world).map StoreCall.entry)
  rwa [hbare] at hadded

def Instruction.told (env : Environment σ) (i : Instruction) (world : σ) : List Entry :=
  (i.calls env world).map StoreCall.entry

theorem chooseBranch_records {place : Nat} {opened : OpenEntry} {test : Condition}
    {consequent : List Instruction} {alternative : Option (List Instruction)} {s t : Session σ}
    {outcome : Except Failure (List Instruction)} (hp : place ≤ s.entries.size)
    (ho : place ≤ opened.index)
    (h : chooseBranch env opened test consequent alternative s = (outcome, t)) :
    Records place [] ((Instruction.condition test consequent alternative).told env s.world)
      s.entries t.entries := by
  rcases he : test.evaluate env s with ⟨e | isMet, u⟩
  · rw [chooseBranch, Effect.bind_error he] at h
    cases h
    exact (reports_evaluate env test consequent alternative).records hp he
  · have hu := (reports_evaluate env test consequent alternative).records hp he
    rw [chooseBranch, Effect.bind_ok he] at h
    cases h
    exact (hu.trans (.amend ho (Entry.bare_withTruth isMet))).of_eq (List.append_nil _)

theorem act_records {place : Nat} {opened : OpenEntry} {i : Instruction} {s t : Session σ}
    {outcome : Except Failure Unit} (hp : place ≤ s.entries.size) (ho : place ≤ opened.index)
    (hi : ∀ test consequent alternative, i ≠ .condition test consequent alternative)
    (h : act env opened i s = (outcome, t)) :
    Records place [] (i.told env s.world) s.entries t.entries := by
  cases i with
  | pageAction page action =>
    rcases he : action.perform env page s with ⟨e | error, u⟩
    · rw [act, Effect.bind_error he] at h
      cases h
      exact (reports_perform env action page).records hp he
    · have hu := (reports_perform env action page).records hp he
      rw [act, Effect.bind_ok he] at h
      cases h
      exact (hu.trans (.amend ho (Entry.bare_withResult error))).of_eq (List.append_nil _)
  | condition test consequent alternative => exact absurd rfl (hi _ _ _)
  | saveData key source => exact (reports_saveData env opened key source).records hp h
  | saveDataBatch source items => exact (reports_saveDataBatch env opened source items).records hp h
  | deleteData source => exact (reports_deleteData env opened source).records hp h
  | marker name =>
    cases h
    exact .refl _ _ _
  | jump name =>
    cases h
    exact .refl _ _ _

theorem land?_openEntries {name : String} {frames left staying : List Frame}
    (h : land? name frames = some (left, staying)) :
    openEntries frames = openEntries left ++ openEntries staying := by
  induction frames generalizing left staying with
  | nil => cases h
  | cons f rest ih =>
    cases hm : markerIndex? name f.instructions with
    | some place =>
      simp only [land?, hm, Option.some.injEq, Prod.mk.injEq] at h
      obtain ⟨rfl, rfl⟩ := h
      rfl
    | none =>
      simp only [land?, hm, Option.map_eq_some_iff, Prod.mk.injEq] at h
      obtain ⟨⟨left', staying'⟩, hl, rfl, rfl⟩ := h
      simp only [openEntries, List.filterMap_cons] at ih ⊢
      cases f.owner with
      | none => exact ih hl
      | some opened => exact congrArg (opened :: ·) (ih hl)

-- A condition whose branch has been chosen has an entry that is open.
theorem chooseBranch_isOpen {opened : OpenEntry} {test : Condition}
    {consequent chosen : List Instruction} {alternative : Option (List Instruction)}
    {s t : Session σ}
    (hs : s.entries[opened.index]? =
      some (.instruction (.condition test false) (opened.address.map .same) Binary64.zero))
    (h : chooseBranch env opened test consequent alternative s = (.ok chosen, t)) :
    IsOpen t.entries opened := by
  obtain ⟨isMet, u, he, h⟩ := Effect.bind_eq_ok h
  have hu := reports_evaluate env test consequent alternative s
  rw [he, Prod.mk.injEq] at hu
  obtain ⟨-, rfl⟩ := hu
  cases h
  refine ⟨test, isMet, ?_⟩
  dsimp only
  have hlt : opened.index < s.entries.size := (Array.getElem?_eq_some_iff.mp hs).1
  rw [Array.getElem?_modify, if_pos rfl, Array.getElem?_append_left hlt, hs]
  rfl

-- What some work makes of a run: the record, and the entries that are open, of which it closes the
-- innermost and may add one.
inductive Advances (place : Nat) (told : List Entry) (added : List OpenEntry) (s t : Session σ) :
    Prop
  | intro (closed kept : List OpenEntry) (before : openEntries s.frames = closed ++ kept)
      (after : openEntries t.frames = added ++ kept)
      (record : Records place closed told s.entries t.entries)

theorem dispatch_advances {place : Nat} {opened : OpenEntry}
    {i : Instruction} {s t : Session σ} {outcome : Except Failure Bool}
    (hp : place ≤ s.entries.size) (ho : place ≤ opened.index)
    (hs : s.entries[opened.index]? =
      some (.instruction (.ofInstruction i) (opened.address.map .same) Binary64.zero))
    (h : dispatch env opened i s = (outcome, t)) :
    ∃ added, Advances place (i.told env s.world) added s t ∧
      (added = [] ∨ added = [opened] ∧ outcome = .ok true ∧ IsOpen t.entries opened) := by
  have hact : (∀ test consequent alternative, i ≠ .condition test consequent alternative) →
      (do act env opened i; return false : Effect (Session σ) Bool) s = (outcome, t) →
      Advances place (i.told env s.world) [] s t := by
    intro hi h
    rcases ha : act env opened i s with ⟨acted, u⟩
    have ht := Effect.bind_pure_snd (act env opened i) false s
    rw [h, ha] at ht
    obtain rfl : t = u := ht
    refine ⟨[], openEntries s.frames, rfl, ?_, act_records hp ho hi ha⟩
    rw [(confined_act env opened i).frames_eq ha, List.nil_append]
  cases i with
  | condition test consequent alternative =>
    rw [dispatch] at h
    rcases hb : chooseBranch env opened test consequent alternative s with ⟨e | chosen, u⟩
    · rw [Effect.bind_error hb] at h
      cases h
      refine ⟨[], ⟨[], openEntries s.frames, rfl, ?_, chooseBranch_records hp ho hb⟩, .inl rfl⟩
      rw [(confined_chooseBranch env opened _ _ _).frames_eq hb, List.nil_append]
    · have hframes := (confined_chooseBranch env opened _ _ _).frames_eq hb
      have hrecord := chooseBranch_records hp ho hb
      have hopen := chooseBranch_isOpen hs hb
      rw [Effect.bind_ok hb] at h
      cases h
      refine ⟨[opened], ⟨[], openEntries s.frames, rfl, ?_, hrecord⟩, .inr ⟨rfl, rfl, hopen⟩⟩
      rw [← hframes]
      rfl
  | jump name =>
    rw [dispatch, Effect.bind_apply, Effect.get_apply] at h
    dsimp only at h
    cases hl : land? name s.frames with
    | none =>
      rw [hl] at h
      cases h
      exact ⟨[], ⟨[], openEntries s.frames, rfl, rfl, .refl _ _ _⟩, .inl rfl⟩
    | some landing =>
      obtain ⟨left, staying⟩ := landing
      rw [hl] at h
      dsimp only at h
      rw [Effect.bind_ok (setFrames_apply staying s)] at h
      rcases hc : closeAll env (openEntries left) { s with frames := staying } with ⟨closed, u⟩
      have hu := closeAll_records place hc
      have hframes := (confined_closeAll env _).frames_eq hc
      have ht := Effect.bind_pure_snd (closeAll env (openEntries left)) false
        { s with frames := staying }
      rw [h, hc] at ht
      obtain rfl : t = u := ht
      refine ⟨[], ⟨openEntries left, openEntries staying, land?_openEntries hl, ?_, hu⟩, .inl rfl⟩
      rw [hframes, List.nil_append]
  | _ => exact ⟨[], hact (by intros; simp) h, .inl rfl⟩

-- An entry of the present is closed.
theorem Advances.close {place : Nat} {told : List Entry} {opened : OpenEntry}
    {s t u : Session σ} {outcome : Except Failure Unit} (h : Advances place told [] s t)
    (ho : place ≤ opened.index) (hc : Gleaner.close env opened t = (outcome, u)) :
    Advances place told [] s u := by
  obtain ⟨closed, kept, hs, ht, hrecord⟩ := h
  have hown : Records place [] [] t.entries u.entries :=
    (close_records place hc).mono fun o hm hlt => by
      simp only [List.mem_singleton.mp hm] at hlt
      omega
  refine ⟨closed, kept, hs, ?_, ?_⟩
  · rw [(confined_close env opened).frames_eq hc, ht]
  · simpa using hrecord.trans hown

theorem carryOut_advances {place : Nat} {opened : OpenEntry}
    {i : Instruction} {s t : Session σ} {outcome : Except Failure Unit}
    (hp : place ≤ s.entries.size) (ho : place ≤ opened.index)
    (hs : s.entries[opened.index]? =
      some (.instruction (.ofInstruction i) (opened.address.map .same) Binary64.zero))
    (h : carryOut env opened i s = (outcome, t)) :
    ∃ added, Advances place (i.told env s.world) added s t ∧
      (added = [] ∨ added = [opened] ∧ outcome = .ok () ∧ IsOpen t.entries opened) := by
  rcases hd : dispatch env opened i s with ⟨result, u⟩
  obtain ⟨added, hu, hadded⟩ := dispatch_advances hp ho hs hd
  have hattempt : (dispatch env opened i).attempt s = (.ok result, u) := by
    rw [Effect.attempt_apply, hd]
  rw [carryOut, Effect.bind_ok hattempt] at h
  rcases hadded with rfl | ⟨rfl, rfl, hopen⟩
  · cases result with
    | ok keepsOpen =>
      cases keepsOpen with
      | true =>
        cases h
        exact ⟨[], hu, .inl rfl⟩
      | false => exact ⟨[], hu.close ho h, .inl rfl⟩
    | error e =>
      rcases hc : Gleaner.close env opened u with ⟨closed, v⟩
      have ht := Effect.bind_throw_snd (β := Unit) (Gleaner.close env opened) e u
      dsimp only at h
      rw [h, hc] at ht
      obtain rfl : t = v := ht
      exact ⟨[], hu.close ho hc, .inl rfl⟩
  · cases h
    exact ⟨[opened], hu, .inr ⟨rfl, rfl, hopen⟩⟩

theorem openEntry_apply {i : Instruction} {s : Session σ} {address : Option String} {world : σ}
    (ha : env.pages.address i.page s.world = (.ok address, world)) :
    openEntry env i s = (.ok ⟨s.entries.size, i.page, address, (env.timer world).1⟩, { s with
      world := (env.timer world).2
      entries := s.entries.push
        (.instruction (.ofInstruction i) (address.map .same) Binary64.zero) }) := by
  rw [openEntry, Effect.bind_apply, inWorld_apply, ha]
  rfl

@[simp] theorem bare_ofInstruction (i : Instruction) :
    (InstructionInfo.ofInstruction i).bare = .ofInstruction i := by cases i <;> rfl

-- What is recorded of something that was done, which is nothing at all where it failed because an
-- address could not be read.
def Recounts {α : Type} (env : Environment σ) (outcome : Except Failure α) (full told : List Entry) :
    Prop :=
  told = full ∨ told = [] ∧ ¬ env.ReadsAddresses ∧ ∃ e, outcome = .error e

theorem Recounts.eq {α : Type} {outcome : Except Failure α} {full told : List Entry}
    (h : Recounts env outcome full told) (hr : env.ReadsAddresses) : told = full :=
  h.resolve_right fun ⟨_, hnot, _⟩ => hnot hr

theorem Recounts.eq_of_ok {α : Type} {a : α} {full told : List Entry}
    (h : Recounts env (.ok a) full told) : told = full :=
  h.resolve_right (by rintro ⟨-, -, e, ⟨⟩⟩)

theorem Recounts.sublist {α : Type} {outcome : Except Failure α} {full told : List Entry}
    (h : Recounts env outcome full told) : told.Sublist full := by
  rcases h with rfl | ⟨rfl, -⟩
  · exact .refl _
  · exact List.nil_sublist _

-- An instruction, recorded when it starts, and what it does.
theorem execute_advances {i : Instruction} {s t : Session σ} {outcome : Except Failure Unit}
    (h : execute env i s = (outcome, t)) :
    ∃ told added, Recounts env outcome (.instruction (.ofInstruction i) none Binary64.zero ::
          i.told env (openEntry env i s).2.world) told ∧
      Advances s.entries.size told added s t ∧
      (added = [] ∨ ∃ opened, added = [opened] ∧ outcome = .ok () ∧
        opened.index = s.entries.size ∧ IsOpen t.entries opened) := by
  rcases ha : env.pages.address i.page s.world with ⟨e | address, world⟩
  · have hopen : openEntry env i s = (.error e, { s with world }) := by
      rw [openEntry, Effect.bind_apply, inWorld_apply, ha]
    have hr : ¬ env.ReadsAddresses := by
      intro hr
      obtain ⟨address, hread⟩ := hr i.page s.world
      rw [ha] at hread
      cases hread
    rw [execute, Effect.bind_error hopen] at h
    cases h
    exact ⟨[], [], .inr ⟨rfl, hr, e, rfl⟩, ⟨[], openEntries s.frames, rfl, rfl, .refl _ _ _⟩, .inl rfl⟩
  · have hopen := openEntry_apply ha
    have hsize (e : Entry) : s.entries.size ≤ (s.entries.push e).size := by simp
    rw [execute, Effect.bind_ok hopen] at h
    obtain ⟨added, ⟨closed, kept, hs, ht, hrecord⟩, hadded⟩ :=
      carryOut_advances (hsize _) (Nat.le_refl _) (by simp) h
    refine ⟨_, added, .inl rfl, ⟨closed, kept, hs, ht, ?_⟩, ?_⟩
    · rw [hopen]
      have hpush := Records.push (Nat.le_refl s.entries.size)
        (.instruction (.ofInstruction i) (address.map .same) Binary64.zero)
      simpa [Entry.bare] using hpush.trans hrecord
    · rcases hadded with rfl | ⟨rfl, hok, hisOpen⟩
      · exact .inl rfl
      · exact .inr ⟨_, rfl, hok, rfl, hisOpen⟩

end Gleaner
