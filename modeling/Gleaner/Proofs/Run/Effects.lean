import Gleaner.Run.Interpreter

namespace Gleaner

namespace Effect

variable {σ α β : Type}

-- What each piece of work makes of a state, so that longer work can be followed step by step.
theorem bind_apply (work : Effect σ α) (next : α → Effect σ β) (s : σ) :
    (work >>= next) s = match work s with
      | (.ok a, t) => next a t
      | (.error e, t) => (.error e, t) := by
  change ExceptT.bindCont next (work s).1 (work s).2 = _
  rcases work s with ⟨a | a, t⟩ <;> rfl

theorem bind_ok {work : Effect σ α} {s t : σ} {a : α} (h : work s = (.ok a, t))
    (next : α → Effect σ β) : (work >>= next) s = next a t := by
  rw [bind_apply, h]

theorem bind_error {work : Effect σ α} {s t : σ} {e : Failure} (h : work s = (.error e, t))
    (next : α → Effect σ β) : (work >>= next) s = (.error e, t) := by
  rw [bind_apply, h]

-- How a composition can have ended.
theorem bind_eq_ok {work : Effect σ α} {next : α → Effect σ β} {s t : σ} {b : β}
    (h : (work >>= next) s = (.ok b, t)) : ∃ a u, work s = (.ok a, u) ∧ next a u = (.ok b, t) := by
  rw [bind_apply] at h
  rcases hw : work s with ⟨e | a, u⟩
  · rw [hw] at h
    cases h
  · rw [hw] at h
    exact ⟨a, u, rfl, h⟩

theorem bind_eq_error {work : Effect σ α} {next : α → Effect σ β} {s t : σ} {e : Failure}
    (h : (work >>= next) s = (.error e, t)) :
    work s = (.error e, t) ∨ ∃ a u, work s = (.ok a, u) ∧ next a u = (.error e, t) := by
  rw [bind_apply] at h
  rcases hw : work s with ⟨e' | a, u⟩
  · rw [hw] at h
    cases h
    exact .inl rfl
  · rw [hw] at h
    exact .inr ⟨a, u, rfl, h⟩

-- A result that is given afterwards, or a failure, changes no state.
theorem bind_pure_snd (work : Effect σ α) (b : β) (s : σ) :
    ((work >>= fun _ => pure b) s).2 = (work s).2 := by
  rw [bind_apply]
  rcases work s with ⟨e | a, t⟩ <;> rfl

theorem bind_pure_inv {work : Effect σ α} {b : β} {s t : σ} {outcome : Except Failure β}
    (h : (work >>= fun _ => pure b) s = (outcome, t)) :
    ∃ acted, work s = (acted, t) ∧ outcome = acted.map fun _ => b := by
  rw [bind_apply] at h
  rcases hw : work s with ⟨e | a, u⟩ <;> rw [hw] at h <;> cases h
  · exact ⟨_, rfl, rfl⟩
  · exact ⟨_, rfl, rfl⟩

theorem bind_throw_snd (work : Effect σ α) (e : Failure) (s : σ) :
    ((work >>= fun _ => (throw e : Effect σ β)) s).2 = (work s).2 := by
  rw [bind_apply]
  rcases work s with ⟨e | a, t⟩ <;> rfl

@[simp] theorem pure_apply (a : α) (s : σ) : (pure a : Effect σ α) s = (.ok a, s) := rfl

@[simp] theorem throw_apply (e : Failure) (s : σ) :
    (throw e : Effect σ α) s = (.error e, s) := rfl

@[simp] theorem lift_apply (work : StateM σ α) (s : σ) :
    (monadLift work : Effect σ α) s = (.ok (work s).1, (work s).2) := rfl

@[simp] theorem attempt_apply (work : Effect σ α) (s : σ) :
    work.attempt s = (.ok (work s).1, (work s).2) := rfl

@[simp] theorem get_apply (s : σ) : (get : Effect σ σ) s = (.ok s, s) := rfl

@[simp] theorem modify_apply (f : σ → σ) (s : σ) :
    (modify f : Effect σ PUnit) s = (.ok ⟨⟩, f s) := rfl

theorem bind_assoc_apply {γ : Type} (work : Effect σ α) (next : α → Effect σ β)
    (last : β → Effect σ γ) (s : σ) :
    ((work >>= next) >>= last) s = (work >>= fun a => next a >>= last) s := by
  simp only [bind_apply]
  rcases work s with ⟨a | a, t⟩ <;> rfl

end Effect

namespace Session

variable {σ α : Type}

@[simp] theorem inWorld_apply (work : Effect σ α) (s : Session σ) :
    inWorld work s = ((work s.world).1, { s with world := (work s.world).2 }) := rfl

@[simp] theorem observe_apply (work : StateM σ α) (s : Session σ) :
    observe work s = (.ok (work s.world).1, { s with world := (work s.world).2 }) := rfl

@[simp] theorem record_apply (e : Entry) (s : Session σ) :
    record e s = (.ok (), { s with entries := s.entries.push e }) := rfl

@[simp] theorem amend_apply (index : Nat) (change : Entry → Entry) (s : Session σ) :
    amend index change s = (.ok (), { s with entries := s.entries.modify index change }) := rfl

@[simp] theorem setFrames_apply (frames : List Frame) (s : Session σ) :
    setFrames frames s = (.ok (), { s with frames }) := rfl

end Session

end Gleaner
