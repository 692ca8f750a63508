/-!
# Running steps that may fail

Work on packets, talks and jobs is a step on a state that ends in a result or an error.  Running a
sequence of steps is running the first, and then the rest on the state that it left:

    x.run s = (.ok a, t) → (x >>= f).run s = (f a).run t              (run_bind_of_ok)
    (x >>= f).run s = (.ok b, u) ↔ ∃ a t, x.run s = (.ok a, t) ∧ (f a).run t = (.ok b, u)
                                                                      (run_bind_eq_ok_iff)
    Keeps I x → (∀ a, Keeps I (f a)) → Keeps I (x >>= f)              (Keeps.bind)
-/

namespace AjpGateway

variable {ε σ α β : Type}

@[simp] theorem run_pure (a : α) (s : σ) :
    (pure a : ExceptT ε (StateM σ) α).run s = (.ok a, s) := rfl

@[simp] theorem run_throw (e : ε) (s : σ) :
    (throw e : ExceptT ε (StateM σ) α).run s = (.error e, s) := rfl

@[simp] theorem run_get (s : σ) : (get : ExceptT ε (StateM σ) σ).run s = (.ok s, s) := rfl

@[simp] theorem run_set (s t : σ) :
    (set t : ExceptT ε (StateM σ) Unit).run s = (.ok (), t) := rfl

@[simp] theorem run_modify (f : σ → σ) (s : σ) :
    (modify f : ExceptT ε (StateM σ) Unit).run s = (.ok (), f s) := rfl

theorem run_bind (x : ExceptT ε (StateM σ) α) (f : α → ExceptT ε (StateM σ) β) (s : σ) :
    (x >>= f).run s =
      match x.run s with
      | (.ok a, t) => (f a).run t
      | (.error e, t) => (.error e, t) := by
  show (x.run >>= ExceptT.bindCont f : StateM σ _) s = _
  rcases h : x.run s with ⟨r, t⟩
  have hb : (x.run >>= ExceptT.bindCont f : StateM σ _) s = ExceptT.bindCont f r t := by
    simp [bind, StateT.bind, h]
  rw [hb]
  cases r <;> rfl

theorem run_bind_of_ok {x : ExceptT ε (StateM σ) α} {f : α → ExceptT ε (StateM σ) β} {s t : σ}
    {a : α} (h : x.run s = (.ok a, t)) : (x >>= f).run s = (f a).run t := by
  rw [run_bind, h]

theorem run_bind_of_error {x : ExceptT ε (StateM σ) α} {f : α → ExceptT ε (StateM σ) β} {s t : σ}
    {e : ε} (h : x.run s = (.error e, t)) : (x >>= f).run s = (.error e, t) := by
  rw [run_bind, h]

theorem run_bind_eq_ok_iff {x : ExceptT ε (StateM σ) α} {f : α → ExceptT ε (StateM σ) β} {s u : σ}
    {b : β} :
    (x >>= f).run s = (.ok b, u) ↔ ∃ a t, x.run s = (.ok a, t) ∧ (f a).run t = (.ok b, u) := by
  rw [run_bind]
  rcases h : x.run s with ⟨r, t⟩
  cases r with
  | ok a =>
    constructor
    · exact fun hf => ⟨a, t, rfl, hf⟩
    · rintro ⟨a', t', he, hf⟩
      cases he
      exact hf
  | error e =>
    constructor
    · intro hf
      cases hf
    · rintro ⟨a', t', he, -⟩
      cases he

theorem run_bind_eq_error_iff {x : ExceptT ε (StateM σ) α} {f : α → ExceptT ε (StateM σ) β}
    {s u : σ} {e : ε} :
    (x >>= f).run s = (.error e, u) ↔
      x.run s = (.error e, u) ∨ ∃ a t, x.run s = (.ok a, t) ∧ (f a).run t = (.error e, u) := by
  rw [run_bind]
  rcases h : x.run s with ⟨r, t⟩
  cases r with
  | ok a =>
    constructor
    · intro hf
      exact .inr ⟨a, t, rfl, hf⟩
    · rintro (hx | ⟨a', t', hx, hf⟩)
      · cases hx
      · cases hx
        exact hf
  | error e' =>
    constructor
    · intro hx
      cases hx
      exact .inl rfl
    · rintro (hx | ⟨a', t', hx, -⟩)
      · cases hx
        rfl
      · cases hx

/-- A last step that only gives the result another form. -/
theorem run_bind_pure (x : ExceptT ε (StateM σ) α) (f : α → β) (s : σ) :
    (x >>= fun a => pure (f a)).run s = ((x.run s).1.map f, (x.run s).2) := by
  rw [run_bind]
  rcases x.run s with ⟨r, t⟩
  cases r <;> rfl

/-! ## Invariants -/

/-- Work that keeps an invariant of its state, also where it fails. -/
def Keeps (I : σ → Prop) (act : ExceptT ε (StateM σ) α) : Prop := ∀ s, I s → I (act.run s).2

section
variable {I : σ → Prop}

theorem Keeps.pure (a : α) : Keeps I (pure a : ExceptT ε (StateM σ) α) := fun _ h => h

theorem Keeps.throw (e : ε) : Keeps I (throw e : ExceptT ε (StateM σ) α) := fun _ h => h

theorem Keeps.get : Keeps I (get : ExceptT ε (StateM σ) σ) := fun _ h => h

theorem Keeps.modify {f : σ → σ} (hf : ∀ s, I s → I (f s)) :
    Keeps I (modify f : ExceptT ε (StateM σ) Unit) := hf

theorem Keeps.bind {x : ExceptT ε (StateM σ) α} {f : α → ExceptT ε (StateM σ) β} (hx : Keeps I x)
    (hf : ∀ a, Keeps I (f a)) : Keeps I (x >>= f) := by
  intro s hs
  have hkept := hx s hs
  rw [run_bind]
  rcases hr : x.run s with ⟨r, t⟩
  rw [hr] at hkept
  cases r with
  | ok a => exact hf a t hkept
  | error e => exact hkept

end

end AjpGateway
