/-!
# What computations answer

A computation that can fail answers if each of its steps does. One that also carries a state is
followed from step to step by what it `Gives`: a property of whatever it answers, if it answers.
Where the state outlives a failure, a step that fails still leaves the state as it has changed it.
-/

namespace DocPath

@[simp]
theorem mapError_ok {ε δ α : Type} (f : ε → δ) (a : α) :
    (Except.ok a : Except ε α).mapError f = .ok a := rfl

@[simp]
theorem mapError_error {ε δ α : Type} (f : ε → δ) (error : ε) :
    (Except.error error : Except ε α).mapError f = .error (f error) := rfl

theorem mapError_mapError {ε δ ζ α : Type} (f : ε → δ) (g : δ → ζ) (result : Except ε α) :
    (result.mapError f).mapError g = result.mapError (g ∘ f) := by
  cases result <;> rfl

theorem mapError_eq_ok {ε δ α : Type} {f : ε → δ} {result : Except ε α} {a : α} :
    result.mapError f = .ok a ↔ result = .ok a := by
  cases result <;> simp

theorem bind_eq_ok {ε α β : Type} {result : Except ε α} {f : α → Except ε β} {b : β} :
    (result >>= f) = .ok b ↔ ∃ a, result = .ok a ∧ f a = .ok b := by
  cases result with
  | error error => simp [bind, Except.bind]
  | ok a => simp [bind, Except.bind]

/-- Whatever a computation answers has a property. -/
def Gives {σ ε α : Type} (x : StateT σ (Except ε) α) (P : α → Prop) : Prop :=
  ∀ s a t, x s = .ok (a, t) → P a

section

variable {σ ε α β : Type} {P : α → Prop} {Q : β → Prop}

theorem gives_pure {a : α} (h : P a) : Gives (pure a : StateT σ (Except ε) α) P := by
  intro s b t hb
  cases hb
  exact h

theorem gives_throw (error : ε) : Gives (throw error : StateT σ (Except ε) α) P := by
  intro s a t h
  cases h

theorem gives_lift {x : Except ε α} (h : ∀ a, x = .ok a → P a) :
    Gives (liftM x : StateT σ (Except ε) α) P := by
  intro s a t hx
  cases x with
  | error error => cases hx
  | ok b =>
    cases hx
    exact h a rfl

theorem Gives.bind {x : StateT σ (Except ε) β} {f : β → StateT σ (Except ε) α} (hx : Gives x Q)
    (hf : ∀ b, Q b → Gives (f b) P) : Gives (x >>= f) P := by
  intro s a t h
  obtain ⟨⟨b, r⟩, hb, ha⟩ := bind_eq_ok.1 h
  exact hf b (hx s b r hb) r a t ha

/-- A computation of which nothing is known, and one after it. -/
theorem gives_bind {x : StateT σ (Except ε) β} {f : β → StateT σ (Except ε) α}
    (hf : ∀ b, Gives (f b) P) : Gives (x >>= f) P :=
  Gives.bind (Q := fun _ => True) (fun _ _ _ _ => trivial) fun b _ => hf b

theorem gives_mapM {f : β → StateT σ (Except ε) α} {xs : List β} (h : ∀ x ∈ xs, Gives (f x) P) :
    Gives (xs.mapM f) fun ys => ∀ y ∈ ys, P y := by
  induction xs with
  | nil => exact gives_pure (by simp)
  | cons x rest ih =>
    have hrest := ih fun y mem => h y (List.mem_cons_of_mem _ mem)
    rw [List.mapM_cons]
    refine (h x List.mem_cons_self).bind fun y hy => hrest.bind fun ys hys => gives_pure ?_
    intro z mem
    rcases List.mem_cons.1 mem with rfl | mem
    · exact hy
    · exact hys z mem

end

/-- A list with an item for which there is no answer has none itself. -/
theorem gives_mapM_of_mem {σ ε α β : Type} {f : β → StateT σ (Except ε) α} {xs : List β} {x : β}
    (mem : x ∈ xs) (h : Gives (f x) fun _ => False) : Gives (xs.mapM f) fun _ => False := by
  induction xs with
  | nil => cases mem
  | cons first rest ih =>
    rw [List.mapM_cons]
    rcases List.mem_cons.1 mem with rfl | mem
    · exact h.bind fun _ hfalse => hfalse.elim
    · exact gives_bind fun _ => (ih mem).bind fun _ hfalse => hfalse.elim

section

variable {σ ε α β : Type} {x : StateT σ (Except ε) β} {f : β → StateT σ (Except ε) α} {s : σ}

theorem bind_of_ok {b : β} {t : σ} (h : x s = .ok (b, t)) : (x >>= f) s = f b t := by
  have hbind : (x >>= f) s = (x s >>= fun r => f r.1 r.2) := rfl
  rw [hbind, h]
  rfl

theorem bind_of_error {e : ε} (h : x s = .error e) : (x >>= f) s = .error e := by
  have hbind : (x >>= f) s = (x s >>= fun r => f r.1 r.2) := rfl
  rw [hbind, h]
  rfl

end

/-! ### Failing before another computation -/

/-- The first computation fails with an error, or fails as the second one does. -/
def FailsBefore {σ ε α : Type} (error : ε) (x y : StateT σ (Except ε) α) : Prop :=
  ∀ s, x s = .error error ∨ ∃ e, x s = .error e ∧ y s = .error e

section

variable {σ ε α β : Type} {error : ε}

theorem FailsBefore.bind {x y : StateT σ (Except ε) β} (h : FailsBefore error x y)
    (f g : β → StateT σ (Except ε) α) : FailsBefore error (x >>= f) (y >>= g) := by
  intro s
  rcases h s with hx | ⟨e, hx, hy⟩
  · exact .inl (bind_of_error hx)
  · exact .inr ⟨e, bind_of_error hx, bind_of_error hy⟩

end

/-! ### Ending alike -/

/-- Two computations answer from the same states, and leave the same ones. -/
def SameEnd {σ ε α β : Type} (x : StateT σ (Except ε) α) (y : StateT σ (Except ε) β) : Prop :=
  ∀ s, (x s).toOption.map Prod.snd = (y s).toOption.map Prod.snd

section

variable {σ ε α β γ δ : Type} {x : StateT σ (Except ε) α} {y : StateT σ (Except ε) β}

theorem sameEnd_pure (a : α) (b : β) :
    SameEnd (pure a : StateT σ (Except ε) α) (pure b : StateT σ (Except ε) β) := fun _ => rfl

theorem sameEnd_throw (error other : ε) :
    SameEnd (throw error : StateT σ (Except ε) α) (throw other : StateT σ (Except ε) β) :=
  fun _ => rfl

theorem SameEnd.bind (h : SameEnd x y) {f : α → StateT σ (Except ε) γ}
    {g : β → StateT σ (Except ε) δ} (hf : ∀ a b, SameEnd (f a) (g b)) :
    SameEnd (x >>= f) (y >>= g) := by
  intro s
  have hs := h s
  cases hx : x s with
  | error e => cases hy : y s with
    | error e' => rw [bind_of_error hx, bind_of_error hy]; rfl
    | ok b =>
      rw [hx, hy] at hs
      cases hs
  | ok a => cases hy : y s with
    | error e =>
      rw [hx, hy] at hs
      cases hs
    | ok b =>
      rw [hx, hy] at hs
      rw [bind_of_ok hx, bind_of_ok hy, Option.some.inj hs]
      exact hf a.1 b.1 b.2

theorem SameEnd.refl (x : StateT σ (Except ε) α) : SameEnd x x := fun _ => rfl

theorem SameEnd.symm (h : SameEnd x y) : SameEnd y x := fun s => (h s).symm

theorem SameEnd.exists_ok (h : SameEnd x y) {s t : σ} {a : α} (hx : x s = .ok (a, t)) :
    ∃ b, y s = .ok (b, t) := by
  have hs := h s
  cases hy : y s with
  | error e =>
    rw [hx, hy] at hs
    cases hs
  | ok b =>
    rw [hx, hy] at hs
    cases hs
    exact ⟨b.1, rfl⟩

end

/-! ### Failures beside a state -/

section

variable {σ ε α β : Type}

/-- A step and the rest, which goes on with the state that the step left, unless it failed. -/
theorem run_bind (x : ExceptT ε (StateM σ) α) (f : α → ExceptT ε (StateM σ) β) (s : σ) :
    (x >>= f).run.run s = ExceptT.bindCont f (x.run.run s).1 (x.run.run s).2 := rfl

/-- A step that cannot fail, and the rest. -/
theorem run_lift_bind (x : StateM σ α) (f : α → ExceptT ε (StateM σ) β) (s : σ) :
    ((liftM x : ExceptT ε (StateM σ) α) >>= f).run.run s = (f (x s).1).run.run (x s).2 := rfl

theorem run_map (f : α → β) (x : ExceptT ε (StateM σ) α) (s : σ) :
    (f <$> x).run.run s = ((x.run.run s).1.map f, (x.run.run s).2) := by
  rw [ExceptT.run_map, StateT.run_map]
  rfl

end

end DocPath
