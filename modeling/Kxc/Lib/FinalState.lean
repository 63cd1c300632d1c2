import Mathlib.Data.List.Basic

/-! Programs whose state survives their errors: `Final m s E Q` says that the run of `m` from the
state `s` either returns a value and a state in `Q`, or fails with an error and leaves a state in
`E`. The rules compute it for each way to build a program. -/

namespace Kxc.Lib

variable {σ ε α β : Type}

/-- The run of `m` from `s` ends in `Q`, or fails and ends in `E`. -/
def Final (m : ExceptT ε (StateM σ) α) (s : σ) (E : ε → σ → Prop) (Q : α → σ → Prop) : Prop :=
  match m s with
  | (.ok a, t) => Q a t
  | (.error e, t) => E e t

variable {m : ExceptT ε (StateM σ) α} {s : σ} {E E' : ε → σ → Prop} {Q Q' : α → σ → Prop}

/-- The state that is left, whether the run returns or fails. -/
theorem Final.state {P : σ → Prop} (h : Final m s (fun _ => P) fun _ => P) : P (m s).2 := by
  unfold Final at h
  generalize m s = p at h
  obtain ⟨_ | _, t⟩ := p <;> exact h

/-- The rule of consequence, for both outcomes. -/
theorem Final.weaken (h : Final m s E Q) (hE : ∀ e t, E e t → E' e t)
    (hQ : ∀ a t, Q a t → Q' a t) : Final m s E' Q' := by
  unfold Final at h ⊢
  generalize m s = p at h ⊢
  obtain ⟨_ | _, t⟩ := p
  · exact hE _ _ h
  · exact hQ _ _ h

/-- The rule of consequence. -/
theorem Final.mono (h : Final m s E Q) (hQ : ∀ a t, Q a t → Q' a t) : Final m s E Q' :=
  h.weaken (fun _ _ he => he) hQ

@[simp]
theorem final_bind {f : α → ExceptT ε (StateM σ) β} {Q : β → σ → Prop} :
    Final (m >>= f) s E Q ↔ Final m s E fun a t => Final (f a) t E Q := by
  have hrun : (m >>= f) s = match m s with
      | (.ok a, t) => f a t
      | (.error e, t) => (.error e, t) := by
    change (ExceptT.bindCont f (m s).1) (m s).2 = _
    generalize m s = p
    obtain ⟨_ | _, t⟩ := p <;> rfl
  unfold Final
  rw [hrun]
  generalize m s = p
  obtain ⟨_ | _, t⟩ := p <;> rfl

@[simp]
theorem final_pure {a : α} : Final (pure a : ExceptT ε (StateM σ) α) s E Q ↔ Q a s := Iff.rfl

@[simp]
theorem final_throw {e : ε} : Final (throw e : ExceptT ε (StateM σ) α) s E Q ↔ E e s := Iff.rfl

@[simp]
theorem final_get {Q : σ → σ → Prop} :
    Final (get : ExceptT ε (StateM σ) σ) s E Q ↔ Q s s := Iff.rfl

@[simp]
theorem final_set {t : σ} {Q : PUnit → σ → Prop} :
    Final (set t : ExceptT ε (StateM σ) PUnit) s E Q ↔ Q ⟨⟩ t := Iff.rfl

@[simp]
theorem final_modify {f : σ → σ} {Q : PUnit → σ → Prop} :
    Final (modify f : ExceptT ε (StateM σ) PUnit) s E Q ↔ Q ⟨⟩ (f s) := Iff.rfl

@[simp]
theorem final_ite {c : Prop} [Decidable c] {n : ExceptT ε (StateM σ) α} :
    Final (if c then m else n) s E Q ↔ (c → Final m s E Q) ∧ (¬c → Final n s E Q) := by
  by_cases h : c <;> simp [h]

/-- The rule for a loop over a list, with an invariant of the state. -/
theorem Final.forM {xs : List β} {body : β → ExceptT ε (StateM σ) PUnit} (I : σ → Prop) (h0 : I s)
    (hstep : ∀ x ∈ xs, ∀ t, I t → Final (body x) t E fun _ u => I u) :
    Final (xs.forM body) s E fun _ t => I t := by
  induction xs generalizing s with
  | nil => exact h0
  | cons x xs ih =>
    simp only [List.forM_eq_forM, List.forM_cons, final_bind]
    refine (hstep x List.mem_cons_self s h0).mono fun _ t ht => ?_
    exact ih ht fun y hy => hstep y (List.mem_cons_of_mem x hy)

end Kxc.Lib
