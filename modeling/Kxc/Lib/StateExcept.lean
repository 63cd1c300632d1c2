import Mathlib.Data.List.Forall2
import Mathlib.Order.Basic

/-! Programs with a state and errors: `Outcome m s E Q` says that the run of `m` from the state `s`
either returns a value and a state in `Q` or fails with an error in `E`. The rules compute it for
each way to build a program, and `Ensures` is the case that allows every error. -/

namespace Kxc.Lib

variable {σ ε α β : Type}

/-- The run of `m` from `s` returns in `Q` or fails in `E`. -/
def Outcome (m : StateT σ (Except ε) α) (s : σ) (E : ε → Prop) (Q : α → σ → Prop) : Prop :=
  match m s with
  | .ok (a, t) => Q a t
  | .error e => E e

/-- Every successful run of `m` from `s` ends in `Q`. -/
abbrev Ensures (m : StateT σ (Except ε) α) (s : σ) (Q : α → σ → Prop) : Prop :=
  Outcome m s (fun _ => True) Q

theorem Outcome.of_ok {m : StateT σ (Except ε) α} {s t : σ} {E : ε → Prop} {Q : α → σ → Prop}
    {a : α} (h : Outcome m s E Q) (hm : m s = .ok (a, t)) : Q a t := by
  unfold Outcome at h
  rw [hm] at h
  exact h

theorem Outcome.of_error {m : StateT σ (Except ε) α} {s : σ} {E : ε → Prop} {Q : α → σ → Prop}
    {e : ε} (h : Outcome m s E Q) (hm : m s = .error e) : E e := by
  unfold Outcome at h
  rw [hm] at h
  exact h

/-- A run without errors returns. -/
theorem Outcome.exists_ok {m : StateT σ (Except ε) α} {s : σ} {Q : α → σ → Prop}
    (h : Outcome m s (fun _ => False) Q) : ∃ a t, m s = .ok (a, t) ∧ Q a t := by
  unfold Outcome at h
  split at h
  · exact ⟨_, _, ‹_›, h⟩
  · exact h.elim

theorem Ensures.of_forall {m : StateT σ (Except ε) α} {s : σ} {Q : α → σ → Prop}
    (h : ∀ a t, m s = .ok (a, t) → Q a t) : Ensures m s Q := by
  unfold Ensures Outcome
  split
  · rename_i a t hm
    exact h a t hm
  · trivial

/-- The rule of consequence, for both outcomes. -/
theorem Outcome.weaken {m : StateT σ (Except ε) α} {s : σ} {E F : ε → Prop} {Q R : α → σ → Prop}
    (h : Outcome m s E Q) (hEF : ∀ e, E e → F e) (hQR : ∀ a t, Q a t → R a t) :
    Outcome m s F R := by
  unfold Outcome at h ⊢
  split at h
  · exact hQR _ _ h
  · exact hEF _ h

/-- The rule of consequence. -/
theorem Outcome.mono {m : StateT σ (Except ε) α} {s : σ} {E : ε → Prop} {Q R : α → σ → Prop}
    (h : Outcome m s E Q) (hQR : ∀ a t, Q a t → R a t) : Outcome m s E R :=
  h.weaken (fun _ he => he) hQR

theorem Outcome.and {m : StateT σ (Except ε) α} {s : σ} {E : ε → Prop} {Q R : α → σ → Prop}
    (hQ : Outcome m s E Q) (hR : Outcome m s E R) : Outcome m s E fun a t => Q a t ∧ R a t := by
  unfold Outcome at hQ hR ⊢
  split at hQ
  · rename_i hm
    rw [hm] at hR
    exact ⟨hQ, hR⟩
  · exact hQ

@[simp]
theorem outcome_bind {m : StateT σ (Except ε) α} {f : α → StateT σ (Except ε) β} {s : σ}
    {E : ε → Prop} {Q : β → σ → Prop} :
    Outcome (m >>= f) s E Q ↔ Outcome m s E fun a t => Outcome (f a) t E Q := by
  have hrun : (m >>= f) s = m s >>= fun p => f p.1 p.2 := rfl
  unfold Outcome
  rw [hrun]
  cases m s <;> rfl

/-- Runs agree if their first parts do, and what comes after them wherever these lead. -/
theorem Ensures.bind_congr {m n : StateT σ (Except ε) α} {f g : α → StateT σ (Except ε) β} {s : σ}
    {Q : α → σ → Prop} (h : Ensures m s Q) (hmn : n s = m s)
    (hfg : ∀ a t, Q a t → g a t = f a t) : (n >>= g) s = (m >>= f) s := by
  have hrun (l : StateT σ (Except ε) α) (k : α → StateT σ (Except ε) β) :
      (l >>= k) s = l s >>= fun p => k p.1 p.2 := rfl
  rw [hrun, hrun, hmn]
  cases hm : m s with
  | error e => rfl
  | ok p => exact hfg p.1 p.2 (h.of_ok hm)

@[simp]
theorem outcome_pure {a : α} {s : σ} {E : ε → Prop} {Q : α → σ → Prop} :
    Outcome (pure a : StateT σ (Except ε) α) s E Q ↔ Q a s := Iff.rfl

@[simp]
theorem outcome_throw {e : ε} {s : σ} {E : ε → Prop} {Q : α → σ → Prop} :
    Outcome (throw e : StateT σ (Except ε) α) s E Q ↔ E e := Iff.rfl

/-- A part without a state. -/
@[simp]
theorem outcome_liftM {x : Except ε α} {s : σ} {E : ε → Prop} {Q : α → σ → Prop} :
    Outcome (liftM x : StateT σ (Except ε) α) s E Q ↔
      match x with
      | .ok a => Q a s
      | .error e => E e := by
  cases x <;> rfl

@[simp]
theorem outcome_get {s : σ} {E : ε → Prop} {Q : σ → σ → Prop} :
    Outcome (get : StateT σ (Except ε) σ) s E Q ↔ Q s s := Iff.rfl

@[simp]
theorem outcome_set {s t : σ} {E : ε → Prop} {Q : PUnit → σ → Prop} :
    Outcome (set t : StateT σ (Except ε) PUnit) s E Q ↔ Q ⟨⟩ t := Iff.rfl

@[simp]
theorem outcome_modify {f : σ → σ} {s : σ} {E : ε → Prop} {Q : PUnit → σ → Prop} :
    Outcome (modify f : StateT σ (Except ε) PUnit) s E Q ↔ Q ⟨⟩ (f s) := Iff.rfl

@[simp]
theorem outcome_ite {c : Prop} [Decidable c] {m n : StateT σ (Except ε) α} {s : σ}
    {E : ε → Prop} {Q : α → σ → Prop} :
    Outcome (if c then m else n) s E Q ↔ (c → Outcome m s E Q) ∧ (¬c → Outcome n s E Q) := by
  by_cases h : c <;> simp [h]

/-- The rule for a loop over a list, with an invariant of the state. -/
theorem Outcome.forM {xs : List β} {body : β → StateT σ (Except ε) PUnit} {s : σ}
    {E : ε → Prop} (I : σ → Prop) (h0 : I s)
    (hstep : ∀ x ∈ xs, ∀ t, I t → Outcome (body x) t E fun _ u => I u) :
    Outcome (xs.forM body) s E fun _ t => I t := by
  induction xs generalizing s with
  | nil => exact h0
  | cons x xs ih =>
    simp only [List.forM_eq_forM, List.forM_cons, outcome_bind]
    refine (hstep x (by simp) s h0).mono fun _ t ht => ?_
    exact ih ht fun y hy => hstep y (by simp [hy])

/-- The rule for a loop that returns a value for each element, with a relation between the element,
the value and the states before and after it. The elements may be represented by others. -/
theorem Outcome.mapM [Preorder σ] {γ : Type} {xs : List γ} {ys : List α}
    {f : α → StateT σ (Except ε) β} {s : σ} {E : ε → Prop} {R : σ → σ → γ → β → Prop}
    (hmono : ∀ s t s' t' x b, R s t x b → s' ≤ s → t ≤ t' → R s' t' x b)
    (hstep : List.Forall₂ (fun x y => ∀ s, Outcome (f y) s E fun b t => s ≤ t ∧ R s t x b) xs ys) :
    Outcome (ys.mapM f) s E fun bs t => s ≤ t ∧ List.Forall₂ (R s t) xs bs := by
  induction hstep generalizing s with
  | nil => exact ⟨le_refl _, .nil⟩
  | @cons x y xs ys hhead _ ih =>
    rw [List.mapM_cons, outcome_bind]
    refine (hhead s).mono fun b t hb => ?_
    rw [outcome_bind]
    refine ih.mono fun bs u hbs => ?_
    refine ⟨le_trans hb.1 hbs.1, .cons (hmono _ _ _ _ _ _ hb.2 (le_refl _) hbs.1) ?_⟩
    exact hbs.2.imp fun x b h => hmono _ _ _ _ _ _ h hb.1 (le_refl _)

/-- A program with errors only returns when both of its parts do. -/
theorem except_bind_eq_ok {x : Except ε α} {f : α → Except ε β} {b : β} :
    (x >>= f) = .ok b ↔ ∃ a, x = .ok a ∧ f a = .ok b := by
  cases x with
  | error e =>
    constructor
    · intro h
      cases h
    · rintro ⟨a, h, -⟩
      cases h
  | ok a =>
    constructor
    · exact fun h => ⟨a, rfl, h⟩
    · rintro ⟨a', h, hf⟩
      cases h
      exact hf

/-- A loop with errors returns the values of its iterations. -/
theorem except_mapM_eq_ok {is : List α} {f : α → Except ε β} {bs : List β}
    (h : is.mapM f = .ok bs) : List.Forall₂ (fun i b => f i = .ok b) is bs := by
  induction is generalizing bs with
  | nil =>
    obtain rfl : [] = bs := Except.ok.inj h
    exact .nil
  | cons i is ih =>
    rw [List.mapM_cons] at h
    obtain ⟨b, hb, h⟩ := except_bind_eq_ok.mp h
    obtain ⟨bs', hbs, h⟩ := except_bind_eq_ok.mp h
    obtain rfl : b :: bs' = bs := Except.ok.inj h
    exact .cons hb (ih hbs)

/-- A loop with errors whose iterations all return. -/
theorem except_mapM_ok {is : List α} {f : α → Except ε β} {g : α → β}
    (h : ∀ i ∈ is, f i = .ok (g i)) : is.mapM f = .ok (is.map g) := by
  induction is with
  | nil => rfl
  | cons i is ih =>
    rw [List.mapM_cons, h i List.mem_cons_self, ih fun j hj => h j (List.mem_cons_of_mem i hj)]
    rfl

end Kxc.Lib
