import Mathlib.Algebra.BigOperators.Group.List.Basic

/-! Programs that change a memory and leave a trace of events, or are undefined. One after another
they are a monoid. -/

namespace Kxc.Lib

/-- The memory that a program leaves and the events that it makes, if it is defined. -/
def Action (M E : Type) : Type := M → Option (M × List E)

namespace Action

variable {M E α : Type}

instance : Monoid (Action M E) where
  one m := some (m, [])
  mul f g m := (f m).bind fun (m', t) => (g m').map fun (m'', t') => (m'', t ++ t')
  one_mul f := by
    funext m
    show (f m).map (fun p => (p.1, [] ++ p.2)) = f m
    simp
  mul_one f := by
    funext m
    show (f m).bind (fun p => some (p.1, p.2 ++ [])) = f m
    cases f m <;> simp
  mul_assoc f g h := by
    funext m
    show ((f m).bind fun p => (g p.1).map fun q => (q.1, p.2 ++ q.2)).bind
        (fun r => (h r.1).map fun q => (q.1, r.2 ++ q.2)) =
      (f m).bind fun p => ((g p.1).bind fun q => (h q.1).map fun r => (r.1, q.2 ++ r.2)).map
        fun r => (r.1, p.2 ++ r.2)
    cases f m with
    | none => rfl
    | some p =>
      simp only [Option.bind_some]
      cases g p.1 with
      | none => rfl
      | some q =>
        simp only [Option.map_some, Option.bind_some]
        cases h q.1 <;> simp

theorem one_apply (m : M) : (1 : Action M E) m = some (m, []) := rfl

theorem mul_eq_some {f g : Action M E} {m m' : M} {t : List E} :
    (f * g) m = some (m', t) ↔
      ∃ m₁ t₁ t₂, f m = some (m₁, t₁) ∧ g m₁ = some (m', t₂) ∧ t = t₁ ++ t₂ := by
  show (f m).bind (fun p => (g p.1).map fun q => (q.1, p.2 ++ q.2)) = some (m', t) ↔ _
  simp only [Option.bind_eq_some_iff, Option.map_eq_some_iff, Prod.exists, Prod.mk.injEq]
  constructor
  · rintro ⟨m₁, t₁, hf, _, t₂, hg, rfl, rfl⟩
    exact ⟨m₁, t₁, t₂, hf, hg, rfl⟩
  · rintro ⟨m₁, t₁, t₂, hf, hg, rfl⟩
    exact ⟨m₁, t₁, hf, m', t₂, hg, rfl, rfl⟩

/-- Makes an event. -/
def emit (e : E) : Action M E := fun m => some (m, [e])

/-- Goes on with what is read from the memory. -/
def read (f : M → Option α) (k : α → Action M E) : Action M E := fun m => (f m).bind fun a => k a m

theorem read_eq_some {f : M → Option α} {k : α → Action M E} {m m' : M} {t : List E} :
    read f k m = some (m', t) ↔ ∃ a, f m = some a ∧ k a m = some (m', t) :=
  Option.bind_eq_some_iff

/-! ### Events -/

/-- All events that `f` makes satisfy `P`. -/
def Makes (P : E → Prop) (f : Action M E) : Prop :=
  ∀ m m' t, f m = some (m', t) → ∀ e ∈ t, P e

namespace Makes

variable {P : E → Prop} {f g : Action M E}

theorem one : Makes P (1 : Action M E) := by
  intro m m' t h e he
  cases h
  cases he

theorem emit {e : E} (h : P e) : Makes P (emit e : Action M E) := by
  intro m m' t hm e' he
  cases hm
  exact List.mem_singleton.mp he ▸ h

theorem mul (hf : Makes P f) (hg : Makes P g) : Makes P (f * g) := by
  intro m m' t h e he
  obtain ⟨m₁, t₁, t₂, h₁, h₂, rfl⟩ := mul_eq_some.mp h
  exact (List.mem_append.mp he).elim (hf _ _ _ h₁ e) (hg _ _ _ h₂ e)

theorem read {p : M → Option α} {k : α → Action M E} (h : ∀ a, Makes P (k a)) :
    Makes P (read p k) := by
  intro m m' t hr
  obtain ⟨a, -, hk⟩ := read_eq_some.mp hr
  exact h a m m' t hk

theorem prod_map {xs : List α} {f : α → Action M E} (h : ∀ x ∈ xs, Makes P (f x)) :
    Makes P (xs.map f).prod := by
  induction xs with
  | nil => exact one
  | cons x xs ih =>
    rw [List.map_cons, List.prod_cons]
    exact (h x List.mem_cons_self).mul (ih fun y hy => h y (List.mem_cons_of_mem x hy))

end Makes

/-! ### Refinement -/

/-- Where `f` is defined, `g` leaves the same memory and makes the same events of those that
`keep` selects. -/
def Refines (keep : E → Bool) (f g : Action M E) : Prop :=
  ∀ m m' t, f m = some (m', t) → ∃ t', g m = some (m', t') ∧ t'.filter keep = t.filter keep

namespace Refines

variable {keep : E → Bool} {f f' g g' h : Action M E}

theorem refl (f : Action M E) : Refines keep f f := fun _ _ t h => ⟨t, h, rfl⟩

theorem of_eq (h : f = g) : Refines keep f g := h ▸ refl f

theorem trans (hfg : Refines keep f g) (hgh : Refines keep g h) : Refines keep f h := by
  intro m m' t hf
  obtain ⟨t', hg, ht'⟩ := hfg m m' t hf
  obtain ⟨t'', hh, ht''⟩ := hgh m m' t' hg
  exact ⟨t'', hh, ht''.trans ht'⟩

/-- Fewer events are kept. -/
theorem mono {keep' : E → Bool} (hkeep : ∀ e, keep' e = true → keep e = true)
    (h : Refines keep f g) : Refines keep' f g := by
  intro m m' t hf
  obtain ⟨t', hg, ht⟩ := h m m' t hf
  have hfilter (t : List E) : t.filter keep' = (t.filter keep).filter keep' := by
    rw [List.filter_filter]
    refine List.filter_congr fun e _ => ?_
    cases he : keep' e with
    | false => rfl
    | true => rw [hkeep e he, Bool.and_self]
  exact ⟨t', hg, by rw [hfilter t', ht, ← hfilter t]⟩

theorem mul (hf : Refines keep f f') (hg : Refines keep g g') :
    Refines keep (f * g) (f' * g') := by
  intro m m' t h
  obtain ⟨m₁, t₁, t₂, h₁, h₂, rfl⟩ := mul_eq_some.mp h
  obtain ⟨t₁', h₁', ht₁⟩ := hf m m₁ t₁ h₁
  obtain ⟨t₂', h₂', ht₂⟩ := hg m₁ m' t₂ h₂
  refine ⟨t₁' ++ t₂', mul_eq_some.mpr ⟨m₁, t₁', t₂', h₁', h₂', rfl⟩, ?_⟩
  rw [List.filter_append, List.filter_append, ht₁, ht₂]

theorem read {p : M → Option α} {k k' : α → Action M E} (h : ∀ a, Refines keep (k a) (k' a)) :
    Refines keep (read p k) (read p k') := by
  intro m m' t hr
  obtain ⟨a, ha, hk⟩ := read_eq_some.mp hr
  obtain ⟨t', hk', ht⟩ := h a m m' t hk
  exact ⟨t', read_eq_some.mpr ⟨a, ha, hk'⟩, ht⟩

theorem prod_map {xs : List α} {f g : α → Action M E} (h : ∀ x ∈ xs, Refines keep (f x) (g x)) :
    Refines keep (xs.map f).prod (xs.map g).prod := by
  induction xs with
  | nil => exact refl (1 : Action M E)
  | cons x xs ih =>
    rw [List.map_cons, List.map_cons, List.prod_cons, List.prod_cons]
    exact (h x List.mem_cons_self).mul (ih fun y hy => h y (List.mem_cons_of_mem x hy))

/-- What is read is the same when `g` runs, whatever it is. -/
theorem of_read {p : M → Option α} {k : α → Action M E}
    (h : ∀ m a, p m = some a → Refines keep (k a) g) : Refines keep (Action.read p k) g := by
  intro m m' t hr
  obtain ⟨a, ha, hk⟩ := read_eq_some.mp hr
  exact h m a ha m m' t hk

theorem mul_one (hf : Refines keep f 1) (hg : Refines keep g 1) : Refines keep (f * g) 1 := by
  have h := hf.mul hg
  rwa [Monoid.one_mul] at h

theorem prod_one {xs : List α} {f : α → Action M E} (h : ∀ x ∈ xs, Refines keep (f x) 1) :
    Refines keep (xs.map f).prod 1 := by
  induction xs with
  | nil => exact refl (1 : Action M E)
  | cons x xs ih =>
    rw [List.map_cons, List.prod_cons]
    exact (h x List.mem_cons_self).mul_one (ih fun y hy => h y (List.mem_cons_of_mem x hy))

theorem emit_one {e : E} (he : keep e = false) : Refines keep (emit e : Action M E) 1 := by
  intro m m' t h
  cases h
  exact ⟨[], rfl, (List.filter_cons_of_neg (by simp [he])).symm⟩

/-- An event that is not kept may be made before. -/
theorem emit_mul {e : E} (he : keep e = false) (h : Refines keep f g) :
    Refines keep f (emit e * g) := by
  intro m m' t hf
  obtain ⟨t', hg, ht⟩ := h m m' t hf
  refine ⟨e :: t', mul_eq_some.mpr ⟨m, [e], t', rfl, hg, rfl⟩, ?_⟩
  rw [List.filter_cons_of_neg (by simp [he]), ht]

end Refines

/-- The products of the groups of `p` out of `q * p + r`, and of what is left. -/
theorem prod_range_groups {G : Type} [Monoid G] (g : ℕ → G) (p q r : ℕ) :
    ((List.range (q * p + r)).map g).prod =
      ((List.range q).map fun o => ((List.range p).map fun i => g (o * p + i)).prod).prod *
        ((List.range r).map fun j => g (q * p + j)).prod := by
  have hgroups : ((List.range (q * p)).map g).prod =
      ((List.range q).map fun o => ((List.range p).map fun i => g (o * p + i)).prod).prod := by
    induction q with
    | zero => simp
    | succ q ih =>
      rw [Nat.succ_mul, List.range_add, List.map_append, List.prod_append, ih, List.range_succ,
        List.map_append, List.prod_append, List.map_map, List.map_singleton, List.prod_singleton]
      rfl
  rw [List.range_add, List.map_append, List.prod_append, hgroups, List.map_map]
  rfl

end Action

end Kxc.Lib
