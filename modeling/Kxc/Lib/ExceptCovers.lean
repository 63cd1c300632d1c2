import Mathlib.Data.List.Forall2

/-! Two programs with errors, side by side: one returns whenever the other does, with a related
value. -/

namespace Kxc.Lib

variable {ε α β γ δ ι : Type} {R : α → β → Prop} {S : γ → δ → Prop}

/-- Where `y` returns, so does `x`, and the values are related. -/
def Covers (R : α → β → Prop) (x : Except ε α) (y : Except ε β) : Prop :=
  ∀ b, y = .ok b → ∃ a, x = .ok a ∧ R a b

theorem Covers.ok {a : α} {b : β} (h : R a b) :
    Covers R (.ok a : Except ε α) (.ok b : Except ε β) := by
  rintro b' hb
  obtain rfl := Except.ok.inj hb
  exact ⟨a, rfl, h⟩

theorem Covers.error {x : Except ε α} {e : ε} : Covers R x (.error e : Except ε β) :=
  fun _ h => by cases h

theorem Covers.refl (x : Except ε α) : Covers Eq x x := fun a h => ⟨a, h, rfl⟩

theorem Covers.bind {x : Except ε α} {y : Except ε β} {f : α → Except ε γ} {g : β → Except ε δ}
    (h : Covers R x y) (hf : ∀ a b, R a b → Covers S (f a) (g b)) :
    Covers S (x >>= f) (y >>= g) := by
  intro d hd
  cases y with
  | error e => cases hd
  | ok b =>
    obtain ⟨a, rfl, hab⟩ := h b rfl
    exact hf a b hab d hd

/-- Both programs take the same branch. -/
theorem Covers.ite {c : Prop} [Decidable c] {x x' : Except ε α} {y y' : Except ε β}
    (h : c → Covers R x y) (h' : ¬c → Covers R x' y') :
    Covers R (if c then x else x') (if c then y else y') := by
  split
  · exact h ‹_›
  · exact h' ‹_›

theorem Covers.mapM {is : List ι} {f : ι → Except ε α} {g : ι → Except ε β}
    (h : ∀ i, Covers R (f i) (g i)) : Covers (List.Forall₂ R) (is.mapM f) (is.mapM g) := by
  induction is with
  | nil => exact .ok .nil
  | cons i is ih =>
    rw [List.mapM_cons, List.mapM_cons]
    exact (h i).bind fun a b hab => ih.bind fun as bs habs => .ok (.cons hab habs)

theorem Covers.foldlM {cs : List γ} {ds : List δ} {f : α → γ → Except ε α} {g : β → δ → Except ε β}
    {a : α} {b : β} (h : ∀ a b c d, R a b → S c d → Covers R (f a c) (g b d)) (hab : R a b)
    (hs : List.Forall₂ S cs ds) : Covers R (cs.foldlM f a) (ds.foldlM g b) := by
  induction hs generalizing a b with
  | nil => exact .ok hab
  | cons hcd _ ih =>
    rw [List.foldlM_cons, List.foldlM_cons]
    exact (h a b _ _ hab hcd).bind fun a b hab => ih hab

/-! ### Lists of related elements -/

theorem forall₂_getD {as : List α} {bs : List β} {a : α} {b : β} (h : List.Forall₂ R as bs)
    (hab : R a b) (i : Nat) : R (as.getD i a) (bs.getD i b) := by
  induction h generalizing i with
  | nil => exact hab
  | cons h _ ih =>
    cases i with
    | zero => exact h
    | succ i => exact ih i

theorem forall₂_getElem? {as : List α} {bs : List β} (h : List.Forall₂ R as bs) (i : Nat) :
    Option.Rel R as[i]? bs[i]? := by
  induction h generalizing i with
  | nil => exact .none
  | cons h _ ih =>
    cases i with
    | zero => exact .some h
    | succ i => exact ih i

theorem forall₂_set {as : List α} {bs : List β} {a : α} {b : β} (h : List.Forall₂ R as bs)
    (hab : R a b) (i : Nat) : List.Forall₂ R (as.set i a) (bs.set i b) := by
  induction h generalizing i with
  | nil => exact .nil
  | cons h h' ih =>
    cases i with
    | zero => exact .cons hab h'
    | succ i => exact .cons h (ih i)

theorem forall₂_zipIdx {as : List α} {bs : List β} (h : List.Forall₂ R as bs) (n : Nat) :
    List.Forall₂ (fun p q => R p.1 q.1 ∧ p.2 = q.2) (as.zipIdx n) (bs.zipIdx n) := by
  induction h generalizing n with
  | nil => exact .nil
  | cons h _ ih => exact .cons ⟨h, rfl⟩ (ih (n + 1))

theorem forall₂_replicate {a : α} {b : β} (h : R a b) (n : Nat) :
    List.Forall₂ R (List.replicate n a) (List.replicate n b) := by
  induction n with
  | zero => exact .nil
  | succ n ih => exact .cons h ih

end Kxc.Lib
