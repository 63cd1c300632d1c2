import Mathlib.Data.List.Induction

/-! A scan of a list for the element with the least key. -/

namespace Kxc.Lib

open Std

variable {α κ : Type} [LE κ] [LT κ] {E : α → Prop} {key : α → κ} {l : List α} {a x : α}

/-- `a` is the first of the elements with `E` whose keys are least. -/
structure FirstLeast (E : α → Prop) (key : α → κ) (l : List α) (a : α) : Prop where
  eligible : E a
  split : ∃ before after, l = before ++ a :: after ∧
    (∀ x ∈ before, E x → key a < key x) ∧ ∀ x ∈ after, E x → key a ≤ key x

theorem FirstLeast.mem (h : FirstLeast E key l a) : a ∈ l := by
  obtain ⟨before, after, rfl, -, -⟩ := h.split
  exact List.mem_append_right before List.mem_cons_self

/-- The head is found, or an element with a smaller key. -/
theorem FirstLeast.head (h : FirstLeast E key (x :: l) a) (helig : E x) :
    a = x ∨ key a < key x := by
  obtain ⟨before, after, hsplit, hbefore, -⟩ := h.split
  cases before with
  | nil => exact Or.inl (List.cons.inj hsplit).1.symm
  | cons y before =>
    obtain rfl := (List.cons.inj hsplit).1
    exact Or.inr (hbefore x List.mem_cons_self helig)

variable [IsLinearOrder κ] [LawfulOrderLT κ]

theorem FirstLeast.le (h : FirstLeast E key l a) (hx : x ∈ l) (helig : E x) :
    key a ≤ key x := by
  obtain ⟨before, after, rfl, hbefore, hafter⟩ := h.split
  rcases List.mem_append.mp hx with hx | hx
  · exact le_of_lt (hbefore x hx helig)
  rcases List.mem_cons.mp hx with rfl | hx
  · exact le_refl _
  · exact hafter x hx helig

variable [DecidablePred E] [DecidableLT κ]

/-- One element of the scan: the best one so far and its key. -/
def scanLeast (E : α → Prop) [DecidablePred E] (key : α → κ) (best : Option α × κ) (x : α) :
    Option α × κ :=
  if E x ∧ key x < best.2 then (some x, key x) else best

/-- The scan finds the first least element unless all keys reach the bound that it starts from. -/
theorem scanLeast_foldl (E : α → Prop) [DecidablePred E] (key : α → κ) (l : List α) (bound : κ) :
    (l.foldl (scanLeast E key) (none, bound) = (none, bound) ∧ ∀ x ∈ l, E x → bound ≤ key x) ∨
      ∃ a, l.foldl (scanLeast E key) (none, bound) = (some a, key a) ∧ key a < bound ∧
        FirstLeast E key l a := by
  induction l using List.reverseRecOn with
  | nil => exact Or.inl ⟨rfl, nofun⟩
  | append_singleton l x ih =>
    rw [List.foldl_append, List.foldl_cons, List.foldl_nil]
    rcases ih with ⟨hfold, hnone⟩ | ⟨a, hfold, hbound, hfirst⟩ <;> rw [hfold, scanLeast]
    · split
      · rename_i hx
        refine Or.inr ⟨x, rfl, hx.2, hx.1, l, [], rfl, fun y hy helig => ?_, nofun⟩
        exact lt_of_lt_of_le hx.2 (hnone y hy helig)
      · rename_i hx
        refine Or.inl ⟨rfl, fun y hy helig => ?_⟩
        rcases List.mem_append.mp hy with hy | hy
        · exact hnone y hy helig
        · obtain rfl := List.mem_singleton.mp hy
          exact not_lt.mp fun hlt => hx ⟨helig, hlt⟩
    · split
      · rename_i hx
        refine Or.inr ⟨x, rfl, lt_trans hx.2 hbound, hx.1, l, [], rfl, fun y hy helig => ?_, nofun⟩
        exact lt_of_lt_of_le hx.2 (hfirst.le hy helig)
      · rename_i hx
        obtain ⟨before, after, rfl, hbefore, hafter⟩ := hfirst.split
        refine Or.inr ⟨a, rfl, hbound, hfirst.eligible, before, after ++ [x], by simp, hbefore,
          fun y hy helig => ?_⟩
        rcases List.mem_append.mp hy with hy | hy
        · exact hafter y hy helig
        · obtain rfl := List.mem_singleton.mp hy
          exact not_lt.mp fun hlt => hx ⟨helig, hlt⟩

end Kxc.Lib
