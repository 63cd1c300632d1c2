import Mathlib.Data.List.Basic
import Std.Data.String.ToInt

/-! Decimal numerals in a text: what their characters are, and that a text is cut in one way at a
separator that the part before it does not hold. -/

namespace Kxc.Lib

/-- A list is cut in one way at the first separator. -/
theorem append_cons_inj {α : Type} {sep : α} {xs xs' ys ys' : List α} (hxs : sep ∉ xs)
    (hxs' : sep ∉ xs') (h : xs ++ sep :: ys = xs' ++ sep :: ys') : xs = xs' ∧ ys = ys' := by
  induction xs generalizing xs' with
  | nil =>
    cases xs' with
    | nil => exact ⟨rfl, (List.cons.inj h).2⟩
    | cons x xs' =>
      obtain ⟨rfl, -⟩ := List.cons.inj h
      exact absurd List.mem_cons_self hxs'
  | cons x xs ih =>
    cases xs' with
    | nil =>
      obtain ⟨rfl, -⟩ := List.cons.inj h
      exact absurd List.mem_cons_self hxs
    | cons x' xs' =>
      obtain ⟨rfl, htail⟩ := List.cons.inj h
      obtain ⟨rfl, rfl⟩ := ih (fun hmem => hxs (List.mem_cons_of_mem _ hmem))
        (fun hmem => hxs' (List.mem_cons_of_mem _ hmem)) htail
      exact ⟨rfl, rfl⟩

/-- The numeral of an integer has digits and a sign only. -/
theorem mem_repr_int {i : Int} {c : Char} (h : c ∈ i.repr.toList) :
    c.isDigit = true ∨ c = '-' := by
  have hnat {n : Nat} (h : c ∈ (Nat.repr n).toList) : c.isDigit = true := by
    rw [Nat.toList_repr] at h
    exact Nat.isDigit_of_mem_toDigits (by decide) (by decide) h
  cases i with
  | ofNat n => exact .inl (hnat h)
  | negSucc n =>
    simp only [Int.repr, String.toList_append, List.mem_append] at h
    rcases h with h | h
    · exact .inr (by simpa using h)
    · exact .inl (hnat h)

theorem repr_int_injective {i j : Int} (h : i.repr.toList = j.repr.toList) :
    i = j := Int.repr_injective (String.toList_injective h)

/-- A text that starts with a numeral and a comma does not start with another character. -/
theorem repr_int_append_ne {i : Int} {c : Char} {xs ys : List Char}
    (hdigit : c.isDigit = false) (hsign : c ≠ '-') (hcomma : c ≠ ',') :
    i.repr.toList ++ ',' :: xs ≠ c :: ys := by
  intro h
  cases hi : i.repr.toList with
  | nil =>
    rw [hi] at h
    exact hcomma (List.cons.inj h).1.symm
  | cons d ds =>
    rw [hi] at h
    obtain ⟨rfl, -⟩ := List.cons.inj h
    rcases mem_repr_int (i := i) (hi ▸ List.mem_cons_self) with hd | hd
    · cases hdigit.symm.trans hd
    · exact hsign hd

/-- Two numerals with commas behind them. -/
theorem repr_int_append_inj {i j : Int} {xs ys : List Char}
    (h : i.repr.toList ++ ',' :: xs = j.repr.toList ++ ',' :: ys) : i = j ∧ xs = ys := by
  have hcomma (i : Int) : ',' ∉ i.repr.toList := by
    intro hmem
    rcases mem_repr_int hmem with h | h
    · cases h
    · cases h
  obtain ⟨hnumeral, hrest⟩ := append_cons_inj (hcomma i) (hcomma j) h
  exact ⟨repr_int_injective hnumeral, hrest⟩

end Kxc.Lib
