import Mathlib.Algebra.GroupWithZero.Nat
import Mathlib.Data.List.Forall2

/-! The indices of a box of integers in row-major order, and those that remain when some of the axes
are held at a coordinate. -/

namespace Kxc.Lib.IndexSpace

/-- The indices below the extents, the last axis running fastest. -/
def indexSpace : List Int → List (List Int)
  | [] => [[]]
  | n :: dims =>
    (List.range n.toNat).flatMap fun i : Nat => (indexSpace dims).map ((i : Int) :: ·)

theorem forall₂_iff_getD {α β : Type} {R : α → β → Prop} {xs : List α} {ys : List β} (a : α)
    (b : β) : List.Forall₂ R xs ys ↔
      xs.length = ys.length ∧ ∀ k < ys.length, R (xs.getD k a) (ys.getD k b) := by
  rw [List.forall₂_iff_get]
  refine and_congr_right fun hlen => ⟨fun h k hk => ?_, fun h k hk hk' => ?_⟩
  · have := h k (hlen ▸ hk) hk
    rwa [List.get_eq_getElem, List.get_eq_getElem, List.getElem_eq_getD a,
      List.getElem_eq_getD b] at this
  · have := h k hk'
    rwa [← List.getElem_eq_getD (h := hk) a, ← List.getElem_eq_getD (h := hk') b] at this

/-- An index is below the extents. -/
def InBounds : List Int → List Int → Prop := List.Forall₂ fun i n => 0 ≤ i ∧ i < n

theorem inBounds_iff {idx dims : List Int} : InBounds idx dims ↔ idx.length = dims.length ∧
    ∀ k < dims.length, 0 ≤ idx.getD k 0 ∧ idx.getD k 0 < dims.getD k 0 :=
  forall₂_iff_getD 0 0

theorem mem_indexSpace {idx dims : List Int} : idx ∈ indexSpace dims ↔ InBounds idx dims := by
  induction dims generalizing idx with
  | nil => simp [indexSpace, InBounds, List.forall₂_nil_right_iff]
  | cons n dims ih =>
    simp only [indexSpace, List.mem_flatMap, List.mem_range, List.mem_map, ih]
    constructor
    · rintro ⟨i, hi, rest, hrest, rfl⟩
      exact .cons (by omega) hrest
    · rintro (_ | ⟨⟨h0, hlt⟩, hrest⟩)
      rename_i i rest
      exact ⟨i.toNat, by omega, rest, hrest, by rw [Int.toNat_of_nonneg h0]⟩

theorem length_of_mem_indexSpace {is dims : List Int} (h : is ∈ indexSpace dims) :
    is.length = dims.length := (mem_indexSpace.mp h).length_eq

theorem zipWith_replicate_zero {n : Nat} (is : List Int) (h : is.length = n) :
    List.zipWith (· + ·) (List.replicate n 0) is = is := by
  subst h
  induction is with
  | nil => rfl
  | cons i is ih => simp [List.replicate_succ, ih]

theorem indexSpace_singleton (n : Int) :
    indexSpace [n] = (List.range n.toNat).map fun i : Nat => [(i : Int)] := by
  simp [indexSpace, List.map_eq_flatMap]

theorem indexSpace_eq_nil {dims : List Int} : indexSpace dims = [] ↔ ∃ n ∈ dims, n ≤ 0 := by
  induction dims with
  | nil => simp [indexSpace]
  | cons n dims ih =>
    simp only [indexSpace, List.flatMap_eq_nil_iff, List.mem_range, List.map_eq_nil_iff, ih,
      List.mem_cons, exists_eq_or_imp]
    constructor
    · intro h
      by_cases hn : n ≤ 0
      · exact .inl hn
      · exact .inr (h 0 (by omega))
    · rintro (hn | hrest) i hi
      · omega
      · exact hrest

theorem flatMap_range_ite {α : Type} {k n : Nat} (h : k < n) (l : List α) :
    ((List.range n).flatMap fun i => if i = k then l else []) = l := by
  induction n with
  | zero => omega
  | succ n ih =>
    rw [List.range_succ, List.flatMap_append, List.flatMap_singleton]
    by_cases hk : n = k
    · have hnil : ((List.range n).flatMap fun i => if i = k then l else []) = [] := by
        refine List.flatMap_eq_nil_iff.mpr fun i hi => if_neg ?_
        have := List.mem_range.mp hi
        omega
      rw [hnil, if_pos hk, List.nil_append]
    · rw [ih (by omega), if_neg hk, List.append_nil]

/-- Axes that are held at a coordinate, and others that are not. -/
abbrev Held := List (Option Int)

namespace Held

/-- The extents of the axes that are not held. -/
def free : Held → List Int → List Int
  | none :: held, n :: dims => n :: free held dims
  | some _ :: held, _ :: dims => free held dims
  | _, _ => []

/-- The index with the coordinates `is` along the axes that are not held. -/
def fill : Held → List Int → List Int
  | [], _ => []
  | some c :: held, is => c :: fill held is
  | none :: held, is => is.headD 0 :: fill held is.tail

/-- An index has the coordinates at which axes are held. -/
def agrees : Held → List Int → Bool
  | some c :: held, i :: idx => c == i && agrees held idx
  | none :: held, _ :: idx => agrees held idx
  | _, _ => true

/-- The coordinates are below the extents. -/
def Within : Held → List Int → Prop :=
  List.Forall₂ fun c n => ∀ i, c = some i → 0 ≤ i ∧ i < n

theorem mem_of_mem_free {held : Held} {dims : List Int} {n : Int} (h : n ∈ free held dims) :
    n ∈ dims := by
  induction held generalizing dims with
  | nil => simp [free] at h
  | cons c held ih =>
    cases dims with
    | nil => cases c <;> simp [free] at h
    | cons m dims =>
      cases c with
      | none =>
        rcases List.mem_cons.mp h with rfl | h
        · exact List.mem_cons_self
        · exact List.mem_cons_of_mem _ (ih h)
      | some c => exact List.mem_cons_of_mem _ (ih h)

/-- The indices that agree with the held coordinates are those that fill in the others, in the same
order. -/
theorem filter_indexSpace {held : Held} {dims : List Int} (h : Within held dims) :
    (indexSpace dims).filter (agrees held) = (indexSpace (free held dims)).map (fill held) := by
  induction h with
  | nil => rfl
  | @cons c n held dims hc _ ih =>
    cases c with
    | none =>
      have hrow (i : Nat) : ((indexSpace dims).map ((i : Int) :: ·)).filter
          (agrees (none :: held)) = ((indexSpace (free held dims)).map ((i : Int) :: ·)).map
            (fill (none :: held)) := by
        rw [List.filter_map, List.map_map]
        show ((indexSpace dims).filter (agrees held)).map _ = _
        rw [ih, List.map_map]
        rfl
      simp only [indexSpace, free, List.filter_flatMap, List.map_flatMap, hrow]
    | some c =>
      obtain ⟨h0, hlt⟩ := hc c rfl
      have hrow (i : Nat) : ((indexSpace dims).map ((i : Int) :: ·)).filter
          (agrees (some c :: held)) =
            if i = c.toNat then (indexSpace (free held dims)).map (fill (some c :: held))
            else [] := by
        rw [List.filter_map]
        split
        · have hic : (i : Int) = c := by omega
          have hagrees : agrees (some c :: held) ∘ ((i : Int) :: ·) = agrees held := by
            funext idx
            simp [agrees, hic]
          rw [hagrees, ih, List.map_map, hic]
          rfl
        · have hic : c ≠ (i : Int) := by omega
          have hagrees : agrees (some c :: held) ∘ ((i : Int) :: ·) = fun _ => false := by
            funext idx
            simp [agrees, hic]
          rw [hagrees, List.filter_false, List.map_nil]
      simp only [indexSpace, free, List.filter_flatMap, hrow]
      exact flatMap_range_ite (by omega) _

end Held

end Kxc.Lib.IndexSpace
