import Kxc.Runtime.KernelCache
import Mathlib.Algebra.BigOperators.Group.List.Defs
import Mathlib.Algebra.Order.Ring.Int
import Mathlib.Data.List.MinMax
import Mathlib.Tactic.Ring

/-! Which entry the fuzzy lookup of the kernel cache finds. -/

namespace Kxc.Runtime

open Lib

/-- The sum of the elementwise differences, as an integer of any size. -/
def excess (extents shapes : List Shape) : Int :=
  (List.zipWith (fun q c => (List.zipWith (fun q c => c.toInt - q.toInt) q c).sum) extents
    shapes).sum

namespace KernelCache

variable {cache_ : KernelCache} {sig : ShapeSignature}
  {entry other : ShapeSignature × CompiledModule}

/-- The signature of `entry` has the inputs and dimensions of `sig`, and no extent is smaller. -/
def Dominates (sig : ShapeSignature) (entry : ShapeSignature × CompiledModule) : Prop :=
  Covers entry.1.input_shapes sig.input_shapes

instance : Decidable (Dominates sig entry) :=
  inferInstanceAs (Decidable (List.Forall₂ (List.Forall₂ (· ≤ ·)) _ _))

/-- How much larger the signature of `entry` is. -/
def surplus (sig : ShapeSignature) (entry : ShapeSignature × CompiledModule) : Int :=
  excess sig.input_shapes entry.1.input_shapes

/-- No entry of the cache that dominates `sig` is nearer to it than `entry`. -/
structure IsNearest (cache_ : KernelCache) (sig : ShapeSignature)
    (entry : ShapeSignature × CompiledModule) : Prop where
  mem : entry ∈ cache_
  dominates : Dominates sig entry
  least : ∀ other ∈ cache_, Dominates sig other → surplus sig entry ≤ surplus sig other

/-- `GetFuzzy` finds an entry if one dominates `sig`, and then a nearest one, in whichever order the
map is iterated. -/
def FindsNearest (cache_ : KernelCache) (sig : ShapeSignature) : Prop :=
  ∀ order : KernelCache, order.Perm cache_ →
    ((order.GetFuzzy sig).isSome ↔ ∃ entry ∈ cache_, Dominates sig entry) ∧
      ∀ entry ∈ order.GetFuzzy sig, IsNearest cache_ sig entry

/-- The least sum of differences is below the bound that the scan starts from, and no larger sum
overflows to one that is as small. -/
def SumsOrdered (cache_ : KernelCache) (sig : ShapeSignature) : Prop :=
  ∀ entry, IsNearest cache_ sig entry →
    surplus sig entry % 2 ^ 64 < 2 ^ 63 - 1 ∧
      ∀ other ∈ cache_, Dominates sig other → surplus sig entry < surplus sig other →
        surplus sig entry % 2 ^ 64 < surplus sig other % 2 ^ 64

/-! ### The distance -/

theorem addDistance_eq_some_iff {q c : Shape} {t t' : Int64} :
    addDistance q c t = some t' ↔ List.Forall₂ (· ≤ ·) q c ∧
      t' = t + .ofInt (List.zipWith (fun q c => c.toInt - q.toInt) q c).sum := by
  induction q generalizing c t with
  | nil =>
    cases c with
    | nil => simp [addDistance, eq_comm]
    | cons => simp [addDistance]
  | cons q query ih =>
    cases c with
    | nil => simp [addDistance]
    | cons c cached =>
      rw [addDistance, List.forall₂_cons, List.zipWith_cons_cons, List.sum_cons]
      split
      · rename_i hlt
        exact ⟨nofun, fun h => absurd h.1.1 (Int64.not_le.mpr hlt)⟩
      · rename_i hle
        rw [ih, Int64.ofInt_add, Int64.ofInt_sub, Int64.ofInt_toInt, Int64.ofInt_toInt,
          Int64.add_assoc, and_assoc, and_iff_right (Int64.not_lt.mp hle)]

theorem totalDistance_eq_some_iff {query cached : List Shape} {t t' : Int64} :
    totalDistance query cached t = some t' ↔ Covers cached query ∧
      t' = t + .ofInt (excess query cached) := by
  rw [Covers, excess]
  induction query generalizing cached t with
  | nil =>
    cases cached with
    | nil => simp [totalDistance, eq_comm]
    | cons => simp [totalDistance]
  | cons q query ih =>
    cases cached with
    | nil => simp [totalDistance]
    | cons c cached =>
      rw [totalDistance, List.forall₂_cons, List.zipWith_cons_cons, List.sum_cons]
      cases hq : addDistance q c t with
      | none =>
        refine ⟨nofun, fun h => ?_⟩
        rw [addDistance_eq_some_iff.mpr ⟨h.1.1, rfl⟩] at hq
        cases hq
      | some t₁ =>
        obtain ⟨hle, rfl⟩ := addDistance_eq_some_iff.mp hq
        rw [ih, Int64.ofInt_add, Int64.add_assoc, and_assoc, and_iff_right hle]

theorem ShapeDistance_dominating (h : Dominates sig entry) :
    ShapeDistance sig entry.1 = .ofInt (surplus sig entry) := by
  rw [ShapeDistance, totalDistance_eq_some_iff.mpr ⟨h, rfl⟩, Option.getD_some, Int64.zero_add]
  rfl

theorem dominates_of_nonneg (h : 0 ≤ ShapeDistance sig entry.1) : Dominates sig entry := by
  rw [ShapeDistance] at h
  cases ht : totalDistance sig.input_shapes entry.1.input_shapes 0 with
  | none =>
    rw [ht] at h
    exact absurd h (by decide)
  | some t => exact (totalDistance_eq_some_iff.mp ht).1

theorem toInt_ofInt_emod (v : Int) :
    (Int64.ofInt v).toInt = if v % 2 ^ 64 < 2 ^ 63 then v % 2 ^ 64 else v % 2 ^ 64 - 2 ^ 64 := by
  rw [Int64.toInt_ofInt, Int.bmod_def]
  rfl

/-- The distances that the scan can accept are the sums modulo `2 ^ 64`. -/
theorem nonneg_iff (h : Dominates sig entry) :
    0 ≤ ShapeDistance sig entry.1 ↔ surplus sig entry % 2 ^ 64 < 2 ^ 63 := by
  rw [ShapeDistance_dominating h, Int64.le_iff_toInt_le, toInt_ofInt_emod]
  have := Int.emod_nonneg (surplus sig entry) (by decide : (2 : Int) ^ 64 ≠ 0)
  have := Int.emod_lt_of_pos (surplus sig entry) (by decide : (0 : Int) < 2 ^ 64)
  change (0 : Int) ≤ _ ↔ _
  split <;> omega

theorem toInt_ShapeDistance (h : 0 ≤ ShapeDistance sig entry.1) :
    (ShapeDistance sig entry.1).toInt = surplus sig entry % 2 ^ 64 := by
  have hdom := dominates_of_nonneg h
  rw [ShapeDistance_dominating hdom, toInt_ofInt_emod, if_pos ((nonneg_iff hdom).mp h)]

/-! ### The nearest entry -/

theorem exists_isNearest (hmem : other ∈ cache_) (hdom : Dominates sig other) :
    ∃ entry, IsNearest cache_ sig entry := by
  have hfilter : other ∈ cache_.filter (Dominates sig ·) :=
    List.mem_filter.mpr ⟨hmem, decide_eq_true hdom⟩
  cases hmin : (cache_.filter (Dominates sig ·)).argmin (surplus sig) with
  | none =>
    rw [List.argmin_eq_none.mp hmin] at hfilter
    cases hfilter
  | some entry =>
    obtain ⟨hentry, hdominates⟩ := List.mem_filter.mp (List.argmin_mem hmin)
    refine ⟨entry, hentry, of_decide_eq_true hdominates, fun other hother hdom => ?_⟩
    exact List.le_of_mem_argmin (List.mem_filter.mpr ⟨hother, decide_eq_true hdom⟩) hmin

/-- Where no order of the cache misleads the scan, the sums are ordered: the order that begins with
an entry shows how that entry compares. -/
theorem sumsOrdered_of_findsNearest (h : FindsNearest cache_ sig) : SumsOrdered cache_ sig := by
  intro entry hnearest
  -- what the scan finds in any order is as near as `entry`, and its sum is within the bound
  have hfind {order : KernelCache} (horder : order.Perm cache_) :
      ∃ found, surplus sig found = surplus sig entry ∧
        surplus sig found % 2 ^ 64 < 2 ^ 63 - 1 ∧
        FirstLeast (fun entry => 0 ≤ ShapeDistance sig entry.1)
          (fun entry => ShapeDistance sig entry.1) order found := by
    obtain ⟨hsome, hall⟩ := h order horder
    rcases order.GetFuzzy_cases sig with ⟨hnone, -⟩ | ⟨found, hfound, hbound, hfirst⟩
    · rw [hnone] at hsome
      exact nomatch hsome.mpr ⟨entry, hnearest.mem, hnearest.dominates⟩
    · have hfoundNearest := hall found hfound
      refine ⟨found, le_antisymm (hfoundNearest.least _ hnearest.mem hnearest.dominates)
        (hnearest.least _ hfoundNearest.mem hfoundNearest.dominates), ?_, hfirst⟩
      rw [← toInt_ShapeDistance hfirst.eligible]
      exact Int64.lt_iff_toInt_lt.mp hbound
  obtain ⟨found, hsame, hbound, -⟩ := hfind (List.Perm.refl cache_)
  rw [hsame] at hbound
  refine ⟨hbound, fun other hother hdom hlt => ?_⟩
  by_contra hle
  have hnonneg : 0 ≤ ShapeDistance sig other.1 := (nonneg_iff hdom).mpr (by omega)
  obtain ⟨found, hsame, -, hfirst⟩ := hfind (List.perm_cons_erase hother).symm
  rcases hfirst.head hnonneg with rfl | hkey
  · omega
  · rw [Int64.lt_iff_toInt_lt, toInt_ShapeDistance hfirst.eligible, toInt_ShapeDistance hnonneg,
      hsame] at hkey
    omega

theorem findsNearest_of_sumsOrdered (h : SumsOrdered cache_ sig) : FindsNearest cache_ sig := by
  intro order horder
  rcases order.GetFuzzy_cases sig with ⟨hnone, hmiss⟩ | ⟨found, hfound, hbound, hfirst⟩
  · rw [hnone]
    refine ⟨⟨nofun, ?_⟩, nofun⟩
    rintro ⟨other, hother, hdom⟩
    obtain ⟨entry, hnearest⟩ := exists_isNearest hother hdom
    have hsmall := (h entry hnearest).1
    have hnonneg := (nonneg_iff hnearest.dominates).mpr (by omega)
    have hlarge := hmiss entry (horder.mem_iff.mpr hnearest.mem) hnonneg
    rw [Int64.le_iff_toInt_le, toInt_ShapeDistance hnonneg] at hlarge
    exact absurd hlarge (not_le.mpr hsmall)
  · have hmem : found ∈ cache_ := horder.mem_iff.mp hfirst.mem
    have hdom := dominates_of_nonneg hfirst.eligible
    rw [hfound]
    refine ⟨⟨fun _ => ⟨found, hmem, hdom⟩, fun _ => rfl⟩, ?_⟩
    rintro _ ⟨⟩
    obtain ⟨entry, hnearest⟩ := exists_isNearest hmem hdom
    obtain ⟨hsmall, hordered⟩ := h entry hnearest
    have hnonneg := (nonneg_iff hnearest.dominates).mpr (by omega)
    have hle := hfirst.le (horder.mem_iff.mpr hnearest.mem) hnonneg
    rw [Int64.le_iff_toInt_le, toInt_ShapeDistance hnonneg,
      toInt_ShapeDistance hfirst.eligible] at hle
    have hequal : surplus sig found ≤ surplus sig entry := by
      by_contra hlt
      have := hordered found hmem hdom (not_le.mp hlt)
      omega
    exact ⟨hmem, hdom, fun other hother hdom => hequal.trans (hnearest.least other hother hdom)⟩

/-- The fuzzy lookup is an exact search for the nearest dominating signature if and only if the sums
of differences are ordered modulo `2 ^ 64` as they are as integers. -/
theorem GetFuzzy_nearest_iff (cache_ : KernelCache) (sig : ShapeSignature) :
    FindsNearest cache_ sig ↔ SumsOrdered cache_ sig :=
  ⟨sumsOrdered_of_findsNearest, findsNearest_of_sumsOrdered⟩

theorem excess_nonneg {extents shapes : List Shape} (h : Covers shapes extents) :
    0 ≤ excess extents shapes := by
  have hsum {q c : Shape} (h : List.Forall₂ (· ≤ ·) q c) :
      0 ≤ (List.zipWith (fun q c => c.toInt - q.toInt) q c).sum := by
    induction h with
    | nil => exact le_rfl
    | cons hle _ ih =>
      exact add_nonneg (sub_nonneg.mpr (Int64.le_iff_toInt_le.mp hle)) ih
  induction h with
  | nil => exact le_rfl
  | cons hle _ ih => exact add_nonneg (hsum hle) ih

/-- Sums that are not as large as the largest number of `int64_t` are ordered. -/
theorem sumsOrdered_of_small
    (h : ∀ entry ∈ cache_, Dominates sig entry → surplus sig entry < 2 ^ 63 - 1) :
    SumsOrdered cache_ sig := by
  have hmod {entry : ShapeSignature × CompiledModule} (hmem : entry ∈ cache_)
      (hdom : Dominates sig entry) : surplus sig entry % 2 ^ 64 = surplus sig entry :=
    Int.emod_eq_of_lt (excess_nonneg hdom) (by have := h entry hmem hdom; omega)
  intro entry hnearest
  rw [hmod hnearest.mem hnearest.dominates]
  refine ⟨h entry hnearest.mem hnearest.dominates, fun other hother hdom hlt => ?_⟩
  rwa [hmod hother hdom]

/-- A query of one empty vector misses the only entry, whose extent is the largest. -/
theorem GetFuzzy_misses_largest :
    ¬ FindsNearest [(⟨[[Int64.maxValue]]⟩, { extents := [[4]], serial := 0 })] ⟨[[0]]⟩ := by
  intro h
  have hdom : Dominates ⟨[[0]]⟩ (⟨[[Int64.maxValue]]⟩, { extents := [[4]], serial := 0 }) :=
    .cons (.cons (by decide) .nil) .nil
  have hdist : ShapeDistance ⟨[[0]]⟩ ⟨[[Int64.maxValue]]⟩ = Int64.maxValue := by decide
  have hsome := (h _ (List.Perm.refl _)).1.mpr ⟨_, List.mem_singleton_self _, hdom⟩
  simp [GetFuzzy, nearer, hdist] at hsome

end KernelCache

end Kxc.Runtime
