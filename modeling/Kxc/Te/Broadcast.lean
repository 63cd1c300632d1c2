import Kxc.Te.Constants
import Mathlib.Data.List.GetD

/-! Binary operators on tensors of two shapes. The code takes a dimension for 1 if it is the literal 1;
what it computes is compared with the broadcasting of the extents. -/

namespace Kxc.Te.Topi

open Lib.MachineNumber Lib.IndexSpace
open Tir (DataType BinaryOp Var)

/-- An entry of a shape at place `i` of `rank`, from the right. -/
def aligned {α : Type} (one : α) (shape : List α) (rank i : Nat) : α :=
  if rank ≤ shape.length + i then shape.getD (shape.length + i - rank) one else one

/-- The extent that two extents broadcast to. -/
def broadcastExtent (n m : Int) : Int := if n = 1 then m else n

/-- The index of an operand that is combined into the output at `idx`. -/
def operandIndex (dims idx : List Int) : List Int :=
  List.zipWith (fun i n => if n = 1 then 0 else i) (idx.drop (idx.length - dims.length)) dims

/-- The extents that the extents of two shapes broadcast to. -/
def broadcastDims (dims dims' : List Int) : List Int :=
  let rank := Nat.max dims.length dims'.length
  (List.range rank).map fun i => broadcastExtent (aligned 1 dims rank i) (aligned 1 dims' rank i)

/-- The extents of two shapes are equal or 1 at each place. -/
def Compatible (dims dims' : List Int) : Prop :=
  let rank := Nat.max dims.length dims'.length
  ∀ i < rank, aligned 1 dims rank i = aligned 1 dims' rank i ∨ aligned 1 dims rank i = 1 ∨
    aligned 1 dims' rank i = 1

theorem Compatible.symm {dims dims' : List Int} (h : Compatible dims dims') :
    Compatible dims' dims := by
  have hmax : Nat.max dims'.length dims.length = Nat.max dims.length dims'.length :=
    Nat.max_comm _ _
  rw [Compatible, hmax]
  intro i hi
  rcases h i hi with heq | hone | hone'
  · exact .inl heq.symm
  · exact .inr (.inr hone)
  · exact .inr (.inl hone')

def IsLiteral (e : PrimExpr) : Prop := (GetConstInt e).isSome = true

instance (e : PrimExpr) : Decidable (IsLiteral e) := inferInstanceAs (Decidable (_ = true))

theorem isLiteral_int (n : Int32) : IsLiteral (.int n) := rfl

section Shapes

variable {F : Type} {ops : FloatOps F} {inputs : String → List Int → Scalar F} {ρ : Var → Int}
  {e e' : PrimExpr} {n n' : Int} {shape shape' : List PrimExpr} {dims dims' idx : List Int}

/-- The dimension of the output is what it should be unless it is taken from the first operand, as the
second is not a literal or the first is not. -/
theorem broadcastDim_extent (h : HasExtent ops inputs e n) (h' : HasExtent ops inputs e' n')
    (hcompatible : n = n' ∨ n = 1 ∨ n' = 1) :
    HasExtent ops inputs (broadcastDim e e') (broadcastExtent n n') ↔
      IsLiteral e ∧ IsLiteral e' ∨ n = n' ∨ n' = 1 := by
  have hfirst : HasExtent ops inputs e (broadcastExtent n n') ↔ n = n' ∨ n' = 1 := by
    have hextent : broadcastExtent n n' = n ↔ n = n' ∨ n' = 1 := by
      rw [broadcastExtent]
      split <;> omega
    rw [← hextent]
    exact ⟨fun hout => hout.unique h, fun heq => by rwa [heq]⟩
  rw [broadcastDim, IsLiteral, IsLiteral]
  cases hc : GetConstInt e with
  | none => simpa using hfirst
  | some v =>
    cases hc' : GetConstInt e' with
    | none => simpa using hfirst
    | some v' =>
      have hv := GetConstInt_extent h hc
      have hv' := GetConstInt_extent h' hc'
      have hone (w : Int64) : w = 1 ↔ w.toInt = 1 := Int64.toInt_inj.symm
      have heq : v = v' ↔ n = n' := by rw [← hv, ← hv', Int64.toInt_inj]
      simp only [hone, heq, hv, hv', Option.isSome_some, and_self, true_or, iff_true]
      rw [broadcastExtent]
      by_cases hn : n = 1
      · simpa [hn] using h'
      · rw [if_neg hn, if_neg hn]
        by_cases hn' : n' = 1
        · simpa [hn'] using h
        · rw [if_neg hn', if_pos (by omega)]
          exact h

theorem getD_padShape {rank i : Nat} (hlen : shape.length ≤ rank) :
    (padShape rank shape).getD i (.int 1) = aligned (.int 1) shape rank i := by
  rw [padShape, aligned]
  split
  · rw [List.getD_append_right _ _ _ _ (by rw [List.length_replicate]; omega),
      List.length_replicate, show i - (rank - shape.length) = shape.length + i - rank by omega]
  · rw [List.getD_append _ _ _ _ (by rw [List.length_replicate]; omega)]
    exact List.getD_replicate _ (by omega)

theorem aligned_extent (hdims : List.Forall₂ (HasExtent ops inputs) shape dims) {rank i : Nat}
    (hi : i < rank) :
    HasExtent ops inputs (aligned (.int 1) shape rank i) (aligned 1 dims rank i) := by
  rw [aligned, aligned, hdims.length_eq]
  split
  · exact ((forall₂_iff_getD (.int 1) 1).mp hdims).2 (dims.length + i - rank) (by omega)
  · exact hasExtent_int 1

theorem length_InferBroadcastShape :
    (InferBroadcastShape shape shape').length = Nat.max shape.length shape'.length := by
  simp [InferBroadcastShape, padShape]

theorem getD_InferBroadcastShape {i : Nat} (hi : i < Nat.max shape.length shape'.length) :
    let rank := Nat.max shape.length shape'.length
    (InferBroadcastShape shape shape').getD i (.int 1) =
      broadcastDim (aligned (.int 1) shape rank i) (aligned (.int 1) shape' rank i) := by
  intro rank
  have hle : shape.length ≤ rank := Nat.le_max_left _ _
  have hle' : shape'.length ≤ rank := Nat.le_max_right _ _
  have hpad (s : List PrimExpr) (hs : s.length ≤ rank) : i < (padShape rank s).length := by
    rw [padShape, List.length_append, List.length_replicate]
    omega
  rw [← getD_padShape hle, ← getD_padShape hle',
    ← List.getElem_eq_getD (h := by rwa [length_InferBroadcastShape]),
    ← List.getElem_eq_getD (h := hpad shape hle), ← List.getElem_eq_getD (h := hpad shape' hle')]
  exact List.getElem_zipWith

/-- The index at which the code reads an operand of a shape. -/
def readIndex (shape : List PrimExpr) (idx : List Int) : List Int :=
  List.zipWith (fun i dim => if GetConstInt dim = some 1 then 0 else i)
    (idx.drop (idx.length - shape.length)) shape

theorem indices_GetBroadcastIndices {rank : Nat} (hlen : idx.length = rank)
    (hout : shape'.length = rank) :
    PrimExpr.indices ops inputs (bind (axisVars rank) idx ρ)
        (GetBroadcastIndices (axisVars rank) shape shape') = readIndex shape idx := by
  have hvars := indices_axisVars (ρ := ρ) ops inputs hlen
  rw [indices_vars] at hvars
  have hindex (v : Var) (dim : PrimExpr) :
      toIndex ((broadcastIndex v dim).value ops inputs (bind (axisVars rank) idx ρ)) =
        if GetConstInt dim = some 1 then 0 else bind (axisVars rank) idx ρ v := by
    rw [broadcastIndex]
    split <;> simp only [value_int, PrimExpr.value] <;> rfl
  rw [indices_eq_map, GetBroadcastIndices, List.map_zipWith]
  simp only [hindex]
  rw [readIndex, hlen, hout]
  conv_rhs => rw [← hvars, ← List.map_drop, List.zipWith_map_left]

theorem binaryBroadcast_element {op : BinaryOp} {A B : Tensor} {name : String}
    (hlen : idx.length = Nat.max A.shape.length B.shape.length) :
    (binaryBroadcast op A B name).element ops inputs idx =
      applyBinary ops op A.dtype.floatFormat B.dtype.floatFormat
        (A.element ops inputs (readIndex A.shape idx))
        (B.element ops inputs (readIndex B.shape idx)) := by
  have hout := @length_InferBroadcastShape A.shape B.shape
  show applyBinary ops op _ _ (A.element ops inputs (PrimExpr.indices ops inputs _ _))
    (B.element ops inputs (PrimExpr.indices ops inputs _ _)) = _
  rw [indices_GetBroadcastIndices (hlen.trans hout.symm) rfl,
    indices_GetBroadcastIndices (hlen.trans hout.symm) rfl]
  rfl

/-- An operand is read where it should be if its dimensions of 1 that are no literals are read at 0. -/
theorem readIndex_eq (hdims : List.Forall₂ (HasExtent ops inputs) shape dims)
    (hle : dims.length ≤ idx.length)
    (h : ∀ i < idx.length, aligned 1 dims idx.length i = 1 →
      ¬ IsLiteral (aligned (.int 1) shape idx.length i) → idx.getD i 0 = 0) :
    readIndex shape idx = operandIndex dims idx := by
  rw [readIndex, operandIndex, hdims.length_eq]
  refine List.ext_getElem (by simp [hdims.length_eq]) fun k hk hk' => ?_
  simp only [List.length_zipWith, List.length_drop] at hk hk'
  have hextent := ((forall₂_iff_getD (.int 1) 1).mp hdims).2 k (by omega)
  have hplace : dims.length + (idx.length - dims.length + k) - idx.length = k := by omega
  have hread := h (idx.length - dims.length + k) (by omega)
  rw [aligned, aligned, hdims.length_eq, if_pos (by omega), if_pos (by omega), hplace] at hread
  rw [List.getElem_zipWith, List.getElem_zipWith, List.getElem_drop,
    List.getElem_eq_getD (l := shape) (.int 1), List.getElem_eq_getD (l := dims) 1,
    List.getElem_eq_getD (l := idx) 0]
  cases hc : GetConstInt (shape.getD k (.int 1)) with
  | none =>
    rw [if_neg (by simp)]
    split
    · refine hread ‹_› ?_
      rw [IsLiteral, hc]
      exact Bool.false_ne_true
    · rfl
  | some v =>
    have hv : v = 1 ↔ dims.getD k 1 = 1 := by
      rw [← GetConstInt_extent hextent hc]
      exact Int64.toInt_inj.symm
    simp only [Option.some.injEq, hv]

theorem length_broadcastDims :
    (broadcastDims dims dims').length = Nat.max dims.length dims'.length := by
  simp [broadcastDims]

theorem getD_broadcastDims {i : Nat} (hi : i < Nat.max dims.length dims'.length) (x : Int) :
    let rank := Nat.max dims.length dims'.length
    (broadcastDims dims dims').getD i x =
      broadcastExtent (aligned 1 dims rank i) (aligned 1 dims' rank i) := by
  have hlen := @length_broadcastDims dims dims'
  rw [← List.getElem_eq_getD (h := by rwa [hlen])]
  simp [broadcastDims]

theorem binaryBroadcast_dims {op : BinaryOp} {A B : Tensor} {name : String}
    (hA : HasDims ops inputs A dims) (hB : HasDims ops inputs B dims')
    (hcompatible : Compatible dims dims') :
    let rank := Nat.max dims.length dims'.length
    HasDims ops inputs (binaryBroadcast op A B name) (broadcastDims dims dims') ↔
      ∀ i < rank, IsLiteral (aligned (.int 1) A.shape rank i) ∧
        IsLiteral (aligned (.int 1) B.shape rank i) ∨
          aligned 1 dims rank i = aligned 1 dims' rank i ∨ aligned 1 dims' rank i = 1 := by
  intro rank
  have hrank : Nat.max A.shape.length B.shape.length = rank := by
    rw [hA.length_eq, hB.length_eq]
  have hlen := @length_InferBroadcastShape A.shape B.shape
  show List.Forall₂ _ (InferBroadcastShape A.shape B.shape) _ ↔ _
  rw [forall₂_iff_getD (.int 1) 1, length_broadcastDims, hlen, hrank, and_iff_right rfl]
  refine forall₂_congr fun i hi => ?_
  rw [getD_InferBroadcastShape (by rwa [hrank]), getD_broadcastDims hi, hrank]
  exact broadcastDim_extent (aligned_extent hA hi) (aligned_extent hB hi) (hcompatible i hi)

/-- Tensors of two shapes are combined as their extents broadcast. -/
def Broadcasts (ops : FloatOps F) (shape shape' : List PrimExpr) (dims dims' out : List Int) :
    Prop :=
  ∀ (inputs : String → List Int → Scalar F) (op : BinaryOp) (A B : Tensor) (name : String),
    A.shape = shape → B.shape = shape' →
      let T := binaryBroadcast op A B name
      HasDims ops inputs T out ∧ ∀ idx, InBounds idx out →
        T.element ops inputs idx = applyBinary ops op A.dtype.floatFormat B.dtype.floatFormat
          (A.element ops inputs (operandIndex dims idx))
          (B.element ops inputs (operandIndex dims' idx))

/-- At each place the dimensions are literals, or equal, or the second one is a literal 1, or 1 where
there are no elements. A place that a shape does not have holds a literal 1. -/
def Decided (shape shape' : List PrimExpr) (dims dims' : List Int) : Prop :=
  let rank := Nat.max dims.length dims'.length
  ∀ i < rank,
    IsLiteral (aligned (.int 1) shape rank i) ∧ IsLiteral (aligned (.int 1) shape' rank i) ∨
      aligned 1 dims rank i = aligned 1 dims' rank i ∨
        aligned 1 dims' rank i = 1 ∧ (IsLiteral (aligned (.int 1) shape' rank i) ∨
          ∃ n ∈ broadcastDims dims dims', n = 0)

theorem inBounds_broadcastDims (h : InBounds idx (broadcastDims dims dims')) :
    let rank := Nat.max dims.length dims'.length
    idx.length = rank ∧ ∀ i < rank, 0 ≤ idx.getD i 0 ∧
      idx.getD i 0 < broadcastExtent (aligned 1 dims rank i) (aligned 1 dims' rank i) := by
  obtain ⟨hlen, hbounds⟩ := inBounds_iff.mp h
  rw [length_broadcastDims] at hlen hbounds
  refine ⟨hlen, fun i hi => ?_⟩
  have := hbounds i hi
  rwa [getD_broadcastDims hi] at this

theorem Decided.broadcasts (h : ∀ inputs, List.Forall₂ (HasExtent ops inputs) shape dims)
    (h' : ∀ inputs, List.Forall₂ (HasExtent ops inputs) shape' dims')
    (hcompatible : Compatible dims dims') (hdecided : Decided shape shape' dims dims') :
    Broadcasts ops shape shape' dims dims' (broadcastDims dims dims') := by
  rintro inputs op A B name rfl rfl
  have hA : HasDims ops inputs A dims := h inputs
  have hB : HasDims ops inputs B dims' := h' inputs
  refine ⟨(binaryBroadcast_dims hA hB hcompatible).mpr fun i hi => ?_, fun idx hidx => ?_⟩
  · rcases hdecided i hi with hliteral | heq | ⟨hone, -⟩
    · exact .inl hliteral
    · exact .inr (.inl heq)
    · exact .inr (.inr hone)
  · obtain ⟨hlen, hbounds⟩ := inBounds_broadcastDims hidx
    have hnonzero : ¬ ∃ n ∈ broadcastDims dims dims', n = 0 := by
      rintro ⟨n, hn, rfl⟩
      have hempty := indexSpace_eq_nil.mpr ⟨0, hn, Int.le_refl 0⟩
      exact List.not_mem_nil (hempty ▸ mem_indexSpace.mpr hidx)
    have hrank : Nat.max A.shape.length B.shape.length = Nat.max dims.length dims'.length := by
      rw [hA.length_eq, hB.length_eq]
    have hle : dims.length ≤ idx.length := hlen ▸ Nat.le_max_left _ _
    have hle' : dims'.length ≤ idx.length := hlen ▸ Nat.le_max_right _ _
    rw [← hlen] at hbounds
    simp only [Decided, ← hlen] at hdecided
    have hreadA : readIndex A.shape idx = operandIndex dims idx := by
      refine readIndex_eq hA hle fun i hi hone hnot => ?_
      have hbound := hbounds i hi
      rw [broadcastExtent, if_pos hone] at hbound
      rcases hdecided i hi with ⟨hliteral, -⟩ | heq | ⟨hone', -⟩
      · exact absurd hliteral hnot
      · omega
      · omega
    have hreadB : readIndex B.shape idx = operandIndex dims' idx := by
      refine readIndex_eq hB hle' fun i hi hone hnot => ?_
      have hbound := hbounds i hi
      rcases hdecided i hi with ⟨-, hliteral⟩ | heq | ⟨-, hliteral | hzero⟩
      · exact absurd hliteral hnot
      · rw [broadcastExtent, if_pos (heq.trans hone), hone] at hbound
        omega
      · exact absurd hliteral hnot
      · exact absurd hzero hnonzero
    rw [binaryBroadcast_element (hlen.trans hrank.symm), hreadA, hreadB]

theorem aligned_nonneg (hpos : ∀ n ∈ dims, 0 ≤ n) {rank i : Nat} (hi : i < rank) :
    0 ≤ aligned 1 dims rank i := by
  rw [aligned]
  split
  · rw [← List.getElem_eq_getD (h := by omega) 1]
    exact hpos _ (List.getElem_mem _)
  · decide

theorem getD_readIndex {k : Nat} (hle : shape.length ≤ idx.length) (hk : k < shape.length) :
    (readIndex shape idx).getD k 0 = if GetConstInt (shape.getD k (.int 1)) = some 1 then 0
      else idx.getD (idx.length - shape.length + k) 0 := by
  have hlen : k < (readIndex shape idx).length := by
    simp only [readIndex, List.length_zipWith, List.length_drop]
    omega
  rw [← List.getElem_eq_getD (h := hlen), ← List.getElem_eq_getD (h := hk),
    ← List.getElem_eq_getD (l := idx) (h := by omega)]
  simp only [readIndex, List.getElem_zipWith, List.getElem_drop]

theorem getD_operandIndex {k : Nat} (hle : dims.length ≤ idx.length) (hk : k < dims.length) :
    (operandIndex dims idx).getD k 0 =
      if dims.getD k 1 = 1 then 0 else idx.getD (idx.length - dims.length + k) 0 := by
  have hlen : k < (operandIndex dims idx).length := by
    simp only [operandIndex, List.length_zipWith, List.length_drop]
    omega
  rw [← List.getElem_eq_getD (h := hlen), ← List.getElem_eq_getD (h := hk),
    ← List.getElem_eq_getD (l := idx) (h := by omega)]
  simp only [operandIndex, List.getElem_zipWith, List.getElem_drop]

/-- A dimension of 1 that is not a literal is read at 1 where another extent is broadcast to. -/
theorem exists_misread (hlen : shape'.length = dims'.length) (hpos : ∀ n ∈ dims, 0 ≤ n)
    (hpos' : ∀ n ∈ dims', 0 ≤ n) {i : Nat} (hi : i < Nat.max dims.length dims'.length)
    (hne : aligned 1 dims (Nat.max dims.length dims'.length) i ≠ 1)
    (hone : aligned 1 dims' (Nat.max dims.length dims'.length) i = 1)
    (hnot : ¬ IsLiteral (aligned (.int 1) shape' (Nat.max dims.length dims'.length) i))
    (hnonzero : ∀ n ∈ broadcastDims dims dims', n ≠ 0) :
    ∃ idx k, InBounds idx (broadcastDims dims dims') ∧ (readIndex shape' idx).getD k 0 = 1 ∧
      (operandIndex dims' idx).getD k 0 = 0 := by
  have hle' : dims'.length ≤ Nat.max dims.length dims'.length := Nat.le_max_right _ _
  have hextents {j : Nat} := @getD_broadcastDims dims dims' j
  have hlength := @length_broadcastDims dims dims'
  generalize Nat.max dims.length dims'.length = rank at hi hne hone hnot hle' hextents hlength
  have hplace : rank ≤ dims'.length + i := by
    by_contra hpad
    refine hnot ?_
    rw [aligned, hlen, if_neg hpad]
    exact isLiteral_int 1
  let k := dims'.length + i - rank
  let idx := (List.range rank).map fun j => if j = i then (1 : Int) else 0
  have hidxlen : idx.length = rank := by simp [idx]
  have hidx {j : Nat} (hj : j < rank) : idx.getD j 0 = if j = i then 1 else 0 := by simp [idx, hj]
  refine ⟨idx, k, inBounds_iff.mpr ⟨hidxlen.trans hlength.symm, fun j hj => ?_⟩, ?_, ?_⟩
  · rw [hlength] at hj
    have hmem : (broadcastDims dims dims').getD j 0 ∈ broadcastDims dims dims' := by
      rw [← List.getElem_eq_getD (h := by rwa [hlength])]
      exact List.getElem_mem _
    have hne0 := hnonzero _ hmem
    have hn := aligned_nonneg hpos hj
    have hn' := aligned_nonneg hpos' hj
    rw [hidx hj]
    rw [hextents hj, broadcastExtent] at hne0 ⊢
    by_cases hji : j = i
    · subst hji
      rw [if_neg hne] at hne0 ⊢
      rw [if_pos rfl]
      omega
    · rw [if_neg hji]
      split at hne0 <;> simp only [*, if_true, if_false] <;> omega
  · have hnone : GetConstInt (shape'.getD k (.int 1)) ≠ some 1 := by
      intro hliteral
      refine hnot ?_
      rw [aligned, hlen, if_pos hplace, IsLiteral, hliteral]
      rfl
    rw [getD_readIndex (by omega) (by omega), if_neg hnone, hidx (by omega), if_pos (by omega)]
  · rw [aligned, if_pos hplace] at hone
    rw [getD_operandIndex (by omega) (by omega), if_pos hone]

theorem broadcasts_decided (h : ∀ inputs, List.Forall₂ (HasExtent ops inputs) shape dims)
    (h' : ∀ inputs, List.Forall₂ (HasExtent ops inputs) shape' dims')
    (hcompatible : Compatible dims dims') (hpos : ∀ n ∈ dims, 0 ≤ n) (hpos' : ∀ n ∈ dims', 0 ≤ n)
    (hbroadcasts : Broadcasts ops shape shape' dims dims' (broadcastDims dims dims')) :
    Decided shape shape' dims dims' := by
  by_contra hundecided
  rw [Decided] at hundecided
  push Not at hundecided
  obtain ⟨i, hi, hliterals, hne, hreads⟩ := hundecided
  let A := Tensor.placeholder "a" shape (.Int 64)
  let B := Tensor.placeholder "b" shape' (.Int 64)
  have hone : aligned 1 dims' (Nat.max dims.length dims'.length) i = 1 := by
    obtain ⟨hdims, -⟩ := hbroadcasts (fun _ _ => .int 0) .Add A B "add" rfl rfl
    have hshapes := (binaryBroadcast_dims (A := A) (B := B) (h _) (h' _) hcompatible).mp hdims i hi
    exact (hshapes.resolve_left fun hboth => hliterals hboth.1 hboth.2).resolve_left hne
  obtain ⟨hnot, hnonzero⟩ := hreads hone
  rw [hone] at hne
  obtain ⟨idx, k, hidx, hread, hspec⟩ := exists_misread (h' fun _ _ => .int 0).length_eq hpos hpos'
    hi hne hone hnot hnonzero
  -- The first operand holds zeros, and the second one is 1 at the coordinate 1 along the axis `k`.
  let inputs : String → List Int → Scalar F := fun name j =>
    .int (if name = "b" ∧ j.getD k 0 = 1 then 1 else 0)
  have helement := (hbroadcasts inputs .Add A B "add" rfl rfl).2 idx hidx
  have hlen : idx.length = Nat.max A.shape.length B.shape.length := by
    rw [hidx.length_eq, length_broadcastDims, ← (h inputs).length_eq, ← (h' inputs).length_eq]
    rfl
  have hfirst (j : List Int) : A.element ops inputs j = .int 0 := rfl
  have hsecond (j : List Int) :
      B.element ops inputs j = .int (if j.getD k 0 = 1 then 1 else 0) := by
    simp [B, inputs, Tensor.element]
  have hread' : (readIndex B.shape idx).getD k 0 = 1 := hread
  rw [binaryBroadcast_element hlen, hfirst, hfirst, hsecond, hsecond, hread', hspec, if_pos rfl,
    if_neg (by decide)] at helement
  exact absurd (Scalar.int.inj helement) (by decide)

end Shapes

end Kxc.Te.Topi
