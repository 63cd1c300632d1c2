import Kxc.Te.Constants

/-! Sums over named axes: what `dense` and `matmul` compute. -/

namespace Kxc.Te.Topi

open Lib.MachineNumber Lib.IndexSpace
open Tir (DataType Var joinKind)

section Reduce

variable {F : Type} {ops : FloatOps F} {inputs : String → List Int → Scalar F} {ρ : Var → Int}
  {idx is : List Int} {n : Nat}

/-- Reduction axes of some names and extents, from zero on. -/
def namedAxes (axes : List (String × PrimExpr)) : List IterVar :=
  axes.map fun (name, extent) => reduce_axis (.int 0) extent name

theorem namedAxes_vars (axes : List (String × PrimExpr)) :
    (namedAxes axes).map IterVar.var = (axes.map Prod.fst).map intVar := by
  rw [namedAxes, List.map_map, List.map_map]
  rfl

theorem namedAxes_extents (axes : List (String × PrimExpr)) :
    IterVar.extents ops inputs ρ (namedAxes axes) =
      PrimExpr.indices ops inputs ρ (axes.map Prod.snd) := by
  induction axes with
  | nil => rfl
  | cons a axes ih =>
    show _ :: IterVar.extents ops inputs ρ (namedAxes axes) = _
    rw [ih]
    rfl

theorem namedAxes_mins (axes : List (String × PrimExpr)) :
    IterVar.mins ops inputs ρ (namedAxes axes) = List.replicate axes.length 0 := by
  induction axes with
  | nil => rfl
  | cons a axes ih =>
    show _ :: IterVar.mins ops inputs ρ (namedAxes axes) = _
    rw [ih, List.length_cons, List.replicate_succ]
    congr 1

/-- A reduction over axes runs through the indices below their extents. -/
theorem value_reduce {axes : List (String × PrimExpr)} {dims : List Int} {source : PrimExpr}
    {type : ReduceType}
    (hdims : List.Forall₂ (HasExtent ops inputs) (axes.map Prod.snd) dims) :
    (PrimExpr.Reduce (namedAxes axes) source type).value ops inputs ρ =
      type.reduce ops source.dtype source.kind ((indexSpace dims).map fun is =>
        source.value ops inputs (bind ((axes.map Prod.fst).map intVar) is ρ)) := by
  have hlen : axes.length = dims.length := by simpa using hdims.length_eq
  rw [PrimExpr.value, namedAxes_extents, indices_extents hdims, namedAxes_mins, namedAxes_vars,
    List.map_map]
  congr 1
  refine List.map_congr_left fun is his => ?_
  rw [Function.comp_apply, zipWith_replicate_zero is (by rw [length_of_mem_indexSpace his, hlen])]

/-- The variables at an output index of a rank and at an index of named reduction axes. -/
def windowBind (names : List String) (rank : Nat) (idx is : List Int) : Var → Int :=
  bind (names.map intVar) is (bind (axisVars rank) idx fun _ => 0)

theorem element_reduce {axes : List (String × PrimExpr)} {dims : List Int} {shape : List PrimExpr}
    {source : List Var → PrimExpr} {type : ReduceType} {name : String}
    (hdims : List.Forall₂ (HasExtent ops inputs) (axes.map Prod.snd) dims) :
    (compute shape (fun indices => .Reduce (namedAxes axes) (source indices) type)
        name).element ops inputs idx =
      type.reduce ops (source (axisVars shape.length)).dtype (source (axisVars shape.length)).kind
        ((indexSpace dims).map fun is => (source (axisVars shape.length)).value ops inputs
          (windowBind (axes.map Prod.fst) shape.length idx is)) :=
  value_reduce hdims

/-- The variables of an output index are apart from those of the reduction axes. -/
theorem windowBind_output {names : List String} (hnames : ∀ s ∈ names, s.toList.head? ≠ some 'a')
    {i : Nat} (hi : i < idx.length) :
    windowBind names idx.length idx is ((axisVars idx.length).getD i (intVar "")) =
      idx.getD i 0 := by
  have hget : (axisVars idx.length).getD i (intVar "") = intVar s!"ax{i}" := by simp [axisVars, hi]
  rw [hget, windowBind, bind_of_notMem]
  · exact bind_axisVars rfl hi
  · rw [List.mem_map]
    rintro ⟨s, hs, heq⟩
    exact axisVar_ne (hnames s hs) i heq.symm

end Reduce

/-! ### Products of matrices -/

section Products

variable {F : Type} {ops : FloatOps F} {inputs : String → List Int → Scalar F} {A B : Tensor}
  {m n K i j : Int} {name : String}

/-- The sum of `K` products. -/
def innerProduct (ops : FloatOps F) (dtype : DataType) (K : Int) (x y : Int → Scalar F) :
    Scalar F :=
  ReduceType.kSum.reduce ops dtype dtype.floatFormat ((List.range K.toNat).map fun k : Nat =>
    applyBinary ops .Mul dtype.floatFormat dtype.floatFormat (x k) (y k))

theorem dimOf_extent {dims : List Int} (h : HasDims ops inputs A dims) {i : Nat}
    (hi : i < dims.length) : HasExtent ops inputs (dimOf A i) (dims.getD i 0) :=
  ((forall₂_iff_getD (PrimExpr.int 0) 0).mp h).2 i hi

@[simp] theorem joinKind_self (k : Option FloatFormat) : joinKind k k = k := by
  cases k <;> simp [joinKind]

theorem value_indexOf {ρ : Var → Int} (vars : List Var) (i : Nat) :
    toIndex ((indexOf vars i).value ops inputs ρ) = ρ (vars.getD i (intVar "")) := rfl

theorem windowBind_k {k : Int} :
    windowBind ["k"] 2 [i, j] [k] ((axisVars 2).getD 0 (intVar "")) = i ∧
      windowBind ["k"] 2 [i, j] [k] ((axisVars 2).getD 1 (intVar "")) = j ∧
        windowBind ["k"] 2 [i, j] [k] (intVar "k") = k := by
  have hnames : ∀ s ∈ ["k"], s.toList.head? ≠ some 'a' := by simp
  exact ⟨@windowBind_output [i, j] _ _ hnames _ (by simp),
    @windowBind_output [i, j] _ _ hnames _ (by simp), bind_cons_self⟩

/-- A sum over `k` of the products of the elements at two indices. -/
theorem product_element {shape : List PrimExpr} {extent : PrimExpr}
    (left right : List Var → List PrimExpr) (row column : Int → List Int)
    (hextent : HasExtent ops inputs extent K) (hdtype : B.dtype = A.dtype)
    (hleft : ∀ k, PrimExpr.indices ops inputs (windowBind ["k"] shape.length [i, j] [k])
      (left (axisVars shape.length)) = row k)
    (hright : ∀ k, PrimExpr.indices ops inputs (windowBind ["k"] shape.length [i, j] [k])
      (right (axisVars shape.length)) = column k) :
    (compute shape (fun indices => Te.sum (A.at (left indices) * B.at (right indices))
        [reduce_axis (.int 0) extent "k"]) name).element ops inputs [i, j] =
      innerProduct ops A.dtype K (fun k => A.element ops inputs (row k))
        fun k => B.element ops inputs (column k) := by
  have hextents : List.Forall₂ (HasExtent ops inputs) [extent] [K] := .cons hextent .nil
  refine (@element_reduce _ _ _ _ [("k", extent)] _ _ _ _ _ hextents).trans ?_
  rw [indexSpace_singleton, List.map_map]
  show ReduceType.reduce ops .kSum A.dtype (joinKind A.dtype.floatFormat B.dtype.floatFormat) _ = _
  rw [hdtype, joinKind_self, innerProduct]
  congr 1
  refine List.map_congr_left fun k _ => ?_
  show applyBinary ops .Mul A.dtype.floatFormat B.dtype.floatFormat
    (A.element ops inputs (PrimExpr.indices ops inputs (windowBind ["k"] _ _ _) _))
    (B.element ops inputs (PrimExpr.indices ops inputs (windowBind ["k"] _ _ _) _)) = _
  rw [hleft, hright, hdtype]

theorem dense_element (hA : HasDims ops inputs A [m, K]) (hdtype : B.dtype = A.dtype) :
    (dense A B name).element ops inputs [i, j] =
      innerProduct ops A.dtype K (fun k => A.element ops inputs [i, k])
        fun k => B.element ops inputs [j, k] := by
  refine product_element (fun indices => [indexOf indices 0, .Var (intVar "k")])
    (fun indices => [indexOf indices 1, .Var (intVar "k")]) _ _ (dimOf_extent hA (by simp)) hdtype
    (fun k => ?_) fun k => ?_
  · obtain ⟨h0, -, hk⟩ := @windowBind_k i j k
    exact congrArg₂ (fun x y => [x, y]) h0 hk
  · obtain ⟨-, h1, hk⟩ := @windowBind_k i j k
    exact congrArg₂ (fun x y => [x, y]) h1 hk

theorem matmul_element (hA : HasDims ops inputs A [m, K]) (hdtype : B.dtype = A.dtype) :
    (matmul A B name).element ops inputs [i, j] =
      innerProduct ops A.dtype K (fun k => A.element ops inputs [i, k])
        fun k => B.element ops inputs [k, j] := by
  refine product_element (fun indices => [indexOf indices 0, .Var (intVar "k")])
    (fun indices => [.Var (intVar "k"), indexOf indices 1]) _ _ (dimOf_extent hA (by simp)) hdtype
    (fun k => ?_) fun k => ?_
  · obtain ⟨h0, -, hk⟩ := @windowBind_k i j k
    exact congrArg₂ (fun x y => [x, y]) h0 hk
  · obtain ⟨-, h1, hk⟩ := @windowBind_k i j k
    exact congrArg₂ (fun x y => [x, y]) hk h1

theorem dense_dims {K' : Int} (hA : HasDims ops inputs A [m, K]) (hB : HasDims ops inputs B [n, K']) :
    HasDims ops inputs (dense A B name) [m, n] :=
  .cons (dimOf_extent hA (by simp)) (.cons (dimOf_extent hB (by simp)) .nil)

theorem matmul_dims {K' : Int} (hA : HasDims ops inputs A [m, K])
    (hB : HasDims ops inputs B [K', n]) : HasDims ops inputs (matmul A B name) [m, n] :=
  .cons (dimOf_extent hA (by simp)) (.cons (dimOf_extent hB (by simp)) .nil)

end Products

end Kxc.Te.Topi
