import Kxc.Relay.Broadcasting
import Kxc.Relay.Lower
import Kxc.Relay.Op

/-! The products of matrices that `nn_dense` and `nn_gemm` are lowered to, and the types that are
inferred for them. -/

namespace Kxc.Relay.Op

open Lib Lib.MachineNumber Lib.IndexSpace Te Te.Topi
open Tir (DataType)

/-! ### `nn_dense` -/

section Dense

variable {F : Type} (ops : FloatOps F)

/-- `nn_dense` of tensors of two types is the product of the first one with the second one transposed,
and has the type that is inferred. -/
def DenseAgrees (attrs : Option Attrs) (data weight out : TensorTypeNode) : Prop :=
  ∀ (inputs : String → List Int → Scalar F) (A B T : Tensor) (out_type : Option RelayType),
    Represents ops inputs A data → Represents ops inputs B weight →
    DenseCompute attrs [A, B] out_type = .ok T →
      Represents ops inputs T out ∧ ∀ i j, InBounds [i, j] (out.shape.map Int64.toInt) →
        T.element ops inputs [i, j] = innerProduct ops A.dtype (data.shape.getD 1 0).toInt
          (fun k => A.element ops inputs [i, k]) fun k => B.element ops inputs [j, k]

variable {attrs : Option Attrs} {data weight out : TensorTypeNode}

theorem DenseInferType_eq_ok
    (h : DenseInferType attrs [data.toType, weight.toType] = .ok out.toType) :
    ∃ m K n K', data.shape = [m, K] ∧ weight.shape = [n, K'] ∧ data.dtype = weight.dtype ∧
      out = ⟨[m, if 0 < (AsDenseAttrs attrs).units then (AsDenseAttrs attrs).units else n],
        AttrOutDTypeOrDefault (AsDenseAttrs attrs).out_dtype data.dtype⟩ := by
  simp only [DenseInferType, except_bind_eq_ok, throwIf_eq_ok, RequireSameDType] at h
  obtain ⟨_, -, data', hdata, weight', hweight, _, hdtype, _, hrank, _, -, hout⟩ := h
  obtain rfl : data = data' := Except.ok.inj hdata
  obtain rfl : weight = weight' := Except.ok.inj hweight
  rw [not_or, not_not, not_not, List.length_eq_two, List.length_eq_two] at hrank
  obtain ⟨⟨m, K, hm⟩, n, K', hn⟩ := hrank
  refine ⟨m, K, n, K', hm, hn, not_not.mp hdtype, ?_⟩
  have := Except.ok.inj hout
  rw [hm, hn] at this
  obtain ⟨hshape, htype⟩ := RelayType.tensor.inj this
  exact (congrArg₂ TensorTypeNode.mk hshape htype).symm

/-- The product is of the type that is inferred exactly if the units are the rows of the second
matrix, and the data type is that of the first one, where they are given. -/
theorem denseAgrees_iff {d : DataType}
    (hinfer : DenseInferType attrs [data.toType, weight.toType] = .ok out.toType)
    (hdtype : DTypeFromString data.dtype = .ok d) :
    DenseAgrees ops attrs data weight out ↔
      ((AsDenseAttrs attrs).units ≤ 0 ∨ (AsDenseAttrs attrs).units = weight.shape.getD 0 0) ∧
        ((AsDenseAttrs attrs).out_dtype = "" ∨ (AsDenseAttrs attrs).out_dtype = data.dtype) := by
  obtain ⟨m, K, n, K', hdata, hweight, hsame, rfl⟩ := DenseInferType_eq_ok hinfer
  generalize AsDenseAttrs attrs = dense_attrs
  have hproduct {inputs : String → List Int → Scalar F} {A B : Tensor}
      (hA : Represents ops inputs A data) (hB : Represents ops inputs B weight) :
      HasDims ops inputs A [m.toInt, K.toInt] ∧ B.dtype = A.dtype ∧
        HasDims ops inputs (dense A B "T_dense") [m.toInt, n.toInt] := by
    have hAdims := hA.dims
    have hBdims := hB.dims
    rw [hdata] at hAdims
    rw [hweight] at hBdims
    refine ⟨hAdims, ?_, dense_dims hAdims hBdims⟩
    have := hB.dtype
    rw [← hsame, hA.dtype] at this
    exact (Except.ok.inj this).symm
  have hunits : dense_attrs.units ≤ 0 ∨ dense_attrs.units = n ↔
      n = if 0 < dense_attrs.units then dense_attrs.units else n := by
    split
    · have hpos : ¬ dense_attrs.units ≤ 0 := Int64.not_le.mpr ‹_›
      simp [hpos, eq_comm]
    · simp [Int64.not_lt.mp ‹_›]
  have hnamed : dense_attrs.out_dtype = "" ∨ dense_attrs.out_dtype = data.dtype ↔
      AttrOutDTypeOrDefault dense_attrs.out_dtype data.dtype = data.dtype := by
    rw [AttrOutDTypeOrDefault]
    split <;> simp_all
  rw [hweight, List.getD_cons_zero, hunits, hnamed]
  constructor
  · intro h
    let inputs : String → List Int → Scalar F := fun _ _ => .int 0
    let A := Tensor.placeholder "data" (ShapeFromTensorType data.shape) d
    let B := Tensor.placeholder "weight" (ShapeFromTensorType weight.shape) d
    have hA : Represents ops inputs A data := placeholder_represents "data" hdtype
    have hB : Represents ops inputs B weight := placeholder_represents "weight" (hsame ▸ hdtype)
    obtain ⟨hdims, htype⟩ := (h inputs A B _ none hA hB rfl).1
    obtain ⟨-, hextents⟩ := List.forall₂_cons.mp hdims
    obtain ⟨-, hextents'⟩ := List.forall₂_cons.mp (hproduct hA hB).2.2
    have hcolumns := (List.forall₂_cons.mp hextents').1.unique (List.forall₂_cons.mp hextents).1
    exact ⟨Int64.toInt_inj.mp hcolumns, DTypeFromString_inj htype hdtype⟩
  · rintro ⟨hcolumns, htype⟩ inputs A B T out_type hA hB hT
    obtain rfl : dense A B "T_dense" = T := Except.ok.inj hT
    obtain ⟨hAdims, hABtype, hdims⟩ := hproduct hA hB
    rw [← hcolumns, htype]
    refine ⟨⟨hdims, hA.dtype⟩, fun i j _ => ?_⟩
    rw [hdata]
    exact dense_element hAdims hABtype

end Dense

/-! ### `nn_gemm` -/

section Gemm

variable {F : Type} (ops : FloatOps F)

/-- `scale * x` for an element `x` of a data type. -/
def scaled (dtype : DataType) (scale : Float) (x : Scalar F) : Scalar F :=
  if scale == 1.0 then x
  else applyBinary ops .Mul dtype.floatFormat dtype.floatFormat x (constant ops dtype scale)

variable {ops} {inputs : String → List Int → Scalar F}

theorem ScaleTensor_shape (t : Tensor) (scale : Float) (name : String) :
    (ScaleTensor t scale name).shape = t.shape := by
  rw [ScaleTensor]
  split <;> rfl

theorem ScaleTensor_dtype (t : Tensor) (scale : Float) (name : String) :
    (ScaleTensor t scale name).dtype = t.dtype := by
  rw [ScaleTensor]
  split <;> rfl

theorem ScaleTensor_element {t : Tensor} {idx : List Int} (hlen : idx.length = t.shape.length)
    (scale : Float) (name : String) :
    (ScaleTensor t scale name).element ops inputs idx =
      scaled ops t.dtype scale (t.element ops inputs idx) := by
  rw [ScaleTensor, scaled]
  split
  · rfl
  · show applyBinary ops .Mul t.dtype.floatFormat (make_const t.dtype scale).kind _ _ = _
    rw [value_at_axisVars ops inputs _ hlen, make_const_value, make_const_kind]

/-- The product in `GemmCompute`. -/
def gemmProduct (transB : Int32) (A B : Tensor) : Tensor :=
  if transB = 1 then dense A B "T_gemm_dense" else matmul A B "T_gemm_matmul"

/-- The third operand in `GemmCompute`. -/
def gemmBias (beta : UInt32) (C : Tensor) : Tensor :=
  if widen beta != 1.0 then ScaleTensor C (widen beta) "T_gemm_beta" else C

theorem GemmCompute_eq_ok {alpha beta : UInt32} {transA transB : Int32} {A B C T : Tensor}
    {out_type : Option RelayType}
    (h : GemmCompute (some (.gemm alpha beta transA transB)) [A, B, C] out_type = .ok T) :
    transA = 0 ∧ T = binaryBroadcast .Add
      (ScaleTensor (gemmProduct transB A B) (widen alpha) "T_gemm_alpha") (gemmBias beta C)
      "T_gemm_out" := by
  simp only [GemmCompute, except_bind_eq_ok, throwIf_eq_ok, not_not] at h
  obtain ⟨_, -, _, htransA, A', hA, B', hB, C', hC, hT⟩ := h
  obtain rfl : A = A' := Except.ok.inj hA
  obtain rfl : B = B' := Except.ok.inj hB
  obtain rfl : C = C' := Except.ok.inj hC
  exact ⟨htransA, (Except.ok.inj hT).symm⟩

theorem gemmBias_shape (beta : UInt32) (C : Tensor) : (gemmBias beta C).shape = C.shape := by
  rw [gemmBias]
  split
  · exact ScaleTensor_shape _ _ _
  · rfl

theorem gemmBias_dtype (beta : UInt32) (C : Tensor) : (gemmBias beta C).dtype = C.dtype := by
  rw [gemmBias]
  split
  · exact ScaleTensor_dtype _ _ _
  · rfl

theorem gemmBias_element {C : Tensor} {idx : List Int} (hlen : idx.length = C.shape.length)
    (beta : UInt32) : (gemmBias beta C).element ops inputs idx =
      scaled ops C.dtype (widen beta) (C.element ops inputs idx) := by
  rw [gemmBias, bne]
  cases hone : widen beta == 1.0 with
  | true => rw [scaled, hone, if_pos rfl, Bool.not_true, if_neg Bool.false_ne_true]
  | false =>
    rw [Bool.not_false, if_pos rfl]
    exact ScaleTensor_element hlen _ _

/-- `nn_gemm` of operands with the rows `m` and columns `n`, written `eM` and `eN`, and with a third
one of the extents `c`, written `sC`: for every inner dimension it is a product, plus the third
operand, which broadcasts to its extents, and has the type that is inferred. -/
def GemmAgrees (ops : FloatOps F) (transB : Int32) (eM eN : PrimExpr) (sC : List PrimExpr)
    (m n : Int64) (c : List Int64) : Prop :=
  broadcastDims [m.toInt, n.toInt] (c.map Int64.toInt) = [m.toInt, n.toInt] ∧
    ∀ (K : Int64) (eK : PrimExpr), (∀ inputs, HasExtent ops inputs eK K.toInt) →
      ∀ (alpha beta : UInt32) (transA : Int32) (inputs : String → List Int → Scalar F)
        (A B C T : Tensor) (a b out : TensorTypeNode) (out_type : Option RelayType),
      A.shape = [eM, eK] → B.shape = (if transB ≠ 0 then [eN, eK] else [eK, eN]) → C.shape = sC →
      a.shape = [m, K] → b.shape = (if transB ≠ 0 then [n, K] else [K, n]) →
      Represents ops inputs A a → Represents ops inputs B b → Represents ops inputs C ⟨c, a.dtype⟩ →
      GemmInferType (some (.gemm alpha beta transA transB))
        [a.toType, b.toType, .tensor c a.dtype] = .ok out.toType →
      GemmCompute (some (.gemm alpha beta transA transB)) [A, B, C] out_type = .ok T →
        Represents ops inputs T out ∧ ∀ i j, InBounds [i, j] (out.shape.map Int64.toInt) →
          T.element ops inputs [i, j] = applyBinary ops .Add A.dtype.floatFormat A.dtype.floatFormat
            (scaled ops A.dtype (widen alpha) (innerProduct ops A.dtype K.toInt
              (fun k => A.element ops inputs [i, k])
              fun k => B.element ops inputs (if transB ≠ 0 then [j, k] else [k, j])))
            (scaled ops A.dtype (widen beta)
              (C.element ops inputs (operandIndex (c.map Int64.toInt) [i, j])))

theorem GemmInferType_eq_ok {alpha beta : UInt32} {transB : Int32} {a b out : TensorTypeNode}
    {c : List Int64} {m n K : Int64} (ha : a.shape = [m, K])
    (hb : b.shape = if transB ≠ 0 then [n, K] else [K, n])
    (h : GemmInferType (some (.gemm alpha beta 0 transB))
      [a.toType, b.toType, .tensor c a.dtype] = .ok out.toType) :
    a.dtype = b.dtype ∧ out = ⟨[m, n], a.dtype⟩ := by
  simp only [GemmInferType, except_bind_eq_ok, throwIf_eq_ok, RequireSameDType, not_not] at h
  obtain ⟨_, -, a', ha', b', hb', c', hc', _, hab, _, -, _, -, _, -, _, -, hout⟩ := h
  obtain rfl : a = a' := Except.ok.inj ha'
  obtain rfl : b = b' := Except.ok.inj hb'
  have hshape : out.shape = [m, n] := by
    have := (RelayType.tensor.inj (Except.ok.inj hout)).1
    rw [ha, hb] at this
    rw [← this]
    simp only [AsGemmAttrs]
    by_cases htransB : transB = 0 <;> simp [htransB]
  have htype : out.dtype = a.dtype := (RelayType.tensor.inj (Except.ok.inj hout)).2.symm
  exact ⟨hab, congrArg₂ TensorTypeNode.mk hshape htype⟩

theorem gemmProduct_shape {transB : Int32} {A B : Tensor} {eM eN eK : PrimExpr}
    (hA : A.shape = [eM, eK]) (hB : B.shape = if transB ≠ 0 then [eN, eK] else [eK, eN])
    (htransB : transB = 0 ∨ transB = 1) : (gemmProduct transB A B).shape = [eM, eN] := by
  rw [gemmProduct]
  rcases htransB with rfl | rfl
  · show [dimOf A 0, dimOf B 1] = _
    rw [dimOf, dimOf, hA, hB]
    rfl
  · show [dimOf A 0, dimOf B 0] = _
    rw [dimOf, dimOf, hA, hB]
    rfl

theorem gemmProduct_dtype (transB : Int32) (A B : Tensor) :
    (gemmProduct transB A B).dtype = A.dtype := by
  rw [gemmProduct]
  split <;> rfl

theorem gemmProduct_element {transB : Int32} {A B : Tensor} {m K : Int}
    (hA : HasDims ops inputs A [m, K]) (hdtype : B.dtype = A.dtype)
    (htransB : transB = 0 ∨ transB = 1) (i j : Int) :
    (gemmProduct transB A B).element ops inputs [i, j] = innerProduct ops A.dtype K
      (fun k => A.element ops inputs [i, k])
      fun k => B.element ops inputs (if transB ≠ 0 then [j, k] else [k, j]) := by
  rw [gemmProduct]
  rcases htransB with rfl | rfl
  · exact matmul_element hA hdtype
  · exact dense_element hA hdtype

theorem operandIndex_self {i j m n : Int} (h : InBounds [i, j] [m, n]) :
    operandIndex [m, n] [i, j] = [i, j] := by
  obtain ⟨hi, h⟩ := List.forall₂_cons.mp h
  obtain ⟨hj, -⟩ := List.forall₂_cons.mp h
  have hindex {i n : Int} (h : 0 ≤ i ∧ i < n) : (if n = 1 then 0 else i) = i := by
    split <;> omega
  exact congrArg₂ (fun x y => [x, y]) (hindex hi) (hindex hj)

theorem length_operandIndex {dims idx : List Int} (h : dims.length ≤ idx.length) :
    (operandIndex dims idx).length = dims.length := by
  simp only [operandIndex, List.length_zipWith, List.length_drop]
  omega

theorem gemm_agrees {transB : Int32} {eM eN : PrimExpr} {sC : List PrimExpr} {m n : Int64}
    {c : List Int64} (hM : ∀ inputs, HasExtent ops inputs eM m.toInt)
    (hN : ∀ inputs, HasExtent ops inputs eN n.toInt)
    (hC : ∀ inputs, List.Forall₂ (HasExtent ops inputs) sC (c.map Int64.toInt))
    (hcompatible : Compatible [m.toInt, n.toInt] (c.map Int64.toInt))
    (htransB : transB = 0 ∨ transB = 1)
    (hfits : broadcastDims [m.toInt, n.toInt] (c.map Int64.toInt) = [m.toInt, n.toInt])
    (hdecided : Decided [eM, eN] sC [m.toInt, n.toInt] (c.map Int64.toInt)) :
    GemmAgrees ops transB eM eN sC m n c := by
  refine ⟨hfits, fun K eK hK alpha beta transA inputs A B C T a b out out_type hA hB hCshape ha hb
    hAtype hBtype hCtype hinfer hT => ?_⟩
  obtain ⟨rfl, rfl⟩ := GemmCompute_eq_ok hT
  obtain ⟨hab, rfl⟩ := GemmInferType_eq_ok ha hb hinfer
  have hdtype : B.dtype = A.dtype := by
    have := hBtype.dtype
    rw [← hab, hAtype.dtype] at this
    exact (Except.ok.inj this).symm
  have hdtype' : C.dtype = A.dtype := by
    have := hCtype.dtype
    rw [hAtype.dtype] at this
    exact (Except.ok.inj this).symm
  have hAdims : HasDims ops inputs A [m.toInt, K.toInt] := by
    have := hAtype.dims
    rwa [ha] at this
  have hproduct := gemmProduct_shape hA hB htransB
  obtain ⟨hdims, helements⟩ := hdecided.broadcasts
    (fun inputs => .cons (hM inputs) (.cons (hN inputs) .nil)) hC hcompatible inputs .Add
    (ScaleTensor (gemmProduct transB A B) (widen alpha) "T_gemm_alpha") (gemmBias beta C)
    "T_gemm_out" ((ScaleTensor_shape _ _ _).trans hproduct) ((gemmBias_shape _ _).trans hCshape)
  rw [hfits] at hdims helements
  have htype : (ScaleTensor (gemmProduct transB A B) (widen alpha) "T_gemm_alpha").dtype =
      A.dtype := (ScaleTensor_dtype _ _ _).trans (gemmProduct_dtype transB A B)
  refine ⟨⟨hdims, hAtype.dtype.trans (congrArg Except.ok htype.symm)⟩, fun i j hidx => ?_⟩
  have hrank : (c.map Int64.toInt).length ≤ [i, j].length := by
    have := congrArg List.length hfits
    rw [length_broadcastDims] at this
    exact this ▸ Nat.le_max_right _ _
  have hlen : (operandIndex (c.map Int64.toInt) [i, j]).length = C.shape.length := by
    rw [length_operandIndex hrank, hCshape, (hC inputs).length_eq]
  rw [helements _ hidx, operandIndex_self hidx, htype, gemmBias_dtype, hdtype',
    ScaleTensor_element (by rw [hproduct]; rfl), gemmBias_element hlen, gemmProduct_dtype, hdtype',
    gemmProduct_element hAdims hdtype htransB]

theorem GemmInferType_accepts {transB : Int32} {m n K : Int64} {c bias : List Int64}
    (hbias : BroadcastShape "nn_gemm bias" c [m, n] = .ok bias) (alpha beta : UInt32)
    (dtype : String) :
    GemmInferType (some (.gemm alpha beta 0 transB))
      [.tensor [m, K] dtype, .tensor (if transB ≠ 0 then [n, K] else [K, n]) dtype,
        .tensor c dtype] = .ok (.tensor [m, n] dtype) := by
  have hsame : SameOrUnknown K K = true := by simp [SameOrUnknown]
  by_cases htransB : transB = 0
  · subst htransB
    simp only [GemmInferType, except_bind_eq_ok, throwIf_eq_ok, RequireSameDType, not_not]
    exact ⟨(), rfl, ⟨[m, K], dtype⟩, rfl, ⟨[K, n], dtype⟩, rfl, ⟨c, dtype⟩, rfl, (), rfl, (), rfl,
      (), by simp, (), by simp [AsGemmAttrs, hsame], bias, hbias, rfl⟩
  · simp only [GemmInferType, except_bind_eq_ok, throwIf_eq_ok, RequireSameDType, not_not,
      AsGemmAttrs, ne_eq, htransB, not_false_eq_true, if_true]
    exact ⟨(), rfl, ⟨[m, K], dtype⟩, rfl, ⟨[n, K], dtype⟩, rfl, ⟨c, dtype⟩, rfl, (), rfl, (), rfl,
      (), by simp, (), by simp [hsame], bias, hbias, rfl⟩

/-- A dimension that is not written as a literal. -/
theorem product_extent (K : Int32) (inputs : String → List Int → Scalar F) :
    HasExtent ops inputs (.int K * .int 1) K.toInt := by
  have hproduct := (hasExtent_int K).binary (@hasExtent_int _ ops inputs 1) .Mul rfl
  rwa [show Tir.BinaryOp.Mul.int K.toInt (1 : Int32).toInt = K.toInt from Int.mul_one _] at hproduct

theorem widen_one : (widen 0x3F800000 == 1.0) = true := by decide +kernel

theorem scaled_one (dtype : DataType) (x : Scalar F) :
    scaled ops dtype (widen 0x3F800000) x = x := by rw [scaled, if_pos widen_one]

section Converse

variable {transB : Int32} {eM eN eK : PrimExpr} {sC : List PrimExpr} {m n K : Int64}
  {c bias : List Int64}

/-- Operands of 64-bit integers, which are not scaled. -/
theorem gemmAgrees_run (h : GemmAgrees ops transB eM eN sC m n c)
    (hM : ∀ inputs, HasExtent ops inputs eM m.toInt)
    (hN : ∀ inputs, HasExtent ops inputs eN n.toInt)
    (hC : ∀ inputs, List.Forall₂ (HasExtent ops inputs) sC (c.map Int64.toInt))
    (hbias : BroadcastShape "nn_gemm bias" c [m, n] = .ok bias)
    (hK : ∀ inputs, HasExtent ops inputs eK K.toInt)
    (inputs : String → List Int → Scalar F) :
    let A := Tensor.placeholder "A" [eM, eK] (.Int 64)
    let B := Tensor.placeholder "B" (if transB ≠ 0 then [eN, eK] else [eK, eN]) (.Int 64)
    let C := Tensor.placeholder "C" sC (.Int 64)
    let T := binaryBroadcast .Add (gemmProduct transB A B) C "T_gemm_out"
    HasDims ops inputs T [m.toInt, n.toInt] ∧ ∀ i j, InBounds [i, j] [m.toInt, n.toInt] →
      T.element ops inputs [i, j] = applyBinary ops .Add none none
        (innerProduct ops (.Int 64) K.toInt (fun k => inputs "A" [i, k])
          fun k => inputs "B" (if transB ≠ 0 then [j, k] else [k, j]))
        (inputs "C" (operandIndex (c.map Int64.toInt) [i, j])) := by
  intro A B C T
  have hA : Represents ops inputs A ⟨[m, K], "int64"⟩ :=
    ⟨.cons (hM inputs) (.cons (hK inputs) .nil), rfl⟩
  have hB : Represents ops inputs B ⟨if transB ≠ 0 then [n, K] else [K, n], "int64"⟩ := by
    refine ⟨?_, rfl⟩
    show List.Forall₂ _ (if transB ≠ 0 then [eN, eK] else [eK, eN]) _
    split
    · exact .cons (hN inputs) (.cons (hK inputs) .nil)
    · exact .cons (hK inputs) (.cons (hN inputs) .nil)
  have hC' : Represents ops inputs C ⟨c, "int64"⟩ := ⟨hC inputs, rfl⟩
  have hT : GemmCompute (some (.gemm 0x3F800000 0x3F800000 0 transB)) [A, B, C] none = .ok T := by
    have hscale : ScaleTensor (gemmProduct transB A B) (widen 0x3F800000) "T_gemm_alpha" =
        gemmProduct transB A B := if_pos widen_one
    have hkeep : gemmBias 0x3F800000 C = C := by
      rw [gemmBias, bne, widen_one]
      rfl
    show Except.ok (binaryBroadcast .Add (ScaleTensor (gemmProduct transB A B) _ _)
      (gemmBias 0x3F800000 C) _) = _
    rw [hscale, hkeep]
  have hrun := h.2 K eK hK 0x3F800000 0x3F800000 0 inputs A B C T _ _ ⟨[m, n], "int64"⟩ none rfl rfl
    rfl rfl rfl hA hB hC' (GemmInferType_accepts hbias _ _ _) hT
  refine ⟨hrun.1.dims, fun i j hidx => ?_⟩
  have helement := hrun.2 i j hidx
  rw [scaled_one, scaled_one] at helement
  exact helement

theorem gemmAgrees_flag (h : GemmAgrees ops transB eM eN sC m n c)
    (hM : ∀ inputs, HasExtent ops inputs eM m.toInt)
    (hN : ∀ inputs, HasExtent ops inputs eN n.toInt)
    (hC : ∀ inputs, List.Forall₂ (HasExtent ops inputs) sC (c.map Int64.toInt))
    (hbias : BroadcastShape "nn_gemm bias" c [m, n] = .ok bias) : transB = 0 ∨ transB = 1 := by
  by_contra hflag
  rw [not_or] at hflag
  -- The columns of what is computed are the inner dimension, which is made another one than `n`.
  obtain ⟨K, hK⟩ : ∃ K : Int32, K.toInt ≠ n.toInt := by
    by_cases hn : n.toInt = 2
    · exact ⟨3, by rw [hn]; decide⟩
    · exact ⟨2, fun heq => hn heq.symm⟩
  have hextent (inputs : String → List Int → Scalar F) :
      HasExtent ops inputs (.int K * .int 1) K.toInt64.toInt := by
    rw [Int32.toInt_toInt64]
    exact product_extent K inputs
  have hdims := (gemmAgrees_run h hM hN hC hbias hextent fun _ _ => .int 0).1
  have hproduct (A : Tensor) :
      (gemmProduct transB A (.placeholder "B" [eN, .int K * .int 1] (.Int 64))).shape =
        [dimOf A 0, .int K * .int 1] := by
    rw [gemmProduct, if_neg hflag.2]
    rfl
  have hcolumn := ((forall₂_iff_getD (.int 1) 1).mp hdims).2 1 (by simp)
  rw [if_pos hflag.1] at hcolumn
  have hrank : Nat.max 2 sC.length = 2 := by
    have := congrArg List.length h.1
    rw [length_broadcastDims, ← (hC fun _ _ => .int 0).length_eq] at this
    exact this
  have hcomputed := @getD_InferBroadcastShape [eM, .int K * .int 1] sC 1
    (by show 1 < Nat.max 2 sC.length; omega)
  have hshape : (binaryBroadcast .Add (gemmProduct transB
      (.placeholder "A" [eM, .int K * .int 1] (.Int 64))
      (.placeholder "B" [eN, .int K * .int 1] (.Int 64))) (.placeholder "C" sC (.Int 64))
      "T_gemm_out").shape = InferBroadcastShape [eM, .int K * .int 1] sC :=
    congrArg (InferBroadcastShape · sC) (hproduct _)
  rw [hshape, hcomputed] at hcolumn
  have hrank' : Nat.max [eM, .int K * .int 1].length sC.length = 2 := hrank
  rw [hrank'] at hcolumn
  exact hK ((product_extent K _).unique hcolumn)

theorem gemmAgrees_decided (h : GemmAgrees ops transB eM eN sC m n c)
    (hM : ∀ inputs, HasExtent ops inputs eM m.toInt)
    (hN : ∀ inputs, HasExtent ops inputs eN n.toInt)
    (hC : ∀ inputs, List.Forall₂ (HasExtent ops inputs) sC (c.map Int64.toInt))
    (hm : IsKnown m = true) (hn : IsKnown n = true) (hc : ∀ d ∈ c, IsKnown d = true)
    (hbias : BroadcastShape "nn_gemm bias" c [m, n] = .ok bias) :
    Decided [eM, eN] sC [m.toInt, n.toInt] (c.map Int64.toInt) := by
  have hmn : ∀ d ∈ [m, n], IsKnown d = true := by simp [hm, hn]
  have hcompatible : Compatible [m.toInt, n.toInt] (c.map Int64.toInt) :=
    (BroadcastShape_spec hc hmn hbias).1.symm
  have htransB := gemmAgrees_flag h hM hN hC hbias
  by_contra hundecided
  rw [Decided] at hundecided
  push Not at hundecided
  obtain ⟨p, hp, -, hne, hreads⟩ := hundecided
  have hextent := getD_broadcastDims hp 1
  rw [h.1] at hextent
  have hrank : Nat.max [m.toInt, n.toInt].length (c.map Int64.toInt).length = 2 := by
    rw [← length_broadcastDims, h.1]
    rfl
  have hplace : [m.toInt, n.toInt].getD p 1 = aligned 1 [m.toInt, n.toInt]
      (Nat.max [m.toInt, n.toInt].length (c.map Int64.toInt).length) p := by
    rw [hrank] at hp ⊢
    obtain rfl | rfl : p = 0 ∨ p = 1 := by omega
    · rfl
    · rfl
  have hone : aligned 1 (c.map Int64.toInt)
      (Nat.max [m.toInt, n.toInt].length (c.map Int64.toInt).length) p = 1 := by
    rw [hplace] at hextent
    rcases (hcompatible p hp).resolve_left hne with hfirst | hsecond
    · exact absurd (hextent.trans (if_pos hfirst)) hne
    · exact hsecond
  obtain ⟨hnot, hnonzero⟩ := hreads hone
  rw [hone] at hne
  obtain ⟨idx, k, hidx, hread, hspec⟩ := exists_misread (hC fun _ _ => .int 0).length_eq
    (known_nonneg hmn) (known_nonneg hc) hp hne hone hnot hnonzero
  have hidx : InBounds idx [m.toInt, n.toInt] := h.1 ▸ hidx
  obtain ⟨i, j, rfl⟩ := List.length_eq_two.mp hidx.length_eq
  -- The product is zero, as the inner dimension is, and the third operand is 1 at the coordinate 1
  -- along the axis `k`.
  let inputs : String → List Int → Scalar F := fun name idx =>
    .int (if name = "C" ∧ idx.getD k 0 = 1 then 1 else 0)
  have hrun := (gemmAgrees_run (K := 0) h hM hN hC hbias (fun _ => hasExtent_int 0) inputs).2 i j hidx
  have hsum (x y : Int → Scalar F) : innerProduct ops (.Int 64) (0 : Int64).toInt x y = .int 0 := rfl
  have hthird (idx : List Int) : inputs "C" idx = .int (if idx.getD k 0 = 1 then 1 else 0) := by
    simp [inputs]
  let A := Tensor.placeholder "A" [eM, .int 0] (.Int 64)
  let B := Tensor.placeholder "B" (if transB ≠ 0 then [eN, .int 0] else [.int 0, eN]) (.Int 64)
  have hA : HasDims ops inputs A [m.toInt, 0] := .cons (hM inputs) (.cons (hasExtent_int 0) .nil)
  have hproduct : (gemmProduct transB A B).shape = [eM, eN] := gemmProduct_shape rfl rfl htransB
  have hzero (i j : Int) : (gemmProduct transB A B).element ops inputs [i, j] = .int 0 :=
    (gemmProduct_element (B := B) hA rfl htransB i j).trans (hsum _ _)
  have hlen : [i, j].length = Nat.max (gemmProduct transB A B).shape.length sC.length := by
    rw [hproduct, (hC inputs).length_eq]
    exact hrank.symm
  have hfirst : (gemmProduct transB A B).element ops inputs
      (readIndex (gemmProduct transB A B).shape [i, j]) = .int 0 := by
    rw [hproduct]
    exact hzero _ _
  have hread' : (readIndex (Tensor.placeholder "C" sC (.Int 64)).shape [i, j]).getD k 0 = 1 := hread
  have hthird' (idx : List Int) : (Tensor.placeholder "C" sC (.Int 64)).element ops inputs idx =
      .int (if idx.getD k 0 = 1 then 1 else 0) := hthird idx
  have hcomputed := @binaryBroadcast_element _ ops inputs _ .Add (gemmProduct transB A B)
    (.placeholder "C" sC (.Int 64)) "T_gemm_out" hlen
  rw [hfirst, hthird', hread', if_pos rfl, gemmProduct_dtype] at hcomputed
  have hspec' : inputs "C" (operandIndex (c.map Int64.toInt) [i, j]) = .int 0 := by
    rw [hthird, hspec]
    rfl
  rw [hsum, hspec'] at hrun
  exact absurd (Scalar.int.inj (hcomputed.symm.trans hrun)) (by decide)

end Converse

/-- A third operand broadcasts to the extents of the product exactly as the literals decide, and other
flags than 0 and 1 transpose the second operand for the type only. -/
theorem gemmAgrees_iff {transB : Int32} {eM eN : PrimExpr} {sC : List PrimExpr} {m n : Int64}
    {c bias : List Int64} (hM : ∀ inputs, HasExtent ops inputs eM m.toInt)
    (hN : ∀ inputs, HasExtent ops inputs eN n.toInt)
    (hC : ∀ inputs, List.Forall₂ (HasExtent ops inputs) sC (c.map Int64.toInt))
    (hm : IsKnown m = true) (hn : IsKnown n = true) (hc : ∀ d ∈ c, IsKnown d = true)
    (hbias : BroadcastShape "nn_gemm bias" c [m, n] = .ok bias) :
    GemmAgrees ops transB eM eN sC m n c ↔ (transB = 0 ∨ transB = 1) ∧
      broadcastDims [m.toInt, n.toInt] (c.map Int64.toInt) = [m.toInt, n.toInt] ∧
        Decided [eM, eN] sC [m.toInt, n.toInt] (c.map Int64.toInt) := by
  have hmn : ∀ d ∈ [m, n], IsKnown d = true := by simp [hm, hn]
  have hcompatible : Compatible [m.toInt, n.toInt] (c.map Int64.toInt) :=
    (BroadcastShape_spec hc hmn hbias).1.symm
  constructor
  · intro h
    exact ⟨gemmAgrees_flag h hM hN hC hbias, h.1, gemmAgrees_decided h hM hN hC hm hn hc hbias⟩
  · rintro ⟨htransB, hfits, hdecided⟩
    exact gemm_agrees hM hN hC hcompatible htransB hfits hdecided

end Gemm

/-! ### Both -/

/-- The types and elements of both operators are the ones that type inference says exactly if the
units and the data type of a dense layer are those of its operands, the flag that transposes is 0 or
1, and the third operand of `nn_gemm` broadcasts to the product. -/
theorem products_agree_iff {F : Type} {ops : FloatOps F} {attrs : Option Attrs}
    {data weight out : TensorTypeNode} {d : DataType}
    (hinfer : DenseInferType attrs [data.toType, weight.toType] = .ok out.toType)
    (hdtype : DTypeFromString data.dtype = .ok d)
    {transB : Int32} {eM eN : PrimExpr} {sC : List PrimExpr} {m n : Int64} {c bias : List Int64}
    (hM : ∀ inputs, HasExtent ops inputs eM m.toInt)
    (hN : ∀ inputs, HasExtent ops inputs eN n.toInt)
    (hC : ∀ inputs, List.Forall₂ (HasExtent ops inputs) sC (c.map Int64.toInt))
    (hm : IsKnown m = true) (hn : IsKnown n = true) (hc : ∀ d ∈ c, IsKnown d = true)
    (hbias : BroadcastShape "nn_gemm bias" c [m, n] = .ok bias) :
    (DenseAgrees ops attrs data weight out ↔
      ((AsDenseAttrs attrs).units ≤ 0 ∨ (AsDenseAttrs attrs).units = weight.shape.getD 0 0) ∧
        ((AsDenseAttrs attrs).out_dtype = "" ∨ (AsDenseAttrs attrs).out_dtype = data.dtype)) ∧
    (GemmAgrees ops transB eM eN sC m n c ↔ (transB = 0 ∨ transB = 1) ∧
      broadcastDims [m.toInt, n.toInt] (c.map Int64.toInt) = [m.toInt, n.toInt] ∧
        Decided [eM, eN] sC [m.toInt, n.toInt] (c.map Int64.toInt)) :=
  ⟨denseAgrees_iff ops hinfer hdtype, gemmAgrees_iff hM hN hC hm hn hc hbias⟩

theorem products_agree_small :
    (DenseAgrees FloatOps.zero (some (.dense 3 "")) ⟨[2, 4], "float32"⟩ ⟨[3, 4], "float32"⟩
        ⟨[2, 3], "float32"⟩ ↔ ((3 : Int64) ≤ 0 ∨ (3 : Int64) = 3) ∧ ("" = "" ∨ "" = "float32")) ∧
    (GemmAgrees FloatOps.zero 1 (.IntImm 2 (.Int 64)) (.IntImm 3 (.Int 64)) [.IntImm 3 (.Int 64)]
        2 3 [3] ↔ ((1 : Int32) = 0 ∨ (1 : Int32) = 1) ∧ broadcastDims [2, 3] [3] = [2, 3] ∧
      Decided [.IntImm 2 (.Int 64), .IntImm 3 (.Int 64)] [.IntImm 3 (.Int 64)] [2, 3] [3]) :=
  products_agree_iff (by rfl) (by rfl) (fun _ => hasExtent_int64 2) (fun _ => hasExtent_int64 3)
    (fun _ => .cons (hasExtent_int64 3) .nil) (by rfl) (by rfl)
    (List.forall_mem_singleton.mpr rfl) (show BroadcastShape "nn_gemm bias" [3] [2, 3] = .ok [2, 3]
      by rfl)

/-- Five units of a weight of three rows. -/
theorem dense_of_five_units :
    DenseInferType (some (.dense 5 "")) [.tensor [2, 4] "float32", .tensor [3, 4] "float32"] =
        .ok (.tensor [2, 5] "float32") ∧
      ¬ DenseAgrees FloatOps.zero (some (.dense 5 "")) ⟨[2, 4], "float32"⟩ ⟨[3, 4], "float32"⟩
        ⟨[2, 5], "float32"⟩ := by
  refine ⟨by rfl, fun h => ?_⟩
  have hunits := ((denseAgrees_iff (d := .Float 32) FloatOps.zero (by rfl) (by rfl)).mp h).1
  exact absurd hunits (by decide)

end Kxc.Relay.Op
