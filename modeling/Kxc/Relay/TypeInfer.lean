import Kxc.Relay.PrintIr

/-! The type relations of the operators (`relay/type_infer.cc`). A dimension of a shape is unknown
if it is negative. -/

namespace Kxc.Relay

/-- `FInferType`: an undefined `Attrs` is `none`. -/
abbrev FInferType := Option Attrs → List RelayType → Except String RelayType

/-- `if (condition) throw`. -/
def throwIf (condition : Prop) [Decidable condition] (what : String) : Except String Unit :=
  if condition then .error what else .ok ()

theorem throwIf_eq_ok {condition : Prop} [Decidable condition] {what : String} {u : Unit} :
    throwIf condition what = .ok u ↔ ¬ condition := by
  rw [throwIf]
  split <;> simp_all

theorem throwIf_bind {α : Type} {condition : Prop} [Decidable condition] {what : String}
    {f : Unit → Except String α} (h : ¬ condition) : (throwIf condition what >>= f) = f () := by
  rw [throwIf, if_neg h]
  rfl

/-- `TensorTypeNode`. -/
structure TensorTypeNode where
  shape : List Int64
  dtype : String

def TensorTypeNode.toType (t : TensorTypeNode) : RelayType := .tensor t.shape t.dtype

/-- `type.As<TensorTypeNode>()`. -/
def AsTensor : Option RelayType → Option TensorTypeNode
  | some (.tensor shape dtype) => some ⟨shape, dtype⟩
  | _ => none

def RequireArity (op_name : String) (input_types : List RelayType) (expected : Nat) :
    Except String Unit :=
  throwIf (input_types.length ≠ expected)
    s!"{op_name} expects {expected} input(s), got {input_types.length}"

/-- `TypeToString`. -/
def typeText : Option RelayType → String
  | some type => TypeToString type
  | none => "<unknown>"

def RequireTensor (op_name : String) (type : Option RelayType) (input_name : String) :
    Except String TensorTypeNode :=
  match AsTensor type with
  | some tensor => .ok tensor
  | none => .error s!"{op_name} expects TensorType for {input_name}, got {typeText type}"

def RequireSameDType (op_name : String) (lhs rhs : TensorTypeNode) : Except String Unit :=
  throwIf (lhs.dtype ≠ rhs.dtype) s!"{op_name} dtype mismatch: {lhs.dtype} vs {rhs.dtype}"

def IsKnown (dim : Int64) : Bool := 0 ≤ dim

def SameOrUnknown (lhs rhs : Int64) : Bool := !IsKnown lhs || !IsKnown rhs || lhs == rhs

/-- The loop of `KnownProduct`. -/
def knownProductFrom (product : Int64) : List Int64 → Int64
  | [] => product
  | dim :: dims => if IsKnown dim then knownProductFrom (product * dim) dims else -1

def KnownProduct (shape : List Int64) (first last : Nat) : Int64 :=
  knownProductFrom 1 ((shape.take last).drop first)

/-- The dimension of a shape at place `i` of `rank`, from the right. -/
def alignedDim (shape : List Int64) (rank i : Nat) : Int64 :=
  if rank ≤ shape.length + i then shape.getD (shape.length + i - rank) 1 else 1

/-- The dimension that two dimensions broadcast to. -/
def broadcastDim (what : String) (ldim rdim : Int64) : Except String Int64 :=
  if ldim = rdim then .ok ldim
  else if ldim = 1 then .ok rdim
  else if rdim = 1 then .ok ldim
  else if !IsKnown ldim || !IsKnown rdim then .ok (-1)
  else .error what

def BroadcastShape (op_name : String) (lhs rhs : List Int64) : Except String (List Int64) :=
  let rank := max lhs.length rhs.length
  let lhs_text := TensorTypeToString lhs "shape"
  let rhs_text := TensorTypeToString rhs "shape"
  (List.range rank).mapM fun i =>
    broadcastDim s!"{op_name} cannot broadcast shapes {lhs_text} and {rhs_text}"
      (alignedDim lhs rank i) (alignedDim rhs rank i)

def NormalizeAxis (op_name : String) (axis : Int) (rank : Nat) (allow_end : Bool) :
    Except String Nat := do
  let upper : Int := if allow_end then rank else rank - 1
  let axis := if axis < 0 then axis + rank else axis
  throwIf (axis < 0 ∨ upper < axis) s!"{op_name} axis out of range: {axis} for rank {rank}"
  return axis.toNat

def NormalizeAxes (op_name : String) (axes : List Int64) (rank : Nat) :
    Except String (List Nat) :=
  if axes.isEmpty then .ok (List.range rank)
  else
    axes.foldlM (fun out axis => do
      let normalized ← NormalizeAxis op_name axis.toInt rank false
      throwIf (normalized ∈ out) s!"{op_name} duplicate axis: {axis}"
      return out ++ [normalized]) []

def ReadVectorValue (values : List Int64) (index : Nat) (default_value : Int64) : Int64 :=
  values.getD index default_value

def ReadPair (values : List Int64) (default_value : Int64) : Int64 × Int64 :=
  match values with
  | [] => (default_value, default_value)
  | [a] => (a, a)
  | a :: b :: _ => (a, b)

/-- The padding before and after in each direction. -/
structure Padding where
  top : Int64 := 0
  left : Int64 := 0
  bottom : Int64 := 0
  right : Int64 := 0

/-- `ReadPadding`. The fourth value is read beyond the end of three. -/
def ReadPadding (values : List Int64) : Except String Padding :=
  match values with
  | [] => .ok {}
  | [a] => .ok ⟨a, a, a, a⟩
  | [a, b] => .ok ⟨a, b, a, b⟩
  | [_, _, _] => .error "vector::operator[]"
  | a :: b :: c :: d :: _ => .ok ⟨a, b, c, d⟩

def WindowOutputDim (op_name : String) (input kernel pad_before pad_after stride dilation : Int64)
    (ceil_mode : Bool) : Except String Int64 := do
  throwIf (stride ≤ 0 ∨ dilation ≤ 0) s!"{op_name} stride and dilation must be positive"
  if !IsKnown input || !IsKnown kernel then return -1
  else
    let effective_kernel := dilation * (kernel - 1) + 1
    let numerator := input + pad_before + pad_after - effective_kernel
    throwIf (numerator < 0) s!"{op_name} window is larger than input"
    return if ceil_mode then (numerator + stride - 1) / stride + 1 else numerator / stride + 1

def BinaryBroadcastInferType (op_name : String) (out_dtype : String) : FInferType :=
  fun _ input_types => do
  RequireArity op_name input_types 2
  let lhs ← RequireTensor op_name input_types[0]? "lhs"
  let rhs ← RequireTensor op_name input_types[1]? "rhs"
  RequireSameDType op_name lhs rhs
  let shape ← BroadcastShape op_name lhs.shape rhs.shape
  return .tensor shape (if out_dtype.isEmpty then lhs.dtype else out_dtype)

def CastDTypeFromCode (code : Int32) : Except String String :=
  match code with
  | 0 => .ok "float32"
  | 1 => .ok "int32"
  | 2 => .ok "int64"
  | 3 => .ok "float64"
  | 4 => .ok "bool"
  | 5 => .ok "int8"
  | 6 => .ok "uint8"
  | code => .error s!"cast has unsupported dtype code: {code}"

def AttrOutDTypeOrDefault (out_dtype default_dtype : String) : String :=
  if out_dtype.isEmpty then default_dtype else out_dtype

def IdentityInferType : FInferType := fun _ input_types => do
  RequireArity "identity" input_types 1
  input_types[0]?.elim (throw "Array::operator[]") pure

def AddInferType : FInferType := BinaryBroadcastInferType "add" ""

def SubtractInferType : FInferType := BinaryBroadcastInferType "subtract" ""

def MultiplyInferType : FInferType := BinaryBroadcastInferType "mul" ""

def DivideInferType : FInferType := BinaryBroadcastInferType "divide" ""

def PowInferType : FInferType := BinaryBroadcastInferType "pow" ""

def EqualInferType : FInferType := BinaryBroadcastInferType "equal" "bool"

def GreaterInferType : FInferType := BinaryBroadcastInferType "greater" "bool"

def UnarySameInferType : FInferType := fun _ input_types => do
  RequireArity "unary" input_types 1
  let data ← RequireTensor "unary" input_types[0]? "data"
  return data.toType

/-- `dtype` of `CastInferType`. -/
def castDType (attrs : Option Attrs) (dtype : String) : Except String String :=
  match attrs with
  | some (.cast to_) => CastDTypeFromCode to_
  | _ => .ok dtype

def CastInferType : FInferType := fun attrs input_types => do
  RequireArity "cast" input_types 1
  let data ← RequireTensor "cast" input_types[0]? "data"
  return .tensor data.shape (← castDType attrs data.dtype)

def MatMulInferType : FInferType := fun _ input_types => do
  RequireArity "matmul" input_types 2
  let lhs ← RequireTensor "matmul" input_types[0]? "a"
  let rhs ← RequireTensor "matmul" input_types[1]? "b"
  RequireSameDType "matmul" lhs rhs
  throwIf (lhs.shape.length ≠ 2 ∨ rhs.shape.length ≠ 2) "matmul currently expects rank-2 inputs"
  throwIf (!SameOrUnknown (lhs.shape.getD 1 0) (rhs.shape.getD 0 0))
    "matmul reduction dimension mismatch"
  return .tensor [lhs.shape.getD 0 0, rhs.shape.getD 1 0] lhs.dtype

/-- The attributes that `DenseInferType` reads, or their defaults. -/
structure DenseAttrsNode where
  units : Int64 := 0
  out_dtype : String := ""

def AsDenseAttrs : Option Attrs → DenseAttrsNode
  | some (.dense units out_dtype) => { units, out_dtype }
  | _ => {}

def DenseInferType : FInferType := fun attrs input_types => do
  RequireArity "nn_dense" input_types 2
  let data ← RequireTensor "nn_dense" input_types[0]? "data"
  let weight ← RequireTensor "nn_dense" input_types[1]? "weight"
  RequireSameDType "nn_dense" data weight
  throwIf (data.shape.length ≠ 2 ∨ weight.shape.length ≠ 2)
    "nn_dense expects rank-2 data and weight"
  throwIf (!SameOrUnknown (data.shape.getD 1 0) (weight.shape.getD 1 0))
    "nn_dense input dimension mismatch"
  let dense_attrs := AsDenseAttrs attrs
  let units := if 0 < dense_attrs.units then dense_attrs.units else weight.shape.getD 0 0
  return .tensor [data.shape.getD 0 0, units]
    (AttrOutDTypeOrDefault dense_attrs.out_dtype data.dtype)

/-- The attributes that `GemmInferType` reads, or their defaults. -/
structure GemmAttrsNode where
  transA : Int32 := 0
  transB : Int32 := 0

def AsGemmAttrs : Option Attrs → GemmAttrsNode
  | some (.gemm _ _ transA transB) => { transA, transB }
  | _ => {}

def GemmInferType : FInferType := fun attrs input_types => do
  RequireArity "nn_gemm" input_types 3
  let a_type ← RequireTensor "nn_gemm" input_types[0]? "A"
  let b_type ← RequireTensor "nn_gemm" input_types[1]? "B"
  let c_type ← RequireTensor "nn_gemm" input_types[2]? "C"
  RequireSameDType "nn_gemm" a_type b_type
  RequireSameDType "nn_gemm" a_type c_type
  throwIf (a_type.shape.length ≠ 2 ∨ b_type.shape.length ≠ 2) "nn_gemm expects rank-2 A and B"
  let gemm_attrs := AsGemmAttrs attrs
  let m := a_type.shape.getD (if gemm_attrs.transA ≠ 0 then 1 else 0) 0
  let k_a := a_type.shape.getD (if gemm_attrs.transA ≠ 0 then 0 else 1) 0
  let k_b := b_type.shape.getD (if gemm_attrs.transB ≠ 0 then 1 else 0) 0
  let n := b_type.shape.getD (if gemm_attrs.transB ≠ 0 then 0 else 1) 0
  throwIf (!SameOrUnknown k_a k_b) "nn_gemm reduction dimension mismatch"
  let _ ← BroadcastShape "nn_gemm bias" c_type.shape [m, n]
  return .tensor [m, n] a_type.dtype

/-- The attributes that `Conv2DInferType` reads, or their defaults. -/
structure Conv2DAttrsNode where
  strides : List Int64 := [1, 1]
  padding : List Int64 := []
  dilation : List Int64 := [1, 1]
  groups : Int32 := 1
  channels : Int32 := 0
  kernel_size : List Int64 := []
  data_layout : String := ""
  kernel_layout : String := ""
  out_dtype : String := ""

def AsConv2DAttrs : Option Attrs → Conv2DAttrsNode
  | some (.conv2d strides padding dilation groups channels kernel_size data_layout kernel_layout _
      out_dtype) =>
    { strides, padding, dilation, groups, channels, kernel_size, data_layout, kernel_layout,
      out_dtype }
  | _ => {}

/-- `channels` of `Conv2DInferType`. -/
def conv2DChannels (conv_attrs : Conv2DAttrsNode) (weight : TensorTypeNode) : Int64 :=
  if 0 < conv_attrs.channels then conv_attrs.channels.toInt64 else weight.shape.getD 0 0

/-- The check of the bias in `Conv2DInferType`. -/
def requireBias (data : TensorTypeNode) (channels : Int64) (input_types : List RelayType) :
    Except String Unit :=
  if input_types.length = 3 then do
    let bias ← RequireTensor "nn_conv2d" input_types[2]? "bias"
    RequireSameDType "nn_conv2d" data bias
    throwIf (bias.shape.length ≠ 1 ∨ !SameOrUnknown (bias.shape.getD 0 0) channels)
      "nn_conv2d bias must be rank-1 with output channels"
  else .ok ()

def Conv2DInferType : FInferType := fun attrs input_types => do
  throwIf (input_types.length ≠ 2 ∧ input_types.length ≠ 3) "nn_conv2d expects data, weight[, bias]"
  let data ← RequireTensor "nn_conv2d" input_types[0]? "data"
  let weight ← RequireTensor "nn_conv2d" input_types[1]? "weight"
  RequireSameDType "nn_conv2d" data weight
  throwIf (data.shape.length ≠ 4 ∨ weight.shape.length ≠ 4)
    "nn_conv2d expects NCHW/OIHW rank-4 tensors"
  let conv_attrs := AsConv2DAttrs attrs
  throwIf (conv_attrs.data_layout ≠ "" ∧ conv_attrs.data_layout ≠ "NCHW")
    "nn_conv2d only supports NCHW data layout in type inference"
  throwIf (conv_attrs.kernel_layout ≠ "" ∧ conv_attrs.kernel_layout ≠ "OIHW")
    "nn_conv2d only supports OIHW kernel layout in type inference"
  let groups := max 1 conv_attrs.groups.toInt64
  throwIf (IsKnown (data.shape.getD 1 0) ∧ IsKnown (weight.shape.getD 1 0) ∧
    data.shape.getD 1 0 ≠ weight.shape.getD 1 0 * groups) "nn_conv2d input channel mismatch"
  let strides := ReadPair conv_attrs.strides 1
  let dilation := ReadPair conv_attrs.dilation 1
  let padding ← ReadPadding conv_attrs.padding
  let kh := ReadVectorValue conv_attrs.kernel_size 0 (weight.shape.getD 2 0)
  let kw := ReadVectorValue conv_attrs.kernel_size 1 (weight.shape.getD 3 0)
  throwIf (!SameOrUnknown kh (weight.shape.getD 2 0) || !SameOrUnknown kw (weight.shape.getD 3 0))
    "nn_conv2d kernel_size does not match weight shape"
  let channels := conv2DChannels conv_attrs weight
  requireBias data channels input_types
  let oh ← WindowOutputDim "nn_conv2d" (data.shape.getD 2 0) kh padding.top padding.bottom
    strides.1 dilation.1 false
  let ow ← WindowOutputDim "nn_conv2d" (data.shape.getD 3 0) kw padding.left padding.right
    strides.2 dilation.2 false
  return .tensor [data.shape.getD 0 0, channels, oh, ow]
    (AttrOutDTypeOrDefault conv_attrs.out_dtype data.dtype)

/-- The attributes that `Pool2DInferType` reads, or their defaults. -/
structure MaxPool2DAttrsNode where
  pool_size : List Int64 := [1, 1]
  strides : List Int64 := [1, 1]
  padding : List Int64 := []
  dilation : List Int64 := [1, 1]
  layout : String := ""
  ceil_mode : Bool := false

def AsMaxPool2DAttrs : Option Attrs → MaxPool2DAttrsNode
  | some (.maxPool2d pool_size strides padding dilation layout ceil_mode) =>
    { pool_size, strides, padding, dilation, layout, ceil_mode }
  | _ => {}

def Pool2DInferType : FInferType := fun attrs input_types => do
  RequireArity "pool2d" input_types 1
  let data ← RequireTensor "pool2d" input_types[0]? "data"
  throwIf (data.shape.length ≠ 4) "pool2d expects NCHW rank-4 input"
  let pool_attrs := AsMaxPool2DAttrs attrs
  throwIf (pool_attrs.layout ≠ "" ∧ pool_attrs.layout ≠ "NCHW")
    "pool2d only supports NCHW layout in type inference"
  let pool_size := ReadPair pool_attrs.pool_size 1
  let strides := ReadPair pool_attrs.strides 1
  let dilation := ReadPair pool_attrs.dilation 1
  let padding ← ReadPadding pool_attrs.padding
  let oh ← WindowOutputDim "pool2d" (data.shape.getD 2 0) pool_size.1 padding.top padding.bottom
    strides.1 dilation.1 pool_attrs.ceil_mode
  let ow ← WindowOutputDim "pool2d" (data.shape.getD 3 0) pool_size.2 padding.left padding.right
    strides.2 dilation.2 pool_attrs.ceil_mode
  return .tensor [data.shape.getD 0 0, data.shape.getD 1 0, oh, ow] data.dtype

def GlobalAvgPool2DInferType : FInferType := fun _ input_types => do
  RequireArity "nn_global_avg_pool2d" input_types 1
  let data ← RequireTensor "nn_global_avg_pool2d" input_types[0]? "data"
  throwIf (data.shape.length ≠ 4) "nn_global_avg_pool2d expects NCHW rank-4 input"
  return .tensor [data.shape.getD 0 0, data.shape.getD 1 0, 1, 1] data.dtype

def FlattenInferType : FInferType := fun attrs input_types => do
  RequireArity "nn_flatten" input_types 1
  let data ← RequireTensor "nn_flatten" input_types[0]? "data"
  throwIf data.shape.isEmpty "nn_flatten expects rank >= 1"
  let flatten_axis := match attrs with
    | some (.flatten axis) => axis.toInt
    | _ => 1
  let axis ← NormalizeAxis "nn_flatten" flatten_axis data.shape.length true
  return .tensor [KnownProduct data.shape 0 axis, KnownProduct data.shape axis data.shape.length]
    data.dtype

/-- The state of the loop of `ReshapeInferType`. -/
structure ReshapeState where
  out : List Int64 := []
  infer_index : Option Nat := none
  known_product : Int64 := 1

/-- An iteration of the loop of `ReshapeInferType`. -/
def reshapeDim (input_shape : List Int64) (allowzero : Int32) (s : ReshapeState)
    (dim : Int64 × Nat) : Except String ReshapeState :=
  if 0 < dim.1 then
    .ok { s with out := s.out ++ [dim.1], known_product := s.known_product * dim.1 }
  else if dim.1 = 0 then
    if allowzero ≠ 0 then .ok { s with out := s.out ++ [0], known_product := 0 }
    else do
      throwIf (input_shape.length ≤ dim.2) "reshape 0-dim copy index exceeds input rank"
      let copied := input_shape.getD dim.2 0
      return { s with
        out := s.out ++ [copied]
        known_product := if IsKnown copied then s.known_product * copied else -1 }
  else if dim.1 = -1 then do
    throwIf s.infer_index.isSome "reshape allows at most one inferred -1 dimension"
    return { s with out := s.out ++ [-1], infer_index := some s.out.length }
  else .error "reshape only supports positive, 0, and -1 dimensions"

/-- The end of `ReshapeInferType`. -/
def reshapeResult (input_product : Int64) (s : ReshapeState) : Except String (List Int64) :=
  match s.infer_index with
  | some infer_index =>
    if 0 ≤ input_product ∧ 0 < s.known_product then do
      throwIf (input_product % s.known_product ≠ 0)
        "reshape cannot infer -1 dimension from element count"
      return s.out.set infer_index (input_product / s.known_product)
    else .ok s.out
  | none => do
    throwIf (0 ≤ input_product ∧ 0 ≤ s.known_product ∧ input_product ≠ s.known_product)
      "reshape element count mismatch"
    return s.out

def ReshapeInferType : FInferType := fun attrs input_types => do
  throwIf (input_types.length ≠ 1 ∧ input_types.length ≠ 2)
    "reshape expects data and optional legacy shape input"
  let data ← RequireTensor "reshape" input_types[0]? "data"
  match attrs with
  | some (.reshape newshape allowzero) =>
    let s ← newshape.zipIdx.foldlM (reshapeDim data.shape allowzero) {}
    let out ← reshapeResult (KnownProduct data.shape 0 data.shape.length) s
    return .tensor out data.dtype
  | _ => throw "reshape static type inference requires ReshapeAttrs"

def ShapeInferType : FInferType := fun _ input_types => do
  RequireArity "shape" input_types 1
  let data ← RequireTensor "shape" input_types[0]? "data"
  return .tensor [Int64.ofNat data.shape.length] "int64"

/-- An iteration of the loop of `TransposeInferType`: the axes that were seen, and the result. -/
def transposeDim (shape : List Int64) (s : List Nat × List Int64) (axis : Int64) :
    Except String (List Nat × List Int64) := do
  let normalized ← NormalizeAxis "transpose" axis.toInt shape.length false
  throwIf (normalized ∈ s.1) "transpose duplicate axis"
  return (normalized :: s.1, s.2 ++ [shape.getD normalized 0])

def TransposeInferType : FInferType := fun attrs input_types => do
  RequireArity "transpose" input_types 1
  let data ← RequireTensor "transpose" input_types[0]? "data"
  let rank := data.shape.length
  let perm := match attrs with
    | some (.transpose perm) => perm
    | _ => []
  let perm := if perm.isEmpty then (List.range rank).reverse.map Int64.ofNat else perm
  throwIf (perm.length ≠ rank) "transpose perm rank mismatch"
  let s ← perm.foldlM (transposeDim data.shape) ([], [])
  return .tensor s.2 data.dtype

/-- `ReduceMeanAttrsNode`, or the defaults of `ReduceMeanInferType`. -/
structure ReduceMeanAttrsNode where
  axes : List Int64 := []
  keepdims : Int64 := 1

def AsReduceMeanAttrs : Option Attrs → ReduceMeanAttrsNode
  | some (.reduceMean axes keepdims) => { axes, keepdims }
  | _ => {}

def ReduceMeanInferType : FInferType := fun attrs input_types => do
  RequireArity "reduce_mean" input_types 1
  let data ← RequireTensor "reduce_mean" input_types[0]? "data"
  let reduce_attrs := AsReduceMeanAttrs attrs
  let axes ← NormalizeAxes "reduce_mean" reduce_attrs.axes data.shape.length
  let out := (List.range data.shape.length).flatMap fun i =>
    if i ∈ axes then if reduce_attrs.keepdims ≠ 0 then [1] else [] else [data.shape.getD i 0]
  return .tensor out data.dtype

def SoftmaxInferType : FInferType := fun attrs input_types => do
  RequireArity "softmax" input_types 1
  let data ← RequireTensor "softmax" input_types[0]? "data"
  let axis := match attrs with
    | some (.softmax axis) => axis.toInt
    | _ => -1
  if data.shape.isEmpty then return data.toType
  else
    let _ ← NormalizeAxis "softmax" axis data.shape.length false
    return data.toType

/-- An iteration of the inner loop of `ConcatenateInferType`. -/
def concatenateDim (axis dim : Nat) (out current : Int64) : Except String Int64 :=
  if dim = axis then .ok (if IsKnown out && IsKnown current then out + current else -1)
  else do
    throwIf (!SameOrUnknown out current) "concatenate non-axis dimension mismatch"
    return out

/-- An iteration of the outer loop of `ConcatenateInferType`. -/
def concatenateField (first : TensorTypeNode) (axis : Nat) (out : List Int64)
    (field : Option RelayType × Nat) : Except String (List Int64) := do
  let current ← RequireTensor "concatenate" field.1 s!"field[{field.2}]"
  RequireSameDType "concatenate" first current
  throwIf (current.shape.length ≠ first.shape.length) "concatenate rank mismatch"
  (List.range out.length).mapM fun dim =>
    concatenateDim axis dim (out.getD dim 0) (current.shape.getD dim 0)

/-- `type.As<TupleTypeNode>()`, with the fields. -/
def AsTuple : Option RelayType → Option (List (Option RelayType))
  | some (.tuple fields) => some fields
  | _ => none

def ConcatenateInferType : FInferType := fun attrs input_types => do
  RequireArity "concatenate" input_types 1
  match AsTuple input_types[0]? with
  | some (field :: fields) =>
    let first ← RequireTensor "concatenate" field "field[0]"
    let concat_axis := match attrs with
      | some (.concat axis) => axis.toInt
      | _ => 0
    let axis ← NormalizeAxis "concatenate" concat_axis first.shape.length false
    let out ← (fields.zipIdx 1).foldlM (concatenateField first axis) first.shape
    return .tensor out first.dtype
  | _ => throw "concatenate expects a non-empty tuple of tensors"

/-- The fields of `SplitInferType` up to each point, from `previous` on, and the one after. -/
def splitFields (data : TensorTypeNode) (axis : Nat) (previous : Int64) :
    List Int64 → Except String (List (Option RelayType))
  | [] =>
    let axis_dim := data.shape.getD axis 0
    let last := if IsKnown axis_dim then axis_dim - previous else -1
    .ok [some (.tensor (data.shape.set axis last) data.dtype)]
  | point :: points => do
    let axis_dim := data.shape.getD axis 0
    throwIf (point < previous ∨ (IsKnown axis_dim ∧ axis_dim < point))
      "split points must be sorted within axis dimension"
    let fields ← splitFields data axis point points
    return some (.tensor (data.shape.set axis (point - previous)) data.dtype) :: fields

def SplitInferType : FInferType := fun attrs input_types => do
  RequireArity "split" input_types 1
  let data ← RequireTensor "split" input_types[0]? "data"
  match attrs with
  | some (.split (section_ :: points) split_axis) =>
    let axis ← NormalizeAxis "split" split_axis.toInt data.shape.length false
    if points.isEmpty then
      throwIf (section_ ≤ 0) "split sections must be positive"
      let axis_dim := data.shape.getD axis 0
      throwIf (IsKnown axis_dim ∧ axis_dim % section_ ≠ 0)
        "split sections do not divide axis dimension"
      let segment := if IsKnown axis_dim then axis_dim / section_ else -1
      return .tuple (List.replicate section_.toInt.toNat
        (some (.tensor (data.shape.set axis segment) data.dtype)))
    else return .tuple (← splitFields data axis 0 (section_ :: points))
  | _ => throw "split requires SplitAttrs with split points or sections"

def WhereInferType : FInferType := fun _ input_types => do
  RequireArity "where" input_types 3
  let cond ← RequireTensor "where" input_types[0]? "condition"
  let lhs ← RequireTensor "where" input_types[1]? "x"
  let rhs ← RequireTensor "where" input_types[2]? "y"
  throwIf (cond.dtype ≠ "bool") "where condition must have bool dtype"
  RequireSameDType "where" lhs rhs
  let value_shape ← BroadcastShape "where" lhs.shape rhs.shape
  let shape ← BroadcastShape "where" cond.shape value_shape
  return .tensor shape lhs.dtype

def GatherInferType : FInferType := fun attrs input_types => do
  RequireArity "gather" input_types 2
  let data ← RequireTensor "gather" input_types[0]? "data"
  let indices ← RequireTensor "gather" input_types[1]? "indices"
  throwIf (indices.dtype ≠ "int32" ∧ indices.dtype ≠ "int64")
    "gather indices must be int32 or int64"
  let gather_axis := match attrs with
    | some (.gather axis) => axis.toInt
    | _ => 0
  let axis ← NormalizeAxis "gather" gather_axis data.shape.length false
  return .tensor (data.shape.take axis ++ indices.shape ++ data.shape.drop (axis + 1)) data.dtype

/-- The type relations. -/
def typeRelations : List FInferType :=
  [IdentityInferType, AddInferType, SubtractInferType, MultiplyInferType, DivideInferType,
    PowInferType, EqualInferType, GreaterInferType, UnarySameInferType, CastInferType,
    MatMulInferType, DenseInferType, GemmInferType, Conv2DInferType, Pool2DInferType,
    GlobalAvgPool2DInferType, FlattenInferType, ReshapeInferType, ShapeInferType,
    TransposeInferType, ReduceMeanInferType, SoftmaxInferType, ConcatenateInferType,
    SplitInferType, WhereInferType, GatherInferType]

end Kxc.Relay
