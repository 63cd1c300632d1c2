import Kxc.Relay.TypeInfer
import Kxc.Te.Topi

/-! The compute functions of operators, which `FRelayToTE` names (`relay/op/tensor/reduce.cc`,
`relay/op/nn/softmax.cc`, `relay/op/nn/dense.cc`, `relay/op/nn/convolution.cc`,
`relay/op/nn/pooling.cc`). -/

namespace Kxc.Relay.Op

open Te (Tensor PrimExpr)
open Te.Topi (make_const GetConstInt)

/-- `FRelayToTE`. -/
abbrev FRelayToTE := Option Attrs → List Tensor → Option RelayType → Except String Tensor

def RequireInputCount (op_name : String) (inputs : List Tensor) (expected : Nat) :
    Except String Unit :=
  throwIf (inputs.length ≠ expected) s!"{op_name} expects exactly {expected} input(s)"

def RequireTensorOutput (op_name : String) (out_type : Option RelayType) : Except String Unit :=
  throwIf (AsTensor out_type).isNone s!"{op_name} expects TensorType output"

/-- `inputs[i]`. -/
def input (inputs : List Tensor) (i : Nat) : Except String Tensor :=
  inputs[i]?.elim (.error "Array::operator[]") .ok

def NormalizeAxis (op_name : String) (axis : Int) (rank : Nat) : Except String Nat := do
  let axis := if axis < 0 then axis + rank else axis
  throwIf (axis < 0 ∨ rank ≤ axis) s!"{op_name} axis out of range"
  return axis.toNat

/-- An iteration of the loop of `NormalizeAxes`. -/
def normalizeNext (op_name : String) (rank : Nat) (out : List Nat) (axis : Int64) :
    Except String (List Nat) := do
  let normalized ← NormalizeAxis op_name axis.toInt rank
  throwIf (normalized ∈ out) s!"{op_name} duplicate axis"
  return out ++ [normalized]

def NormalizeAxes (op_name : String) (axes : List Int64) (rank : Nat) :
    Except String (List Nat) :=
  if axes.isEmpty then .ok (List.range rank) else axes.foldlM (normalizeNext op_name rank) []

def ToAxisArray (axes : List Nat) : List Int := axes.map Int.ofNat

/-- An iteration of the loop of `ReductionElementCount`. -/
def countNext (shape : List PrimExpr) (count : Int64) (axis : Nat) : Except String Int64 :=
  match GetConstInt (shape.getD axis (.int 0)) with
  | some dim =>
    if dim < 0 then .error "reduce_mean lowering requires static reduction shape"
    else .ok (count * dim)
  | none => .error "reduce_mean lowering requires static reduction shape"

def ReductionElementCount (shape : List PrimExpr) (axes : List Nat) : Except String Int64 :=
  axes.foldlM (countNext shape) 1

def ReduceMeanCompute : FRelayToTE := fun attrs inputs out_type => do
  RequireInputCount "reduce_mean" inputs 1
  RequireTensorOutput "reduce_mean" out_type
  let data ← input inputs 0
  let reduce_attrs := AsReduceMeanAttrs attrs
  let axes ← NormalizeAxes "reduce_mean" reduce_attrs.axes data.shape.length
  let keepdims := reduce_attrs.keepdims != 0
  let sum_out := Te.Topi.sum data (ToAxisArray axes) keepdims "T_reduce_mean_sum"
  let denominator ← ReductionElementCount data.shape axes
  return Te.compute sum_out.shape
    (fun indices =>
      sum_out.at (indices.map .Var) / make_const sum_out.dtype denominator.toFloat)
    "T_reduce_mean"

/-- The index of the denominator of `SoftmaxCompute`. -/
def denomIndices (indices : List Tir.Var) (axis : Nat) : List PrimExpr :=
  indices.zipIdx.map fun (index, i) => if i = axis then .IntImm 0 (.Int 64) else .Var index

/-- `softmax_attrs ? softmax_attrs->axis : -1`. -/
def softmaxAxis : Option Attrs → Int
  | some (.softmax axis) => axis.toInt
  | _ => -1

def SoftmaxCompute : FRelayToTE := fun attrs inputs out_type => do
  RequireInputCount "softmax" inputs 1
  RequireTensorOutput "softmax" out_type
  let data ← input inputs 0
  throwIf (data.dtype.code ≠ 2) "softmax lowering requires floating-point input"
  let axis ← NormalizeAxis "softmax" (softmaxAxis attrs) data.shape.length
  let exp_out := Te.Topi.exp data "T_softmax_exp"
  let sum_out := Te.Topi.sum exp_out [(axis : Int)] true "T_softmax_sum"
  return Te.compute data.shape
    (fun indices => exp_out.at (indices.map .Var) / sum_out.at (denomIndices indices axis))
    "T_softmax"

/-! ### `relay/op/nn/dense.cc` -/

/-- A `float`, given by its bits, as a `double`. -/
def widen (bits : UInt32) : Float :=
  let sign := bits.toUInt64 >>> 31 <<< 63
  let exponent := bits.toUInt64 >>> 23 &&& 0xFF
  let fraction := bits.toUInt64 &&& 0x7FFFFF
  if exponent = 0xFF then .ofBits (sign ||| fraction <<< 29 ||| 0x7FF0000000000000)
  else if exponent ≠ 0 then .ofBits (sign ||| (exponent + 896) <<< 52 ||| fraction <<< 29)
  else if fraction = 0 then .ofBits sign
  -- A subnormal number becomes a normal one.
  else
    let leading := fraction.log2
    .ofBits (sign ||| (leading + 874) <<< 52 |||
      (fraction <<< (52 - leading) &&& 0xFFFFFFFFFFFFF))

def ScaleTensor (t : Tensor) (scale : Float) (name : String) : Tensor :=
  if scale == 1.0 then t
  else Te.compute t.shape (fun axis => t.at (axis.map .Var) * make_const t.dtype scale) name

def DenseCompute : FRelayToTE := fun _ inputs _ => do
  throwIf (inputs.length ≠ 2) "nn_dense expects exactly 2 inputs"
  let data ← input inputs 0
  let weight ← input inputs 1
  return Te.Topi.dense data weight "T_dense"

def GemmCompute : FRelayToTE := fun attrs inputs _ => do
  throwIf (inputs.length ≠ 3) "nn_gemm expects exactly 3 inputs"
  match attrs with
  | some (.gemm alpha beta transA transB) =>
    throwIf (transA ≠ 0) "nn_gemm currently does not support transA=1"
    let A ← input inputs 0
    let B ← input inputs 1
    let C ← input inputs 2
    let out := if transB = 1 then Te.Topi.dense A B "T_gemm_dense"
      else Te.Topi.matmul A B "T_gemm_matmul"
    let out := ScaleTensor out (widen alpha) "T_gemm_alpha"
    let bias := if widen beta != 1.0 then ScaleTensor C (widen beta) "T_gemm_beta" else C
    return Te.Topi.add out bias "T_gemm_out"
  | _ => .error "nn_gemm expects GemmAttrs"

/-! ### `relay/op/nn/convolution.cc` -/

def Read2DValue (v : List Int64) (idx : Nat) (default_value : Int32) : Int32 :=
  v[idx]?.elim default_value Int64.toInt32

/-- The check of the inputs of `Conv2DCompute`. -/
def requireConv2DInputs (inputs : List Tensor) : Except String Unit := do
  let data ← input inputs 0
  let weight ← input inputs 1
  throwIf (data.shape.length ≠ 4 ∨ weight.shape.length ≠ 4)
    "nn_conv2d currently expects NCHW/OIHW rank-4 tensors"
  throwIf (∃ bias ∈ inputs[2]?, bias.shape.length ≠ 1) "nn_conv2d bias must be rank-1"

def Conv2DCompute : FRelayToTE := fun attrs inputs _ => do
  throwIf (inputs.length < 2 ∨ 3 < inputs.length)
    "nn_conv2d expects 2 or 3 inputs (data, weight[, bias])"
  match attrs with
  | some (.conv2d strides padding dilation _ _ _ data_layout _ _ _) =>
    throwIf (data_layout ≠ "NCHW" ∧ data_layout ≠ "") "nn_conv2d currently only supports NCHW"
    requireConv2DInputs inputs
    let data ← input inputs 0
    let weight ← input inputs 1
    let conv_out := Te.Topi.conv2d_nchw data weight (Read2DValue strides 0 1)
      (Read2DValue strides 1 1) (Read2DValue padding 0 0) (Read2DValue padding 1 0)
      (Read2DValue dilation 0 1) (Read2DValue dilation 1 1) "T_conv2d"
    match inputs[2]? with
    | none => return conv_out
    | some bias =>
      return Te.compute conv_out.shape
        (fun axis => conv_out.at (axis.map .Var) + bias.at [Te.Topi.indexOf axis 1])
        "T_conv2d_bias_add"
  | _ => .error "nn_conv2d expects Conv2DAttrs"

/-! ### `relay/op/nn/pooling.cc` -/

def Read2DPair (values : List Int64) (default_value : Int32) : List Int32 :=
  match values with
  | a :: b :: _ => [a.toInt32, b.toInt32]
  | _ => [default_value, default_value]

/-- `ReadPadding` of this file. -/
def ReadPoolPadding (values : List Int64) : List Int32 :=
  match values with
  | a :: b :: c :: d :: _ => [a.toInt32, b.toInt32, c.toInt32, d.toInt32]
  | a :: b :: _ => [a.toInt32, b.toInt32, a.toInt32, b.toInt32]
  | _ => [0, 0]

/-- `MaxPool2DCompute` and `AvgPool2DCompute`, by the name of the operator and the kind of pooling. -/
def pool2DCompute (op_name pool_type name : String) : FRelayToTE := fun attrs inputs _ => do
  throwIf (inputs.length ≠ 1) s!"{op_name} expects exactly 1 input"
  match attrs with
  | some (.maxPool2d pool_size strides padding _ layout ceil_mode) =>
    let data ← input inputs 0
    throwIf (layout ≠ "NCHW" ∧ layout ≠ "" ∨ data.shape.length ≠ 4)
      s!"{op_name} expects NCHW rank-4 input"
    Te.Topi.pool2d data (Read2DPair pool_size 1) (Read2DPair strides 1) (ReadPoolPadding padding)
      pool_type ceil_mode name
  | _ => .error s!"{op_name} expects MaxPool2DAttrs"

def MaxPool2DCompute : FRelayToTE := pool2DCompute "nn_max_pool2d" "max" "T_max_pool2d"

def AvgPool2DCompute : FRelayToTE := pool2DCompute "nn_avg_pool2d" "avg" "T_avg_pool2d"

end Kxc.Relay.Op
