import Kxc.Relay.Op

/-! The compute functions of `nn_flatten`, `reshape` and `transpose`
(`relay/op/tensor/transform.cc`), and the offset of an index in a buffer (`relay/backend/lower.cc`). -/

namespace Kxc.Relay.Op

open Te (Tensor PrimExpr axisVars)

/-! ### Indices -/

/-- `FlattenIndex` and `LinearIndex`, by what they make of no indices and throw. -/
def linearIndex (zero : PrimExpr) (what : String) (indices dims : List PrimExpr) :
    Except String PrimExpr :=
  match dims, indices with
  | [], _ => .ok zero
  | _ :: dims, index :: indices =>
    if indices.length ≠ dims.length then .error what
    else .ok ((dims.zip indices).foldl (fun linear (dim, index) => linear * dim + index) index)
  | _ :: _, [] => .error what

def FlattenIndex (indices shape : List PrimExpr) : Except String PrimExpr :=
  linearIndex (.int 0) "Index rank mismatch during flattening" indices shape

def LinearIndex (indices dims : List PrimExpr) : Except String PrimExpr :=
  linearIndex (.IntImm 0 (.Int 64)) "reshape index rank mismatch" indices dims

/-- The loop of `UnflattenIndex`, from the last dimension on: `cur`, and the indices so far. -/
def unflattenFrom (flat : PrimExpr) : List PrimExpr → PrimExpr × List PrimExpr
  | [] => (flat, [])
  | dim :: dims =>
    let (cur, out) := unflattenFrom flat dims
    (cur / dim, cur % dim :: out)

def UnflattenIndex (flat : PrimExpr) (dims : List PrimExpr) : List PrimExpr :=
  (unflattenFrom flat dims).2

/-! ### `nn_flatten` and `reshape` -/

/-- `flatten_attrs ? flatten_attrs->axis : 1`. -/
def flattenAxis : Option Attrs → Int
  | some (.flatten axis) => axis.toInt
  | _ => 1

def FlattenCompute : FRelayToTE := fun attrs inputs out_type => do
  RequireInputCount "nn_flatten" inputs 1
  RequireTensorOutput "nn_flatten" out_type
  let data ← input inputs 0
  let ndim := data.shape.length
  throwIf (ndim = 0) "nn_flatten requires rank >= 1"
  let axis := flattenAxis attrs
  let axis := if axis < 0 then axis + ndim else axis
  throwIf (axis < 0 ∨ (ndim : Int) < axis) "nn_flatten axis out of range"
  let outer_dims := data.shape.take axis.toNat
  let inner_dims := data.shape.drop axis.toNat
  let outer := outer_dims.foldl (· * ·) (.int 1)
  let inner := inner_dims.foldl (· * ·) (.int 1)
  return Te.compute [outer, inner]
    (fun indices => data.at (UnflattenIndex (Te.Topi.indexOf indices 0) outer_dims ++
      UnflattenIndex (Te.Topi.indexOf indices 1) inner_dims))
    "T_flatten"

/-- `ShapeFromTensorType` of this file. -/
def StaticShapeFromTensorType (shape : List Int64) (op_name : String) :
    Except String (List PrimExpr) :=
  shape.mapM fun dim => do
    throwIf (dim < 0) s!"{op_name} lowering requires static output shape"
    return .IntImm dim (.Int 64)

def ReshapeCompute : FRelayToTE := fun _ inputs out_type => do
  RequireInputCount "reshape" inputs 1
  RequireTensorOutput "reshape" out_type
  let data ← input inputs 0
  let out_shape ← StaticShapeFromTensorType ((AsTensor out_type).elim [] (·.shape)) "reshape"
  Te.computeM out_shape (fun indices => do
    let flat ← LinearIndex (indices.map .Var) out_shape
    return data.at (UnflattenIndex flat data.shape)) "T_reshape"

/-! ### `transpose` -/

/-- An iteration of the first loop of `NormalizeTransposeAxes`. -/
def normalizeTransposeAxis (rank : Nat) (raw_axis : Int64) : Except String Nat := do
  let axis := raw_axis.toInt32.toInt
  let axis := if axis < 0 then axis + rank else axis
  throwIf (axis < 0 ∨ rank ≤ axis) "transpose axis out of range"
  return axis.toNat

def NormalizeTransposeAxes (data : Tensor) (attrs : Option Attrs) : Except String (List Nat) := do
  let rank := data.shape.length
  let perm := match attrs with
    | some (.transpose perm) => perm
    | _ => []
  let axes ← perm.mapM (normalizeTransposeAxis rank)
  let axes := if axes.isEmpty then (List.range rank).reverse else axes
  throwIf (axes.length ≠ rank) "transpose perm rank mismatch"
  throwIf (¬ axes.Nodup) "transpose duplicate axis"
  return axes

def TransposeCompute : FRelayToTE := fun attrs inputs out_type => do
  RequireInputCount "transpose" inputs 1
  RequireTensorOutput "transpose" out_type
  let data ← input inputs 0
  let axes ← NormalizeTransposeAxes data attrs
  return Te.Topi.transpose data axes "T_transpose"

end Kxc.Relay.Op
