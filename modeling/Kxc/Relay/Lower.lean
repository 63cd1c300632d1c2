import Kxc.Relay.TypeInfer
import Kxc.Te.Contraction

/-! The tensors that lowering makes of typed values (`relay/backend/lower.cc`). -/

namespace Kxc.Relay

open Lib.MachineNumber Te
open Tir (DataType)

def DTypeFromString (dtype : String) : Except String DataType :=
  match dtype with
  | "float32" => .ok (.Float 32)
  | "float64" => .ok (.Float 64)
  | "int32" => .ok (.Int 32)
  | "int64" => .ok (.Int 64)
  | "int8" => .ok (.Int 8)
  | "uint8" => .ok (.UInt 8)
  | "bool" => .ok .Bool
  | dtype => .error s!"Unsupported dtype string: {dtype}"

/-- Different names are of different types. -/
theorem DTypeFromString_inj {s s' : String} {d : DataType} (h : DTypeFromString s = .ok d)
    (h' : DTypeFromString s' = .ok d) : s = s' := by
  unfold DTypeFromString at h h'
  split at h <;> cases h <;> split at h' <;> cases h' <;> rfl

/-- A tensor has the extents and the data type of a type. -/
structure Represents {F : Type} (ops : FloatOps F) (inputs : String → List Int → Scalar F)
    (tensor : Tensor) (type : TensorTypeNode) : Prop where
  dims : HasDims ops inputs tensor (type.shape.map Int64.toInt)
  dtype : DTypeFromString type.dtype = .ok tensor.dtype

/-- The placeholder of a parameter. -/
theorem placeholder_represents {F : Type} {ops : FloatOps F}
    {inputs : String → List Int → Scalar F} (name : String) {type : TensorTypeNode} {d : DataType}
    (h : DTypeFromString type.dtype = .ok d) :
    Represents ops inputs (.placeholder name (ShapeFromTensorType type.shape) d) type where
  dims := placeholder_hasDims name type.shape d
  dtype := h

end Kxc.Relay
