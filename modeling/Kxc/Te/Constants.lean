import Kxc.Te.Meaning
import Kxc.Te.Topi

/-! The constants of tensor expressions: the dimensions that `GetConstInt` reads, and the numbers of
`make_const`. -/

namespace Kxc.Te.Topi

open Lib.MachineNumber
open Tir (DataType Var)

variable {F : Type} {ops : FloatOps F} {inputs : String → List Int → Scalar F} {ρ : Var → Int}

theorem GetConstInt_eq_some {e : PrimExpr} {v : Int64} :
    GetConstInt e = some v ↔ ∃ dtype, e = .IntImm v dtype := by
  cases e <;> simp [GetConstInt]

/-- A dimension that is a literal is what it says. -/
theorem GetConstInt_extent {e : PrimExpr} {v : Int64} {n : Int} (he : HasExtent ops inputs e n)
    (h : GetConstInt e = some v) : v.toInt = n := by
  obtain ⟨dtype, rfl⟩ := GetConstInt_eq_some.mp h
  exact he.literal v dtype rfl

/-- `v` as a number of a type. -/
def constant (ops : FloatOps F) (t : DataType) (v : Float) : Scalar F :=
  if t.code = 0 ∨ t.code = 1 then .int (t.intFormat.wrap v.toInt64.toInt)
  else
    .float (ops.round (t.floatFormat.getD .double)
      (if t.code = 2 ∧ t.bits ≠ 64 then v.toFloat32.toFloat else v))

@[simp] theorem make_const_value (t : DataType) (v : Float) :
    (make_const t v).value ops inputs ρ = constant ops t v := by
  rw [make_const, constant]
  by_cases hcode : t.code = 2
  · by_cases hbits : t.bits = 64 <;> simp [hcode, hbits, PrimExpr.value]
  · by_cases hint : t.code = 0 ∨ t.code = 1 <;> simp [hcode, hint, PrimExpr.value]

@[simp] theorem make_const_kind (t : DataType) (v : Float) :
    (make_const t v).kind = t.floatFormat := by
  rw [make_const]
  by_cases hcode : t.code = 2
  · by_cases hbits : t.bits = 64 <;> simp [hcode, hbits, PrimExpr.kind]
  · by_cases hint : t.code = 0 ∨ t.code = 1 <;>
      simp [hcode, hint, PrimExpr.kind, DataType.floatFormat]

/-- The elements of a tensor by a constant. -/
theorem element_quotient {tensor : Tensor} {v : Float} {name : String} {idx : List Int}
    (hlen : idx.length = tensor.shape.length) :
    (compute tensor.shape
        (fun indices => tensor.at (indices.map .Var) / make_const tensor.dtype v)
        name).element ops inputs idx =
      applyBinary ops .Div tensor.dtype.floatFormat tensor.dtype.floatFormat
        (tensor.element ops inputs idx) (constant ops tensor.dtype v) := by
  show applyBinary ops .Div (PrimExpr.kind (tensor.at _)) (PrimExpr.kind (make_const _ _)) _ _ = _
  rw [value_at_axisVars ops inputs _ hlen, make_const_value, make_const_kind]
  rfl

end Kxc.Te.Topi
