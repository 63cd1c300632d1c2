import Kxc.Lib.CLanguage
import Kxc.Tir.Expr

/-! The C expressions that `CodeGenC` prints (`codegen/codegen_c.cc`). -/

namespace Kxc.Codegen.CodeGenC

open Lib.MachineNumber Lib.CLanguage Tir

/-- `CodeGenC::DTypeToCType`. -/
def DTypeToCType (dtype : DataType) : CTypeName :=
  if dtype.code = 2 then
    if dtype.bits = 32 then .float .single
    else if dtype.bits = 64 then .float .double
    else if dtype.bits = 16 then .float .half
    else .void
  else if dtype.code = 0 then
    if dtype.bits ∈ [8, 16, 32, 64] then .int ⟨true, dtype.bits.toNat⟩ else .void
  else if dtype.code = 1 then
    if dtype.bits = 1 then .bool
    else if dtype.bits ∈ [8, 16, 32, 64] then .int ⟨false, dtype.bits.toNat⟩
    else .void
  else .void

/-- Variables and the elements of buffers are declared with their type. -/
def typing (var : Var) : CTypeName := DTypeToCType var.dtype

/-- `std::to_string` of an integer. -/
def toLiteral (value : Int64) (ll : Bool) : CExpr Var :=
  if value < 0 then .neg (.lit value.toInt.natAbs ll) else .lit value.toInt.natAbs ll

/-- The functions that are called under another name. -/
def functionName (name : String) : String :=
  if name = "tir.exp" then "expf"
  else if name = "tir.log" then "logf"
  else if name = "tir.sqrt" then "sqrtf"
  else if name = "tir.tanh" then "tanhf"
  else if name = "tir.fabs" then "fabsf"
  else name

/-- `CodeGenC::GenExpr`. -/
def GenExpr : PrimExpr → CExpr Var
  | .IntImm value dtype => toLiteral value (dtype.bits = 64)
  | .FloatImm value dtype =>
    if value.isInf then .infinity value
    -- `snprintf` prints `nan`.
    else if value.isNaN then .text (if dtype.bits = 32 then "nanf" else "nan")
    else .flit (if dtype.bits = 32 then .single else .double) value
  | .Var var => .ident var
  | .Binary .Add a b => .arith .add (GenExpr a) (GenExpr b)
  | .Binary .Sub a b => .arith .sub (GenExpr a) (GenExpr b)
  | .Binary .Mul a b => .arith .mul (GenExpr a) (GenExpr b)
  | .Binary .Div a b => .arith .div (GenExpr a) (GenExpr b)
  | .Binary .Mod a b => .arith .rem (GenExpr a) (GenExpr b)
  | .Binary .Min a b => .cond (.rel .lt (GenExpr a) (GenExpr b)) (GenExpr a) (GenExpr b)
  | .Binary .Max a b => .cond (.rel .gt (GenExpr a) (GenExpr b)) (GenExpr a) (GenExpr b)
  | .Binary .EQ a b => .rel .eq (GenExpr a) (GenExpr b)
  | .Binary .LT a b => .rel .lt (GenExpr a) (GenExpr b)
  | .Binary .And a b => .land (GenExpr a) (GenExpr b)
  | .Binary .Or a b => .lor (GenExpr a) (GenExpr b)
  | .Not value => .not (GenExpr value)
  | .Load buffer_var index => .index buffer_var (GenExpr index)
  | .PredicatedLoad buffer_var index predicate =>
    .cond (GenExpr predicate) (.index buffer_var (GenExpr index)) (.lit 0 false)
  | .Call _ name arg => .call (functionName name) (GenExpr arg)
  | .Select condition true_value false_value =>
    .cond (GenExpr condition) (GenExpr true_value) (GenExpr false_value)

end Kxc.Codegen.CodeGenC
