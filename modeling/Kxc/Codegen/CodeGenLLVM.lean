import Kxc.Lib.Llvm
import Kxc.Tir.Expr

/-! The LLVM values that `CodeGenLLVM` builds for expressions (`codegen/codegen_llvm.cc`). -/

namespace Kxc.Codegen.CodeGenLLVM

open Lib.MachineNumber Lib.Llvm Tir

abbrev Value := LLVMValue Var

/-- `CodeGenLLVM::GetLLVMType`. -/
def GetLLVMType (dtype : DataType) : Except String LLVMType :=
  if dtype.code = 2 ∧ dtype.bits = 32 then .ok (.float .single)
  else if dtype.code = 2 ∧ dtype.bits = 64 then .ok (.float .double)
  else if dtype.code = 2 ∧ dtype.bits = 16 then .ok (.float .half)
  else if dtype.code = 0 ∨ dtype.code = 1 then .ok (.int dtype.bits.toNat)
  else if dtype.code = 4 then .ok .void
  else .error s!"CodeGenLLVM: unsupported dtype code={dtype.code} bits={dtype.bits}"

def isFloatingPointTy : LLVMType → Bool
  | .float _ => true
  | _ => false

/-- `CodeGenLLVM::GenIntImm`; `ConstantInt::get` asserts that the type is one of integers. -/
def GenIntImm (value : Int64) (dtype : DataType) : Except String Value := do
  match ← GetLLVMType dtype with
  | .int bits => return .const bits (BitVec.ofInt bits value.toInt)
  | _ => throw "ConstantInt::get"

/-- `CodeGenLLVM::GenFloatImm`; `ConstantFP::get` asserts that the type is a floating-point one. -/
def GenFloatImm (value : Float) (dtype : DataType) : Except String Value := do
  match ← GetLLVMType dtype with
  | .float f => return .fconst f value
  | _ => throw "ConstantFP::get"

/-- `CodeGenLLVM::GenVar` of a variable that `var_map_` maps to a value of its type. -/
def GenVar (var : Var) : Except String Value := return .arg var (← GetLLVMType var.dtype)

/-- `CodeGenLLVM::CommonIntegerType`. -/
def CommonIntegerType (lhs rhs : Value) : Except String LLVMType :=
  match lhs.type, rhs.type with
  | .int m, .int n => .ok (.int (max m n))
  | _, _ => .error "CodeGenLLVM: expected integer operands"

/-- `CodeGenLLVM::CommonNumericType`. -/
def CommonNumericType (lhs rhs : Value) : Except String LLVMType :=
  if lhs.type = rhs.type then .ok lhs.type
  else if isFloatingPointTy lhs.type || isFloatingPointTy rhs.type then
    if lhs.type = .float .double ∨ rhs.type = .float .double then .ok (.float .double)
    else if lhs.type = .float .single ∨ rhs.type = .float .single then .ok (.float .single)
    else .ok (.float .half)
  else CommonIntegerType lhs rhs

/-- `getPrimitiveSizeInBits` of a format. -/
def sizeInBits : FloatFormat → Nat
  | .half => 16
  | .single => 32
  | .double => 64

/-- `CodeGenLLVM::CastValue`. -/
def CastValue (value : Value) (target_type : LLVMType) (is_signed : Bool) : Except String Value :=
  if value.type = target_type then .ok value
  else match value.type, target_type with
    | .int _, .int _ =>
      .ok (.cast (if is_signed then .sextOrTrunc else .zextOrTrunc) target_type value)
    | .int _, .float _ => .ok (.cast (if is_signed then .siToFP else .uiToFP) target_type value)
    | .float _, .int _ => .ok (.cast (if is_signed then .fpToSI else .fpToUI) target_type value)
    | .float f, .float g =>
      .ok (.cast (if sizeInBits f < sizeInBits g then .fpExt else .fpTrunc) target_type value)
    | _, _ => .error "CodeGenLLVM: unsupported scalar cast"

/-- `CodeGenLLVM::CastToBool`. -/
def CastToBool (value : Value) : Except String Value :=
  match value.type with
  | .int bits => .ok (if bits = 1 then value else .icmp .ne value (.const bits 0))
  | .float f => .ok (.fcmp .one value (.fconst f 0.0))
  | _ => .error "CodeGenLLVM: cannot cast value to bool"

/-- `CodeGenLLVM::PromoteBinaryOperands`. -/
def PromoteBinaryOperands (lhs rhs : Value) (lhs_dtype rhs_dtype : DataType) :
    Except String (Value × Value) := do
  let common_type ← CommonNumericType lhs rhs
  return (← CastValue lhs common_type (lhs_dtype.code == 0),
    ← CastValue rhs common_type (rhs_dtype.code == 0))

/-- The end of `CodeGenLLVM::GenBinaryOp`, on promoted operands. -/
def promotedOp (op : BinaryOp) (is_signed : Bool) (a b : Value) : Except String Value :=
  let is_float := isFloatingPointTy a.type
  let select (float : FloatPred) (signed unsigned : IntPred) : Value :=
    .select (if is_float then .fcmp float a b
      else .icmp (if is_signed then signed else unsigned) a b) a b
  match op with
  | .Add => .ok (if is_float then .float .fadd a b else .int .add a b)
  | .Sub => .ok (if is_float then .float .fsub a b else .int .sub a b)
  | .Mul => .ok (if is_float then .float .fmul a b else .int .mul a b)
  | .Div =>
    .ok (if is_float then .float .fdiv a b else .int (if is_signed then .sdiv else .udiv) a b)
  | .Mod =>
    .ok (if is_float then .float .frem a b else .int (if is_signed then .srem else .urem) a b)
  | .Min => .ok (select .olt .slt .ult)
  | .Max => .ok (select .ogt .sgt .ugt)
  | .EQ => .ok (if is_float then .fcmp .oeq a b else .icmp .eq a b)
  | .LT =>
    .ok (if is_float then .fcmp .olt a b else .icmp (if is_signed then .slt else .ult) a b)
  | .And | .Or => .error "CodeGenLLVM: unsupported binary op"

/-- `CodeGenLLVM::GenBinaryOp`, on the values of the operands. -/
def GenBinaryOp (op : BinaryOp) (a b : Value) (a_dtype b_dtype : DataType) :
    Except String Value := do
  match op with
  | .And => return .int .and (← CastToBool a) (← CastToBool b)
  | .Or => return .int .or (← CastToBool a) (← CastToBool b)
  | op =>
    let (a, b) ← PromoteBinaryOperands a b a_dtype b_dtype
    promotedOp op (a_dtype.code == 0 || b_dtype.code == 0) a b

/-- `Constant::getNullValue`. -/
def getNullValue : LLVMType → Value
  | .float f => .fconst f 0.0
  | .int bits => .const bits 0
  | _ => .const 0 0

/-- `CodeGenLLVM::GetOrDeclareIntrinsic`: the name of the intrinsic. -/
def GetOrDeclareIntrinsic (name : String) (type : LLVMType) : Except String String :=
  if !isFloatingPointTy type then
    .error s!"CodeGenLLVM: math call '{name}' requires floating-point dtype"
  else if name = "exp" ∨ name = "tir.exp" then .ok "exp"
  else if name = "log" ∨ name = "tir.log" then .ok "log"
  else if name = "sqrt" ∨ name = "tir.sqrt" then .ok "sqrt"
  else if name = "floor" ∨ name = "tir.floor" then .ok "floor"
  else if name = "ceil" ∨ name = "tir.ceil" then .ok "ceil"
  else if name = "fabs" ∨ name = "tir.fabs" then .ok "fabs"
  else .error s!"CodeGenLLVM: unsupported call '{name}'"

/-- `CodeGenLLVM::GenCall`, on the value of the argument. -/
def GenCall (dtype : DataType) (name : String) (arg : Value) (arg_dtype : DataType) :
    Except String Value := do
  let ret_type ← GetLLVMType dtype
  if name = "cast" then
    let is_signed :=
      if arg_dtype.code == 2 && dtype.code != 2 then dtype.code == 0 else arg_dtype.code == 0
    CastValue arg ret_type is_signed
  else
    let arg ← CastValue arg ret_type (arg_dtype.code == 0)
    return .call (← GetOrDeclareIntrinsic name ret_type) ret_type arg

/-- `CodeGenLLVM::GenExpr`. -/
def GenExpr : PrimExpr → Except String Value
  | .IntImm value dtype => GenIntImm value dtype
  | .FloatImm value dtype => GenFloatImm value dtype
  | .Var var => GenVar var
  | .Binary op a b => do GenBinaryOp op (← GenExpr a) (← GenExpr b) a.dtype b.dtype
  | .Load buffer_var index => do
    let index ← GenExpr index
    return .load (← GetLLVMType buffer_var.dtype) buffer_var index
  | .PredicatedLoad buffer_var index predicate => do
    let index ← GenExpr index
    let elem_type ← GetLLVMType buffer_var.dtype
    let pred ← CastToBool (← GenExpr predicate)
    return .select pred (.load elem_type buffer_var index) (getNullValue elem_type)
  | .Call dtype name arg => do GenCall dtype name (← GenExpr arg) arg.dtype
  | .Select condition true_value false_value => do
    let cond ← CastToBool (← GenExpr condition)
    let tv ← GenExpr true_value
    let fv ← GenExpr false_value
    let result_type ← CommonNumericType tv fv
    return .phi result_type cond (← CastValue tv result_type (true_value.dtype.code == 0))
      (← CastValue fv result_type (false_value.dtype.code == 0))
  | .Not value => do return .not (← CastToBool (← GenExpr value))

end Kxc.Codegen.CodeGenLLVM
