import Kxc.Lib.Binary64
import Kxc.Tir.Pass

/-! The pass that computes operators on literals (`tir/transforms/fold_constant.cc`). -/

namespace Kxc.Tir.FoldConstant

open Lib.Binary64 Lib.Rounding

def IsIntDType (dtype : DataType) : Bool := dtype.code == 0 || dtype.code == 1

/-- `FitsInDType`; no bound overflows, as those of 64 bits are not computed. -/
def FitsInDType (value : Int64) (dtype : DataType) : Bool :=
  if dtype.lanes ≠ 1 then false
  else if dtype.code = 0 then
    if dtype.bits = 0 then false
    else if dtype.bits ≥ 64 then true
    else
      let min_value : Int := -2 ^ (dtype.bits.toNat - 1)
      let max_value : Int := 2 ^ (dtype.bits.toNat - 1) - 1
      min_value ≤ value.toInt && value.toInt ≤ max_value
  else if dtype.code = 1 then
    if dtype.bits = 0 then false
    else if value < 0 then false
    else if dtype.bits ≥ 63 then true
    else value.toInt ≤ 2 ^ dtype.bits.toNat - 1
  else false

def TryGetIntImm : PrimExpr → Option Int64
  | .IntImm value _ => some value
  | _ => none

def TryGetFloatImm : PrimExpr → Option Float
  | .FloatImm value _ => some value
  | _ => none

def TryGetNumericConst : PrimExpr → Option Float
  | .IntImm value _ => some (.ofModel (.ofInt64 value))
  | .FloatImm value _ => some value
  | _ => none

def TryMakeIntImm (value : Int64) (dtype : DataType) : Option PrimExpr :=
  if !IsIntDType dtype then none
  else if !FitsInDType value dtype then none
  else some (.IntImm value dtype)

def TryMakeFloatImm (value : Float) (dtype : DataType) : Option PrimExpr :=
  if dtype.code ≠ 2 ∨ dtype.lanes ≠ 1 then none
  else if !value.isFinite then none
  else some (.FloatImm value dtype)

/-- The significant bits of a `long double` of the x87. -/
def LDBL_MANT_DIG : Nat := 64

/-- The end of `TryFoldIntAdd`, `TryFoldIntSub` and `TryFoldIntMul`: the result as a `long double`,
if it is one of `int64_t`. -/
def toInt64 (exact : Int) : Option Int64 :=
  let result := roundDigits LDBL_MANT_DIG exact
  if result < Int64.minValue.toInt ∨ Int64.maxValue.toInt < result then none
  else some (.ofInt result)

def TryFoldIntAdd (lhs rhs : Int64) : Option Int64 := toInt64 (lhs.toInt + rhs.toInt)

def TryFoldIntSub (lhs rhs : Int64) : Option Int64 := toInt64 (lhs.toInt - rhs.toInt)

def TryFoldIntMul (lhs rhs : Int64) : Option Int64 := toInt64 (lhs.toInt * rhs.toInt)

/-- An exact result of `int64_t`, if it is one. -/
def IsExact (result : Option Int64) (exact : Int) : Prop :=
  (result.isSome ↔ -2 ^ 63 ≤ exact ∧ exact < 2 ^ 63) ∧ ∀ value ∈ result, value.toInt = exact

/-- A `long double` has the digits for every number of `int64_t`, and no number that needs more of
them is rounded down into the range. -/
theorem toInt64_exact (exact : Int) : IsExact (toInt64 exact) exact := by
  have hmin : Int64.minValue.toInt = -2 ^ 63 := by decide
  have hmax : Int64.maxValue.toInt = 2 ^ 63 - 1 := by decide
  rw [toInt64, hmin, hmax]
  by_cases hlt : exact.natAbs < 2 ^ LDBL_MANT_DIG
  · rw [roundDigits_of_lt (by decide) hlt]
    split
    · rename_i hrange
      exact ⟨⟨nofun, by omega⟩, nofun⟩
    · rename_i hrange
      refine ⟨⟨fun _ => by omega, fun _ => rfl⟩, ?_⟩
      rintro value ⟨⟩
      exact Int64.toInt_ofInt_of_le (by omega) (by omega)
  · have hwide := le_natAbs_roundDigits (by decide : 0 < LDBL_MANT_DIG) (not_lt.mp hlt)
    rw [LDBL_MANT_DIG] at hlt hwide
    rw [LDBL_MANT_DIG, if_pos (by omega)]
    exact ⟨⟨nofun, by omega⟩, nofun⟩

theorem TryFoldInt_exact (lhs rhs : Int64) :
    IsExact (TryFoldIntAdd lhs rhs) (lhs.toInt + rhs.toInt) ∧
      IsExact (TryFoldIntSub lhs rhs) (lhs.toInt - rhs.toInt) ∧
        IsExact (TryFoldIntMul lhs rhs) (lhs.toInt * rhs.toInt) :=
  ⟨toInt64_exact _, toInt64_exact _, toInt64_exact _⟩

def TryFoldIntDiv (lhs rhs : Int64) : Option Int64 :=
  if rhs = 0 then none
  else if lhs = Int64.minValue ∧ rhs = -1 then none
  else some (lhs / rhs)

def TryFoldIntMod (lhs rhs : Int64) : Option Int64 :=
  if rhs = 0 then none
  else if lhs = Int64.minValue ∧ rhs = -1 then none
  else some (lhs % rhs)

/-- The floating-point branch of `TryFoldArithmetic`. -/
def floatFold (float_op : Char) (lhs rhs : Float) : Option Float :=
  if float_op = '+' then some (lhs + rhs)
  else if float_op = '-' then some (lhs - rhs)
  else if float_op = '*' then some (lhs * rhs)
  else if float_op = '/' then if rhs == 0.0 then none else some (lhs / rhs)
  else if float_op = '%' then if rhs == 0.0 then none else some (fmod lhs rhs)
  else none

def TryFoldArithmetic (lhs rhs : PrimExpr) (out_dtype : DataType)
    (int_fold : Int64 → Int64 → Option Int64) (float_op : Char) : Option PrimExpr := do
  if IsIntDType out_dtype then
    TryMakeIntImm (← int_fold (← TryGetIntImm lhs) (← TryGetIntImm rhs)) out_dtype
  else if out_dtype.code = 2 then
    TryMakeFloatImm (← floatFold float_op (← TryGetFloatImm lhs) (← TryGetFloatImm rhs)) out_dtype
  else none

def TryFoldMinMax (lhs rhs : PrimExpr) (out_dtype : DataType) (is_min : Bool) :
    Option PrimExpr := do
  if IsIntDType out_dtype then
    let lhs_value ← TryGetIntImm lhs
    let rhs_value ← TryGetIntImm rhs
    let result := if is_min then if lhs_value < rhs_value then lhs_value else rhs_value
      else if lhs_value > rhs_value then lhs_value else rhs_value
    TryMakeIntImm result out_dtype
  else if out_dtype.code = 2 then
    let lhs_value ← TryGetFloatImm lhs
    let rhs_value ← TryGetFloatImm rhs
    let result := if is_min then if lhs_value < rhs_value then lhs_value else rhs_value
      else if lhs_value > rhs_value then lhs_value else rhs_value
    TryMakeFloatImm result out_dtype
  else none

/-- The literal of a truth value. -/
def boolImm (value : Bool) : PrimExpr := .IntImm (if value then 1 else 0) .Bool

def TryFoldCompare (lhs rhs : PrimExpr) (is_lt : Bool) : Option PrimExpr :=
  match TryGetIntImm lhs, TryGetIntImm rhs with
  | some lhs_i, some rhs_i => some (boolImm (if is_lt then lhs_i < rhs_i else lhs_i == rhs_i))
  | _, _ =>
    match TryGetNumericConst lhs, TryGetNumericConst rhs with
    | some lhs_f, some rhs_f => some (boolImm (if is_lt then lhs_f < rhs_f else lhs_f == rhs_f))
    | _, _ => none

/-- What the visitors of `FoldConstantRewriter` do to a node that `TIRPass` has rewritten. -/
def FoldConstantRewriter (rewritten : PrimExpr) : PrimExpr :=
  match rewritten with
  | .Binary op a b =>
    match op with
    | .Add => (TryFoldArithmetic a b rewritten.dtype TryFoldIntAdd '+').getD rewritten
    | .Sub => (TryFoldArithmetic a b rewritten.dtype TryFoldIntSub '-').getD rewritten
    | .Mul => (TryFoldArithmetic a b rewritten.dtype TryFoldIntMul '*').getD rewritten
    | .Div => (TryFoldArithmetic a b rewritten.dtype TryFoldIntDiv '/').getD rewritten
    | .Mod => (TryFoldArithmetic a b rewritten.dtype TryFoldIntMod '%').getD rewritten
    | .Min => (TryFoldMinMax a b rewritten.dtype true).getD rewritten
    | .Max => (TryFoldMinMax a b rewritten.dtype false).getD rewritten
    | .EQ => (TryFoldCompare a b false).getD rewritten
    | .LT => (TryFoldCompare a b true).getD rewritten
    | .And =>
      match TryGetIntImm a, TryGetIntImm b with
      | some lhs, some rhs => boolImm (lhs != 0 && rhs != 0)
      | _, _ => rewritten
    | .Or =>
      match TryGetIntImm a, TryGetIntImm b with
      | some lhs, some rhs => boolImm (lhs != 0 || rhs != 0)
      | _, _ => rewritten
  | .Not a =>
    match TryGetIntImm a with
    | some value => boolImm (value == 0)
    | none => rewritten
  | .Select condition true_value false_value =>
    match TryGetIntImm condition with
    | some cond => if cond != 0 then true_value else false_value
    | none => rewritten
  | rewritten => rewritten

/-- `FoldConstantPass`, on an expression. -/
def FoldConstantPass : PrimExpr → PrimExpr := TIRPass.mutateExpr FoldConstantRewriter

end Kxc.Tir.FoldConstant
