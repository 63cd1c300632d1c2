import Kxc.Codegen.Integers
import Kxc.Codegen.KeepsC

/-! The two code generators on expressions of integers and truth values: where they agree. -/

namespace Kxc.Codegen

open Lib Lib.MachineNumber Lib.CLanguage Lib.Llvm Tir

variable {F : Type}

/-- Expressions of integer and `bool` literals, which are in range, and variables. -/
def Integral : PrimExpr → Prop
  | .IntImm value dtype => (dtype.code = 0 ∨ dtype.code = 1) ∧ dtype.intFormat.Fits value.toInt
  | .Var var => var.dtype.code = 0 ∨ var.dtype.code = 1
  | .Binary _ a b => Integral a ∧ Integral b
  | .Not a => Integral a
  | .Select condition true_value false_value =>
    Integral condition ∧ Integral true_value ∧ Integral false_value
  | _ => False

/-- An integer that is converted to a type. -/
def convertTo (dtype : DataType) (v : Int) : Int :=
  if dtype.code = 1 ∧ dtype.bits = 1 then (v != 0).toInt else dtype.intFormat.wrap v

/-- If the C expression is well formed and its behaviour is defined, the LLVM code has a value, and
both are the same when they are converted to the type of the expression. -/
def Agree (ops : FloatOps F) (σ : Env F) (e : PrimExpr) : Prop :=
  ∀ c, (CodeGenC.GenExpr e).run ops CodeGenC.typing σ.toStore = some c →
    ∃ (u : Int) (V : CodeGenLLVM.Value) (bits : Nat) (x : BitVec bits), c = .int u ∧
      CodeGenLLVM.GenExpr e = .ok V ∧ V.eval ops σ.toStore = some (.int bits x) ∧
      convertTo e.dtype u = convertTo e.dtype (readWord (signed e) x)

/-- The low bits of an integer matter, and all of a truth value. -/
def rootDemand (dtype : DataType) : Demand :=
  if dtype.code = 1 ∧ dtype.bits = 1 then .exact else .low dtype.bits.toNat

section Integral

variable {e : PrimExpr}

theorem Integral.sameFormats (h : Integral e) : SameFormats e := by
  induction e with
  | IntImm | Var => trivial
  | FloatImm | Load | PredicatedLoad | Call => cases h
  | Binary op a b iha ihb => exact ⟨iha h.1, ihb h.2⟩
  | Not a ih => exact ih h
  | Select c t f ihc iht ihf => exact ⟨ihc h.1, iht h.2.1, ihf h.2.2⟩

theorem floatFormat_eq_none {dtype : DataType} (h : dtype.code = 0 ∨ dtype.code = 1) :
    dtype.floatFormat = none := by
  refine if_pos fun h2 => ?_
  rw [h2] at h
  exact absurd h (by decide)

theorem Integral.kind (h : Integral e) : e.kind = none := by
  induction e with
  | IntImm | Not => rfl
  | Var var => exact floatFormat_eq_none h
  | FloatImm | Load | PredicatedLoad | Call => cases h
  | Binary op a b iha ihb =>
    rw [PrimExpr.kind, iha h.1, ihb h.2]
    exact ite_self none
  | Select c t f ihc iht ihf =>
    rw [PrimExpr.kind, iht h.2.1, ihf h.2.2]
    rfl

theorem Integral.bits_le (h : Integral e) : e.dtype.bits.toNat ≤ e.bits := by
  induction e with
  | IntImm | Var => exact Nat.le_refl _
  | FloatImm | Load | PredicatedLoad | Call => cases h
  | Binary op a b iha ihb =>
    cases op
    case EQ | LT | And | Or => exact Nat.le_refl 1
    all_goals exact Nat.le_trans (iha h.1) (Nat.le_max_left _ _)
  | Not => exact Nat.le_refl 1
  | Select c t f ihc iht ihf => exact Nat.le_trans (iht h.2.1) (Nat.le_max_left _ _)

theorem Integral.isInteger (h : Integral e) : IsInteger e := by
  induction e with
  | IntImm => exact h.1
  | Var => exact h
  | FloatImm | Load | PredicatedLoad | Call => cases h
  | Binary op a b iha ihb => exact ⟨iha h.1, ihb h.2⟩
  | Not a ih => exact ih h
  | Select c t f ihc iht ihf => exact ⟨ihc h.1, iht h.2.1, ihf h.2.2⟩

end Integral

/-- `x + x < 0`, on a variable of 8 bits with a sign. -/
def sumNegative : PrimExpr :=
  .Binary .LT (.Binary .Add (.Var ⟨"x", .Int 8, 0⟩) (.Var ⟨"x", .Int 8, 0⟩)) (.IntImm 0 (.Int 8))

end Kxc.Codegen
