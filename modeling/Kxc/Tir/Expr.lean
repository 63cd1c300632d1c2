import Kxc.Lib.MachineNumber

/-! Primitive expressions (`tir/expr.h`). -/

namespace Kxc.Tir

open Lib.MachineNumber

/-- `DataType`: the code is 0 for integers, 1 for unsigned ones, 2 for floating-point numbers, 3 for
handles and 4 for nothing. -/
structure DataType where
  code : UInt8
  bits : UInt8
  lanes : UInt16 := 1
  deriving DecidableEq

namespace DataType

def Int (bits : UInt8) : DataType := { code := 0, bits }
def UInt (bits : UInt8) : DataType := { code := 1, bits }
def Float (bits : UInt8) : DataType := { code := 2, bits }
def Bool : DataType := UInt 1

/-- The integers of a type of code 0 or 1. -/
def intFormat (dtype : DataType) : IntFormat := ⟨dtype.code == 0, dtype.bits.toNat⟩

/-- The format of a floating-point type. -/
def floatFormat (dtype : DataType) : Option FloatFormat :=
  if dtype.code ≠ 2 then none
  else if dtype.bits = 32 then some .single
  else if dtype.bits = 64 then some .double
  else if dtype.bits = 16 then some .half
  else none

end DataType

/-- `VarNode`: a variable is told from others by its name and type, and the address of the node. -/
structure Var where
  name_hint : String
  dtype : DataType
  id : Nat := 0
  deriving DecidableEq

/-- The subclasses of `BinaryOpNode`. -/
inductive BinaryOp where
  | Add
  | Sub
  | Mul
  | Div
  | Mod
  | Min
  | Max
  | EQ
  | LT
  | And
  | Or
  deriving DecidableEq

/-- `EQ`, `LT`, `And` and `Or` are made by `KXC_DEFINE_LOGIC_OP_CTOR`. -/
def BinaryOp.isLogic : BinaryOp → Bool
  | EQ | LT | And | Or => true
  | _ => false

/-- `PrimExpr`. A `Load` has a predicate or none, and a `Call` has one argument. -/
inductive PrimExpr where
  | IntImm (value : Int64) (dtype : DataType)
  | FloatImm (value : Float) (dtype : DataType)
  | Var (var : Var)
  | Binary (op : BinaryOp) (a b : PrimExpr)
  | Not (value : PrimExpr)
  | Load (buffer_var : Tir.Var) (index : PrimExpr)
  | PredicatedLoad (buffer_var : Tir.Var) (index predicate : PrimExpr)
  | Call (dtype : DataType) (name : String) (arg : PrimExpr)
  | Select (condition true_value false_value : PrimExpr)

namespace PrimExpr

/-- The `dtype` that the constructors give a node. -/
def dtype : PrimExpr → DataType
  | IntImm _ dtype | FloatImm _ dtype | Call dtype _ _ => dtype
  | Var var | Load var _ | PredicatedLoad var _ _ => var.dtype
  | Binary op a _ => if op.isLogic then .Bool else a.dtype
  | Not _ => .Bool
  | Select _ true_value _ => true_value.dtype

/-- An expression and all expressions in it. -/
def parts : PrimExpr → List PrimExpr
  | IntImm value dtype => [IntImm value dtype]
  | FloatImm value dtype => [FloatImm value dtype]
  | Var var => [Var var]
  | Binary op a b => Binary op a b :: (a.parts ++ b.parts)
  | Not a => Not a :: a.parts
  | Load var index => Load var index :: index.parts
  | PredicatedLoad var index predicate =>
    PredicatedLoad var index predicate :: (index.parts ++ predicate.parts)
  | Call dtype name arg => Call dtype name arg :: arg.parts
  | Select condition true_value false_value =>
    Select condition true_value false_value ::
      (condition.parts ++ (true_value.parts ++ false_value.parts))

/-- All variables that are read as numbers satisfy `P`, and all buffers `Q`. -/
def ReadsOnly (P Q : Tir.Var → Prop) : PrimExpr → Prop
  | IntImm _ _ | FloatImm _ _ => True
  | Var var => P var
  | Binary _ a b => ReadsOnly P Q a ∧ ReadsOnly P Q b
  | Not a | Call _ _ a => ReadsOnly P Q a
  | Load var index => Q var ∧ ReadsOnly P Q index
  | PredicatedLoad var index predicate => Q var ∧ ReadsOnly P Q index ∧ ReadsOnly P Q predicate
  | Select condition true_value false_value =>
    ReadsOnly P Q condition ∧ ReadsOnly P Q true_value ∧ ReadsOnly P Q false_value

theorem ReadsOnly.mono {P P' Q Q' : Tir.Var → Prop} (hP : ∀ v, P v → P' v) (hQ : ∀ v, Q v → Q' v)
    {e : PrimExpr} (h : e.ReadsOnly P Q) : e.ReadsOnly P' Q' := by
  induction e with
  | IntImm | FloatImm => exact trivial
  | Var var => exact hP var h
  | Binary op a b iha ihb => exact ⟨iha h.1, ihb h.2⟩
  | Not a ih => exact ih h
  | Call dtype name a ih => exact ih h
  | Load var index ih => exact ⟨hQ var h.1, ih h.2⟩
  | PredicatedLoad var index predicate ih ih' => exact ⟨hQ var h.1, ih h.2.1, ih' h.2.2⟩
  | Select c t f ihc iht ihf => exact ⟨ihc h.1, iht h.2.1, ihf h.2.2⟩

theorem ReadsOnly.and {P P' Q Q' : Tir.Var → Prop} {e : PrimExpr} (h : e.ReadsOnly P Q)
    (h' : e.ReadsOnly P' Q') : e.ReadsOnly (fun v => P v ∧ P' v) (fun v => Q v ∧ Q' v) := by
  induction e with
  | IntImm | FloatImm => exact trivial
  | Var var => exact ⟨h, h'⟩
  | Binary op a b iha ihb => exact ⟨iha h.1 h'.1, ihb h.2 h'.2⟩
  | Not a ih => exact ih h h'
  | Call dtype name a ih => exact ih h h'
  | Load var index ih => exact ⟨⟨h.1, h'.1⟩, ih h.2 h'.2⟩
  | PredicatedLoad var index predicate ih ih' =>
    exact ⟨⟨h.1, h'.1⟩, ih h.2.1 h'.2.1, ih' h.2.2 h'.2.2⟩
  | Select c t f ihc iht ihf => exact ⟨ihc h.1 h'.1, iht h.2.1 h'.2.1, ihf h.2.2 h'.2.2⟩

theorem readsOnly_of_forall {P Q : Tir.Var → Prop} (hP : ∀ v, P v) (hQ : ∀ v, Q v)
    (e : PrimExpr) : e.ReadsOnly P Q := by
  induction e with
  | IntImm | FloatImm => exact trivial
  | Var var => exact hP var
  | Binary op a b iha ihb => exact ⟨iha, ihb⟩
  | Not a ih => exact ih
  | Call dtype name a ih => exact ih
  | Load var index ih => exact ⟨hQ var, ih⟩
  | PredicatedLoad var index predicate ih ih' => exact ⟨hQ var, ih, ih'⟩
  | Select c t f ihc iht ihf => exact ⟨ihc, iht, ihf⟩

end PrimExpr

end Kxc.Tir
