import Kxc.Codegen.CodeGenLLVM
import Kxc.Lib.Action
import Kxc.Tir.Stmt

/-! What statements do: an expression has the value that its code has, a variable that a statement
binds has its value in the body of the statement, and the buffers are the memory. -/

namespace Kxc.Tir

open Codegen Lib Lib.MachineNumber Lib.Llvm

variable {F : Type}

/-- What the buffers hold. -/
abbrev Memory (F : Type) := Var → Int → Scalar F

/-- What a run shows. -/
inductive Event (F : Type) where
  /-- A loop or a `LetStmt` runs its body for a value of its variable. -/
  | bind (var : Var) (value : Scalar F)
  | store (buffer_var : Var) (index : Int) (value : Scalar F)

abbrev Run (F : Type) := Action (Memory F) (Event F)

/-- The number that a word stands for, when it is read with a sign or without. -/
def toScalar (signed : Bool) : Word F → Scalar F
  | .int _ x => .int (readWord signed x)
  | .float x => .float x

/-- A number as one of a type. -/
def DataType.convert (dtype : DataType) : Scalar F → Scalar F
  | .int v => .int (dtype.intFormat.wrap v)
  | .float x => .float x

namespace PrimExpr

variable (ops : FloatOps F) (σ : Store Tir.Var F) (e : PrimExpr)

/-- The word that the code of an expression computes. -/
def word : Option (Word F) :=
  match CodeGenLLVM.GenExpr e with
  | .ok V => V.eval ops σ
  | .error _ => none

def scalar : Option (Scalar F) := (e.word ops σ).map (toScalar (e.dtype.code == 0))

def integer : Option Int :=
  match e.scalar ops σ with
  | some (.int v) => some v
  | _ => none

/-- As a condition. -/
def condition : Option Bool :=
  match CodeGenLLVM.GenExpr e >>= CodeGenLLVM.CastToBool with
  | .ok V => (V.eval ops σ).map Word.truth
  | .error _ => none

end PrimExpr

def Memory.store (memory : Memory F) (buffer_var : Var) (index : Int) (value : Scalar F) :
    Memory F :=
  Function.update memory buffer_var (Function.update (memory buffer_var) index value)

namespace Stmt

variable (ops : FloatOps F)

/-- The least value of a loop variable and the number of them. The variable is an integer. -/
def loopRange (σ : MachineNumber.Store Var F) (loop_var : Var) (min extent : PrimExpr) :
    Option (Int × Nat) := do
  let a ← min.integer ops σ
  let n ← extent.integer ops σ
  if loop_var.dtype.code = 0 ∨ loop_var.dtype.code = 1 then some (a, n.toNat) else none

/-- What a `Store` writes, and where, if its predicate is true. -/
def storeTarget (σ : MachineNumber.Store Var F) (value index : PrimExpr)
    (predicate : Option PrimExpr) : Option (Int × Scalar F × Bool) := do
  let x ← value.scalar ops σ
  let i ← index.integer ops σ
  let p ← match predicate with
    | some predicate => predicate.condition ops σ
    | none => some true
  return (i, x, p)

-- What a buffer holds when it is allocated, which is not known.
variable (contents : Var → Int → Scalar F)

/-- The buffer is a new one in `body`, and the old one after it. -/
def withBuffer (buffer_var : Var) (body : Run F) : Run F := fun memory =>
  (body (Function.update memory buffer_var (contents buffer_var))).map fun (memory', t) =>
    (Function.update memory' buffer_var (memory buffer_var), t)

mutual

/-- Runs a statement, where the variables have the values `env`. -/
def exec (env : Var → Scalar F) : Stmt → Run F
  | .undefined => 1
  | .LetStmt var value body =>
    .read (fun memory => value.scalar ops ⟨env, memory⟩) fun x =>
      let x := var.dtype.convert x
      .emit (.bind var x) * exec (Function.update env var x) body
  | .Store buffer_var value index predicate =>
    .read (fun memory => storeTarget ops ⟨env, memory⟩ value index predicate) fun (i, x, p) =>
      if p then fun memory => some (memory.store buffer_var i x, [.store buffer_var i x]) else 1
  | .For loop_var min extent _ body =>
    .read (fun memory => loopRange ops ⟨env, memory⟩ loop_var min extent) fun (a, n) =>
      ((List.range n).map fun (k : Nat) =>
        let x := loop_var.dtype.convert (.int (a + k))
        .emit (.bind loop_var x) * exec (Function.update env loop_var x) body).prod
  | .IfThenElse condition then_case else_case =>
    .read (fun memory => condition.condition ops ⟨env, memory⟩) fun c =>
      if c then exec env then_case else exec env else_case
  | .Allocate buffer_var _ extents _ body =>
    .read (fun memory => extents.mapM fun extent => extent.integer ops ⟨env, memory⟩) fun _ =>
      withBuffer contents buffer_var (exec env body)
  | .AttrStmt _ _ body => exec env body
  | .Block _ body init => exec env init * exec env body
  | .SeqStmt seq => execSeq env seq
  | .Evaluate value =>
    .read (fun memory => value.word ops ⟨env, memory⟩) fun _ => 1

def execSeq (env : Var → Scalar F) : List Stmt → Run F
  | [] => 1
  | s :: seq => exec env s * execSeq env seq

end

example (env : Var → Scalar F) (s : Stmt) :
    exec ops contents env (.SeqStmt [s]) = exec ops contents env s := by
  rw [exec, execSeq, execSeq, mul_one]

end Stmt

end Kxc.Tir
