import Kxc.Lib.Binary64
import Kxc.Tir.Stmt

/-! What passes look for, and how they put statements together (`tir/pass_utils.cc`). -/

namespace Kxc.Tir.pass_utils

/-- `pass_utils::TryGetConstValue`: the literal as a `double`. -/
def TryGetConstValue : PrimExpr → Option Float
  | .IntImm value _ => some (.ofModel (.ofInt64 value))
  | .FloatImm value _ => some value
  | _ => none

/-- `pass_utils::TryGetConstInt64`. -/
def TryGetConstInt64 : PrimExpr → Option Int64
  | .IntImm value _ => some value
  | _ => none

/-- `pass_utils::IsConstZero`. -/
def IsConstZero (expr : PrimExpr) : Bool := (TryGetConstValue expr).any (· == 0.0)

/-- `pass_utils::IsConstOne`. -/
def IsConstOne (expr : PrimExpr) : Bool := (TryGetConstValue expr).any (· == 1.0)

mutual

/-- `pass_utils::IsNoOpStmt`. -/
def IsNoOpStmt : Stmt → Bool
  | .undefined => true
  | .Evaluate value => IsConstZero value
  | .SeqStmt seq => IsNoOpStmts seq
  | _ => false

def IsNoOpStmts : List Stmt → Bool
  | [] => true
  | child :: seq => IsNoOpStmt child && IsNoOpStmts seq

end

mutual

/-- `pass_utils::ContainsFor`. -/
def ContainsFor : Stmt → Bool
  | .For _ _ _ _ _ => true
  | .LetStmt _ _ body | .Allocate _ _ _ _ body | .AttrStmt _ _ body => ContainsFor body
  | .IfThenElse _ then_case else_case => ContainsFor then_case || ContainsFor else_case
  | .Block _ body init => ContainsFor init || ContainsFor body
  | .SeqStmt seq => ContainsForList seq
  | _ => false

def ContainsForList : List Stmt → Bool
  | [] => false
  | child :: seq => ContainsFor child || ContainsForList seq

end

mutual

/-- `pass_utils::IsSimpleStraightLineStmt`. -/
def IsSimpleStraightLineStmt : Stmt → Bool
  | .undefined | .Evaluate _ | .Store _ _ _ _ => true
  | .LetStmt _ _ body => IsSimpleStraightLineStmt body
  | .SeqStmt seq => IsSimpleStraightLineStmts seq
  | _ => false

def IsSimpleStraightLineStmts : List Stmt → Bool
  | [] => true
  | child :: seq => IsSimpleStraightLineStmt child && IsSimpleStraightLineStmts seq

end

mutual

/-- `pass_utils::AppendFlattenedStmt`: what it appends. -/
def AppendFlattenedStmt : Stmt → List Stmt
  | .SeqStmt seq => AppendFlattenedStmts seq
  | stmt => if IsNoOpStmt stmt then [] else [stmt]

def AppendFlattenedStmts : List Stmt → List Stmt
  | [] => []
  | child :: seq => AppendFlattenedStmt child ++ AppendFlattenedStmts seq

end

/-- `pass_utils::MakeSeqStmtOrUnit`. -/
def MakeSeqStmtOrUnit (seq : List Stmt) : Stmt :=
  match AppendFlattenedStmts seq with
  | [] => .undefined
  | [stmt] => stmt
  | flattened => .SeqStmt flattened

example : MakeSeqStmtOrUnit [.undefined] = .undefined := by
  simp only [MakeSeqStmtOrUnit, AppendFlattenedStmts, AppendFlattenedStmt, IsNoOpStmt, if_true,
    List.append_nil]

/-- A literal is a small integer exactly if the `double` is. -/
theorem TryGetConstValue_beq_iff {value : Int64} {dtype : DataType} {k : Int} {y : Float}
    (hk : |k| < 2 ^ 53) (hy : Lib.Binary64.Holds y k) :
    (TryGetConstValue (.IntImm value dtype)).any (· == y) = true ↔ value.toInt = k := by
  have hlow := value.le_toInt
  have hhigh := value.toInt_lt
  have hvalue : |value.toInt| ≤ 2 ^ 64 := abs_le.mpr ⟨by omega, by omega⟩
  show (Float.ofModel (.ofInt value.toInt) == y) = true ↔ _
  rw [Lib.Binary64.ofInt_beq_iff hvalue hk hy, decide_eq_true_eq]

theorem IsConstZero_IntImm (value : Int64) (dtype : DataType) :
    IsConstZero (.IntImm value dtype) = true ↔ value = 0 :=
  (TryGetConstValue_beq_iff (by decide) Lib.Binary64.holds_zero).trans
    (show value.toInt = Int64.toInt 0 ↔ _ from Int64.toInt_inj)

theorem IsNoOpStmts_eq (seq : List Stmt) : IsNoOpStmts seq = seq.all IsNoOpStmt := by
  induction seq with
  | nil => rfl
  | cons s seq ih => rw [IsNoOpStmts, ih, List.all_cons]

theorem AppendFlattenedStmts_eq (seq : List Stmt) :
    AppendFlattenedStmts seq = seq.flatMap AppendFlattenedStmt := by
  induction seq with
  | nil => rfl
  | cons s seq ih => rw [AppendFlattenedStmts, ih, List.flatMap_cons]

theorem IsNoOpStmt_SeqStmt {seq : List Stmt} :
    IsNoOpStmt (.SeqStmt seq) = true ↔ ∀ s ∈ seq, IsNoOpStmt s = true := by
  rw [IsNoOpStmt, IsNoOpStmts_eq, List.all_eq_true]

/-- `pass_utils::CanNarrowInt64ToInt32`. -/
def CanNarrowInt64ToInt32 (value : Int64) : Bool := -2 ^ 31 ≤ value && value ≤ 2 ^ 31 - 1

/-- `pass_utils::NarrowIntImmToInt32IfPossible`. -/
def NarrowIntImmToInt32IfPossible (expr : PrimExpr) : PrimExpr :=
  match expr with
  | .IntImm value dtype =>
    if dtype.code ≠ 0 ∨ dtype.bits ≠ 64 ∨ dtype.lanes ≠ 1 then expr
    else if !CanNarrowInt64ToInt32 value then expr
    else .IntImm value (.Int 32)
  | _ => expr

end Kxc.Tir.pass_utils
