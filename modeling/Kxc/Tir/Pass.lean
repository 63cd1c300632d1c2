import Kxc.Tir.Stmt

/-! `TIRPass` on expressions and statements (`base/pass.cc`). A node whose children are unchanged is kept, which
makes no difference to one that is built again. -/

namespace Kxc.Tir.TIRPass

/-- `TIRPass::Mutate`, in a class whose visitors call those of `TIRPass` first and then rewrite the
node. -/
def mutateExpr (rewrite : PrimExpr → PrimExpr) : PrimExpr → PrimExpr
  | .IntImm value dtype => rewrite (.IntImm value dtype)
  | .FloatImm value dtype => rewrite (.FloatImm value dtype)
  | .Var var => rewrite (.Var var)
  | .Binary op a b => rewrite (.Binary op (mutateExpr rewrite a) (mutateExpr rewrite b))
  | .Not value => rewrite (.Not (mutateExpr rewrite value))
  | .Load buffer_var index => rewrite (.Load buffer_var (mutateExpr rewrite index))
  | .PredicatedLoad buffer_var index predicate =>
    rewrite (.PredicatedLoad buffer_var (mutateExpr rewrite index) (mutateExpr rewrite predicate))
  | .Call dtype name arg => rewrite (.Call dtype name (mutateExpr rewrite arg))
  | .Select condition true_value false_value =>
    rewrite (.Select (mutateExpr rewrite condition) (mutateExpr rewrite true_value)
      (mutateExpr rewrite false_value))

/-- The visitors of `TIRPass`. -/
def visitExpr (rewrite : PrimExpr → PrimExpr) : PrimExpr → PrimExpr
  | .IntImm value dtype => .IntImm value dtype
  | .FloatImm value dtype => .FloatImm value dtype
  | .Var var => .Var var
  | .Binary op a b => .Binary op (mutateExpr rewrite a) (mutateExpr rewrite b)
  | .Not value => .Not (mutateExpr rewrite value)
  | .Load buffer_var index => .Load buffer_var (mutateExpr rewrite index)
  | .PredicatedLoad buffer_var index predicate =>
    .PredicatedLoad buffer_var (mutateExpr rewrite index) (mutateExpr rewrite predicate)
  | .Call dtype name arg => .Call dtype name (mutateExpr rewrite arg)
  | .Select condition true_value false_value =>
    .Select (mutateExpr rewrite condition) (mutateExpr rewrite true_value)
      (mutateExpr rewrite false_value)

theorem mutateExpr_eq (rewrite : PrimExpr → PrimExpr) (e : PrimExpr) :
    mutateExpr rewrite e = rewrite (visitExpr rewrite e) := by
  cases e <;> rfl

section Statements

variable {m : Type → Type} [Monad m] (expr : PrimExpr → PrimExpr) (rewrite : Stmt → m Stmt)

mutual

/-- `TIRPass::Mutate`, in a class whose visitors of expressions are `expr` and whose visitors of
statements call those of `TIRPass` first and then rewrite the statement. -/
def mutateStmt : Stmt → m Stmt
  | .undefined => return .undefined
  | .LetStmt var value body => do rewrite (.LetStmt var (expr value) (← mutateStmt body))
  | .Store buffer_var value index predicate =>
    rewrite (.Store buffer_var (expr value) (expr index) (predicate.map expr))
  | .For loop_var min extent for_type body => do
    rewrite (.For loop_var (expr min) (expr extent) for_type (← mutateStmt body))
  | .IfThenElse condition then_case else_case => do
    rewrite (.IfThenElse (expr condition) (← mutateStmt then_case) (← mutateStmt else_case))
  | .Allocate buffer_var dtype extents condition body => do
    rewrite (.Allocate buffer_var dtype (extents.map expr) (expr condition) (← mutateStmt body))
  | .AttrStmt attr_key value body => do
    rewrite (.AttrStmt attr_key (expr value) (← mutateStmt body))
  | .Block name_hint body init => do
    rewrite (.Block name_hint (← mutateStmt body) (← mutateStmt init))
  | .SeqStmt seq => do rewrite (.SeqStmt (← mutateStmts seq))
  | .Evaluate value => rewrite (.Evaluate (expr value))

def mutateStmts : List Stmt → m (List Stmt)
  | [] => return []
  | s :: seq => return (← mutateStmt s) :: (← mutateStmts seq)

end

theorem mutateStmts_eq (expr : PrimExpr → PrimExpr) (rewrite : Stmt → Id Stmt) (seq : List Stmt) :
    mutateStmts expr rewrite seq = seq.map (mutateStmt (m := Id) expr rewrite) := by
  induction seq with
  | nil => rfl
  | cons s seq ih => exact congrArg (mutateStmt (m := Id) expr rewrite s :: ·) ih

end Statements

end Kxc.Tir.TIRPass
