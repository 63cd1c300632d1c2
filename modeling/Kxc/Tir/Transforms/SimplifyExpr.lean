import Kxc.Tir.Pass
import Kxc.Tir.PassUtils

/-! The pass that drops zeros from sums and ones from products (`tir/transforms/simplify_expr.cc`). -/

namespace Kxc.Tir.SimplifyExpr

open pass_utils

/-- What the visitors of `SimplifyExprRewriter` do to a node that `TIRPass` has rewritten. -/
def SimplifyExprRewriter (rewritten : PrimExpr) : PrimExpr :=
  match rewritten with
  | .Binary .Add a b =>
    if IsConstZero b then a else if IsConstZero a then b else rewritten
  | .Binary .Sub a b => if IsConstZero b then a else rewritten
  | .Binary .Mul a b =>
    if IsConstOne b then a else if IsConstOne a then b else rewritten
  | .Binary .Div a b => if IsConstOne b then a else rewritten
  | rewritten => rewritten

/-- `SimplifyExprPass`, on an expression. -/
def SimplifyExprPass : PrimExpr → PrimExpr := TIRPass.mutateExpr SimplifyExprRewriter

end Kxc.Tir.SimplifyExpr
