import Kxc.Relay.Transforms.EliminateCommonSubexpr

/-! The rewriting passes of `optimize_default` (`relay/transforms/pipeline.cc` and the files of the
passes). All but one act on a node after `RelayPass` has visited it. -/

namespace Kxc.Relay

open pass_utils

/-- The element of an array at an index that is checked against its bounds. -/
def itemAt (es : List Expr) (index : Int32) : Option Expr :=
  if 0 ≤ index then es[index.toInt.toNat]? else none

namespace FoldTupleGetItemRewriter

/-- `FoldTupleGetItemRewriter::VisitTupleGetItem`. -/
def post : RelayPass.Post := fun _ rewritten σ =>
  match rewritten with
  | .tupleGetItem _ (.tuple _ fields) index =>
    match itemAt fields index with
    | some field => (field, CopyVirtualDevice rewritten field σ)
    | none => (rewritten, σ)
  | _ => (rewritten, σ)

end FoldTupleGetItemRewriter

namespace FoldConstantRewriter

def boolDType : DLDataType := { code := kDLUint, bits := 1, lanes := 1 }

/-- The value and the type of a folded call, if the operator is folded. -/
def folded (op_name : String) (lhs rhs : Float) (lhs_dtype : DLDataType) :
    Option (Float × DLDataType) :=
  if op_name = "add" then some (lhs + rhs, lhs_dtype)
  else if op_name = "subtract" ∨ op_name = "sub" then some (lhs - rhs, lhs_dtype)
  else if op_name = "mul" ∨ op_name = "multiply" then some (lhs * rhs, lhs_dtype)
  else if op_name = "divide" ∨ op_name = "div" then
    if rhs == 0.0 then none else some (lhs / rhs, lhs_dtype)
  else if op_name = "equal" then some (if lhs == rhs then 1.0 else 0.0, boolDType)
  else if op_name = "greater" then some (if lhs > rhs then 1.0 else 0.0, boolDType)
  else none

/-- `FoldConstantRewriter::VisitCall`. -/
def post : RelayPass.Post := fun _ rewritten σ =>
  match rewritten with
  | .call _ op [lhs, rhs] _ _ =>
    let op_name := GetCallOpName op
    if op_name = "" then (rewritten, σ)
    else
      match TryGetScalarConstantValueWithDType lhs, TryGetScalarConstantValueWithDType rhs with
      | some (lhs, lhs_dtype), some (rhs, _) =>
        match folded op_name lhs rhs lhs_dtype with
        | some (out_value, out_dtype) =>
          if out_value.isFinite then
            let constant := σ.new
              (fun i => .constant i (some (MakeScalarConstant out_value out_dtype))) {}
            (constant.1, CopyVirtualDevice rewritten constant.1 constant.2)
          else (rewritten, σ)
        | none => (rewritten, σ)
      | _, _ => (rewritten, σ)
  | _ => (rewritten, σ)

end FoldConstantRewriter

namespace SimplifyExprRewriter

/-- The operand that a call of two arguments simplifies to: the first one if `true`. -/
def simplified (op_name : String) (lhs rhs : Expr) : Option Bool :=
  if op_name = "add" then
    if IsConstZero rhs then some true else if IsConstZero lhs then some false else none
  else if op_name = "mul" ∨ op_name = "multiply" then
    if IsConstOne rhs then some true else if IsConstOne lhs then some false else none
  else if op_name = "subtract" ∨ op_name = "sub" then
    if IsConstZero rhs then some true else none
  else if op_name = "divide" ∨ op_name = "div" then
    if IsConstOne rhs then some true else none
  else none

/-- `SimplifyExprRewriter::VisitCall`. -/
def post : RelayPass.Post := fun _ rewritten σ =>
  match rewritten with
  | .call _ op [lhs, rhs] _ _ =>
    match simplified (GetCallOpName op) lhs rhs with
    | some first =>
      let simplified := if first then lhs else rhs
      if simplified.isUndef then (rewritten, σ)
      else (simplified, CopyVirtualDevice rewritten simplified σ)
    | none => (rewritten, σ)
  | _ => (rewritten, σ)

end SimplifyExprRewriter

/-- A rewriter that merges a call of `op_name` into a call of `op_name` that takes its result as
first argument, when `merges` holds of their attributes. The merged call keeps `kept` of the further
arguments of the outer one, and none of the inner one's. -/
structure MergeRule where
  op_name : String
  merges : (outer inner : Option Attrs) → Bool
  kept : Nat

namespace MergeRule

/-- The callee and the arguments of the call of `op_name` that a call is merged with. -/
def innerArgs (rule : MergeRule) (attrs : Option Attrs) : Expr → Option (List Expr)
  | .call _ inner_op inner_args inner_attrs _ =>
    if GetCallOpName inner_op = rule.op_name && rule.merges attrs inner_attrs then some inner_args
    else none
  | _ => none

/-- `VisitCall` of a rewriter that merges calls. -/
def post (rule : MergeRule) : RelayPass.Post := fun _ rewritten σ =>
  match rewritten with
  | .call _ op (arg :: args) attrs origin =>
    if GetCallOpName op = rule.op_name then
      match rule.innerArgs attrs arg with
      | some (inner_arg :: _) =>
        let folded := σ.new
          (fun i => .call i op (inner_arg :: args.take rule.kept) attrs origin) {}
        (folded.1, CopyVirtualDevice rewritten folded.1 folded.2)
      | _ => (rewritten, σ)
    else (rewritten, σ)
  | _ => (rewritten, σ)

end MergeRule

/-- `CanonicalizeCastRewriter`: two casts to one type. -/
def CanonicalizeCastRewriter : MergeRule where
  op_name := "cast"
  merges
    | some (.cast outer_to), some (.cast inner_to) => outer_to == inner_to
    | _, _ => false
  kept := 0

/-- `RemoveStandaloneReshapesRewriter`: two reshapes, whatever their shapes. -/
def RemoveStandaloneReshapesRewriter : MergeRule where
  op_name := "reshape"
  merges _ _ := true
  kept := 1

namespace EliminateDeadLetRewriter

/-- `EliminateDeadLetRewriter::VisitLet`. -/
def post : RelayPass.Post := fun _ rewritten σ =>
  match rewritten with
  | .letE _ var value body =>
    if HasSideEffect value || CountVarUses var body != 0 then (rewritten, σ)
    else (body, CopyVirtualDevice rewritten body σ)
  | _ => (rewritten, σ)

end EliminateDeadLetRewriter

/-- The rewriting passes of `optimize_default`, in their order. -/
inductive RewritingPass where
  | fold_tuple_get_item
  | fold_constant
  | simplify_expr
  | canonicalize_cast
  | remove_standalone_reshapes
  | eliminate_common_subexpr
  | eliminate_dead_let
  deriving DecidableEq

/-- `GetRelayPassTable`. -/
def RewritingPass.run : RewritingPass → Function → Heap → Function × Heap
  | fold_tuple_get_item => RelayPass.mutateFunction FoldTupleGetItemRewriter.post
  | fold_constant => RelayPass.mutateFunction FoldConstantRewriter.post
  | simplify_expr => RelayPass.mutateFunction SimplifyExprRewriter.post
  | canonicalize_cast => RelayPass.mutateFunction CanonicalizeCastRewriter.post
  | remove_standalone_reshapes => RelayPass.mutateFunction RemoveStandaloneReshapesRewriter.post
  | eliminate_common_subexpr => EliminateCommonSubexprPass
  | eliminate_dead_let => RelayPass.mutateFunction EliminateDeadLetRewriter.post

end Kxc.Relay
