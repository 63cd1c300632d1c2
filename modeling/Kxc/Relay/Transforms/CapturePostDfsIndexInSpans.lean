import Kxc.Relay.Memory
import Kxc.Lib.Dominators
import Mathlib.Data.Finset.Card
import Mathlib.Logic.Function.Basic

/-! Post-order positions in spans (`relay/transforms/capture_post_dfs_index_in_spans.cc`). Nodes
are told apart by their addresses. `Spans` is the `span` field of every node. An `int` holds every
position: with more nodes the sets of dominators would not fit in memory. -/

namespace Kxc.Relay

/-- `Span`. -/
structure Span where
  source_name : String
  line : Nat
  column : Nat
  deriving DecidableEq, Repr

abbrev Spans := Nat → Option Span

namespace CapturePostDfsIndexInSpans

def GetChildren : Expr → List Expr
  | .function _ params body => params.map .var ++ [body]
  | .call _ _ args _ _ => args
  | .ifE _ cond true_branch false_branch => [cond, true_branch, false_branch]
  | .letE _ v value body => [.var v, value, body]
  | .tuple _ fields => fields
  | .tupleGetItem _ t _ => [t]
  | _ => []

/-- `!expr.defined() || expr.As<relay::OpNode>()`. -/
def skipped (e : Expr) : Bool := e.isUndef || e.isOp

def IntersectInto (dst src : Finset Nat) : Finset Nat := dst.filter (· ∈ src)

/-- What `dfs` captures by reference; `succ`, which nothing reads, is left out. -/
structure DfsState where
  visited : Finset Nat := ∅
  node_to_expr : Nat → Option Expr := fun _ => none
  pred : Nat → List Nat := fun _ => []
  postorder : List Nat := []

namespace DfsState

/-- `visited.insert(node); node_to_expr[node] = expr`. -/
def enter (s : DfsState) (e : Expr) : DfsState :=
  { s with
    visited := insert e.ptr s.visited
    node_to_expr := Function.update s.node_to_expr e.ptr (some e) }

/-- `pred[child].push_back(node)`. -/
def addPred (s : DfsState) (node child : Nat) : DfsState :=
  { s with pred := Function.update s.pred child (s.pred child ++ [node]) }

/-- `postorder.push_back(node)`. -/
def leave (s : DfsState) (node : Nat) : DfsState :=
  { s with postorder := s.postorder ++ [node] }

end DfsState

theorem GetChildren_length_lt {e c : Expr} (hc : c ∈ GetChildren e) :
    c.subexprs.length < e.subexprs.length := by
  cases e with
  | undef | constant | var | op => cases hc
  | function id params body =>
    have hbody := Expr.length_subexprs_pos body
    simp only [GetChildren, List.mem_append, List.mem_map, List.mem_singleton] at hc
    rcases hc with ⟨v, -, rfl⟩ | rfl <;> simp [Expr.subexprs]
    omega
  | letE id v value body =>
    have hvalue := Expr.length_subexprs_pos value
    have hbody := Expr.length_subexprs_pos body
    simp only [GetChildren, List.mem_cons, List.not_mem_nil, or_false] at hc
    rcases hc with rfl | rfl | rfl <;> simp [Expr.subexprs] <;> omega
  | call id callee args attrs origin =>
    exact Expr.length_child_lt (List.mem_cons_of_mem _ hc)
  | ifE | tuple | tupleGetItem => exact Expr.length_child_lt hc

def dfs (s : DfsState) (expr : Expr) : DfsState :=
  if skipped expr || decide (expr.ptr ∈ s.visited) then s
  else
    let children := (GetChildren expr).attach
    let s := children.foldl (fun s child =>
      if skipped child.1 then s
      else dfs (s.addPred expr.ptr child.1.ptr) child.1) (s.enter expr)
    s.leave expr.ptr
termination_by expr.subexprs.length
decreasing_by exact GetChildren_length_lt child.2

/-- `post_index`. -/
def postIndex (postorder : List Nat) : Nat → Nat :=
  postorder.zipIdx.foldl (fun m p => Function.update m p.1 p.2) fun _ => 0

abbrev Dominators := Nat → Finset Nat

def initialDominators (postorder : List Nat) (root : Nat) : Dominators :=
  postorder.foldl (fun dominators node => Function.update dominators node
    (if node = root then {root} else postorder.toFinset)) fun _ => ∅

/-- `new_dom` of a node other than the root. -/
def newDom (pred : Nat → List Nat) (dominators : Dominators) (node : Nat) : Finset Nat :=
  match pred node with
  | [] => {node}
  | p :: ps => insert node (ps.foldl (fun new_dom q => IntersectInto new_dom (dominators q))
      (dominators p))

/-- The body of the loop over `postorder`. -/
def updateDom (pred : Nat → List Nat) (root : Nat) (s : Dominators × Bool) (node : Nat) :
    Dominators × Bool :=
  if node = root then s
  else
    let new_dom := newDom pred s.1 node
    if new_dom ≠ s.1 node then (Function.update s.1 node new_dom, true) else s

/-- `while (changed)`, from `changed = true`. -/
def iterate (pred : Nat → List Nat) (root : Nat) (postorder : List Nat) :
    Nat → Dominators → Option Dominators
  | 0, _ => none
  | fuel + 1, dominators =>
    let (dominators, changed) := postorder.foldl (updateDom pred root) (dominators, false)
    if changed then iterate pred root postorder fuel dominators else some dominators

/-- The orders in which the elements of an `unordered_set` come, node by node. -/
structure SetOrder where
  elements : Nat → Finset Nat → List Nat
  mem_elements : ∀ node s x, x ∈ elements node s ↔ x ∈ s

/-- `idom` of a node other than the root; the root is defined, so `!idom` never holds. -/
def selectIdom (order : SetOrder) (dominators : Dominators) (root node : Nat) : Nat :=
  ((order.elements node (dominators node)).foldl (fun (best : Nat × Nat) candidate =>
    if candidate = node then best
    else if best.2 < (dominators candidate).card then (candidate, (dominators candidate).card)
    else best) (root, 0)).1

/-- `dominator_post_index`. -/
def dominatorPostIndex (order : SetOrder) (dominators : Dominators) (postorder : List Nat)
    (root : Nat) : Nat → Nat :=
  postorder.foldl (fun m node => Function.update m node
    (if node = root then postIndex postorder node
      else postIndex postorder (selectIdom order dominators root node))) fun _ => 0

/-- The loop over `node_to_expr`, which writes every node once. -/
def writeSpans (node_to_expr : Nat → Option Expr) (post_index dominator_post_index : Nat → Nat)
    (spans : Spans) : Spans := fun node =>
  if (node_to_expr node).isNone || (spans node).isSome then spans node
  else some ⟨"pass.capture_post_dfs", post_index node, dominator_post_index node⟩

/-- `CapturePostDfsIndexInSpansPass` on a defined function: the spans that it leaves, if the
`while` loop ends within `fuel` rounds. -/
def CapturePostDfsIndexInSpansPass (order : SetOrder) (fuel : Nat) (func : Function)
    (spans : Spans) : Option Spans :=
  let root := func.toExpr
  let s := dfs {} root
  if s.postorder.isEmpty then some spans
  else
    (iterate s.pred root.ptr s.postorder fuel (initialDominators s.postorder root.ptr)).map
      fun dominators => writeSpans s.node_to_expr (postIndex s.postorder)
        (dominatorPostIndex order dominators s.postorder root.ptr) spans

end CapturePostDfsIndexInSpans

end Kxc.Relay
