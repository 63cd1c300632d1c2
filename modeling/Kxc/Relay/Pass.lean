import Kxc.Relay.Expr
import Mathlib.Logic.Function.Basic
import Mathlib.Order.Basic
import Mathlib.Order.Nat

/-! The mutator `RelayPass` (`base/pass.cc`) over a heap that holds what its passes write in place:
the annotations of the nodes and the next free address. A node is rebuilt when a child's address
changed, and a rewriter acts on each node after its children. -/

namespace Kxc.Relay

/-- The mutable fields of a `RelayNode`. -/
structure Annotations where
  virtual_device_ : Option VirtualDevice := none
  checked_type_ : Option RelayType := none

/-- The addresses in use are those below `next`; `registry` is the table behind `Op::Get`. -/
structure Heap where
  next : Nat
  ann : Nat → Annotations := fun _ => {}
  registry : String → Nat := fun _ => 0

/-- `Op::Get`. -/
def Op.Get (σ : Heap) (name : String) : Expr := .op (σ.registry name) name

namespace Heap

/-- The annotations of an expression's node; an undefined expression has none. -/
def annOf (σ : Heap) : Expr → Annotations
  | .undef => {}
  | e => σ.ann e.ptr

theorem annOf_eq (σ : Heap) {e : Expr} (h : e.isLeaf = false) : σ.annOf e = σ.ann e.ptr := by
  cases e with
  | undef => simp [Expr.isLeaf] at h
  | _ => rfl

/-- Writes the annotations of the node at `id`. -/
def setAnn (σ : Heap) (id : Nat) (a : Annotations) : Heap :=
  { σ with ann := Function.update σ.ann id a }

/-- Allocates the node `mk` with annotations `a`. -/
def new (σ : Heap) (mk : Nat → Expr) (a : Annotations) : Expr × Heap :=
  (mk σ.next, { σ with next := σ.next + 1, ann := Function.update σ.ann σ.next a })

/-- `τ` comes from `σ` by allocating nodes: nothing that `σ` holds has changed. -/
structure Grows (σ τ : Heap) : Prop where
  next : σ.next ≤ τ.next
  ann : ∀ i < σ.next, τ.ann i = σ.ann i
  registry : τ.registry = σ.registry

theorem Grows.refl (σ : Heap) : σ.Grows σ := ⟨le_rfl, fun _ _ => rfl, rfl⟩

theorem Grows.trans {σ τ υ : Heap} (h1 : σ.Grows τ) (h2 : τ.Grows υ) : σ.Grows υ :=
  ⟨h1.next.trans h2.next, fun i hi => (h2.ann i (hi.trans_le h1.next)).trans (h1.ann i hi),
    h2.registry.trans h1.registry⟩

theorem grows_new (σ : Heap) (mk : Nat → Expr) (a : Annotations) : σ.Grows (σ.new mk a).2 :=
  ⟨Nat.le_succ _, fun _ hi => Function.update_of_ne hi.ne _ _, rfl⟩

theorem Grows.annOf {σ τ : Heap} (h : σ.Grows τ) {e : Expr} (he : e.ptr < σ.next) :
    τ.annOf e = σ.annOf e := by
  cases e <;> first | rfl | exact h.ann _ he

end Heap

/-- `GetVirtualDeviceFromExpr`. -/
def GetVirtualDeviceFromExpr (σ : Heap) (e : Expr) : Option VirtualDevice :=
  (σ.annOf e).virtual_device_

/-- A new node has the device that it was made with, and keeps it. -/
theorem GetVirtualDeviceFromExpr_new {σ τ : Heap} {mk : Nat → Expr} {a : Annotations}
    (hleaf : (mk σ.next).isLeaf = false) (hptr : (mk σ.next).ptr = σ.next)
    (h : (σ.new mk a).2.Grows τ) :
    GetVirtualDeviceFromExpr τ (σ.new mk a).1 = a.virtual_device_ := by
  have hann : τ.ann σ.next = a := (h.ann σ.next (Nat.lt_succ_self _)).trans (by simp [Heap.new])
  change (τ.annOf (mk σ.next)).virtual_device_ = _
  rw [Heap.annOf_eq τ hleaf, hptr, hann]

/-- `CopyRelayVirtualDevice` and `pass_utils::CopyVirtualDevice`: the annotations of `source`
replace those of the node `dest`, whoever else holds that node. -/
def CopyVirtualDevice (source dest : Expr) (σ : Heap) : Heap :=
  match source, dest with
  | .undef, _ => σ
  | _, .undef => σ
  | source, dest => σ.setAnn dest.ptr (σ.annOf source)

@[simp]
theorem CopyVirtualDevice_next (source dest : Expr) (σ : Heap) :
    (CopyVirtualDevice source dest σ).next = σ.next := by
  unfold CopyVirtualDevice
  split <;> rfl

namespace RelayPass

/-- The end of each `RelayPass::VisitX`: `ref` itself when no child changed, else a new node with
the annotations of `ref`. -/
def rebuild (ref : Expr) (changed : Bool) (mk : Nat → Expr) (σ : Heap) : Expr × Heap :=
  if changed then σ.new mk (σ.annOf ref) else (ref, σ)

/-- What the overrides of a rewriter do with a node `rewritten` that `RelayPass` made of `ref`. -/
abbrev Post := (ref rewritten : Expr) → Heap → Expr × Heap

mutual

/-- `RelayPass::Mutate`, for a rewriter whose overrides first call `RelayPass::VisitX` and then
`post`. A variable in binding position is left as it is by `VisitVar`. -/
def mutate (post : Post) : Expr → Heap → Expr × Heap
  | .undef, σ => (.undef, σ)
  | .constant id data, σ => (.constant id data, σ)
  | .var v, σ => (.var v, σ)
  | .op id name, σ => (.op id name, σ)
  | .call id op args attrs origin, σ =>
    let new_op := mutate post op σ
    let new_args := mutateList post args new_op.2
    let changed := new_op.1.ptr != op.ptr || new_args.1.map Expr.ptr != args.map Expr.ptr
    let ref := Expr.call id op args attrs origin
    let rewritten :=
      rebuild ref changed (fun i => .call i new_op.1 new_args.1 attrs origin) new_args.2
    post ref rewritten.1 rewritten.2
  | .function id params body, σ =>
    let new_body := mutate post body σ
    let ref := Expr.function id params body
    let rewritten :=
      rebuild ref (new_body.1.ptr != body.ptr) (fun i => .function i params new_body.1) new_body.2
    post ref rewritten.1 rewritten.2
  | .ifE id cond true_branch false_branch, σ =>
    let new_cond := mutate post cond σ
    let new_true := mutate post true_branch new_cond.2
    let new_false := mutate post false_branch new_true.2
    let changed := new_cond.1.ptr != cond.ptr || new_true.1.ptr != true_branch.ptr ||
      new_false.1.ptr != false_branch.ptr
    let ref := Expr.ifE id cond true_branch false_branch
    let rewritten :=
      rebuild ref changed (fun i => .ifE i new_cond.1 new_true.1 new_false.1) new_false.2
    post ref rewritten.1 rewritten.2
  | .letE id var value body, σ =>
    let new_value := mutate post value σ
    let new_body := mutate post body new_value.2
    let changed := new_value.1.ptr != value.ptr || new_body.1.ptr != body.ptr
    let ref := Expr.letE id var value body
    let rewritten :=
      rebuild ref changed (fun i => .letE i var new_value.1 new_body.1) new_body.2
    post ref rewritten.1 rewritten.2
  | .tuple id fields, σ =>
    let new_fields := mutateList post fields σ
    let changed := new_fields.1.map Expr.ptr != fields.map Expr.ptr
    let ref := Expr.tuple id fields
    let rewritten := rebuild ref changed (fun i => .tuple i new_fields.1) new_fields.2
    post ref rewritten.1 rewritten.2
  | .tupleGetItem id tuple index, σ =>
    let new_tuple := mutate post tuple σ
    let ref := Expr.tupleGetItem id tuple index
    let rewritten :=
      rebuild ref (new_tuple.1.ptr != tuple.ptr) (fun i => .tupleGetItem i new_tuple.1 index)
        new_tuple.2
    post ref rewritten.1 rewritten.2

/-- `Mutate` of the elements of an array, from the first to the last. -/
def mutateList (post : Post) : List Expr → Heap → List Expr × Heap
  | [], σ => ([], σ)
  | e :: es, σ =>
    let new_e := mutate post e σ
    let new_es := mutateList post es new_e.2
    (new_e.1 :: new_es.1, new_es.2)

end

/-- `RelayPass::VisitFunction` on the function of a module, once its body is mutated. -/
def visitFunction (func : Function) (new_body : Expr × Heap) : Function × Heap :=
  if new_body.1.ptr != func.body.ptr then
    let new := new_body.2.new (fun i => .function i func.params new_body.1)
      (new_body.2.annOf func.toExpr)
    ({ func with id := new.1.ptr, body := new_body.1 }, new.2)
  else (func, new_body.2)

/-- `RelayPass::Mutate` of a function, for a rewriter that does not override `VisitFunction`. -/
def mutateFunction (post : Post) (func : Function) (σ : Heap) : Function × Heap :=
  visitFunction func (mutate post func.body σ)

/-- The calls of `f` on the elements of a list, from the first to the last. -/
def visitList (f : Expr → Heap → Expr × Heap) : List Expr → Heap → List Expr × Heap
  | [], σ => ([], σ)
  | e :: es, σ =>
    let new_e := f e σ
    let new_es := visitList f es new_e.2
    (new_e.1 :: new_es.1, new_es.2)

/-- `RelayPass::VisitX` on a node that holds expressions, where `f` mutates these. -/
def visit (f : Expr → Heap → Expr × Heap) (e : Expr) (σ : Heap) : Expr × Heap :=
  let new := visitList f e.children σ
  rebuild e (new.1.map Expr.ptr != e.children.map Expr.ptr) (fun i => e.withChildren i new.1) new.2

theorem rebuild_cases (ref : Expr) (changed : Bool) (mk : Nat → Expr) (σ : Heap) :
    rebuild ref changed mk σ = (ref, σ) ∧ changed = false ∨
      rebuild ref changed mk σ = σ.new mk (σ.annOf ref) ∧ changed = true := by
  cases changed
  · exact Or.inl ⟨rfl, rfl⟩
  · exact Or.inr ⟨rfl, rfl⟩

theorem grows_rebuild (ref : Expr) (changed : Bool) (mk : Nat → Expr) (σ : Heap) :
    σ.Grows (rebuild ref changed mk σ).2 := by
  rcases rebuild_cases ref changed mk σ with ⟨h, -⟩ | ⟨h, -⟩
  · rw [h]; exact .refl σ
  · rw [h]; exact σ.grows_new _ _

theorem mutateFunction_toExpr {post : Post} {func : Function} {σ : Heap}
    (h : ∀ ref id params body τ, post ref (.function id params body) τ =
      (.function id params body, τ)) :
    ((mutateFunction post func σ).1.toExpr, (mutateFunction post func σ).2) =
      mutate post func.toExpr σ := by
  unfold mutateFunction visitFunction Function.toExpr
  simp only [mutate, rebuild]
  split
  · simp only [h, Heap.new, Expr.ptr]
  · simp only [h]

theorem mutateList_length (post : Post) (es : List Expr) (σ : Heap) :
    (mutateList post es σ).1.length = es.length := by
  induction es generalizing σ with
  | nil => rfl
  | cons e es ih => simp [mutateList, ih]

/-- A node rebuilt around children with as many paths has as many paths. -/
theorem rebuild_length {e : Expr} {cs : List Expr} (hleaf : e.isLeaf = false) (changed : Bool)
    (h : cs.map (fun c => c.subexprs.length) = e.children.map fun c => c.subexprs.length)
    (σ : Heap) :
    (rebuild e changed (fun i => e.withChildren i cs) σ).1.subexprs.length =
      e.subexprs.length := by
  rcases rebuild_cases e changed (fun i => e.withChildren i cs) σ with ⟨heq, -⟩ | ⟨heq, -⟩
  · rw [heq]
  · rw [heq]
    exact Expr.withChildren_length σ.next hleaf h

theorem visitList_lengths {f : Expr → Heap → Expr × Heap} {es : List Expr}
    (h : ∀ e ∈ es, ∀ σ, (f e σ).1.subexprs.length = e.subexprs.length) (σ : Heap) :
    (visitList f es σ).1.map (fun c => c.subexprs.length) =
      es.map fun c => c.subexprs.length := by
  induction es generalizing σ with
  | nil => rfl
  | cons e es ih =>
    simp only [visitList, List.map_cons, h e (by simp), ih fun a ha => h a (by simp [ha])]

theorem cons_bne_cons (p q : Nat) (ps qs : List Nat) :
    (p :: ps != q :: qs) = (p != q || ps != qs) := by
  simp [bne, List.cons_beq_cons]

theorem mutate_leaf {post : Post} {e : Expr} (h : e.isLeaf = true) (σ : Heap) :
    mutate post e σ = (e, σ) := by
  cases e <;> first | rfl | simp [Expr.isLeaf] at h

/-- Whatever its kind, a node is visited by mutating its children in order, rebuilding it if one
of them changed, and handing the result to the rewriter. -/
theorem mutate_node {post : Post} {e : Expr} (h : e.isLeaf = false) (σ : Heap) :
    mutate post e σ =
      let new := mutateList post e.children σ
      let rewritten := rebuild e (new.1.map Expr.ptr != e.children.map Expr.ptr)
        (fun i => e.withChildren i new.1) new.2
      post e rewritten.1 rewritten.2 := by
  cases e with
  | undef | constant | var | op => simp [Expr.isLeaf] at h
  | _ => simp [mutate, mutateList, Expr.children, Expr.withChildren, cons_bne_cons, Bool.or_assoc]

theorem mutateList_eq_visitList (post : Post) (es : List Expr) (σ : Heap) :
    mutateList post es σ = visitList (mutate post) es σ := by
  induction es generalizing σ with
  | nil => rfl
  | cons e es ih => simp only [mutateList, visitList, ih]

theorem mutate_eq_visit {post : Post} {e : Expr} (h : e.isLeaf = false) (σ : Heap) :
    mutate post e σ =
      post e (visit (mutate post) e σ).1 (visit (mutate post) e σ).2 := by
  rw [mutate_node h, mutateList_eq_visitList]
  rfl

theorem visitList_length (f : Expr → Heap → Expr × Heap) (es : List Expr) (σ : Heap) :
    (visitList f es σ).1.length = es.length := by
  induction es generalizing σ with
  | nil => rfl
  | cons e es ih => simp [visitList, ih]

theorem grows_mutateList {post : Post} {es : List Expr}
    (h : ∀ e ∈ es, ∀ σ : Heap, σ.Grows (mutate post e σ).2) (σ : Heap) :
    σ.Grows (mutateList post es σ).2 := by
  induction es generalizing σ with
  | nil => exact .refl σ
  | cons e es ih => exact (h e (by simp) σ).trans (ih (fun a ha => h a (by simp [ha])) _)

/-- A rewriter that only allocates only allocates over a whole run. -/
theorem grows_mutate {post : Post} (hpost : ∀ ref e (σ : Heap), σ.Grows (post ref e σ).2)
    (e : Expr) (σ : Heap) : σ.Grows (mutate post e σ).2 := by
  induction e using Expr.induction_children generalizing σ with
  | h e ih =>
    cases hleaf : e.isLeaf with
    | true => rw [mutate_leaf hleaf]; exact .refl σ
    | false =>
      rw [mutate_node hleaf]
      exact (grows_mutateList ih σ).trans <| (grows_rebuild ..).trans (hpost ..)

end RelayPass

end Kxc.Relay
