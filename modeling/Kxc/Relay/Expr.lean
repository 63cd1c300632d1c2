import Kxc.Base.VirtualDevice

/-! Relay expressions (`relay/relay.h`, `relay/op.h`). A graph is written as the tree of its paths:
every node carries its address, and a node shared by two parents occurs twice with one address.
The fields that passes write in place, `virtual_device_` and `checked_type_`, are kept apart in a
`Heap`. -/

namespace Kxc.Relay

/-- `Type`: an undefined type is `none`. -/
inductive RelayType where
  | tensor (shape : List Int64) (dtype : String)
  | tuple (fields : List (Option RelayType))

/-- `DLDataType`. -/
structure DLDataType where
  code : UInt8
  bits : UInt8
  lanes : UInt16
  deriving DecidableEq, Repr

def kDLInt : UInt8 := 0
def kDLUint : UInt8 := 1
def kDLFloat : UInt8 := 2

/-- `NDArray` with the bytes of its buffer. -/
structure NDArray where
  shape : List Int64
  dtype : DLDataType
  data : List UInt8
  deriving DecidableEq, Repr

/-- The attribute nodes of `relay/op.h`; floating-point fields are given by their bits. -/
inductive Attrs where
  | conv2d (strides padding dilation : List Int64) (groups channels : Int32)
      (kernel_size : List Int64) (data_layout kernel_layout out_layout out_dtype : String)
  | dense (units : Int64) (out_dtype : String)
  | maxPool2d (pool_size strides padding dilation : List Int64) (layout : String)
      (ceil_mode : Bool)
  | softmax (axis : Int32)
  | batchNorm (epsilon : UInt64) (center scale : Bool)
  | cast (to_ : Int32)
  | concat (axis : Int32)
  | constant (value : Option NDArray)
  | constantOfShape (value : Option NDArray)
  | gather (axis : Int32)
  | reduceMean (axes : List Int64) (keepdims : Int64)
  | reshape (newshape : List Int64) (allowzero : Int32)
  | split (split : List Int64) (axis : Int32)
  | transpose (perm : List Int64)
  | flatten (axis : Int32)
  | gemm (alpha beta : UInt32) (transA transB : Int32)
  | deviceCopy (src_virtual_device dst_virtual_device : Option VirtualDevice)
      (async in_group : Bool)
  | collective (kind reduce_kind : String) (in_group : Bool) (group_id root_worker : Int32)
  | simple (kind : String)
  deriving DecidableEq

/-- A `Var` node: passes compare variables by address, and names need not differ. -/
structure Var where
  id : Nat
  name_hint : String := ""
  type_annotation : Option RelayType := none

/-- Relay expressions. The `origin` of a call is no field of the source: it is the address of the
call of the input graph that this call rewrites, and a call's own address when there is none. -/
inductive Expr where
  | undef
  | constant (id : Nat) (data : Option NDArray)
  | var (v : Var)
  | op (id : Nat) (name : String)
  | call (id : Nat) (op : Expr) (args : List Expr) (attrs : Option Attrs) (origin : Nat)
  | function (id : Nat) (params : List Var) (body : Expr)
  | ifE (id : Nat) (cond true_branch false_branch : Expr)
  | letE (id : Nat) (var : Var) (value body : Expr)
  | tuple (id : Nat) (fields : List Expr)
  | tupleGetItem (id : Nat) (tuple : Expr) (index : Int32)

/-- A defined `Function` at the top of a module. -/
structure Function where
  id : Nat
  params : List Var
  body : Expr

def Function.toExpr (f : Function) : Expr := .function f.id f.params f.body

/-- `GetCallOpName`, from the callee. -/
def GetCallOpName : Expr → String
  | .op _ name => name
  | _ => ""

namespace Expr

/-- The address of an expression's node, zero for an undefined expression. -/
def ptr : Expr → Nat
  | .undef => 0
  | .constant id _ => id
  | .var v => v.id
  | .op id _ => id
  | .call id .. => id
  | .function id .. => id
  | .ifE id .. => id
  | .letE id .. => id
  | .tuple id _ => id
  | .tupleGetItem id .. => id

/-- Induction on expressions, with one hypothesis for the elements of each list. -/
@[elab_as_elim]
theorem induction {P : Expr → Prop} (undef : P undef)
    (constant : ∀ id data, P (constant id data)) (var : ∀ v, P (var v))
    (op : ∀ id name, P (op id name))
    (call : ∀ id op args attrs origin, P op → (∀ a ∈ args, P a) →
      P (call id op args attrs origin))
    (function : ∀ id params body, P body → P (function id params body))
    (ifE : ∀ id c t f, P c → P t → P f → P (ifE id c t f))
    (letE : ∀ id v value body, P value → P body → P (letE id v value body))
    (tuple : ∀ id fields, (∀ a ∈ fields, P a) → P (tuple id fields))
    (tupleGetItem : ∀ id t index, P t → P (tupleGetItem id t index)) (e : Expr) : P e :=
  @Expr.rec P (fun es => ∀ a ∈ es, P a) undef constant var op
    (fun id o args attrs origin ho hargs => call id o args attrs origin ho hargs)
    (fun id params body hb => function id params body hb)
    (fun id c t f hc ht hf => ifE id c t f hc ht hf)
    (fun id v value body hv hb => letE id v value body hv hb)
    (fun id fields hf => tuple id fields hf)
    (fun id t index ht => tupleGetItem id t index ht)
    (by simp)
    (fun a as ha has b hb => by
      rcases List.mem_cons.mp hb with rfl | hb
      · exact ha
      · exact has b hb)
    e

mutual

/-- The expressions that a visitor reaches from `e`, once for each path, from the root down. -/
def subexprs : Expr → List Expr
  | .undef => [.undef]
  | .constant id data => [.constant id data]
  | .var v => [.var v]
  | .op id name => [.op id name]
  | .call id callee args attrs origin =>
    .call id callee args attrs origin :: (subexprs callee ++ subexprsList args)
  | .function id params body => .function id params body :: subexprs body
  | .ifE id c t f => .ifE id c t f :: (subexprs c ++ (subexprs t ++ subexprs f))
  | .letE id v value body => .letE id v value body :: (subexprs value ++ subexprs body)
  | .tuple id fields => .tuple id fields :: subexprsList fields
  | .tupleGetItem id t index => .tupleGetItem id t index :: subexprs t

/-- `subexprs` of each expression of a list. -/
def subexprsList : List Expr → List Expr
  | [] => []
  | e :: es => subexprs e ++ subexprsList es

end

/-- The expressions that a node holds, in the order in which visitors reach them. -/
def children : Expr → List Expr
  | .call _ callee args _ _ => callee :: args
  | .function _ _ body => [body]
  | .ifE _ c t f => [c, t, f]
  | .letE _ _ value body => [value, body]
  | .tuple _ fields => fields
  | .tupleGetItem _ t _ => [t]
  | _ => []

/-- A node that holds no expressions by its kind. -/
def isLeaf : Expr → Bool
  | .undef | .constant .. | .var _ | .op .. => true
  | _ => false

def isUndef : Expr → Bool
  | .undef => true
  | _ => false

def isConstant : Expr → Bool
  | .constant .. => true
  | _ => false

def isOp : Expr → Bool
  | .op .. => true
  | _ => false

/-- A node at address `i` of the kind of `e`, with other children in the places of its own. -/
def withChildren (i : Nat) : Expr → List Expr → Expr
  | .call _ _ _ attrs origin, callee :: args => .call i callee args attrs origin
  | .function _ params _, [body] => .function i params body
  | .ifE .., [c, t, f] => .ifE i c t f
  | .letE _ v _ _, [value, body] => .letE i v value body
  | .tuple .., fields => .tuple i fields
  | .tupleGetItem _ _ index, [t] => .tupleGetItem i t index
  | e, _ => e

theorem withChildren_spec {e : Expr} {i : Nat} {cs : List Expr} (hleaf : e.isLeaf = false)
    (hlen : cs.length = e.children.length) :
    (e.withChildren i cs).ptr = i ∧ (e.withChildren i cs).children = cs := by
  cases e with
  | undef | constant | var | op => simp [isLeaf] at hleaf
  | call =>
    obtain ⟨c, cs, rfl⟩ := List.exists_cons_of_length_eq_add_one hlen
    exact ⟨rfl, rfl⟩
  | function | tupleGetItem =>
    obtain ⟨c, rfl⟩ := List.length_eq_one_iff.mp hlen
    exact ⟨rfl, rfl⟩
  | letE =>
    obtain ⟨c, d, rfl⟩ := List.length_eq_two.mp hlen
    exact ⟨rfl, rfl⟩
  | ifE =>
    obtain ⟨c, d, f, rfl⟩ := List.length_eq_three.mp hlen
    exact ⟨rfl, rfl⟩
  | tuple => exact ⟨rfl, rfl⟩

theorem withChildren_isLeaf (e : Expr) (i : Nat) (cs : List Expr) :
    (e.withChildren i cs).isLeaf = e.isLeaf := by
  cases e <;> rcases cs with _ | ⟨a, _ | ⟨b, _ | ⟨c, _ | ⟨d, cs⟩⟩⟩⟩ <;> rfl

theorem withChildren_opName (e : Expr) (i : Nat) (cs : List Expr) :
    GetCallOpName (e.withChildren i cs) = GetCallOpName e := by
  cases e <;> rcases cs with _ | ⟨a, _ | ⟨b, _ | ⟨c, _ | ⟨d, cs⟩⟩⟩⟩ <;> rfl

theorem withChildren_self {e : Expr} (hleaf : e.isLeaf = false) :
    e.withChildren e.ptr e.children = e := by
  cases e with
  | undef | constant | var | op => simp [isLeaf] at hleaf
  | _ => rfl

/-- Induction with one hypothesis for all children. -/
@[elab_as_elim]
theorem induction_children {P : Expr → Prop} (h : ∀ e, (∀ c ∈ e.children, P c) → P e)
    (e : Expr) : P e := by
  induction e using Expr.induction with
  | undef | constant | var | op => exact h _ (by simp [children])
  | call id callee args attrs origin ihc iha =>
    refine h _ fun c hc => ?_
    rcases List.mem_cons.mp hc with rfl | hc
    · exact ihc
    · exact iha c hc
  | function id params body ih => exact h _ (by simpa [children] using ih)
  | ifE id c t f ihc iht ihf => exact h _ (by simpa [children] using ⟨ihc, iht, ihf⟩)
  | letE id v value body ihv ihb => exact h _ (by simpa [children] using ⟨ihv, ihb⟩)
  | tuple id fields ih => exact h _ ih
  | tupleGetItem id t index ih => exact h _ (by simpa [children] using ih)

theorem subexprsList_eq (es : List Expr) : subexprsList es = es.flatMap subexprs := by
  induction es with
  | nil => rfl
  | cons e es ih => simp [subexprsList, ih]

theorem subexprs_eq (e : Expr) : e.subexprs = e :: e.children.flatMap subexprs := by
  cases e <;> simp [subexprs, children, subexprsList_eq]

/-- A node with other children has as many paths below it as it had, if they have. -/
theorem withChildren_length {e : Expr} {cs : List Expr} (i : Nat) (hleaf : e.isLeaf = false)
    (h : cs.map (fun c => c.subexprs.length) = e.children.map fun c => c.subexprs.length) :
    (e.withChildren i cs).subexprs.length = e.subexprs.length := by
  have hlen : cs.length = e.children.length := by simpa using congrArg List.length h
  rw [subexprs_eq, subexprs_eq, (withChildren_spec hleaf hlen).2, List.length_cons,
    List.length_cons, List.length_flatMap, List.length_flatMap, h]

theorem mem_subexprs {e s : Expr} :
    s ∈ e.subexprs ↔ s = e ∨ ∃ c ∈ e.children, s ∈ c.subexprs := by
  rw [subexprs_eq, List.mem_cons, List.mem_flatMap]

theorem self_mem_subexprs (e : Expr) : e ∈ e.subexprs := mem_subexprs.mpr (Or.inl rfl)

theorem length_subexprs_pos (e : Expr) : 0 < e.subexprs.length :=
  List.length_pos_of_mem e.self_mem_subexprs

theorem child_mem_subexprs {e c : Expr} (h : c ∈ e.children) : c ∈ e.subexprs :=
  mem_subexprs.mpr (Or.inr ⟨c, h, c.self_mem_subexprs⟩)

/-- The tree of a node of `e` is part of the tree of `e`. -/
theorem subexprs_sublist {e s : Expr} (hs : s ∈ e.subexprs) : s.subexprs.Sublist e.subexprs := by
  induction e using induction_children with
  | h e ih =>
    rcases mem_subexprs.mp hs with rfl | ⟨c, hc, hs⟩
    · exact .refl _
    · rw [e.subexprs_eq]
      have hchild : c.subexprs.Sublist (e.children.flatMap subexprs) := by
        rw [List.flatMap_def]
        exact List.sublist_flatten_of_mem (List.mem_map_of_mem hc)
      exact ((ih c hc hs).trans hchild).trans (List.sublist_cons_self _ _)

/-- A node of a node of `e` is a node of `e`. -/
theorem subexprs_trans {e s t : Expr} (hs : s ∈ e.subexprs) (ht : t ∈ s.subexprs) :
    t ∈ e.subexprs :=
  (subexprs_sublist hs).subset ht

/-- Fewer paths lead on from the children of a node than from the node. -/
theorem length_children_lt (e : Expr) :
    (subexprsList e.children).length < e.subexprs.length := by
  rw [subexprs_eq, subexprsList_eq]
  exact Nat.lt_succ_self _

theorem length_child_lt {e c : Expr} (hc : c ∈ e.children) :
    c.subexprs.length < e.subexprs.length := by
  refine Nat.lt_of_le_of_lt ?_ e.length_children_lt
  rw [subexprsList_eq, List.flatMap_def]
  exact (List.sublist_flatten_of_mem (List.mem_map_of_mem hc)).length_le

/-- A node is no node of its own children. -/
theorem not_mem_subexprs_child {e c : Expr} (hc : c ∈ e.children) : e ∉ c.subexprs := by
  intro he
  have hle := (subexprs_sublist he).length_le
  have hlt := length_child_lt hc
  omega

end Expr

end Kxc.Relay
