import Kxc.Relay.Transforms.ExecPlanSsa
import Kxc.Relay.Fresh
import Kxc.Relay.Transforms.MultiDevice

/-! How many nodes of an execution plan one communication call of the input graph gives rise to:
one for each path that reaches the call. The inserter makes a new call on every path, and the
builder's memo table never meets one of them twice. -/

namespace Kxc.Relay

open Lib

namespace Expr

/-- The origin of a communication call. -/
def commOrigin? : Expr → Option Nat
  | .call _ callee _ _ origin =>
    if IsCommunicationOpName (GetCallOpName callee) then some origin else none
  | _ => none

/-- A call of a communication operator. -/
def isCommCall (e : Expr) : Bool := e.commOrigin?.isSome

/-- A graph that no pass has rewritten: each of its communication calls is its own origin. -/
def IsInput (e : Expr) : Prop := ∀ s ∈ e.subexprs, ∀ o ∈ s.commOrigin?, o = s.ptr

instance (e : Expr) : Decidable e.IsInput :=
  inferInstanceAs (Decidable (∀ s ∈ e.subexprs, ∀ o ∈ s.commOrigin?, o = s.ptr))

/-- The origins of the communication calls of a tree, once for each path. -/
def commOrigins (e : Expr) : List Nat := e.subexprs.filterMap commOrigin?

theorem commOrigins_eq (e : Expr) :
    e.commOrigins = e.commOrigin?.toList ++ e.children.flatMap commOrigins := by
  rw [commOrigins, subexprs_eq, List.filterMap_cons, List.filterMap_flatMap]
  cases e.commOrigin? <;> rfl

theorem commOrigins_leaf {e : Expr} (h : e.isLeaf = true) : e.commOrigins = [] := by
  cases e with
  | undef | constant | var | op => rfl
  | _ => simp [isLeaf] at h

@[simp]
theorem commOrigins_op (id : Nat) (name : String) : (op id name).commOrigins = [] := rfl

theorem commOrigins_child {e c : Expr} (hc : c ∈ e.children) (h : c.commOrigins ≠ []) :
    e.commOrigins ≠ [] := by
  rw [commOrigins_eq]
  intro hnil
  exact h (List.flatMap_eq_nil_iff.mp (List.append_eq_nil_iff.mp hnil).2 c hc)

/-- A node with other children is a communication call when it was one, if the name of its callee
is the same. -/
theorem withChildren_commOrigin? {e : Expr} {i : Nat} {cs : List Expr}
    (h : cs.head?.map GetCallOpName = e.children.head?.map GetCallOpName) :
    (e.withChildren i cs).commOrigin? = e.commOrigin? := by
  cases e with
  | call id callee args attrs origin =>
    cases cs with
    | nil => cases h
    | cons c cs =>
      have hname : GetCallOpName c = GetCallOpName callee := Option.some_inj.mp h
      simp only [withChildren, commOrigin?, hname]
  | _ => rcases cs with _ | ⟨a, _ | ⟨b, _ | ⟨c, _ | ⟨d, cs⟩⟩⟩⟩ <;> rfl

end Expr

/-! ### The inserter -/

namespace DeviceCommunicationInserter

theorem copyArgs_mem {consumer_vd : Option VirtualDevice} {args : List Expr} {σ : Heap} :
    ∀ a ∈ (copyArgs consumer_vd args σ).new_args, ∀ s ∈ a.subexprs,
      (∃ b ∈ args, s ∈ b.subexprs) ∨ s.isOp = true ∨ σ.next ≤ s.ptr := by
  induction args generalizing σ with
  | nil => simp [copyArgs]
  | cons arg args ih =>
    have hlift : ∀ τ : Heap, σ.next ≤ τ.next →
        ∀ a ∈ (copyArgs consumer_vd args τ).new_args, ∀ s ∈ a.subexprs,
          (∃ b ∈ arg :: args, s ∈ b.subexprs) ∨ s.isOp = true ∨ σ.next ≤ s.ptr := by
      intro τ hτ a ha s hs
      rcases ih a ha s hs with ⟨b, hb, hs⟩ | hs | hs
      · exact Or.inl ⟨b, by simp [hb], hs⟩
      · exact Or.inr (Or.inl hs)
      · exact Or.inr (Or.inr (hτ.trans hs))
    rcases copyArgs_cons consumer_vd arg args σ with ⟨-, heq⟩ | ⟨-, heq⟩
    · rw [heq]
      exact List.forall_mem_cons.mpr ⟨fun s hs => Or.inl ⟨arg, by simp, hs⟩, hlift σ le_rfl⟩
    · obtain ⟨hptr, hchildren, -, hgrows⟩ := copyCall_spec consumer_vd arg σ
      rw [heq]
      refine List.forall_mem_cons.mpr ⟨fun s hs => ?_, hlift _ hgrows.next⟩
      rcases Expr.mem_subexprs.mp hs with rfl | ⟨c, hc, hsub⟩
      · exact Or.inr (Or.inr hptr.ge)
      · rw [hchildren] at hc
        rcases List.mem_pair.mp hc with rfl | rfl
        · simp only [Op.Get, Expr.subexprs, List.mem_singleton] at hsub
          exact Or.inr (Or.inl (hsub ▸ rfl))
        · exact Or.inl ⟨c, by simp, hsub⟩

theorem copyArgs_uses (consumer_vd : Option VirtualDevice) (args : List Expr) {σ : Heap} {p : Nat}
    (hp : ∀ name, σ.registry name ≠ p) :
    uses p ((copyArgs consumer_vd args σ).new_args.flatMap Expr.subexprs) ≤
      uses p (args.flatMap Expr.subexprs) +
        if σ.next ≤ p ∧ p < (copyArgs consumer_vd args σ).heap.next then 1 else 0 := by
  induction args generalizing σ with
  | nil => simp [copyArgs]
  | cons arg args ih =>
    rcases copyArgs_cons consumer_vd arg args σ with ⟨-, heq⟩ | ⟨-, heq⟩
    · have hrest := ih hp
      rw [heq]
      simp only [List.flatMap_cons, uses_append]
      omega
    · -- the copy takes the address `σ.next`, and the rest of the loop starts after it
      obtain ⟨hptr, hchildren, hnext, hgrows⟩ := copyCall_spec consumer_vd arg σ
      have hcopy : uses p (copyCall consumer_vd arg σ).1.subexprs =
          uses p arg.subexprs + if σ.next = p then 1 else 0 := by
        have hop : uses p (Op.Get σ "device.copy").subexprs = 0 := uses_eq_zero fun s hs => by
          simp only [Op.Get, Expr.subexprs, List.mem_singleton] at hs
          exact hs ▸ hp _
        rw [Expr.subexprs_eq, hchildren, uses_cons, hptr]
        simp [hop]
      generalize copyCall consumer_vd arg σ = copy at heq hcopy hnext hgrows
      have hreg : ∀ name, copy.2.registry name ≠ p := by rwa [hgrows.registry]
      have hrest := ih hreg
      have hgrows' := (copyArgs_grows consumer_vd args copy.2).next
      rw [heq]
      simp only [List.flatMap_cons, uses_append, hcopy]
      generalize copyArgs consumer_vd args copy.2 = rest at hrest hgrows' ⊢
      rw [hnext] at hrest hgrows'
      split_ifs at hrest ⊢ <;> omega

theorem post_mem (ref e : Expr) (σ : Heap) :
    ∀ s ∈ (post ref e σ).1.subexprs, s ∈ e.subexprs ∨ s.isOp = true ∨ σ.next ≤ s.ptr := by
  cases e with
  | call id op args attrs origin =>
    rcases post_call ref id op args attrs origin σ with ⟨-, h⟩ | ⟨-, -, -, -, h⟩ | ⟨-, -, h⟩
    · rw [h]
      intro s hs
      rcases Expr.mem_subexprs.mp hs with rfl | ⟨c, hc, hs⟩
      · exact Or.inr (Or.inr le_rfl)
      · exact Or.inl (Expr.mem_subexprs.mpr (Or.inr ⟨c, hc, hs⟩))
    · rw [h]
      intro s hs
      rcases Expr.mem_subexprs.mp hs with rfl | ⟨c, hc, hs⟩
      · exact Or.inr (Or.inr (copyArgs_grows _ args σ).next)
      · simp only [Heap.new, Expr.children, List.mem_cons] at hc
        rcases hc with hc | hc
        · rw [hc] at hs
          exact Or.inl (Expr.subexprs_trans (Expr.child_mem_subexprs (by simp [Expr.children])) hs)
        · refine (copyArgs_mem c hc s hs).imp_left ?_
          rintro ⟨b, hb, hs⟩
          exact Expr.subexprs_trans (Expr.child_mem_subexprs (by simp [Expr.children, hb])) hs
    · rw [h]; exact fun s hs => Or.inl hs
  | _ => exact fun s hs => Or.inl hs

theorem post_uses (ref e : Expr) (σ : Heap) (p : Nat) (hp : ∀ name, σ.registry name ≠ p) :
    uses p (post ref e σ).1.subexprs ≤
      uses p e.subexprs + if σ.next ≤ p ∧ p < (post ref e σ).2.next then 1 else 0 := by
  cases e with
  | call id op args attrs origin =>
    rcases post_call ref id op args attrs origin σ with ⟨-, h⟩ | ⟨-, -, -, -, h⟩ | ⟨-, -, h⟩
    · rw [h]
      have hle : ∀ attrs', uses p (Expr.call σ.next op args attrs' origin).subexprs ≤
          uses p (Expr.call id op args attrs origin).subexprs +
            if σ.next ≤ p ∧ p < σ.next + 1 then 1 else 0 := by
        intro attrs'
        rw [uses_call, uses_call]
        split_ifs <;> omega
      exact hle _
    · have hargs := copyArgs_uses (GetVirtualDeviceFromExpr σ
        (.call id op args attrs origin)) args hp
      have hgrows := (copyArgs_grows (GetVirtualDeviceFromExpr σ
        (.call id op args attrs origin)) args σ).next
      rw [h]
      generalize copyArgs _ args σ = copied at hargs hgrows ⊢
      have hle : uses p (Expr.call copied.heap.next op copied.new_args attrs origin).subexprs ≤
          uses p (Expr.call id op args attrs origin).subexprs +
            if σ.next ≤ p ∧ p < copied.heap.next + 1 then 1 else 0 := by
        rw [uses_call, uses_call]
        split_ifs at hargs ⊢ <;> omega
      exact hle
    · rw [h]; exact Nat.le_add_right _ _
  | _ => exact Nat.le_add_right _ _

/-- The inserter only allocates. -/
theorem post_allocating : RelayPass.Allocating post where
  grows ref e σ := by
    cases e with
    | call id op args attrs origin =>
      rcases post_call ref id op args attrs origin σ with ⟨-, h⟩ | ⟨-, -, -, -, h⟩ | ⟨-, -, h⟩
      · rw [h]; exact σ.grows_new _ _
      · rw [h]; exact (copyArgs_grows _ args σ).trans (Heap.grows_new _ _ _)
      · rw [h]; exact .refl σ
    | _ => exact .refl σ
  same_or_fresh ref e σ := by
    cases e with
    | call id op args attrs origin =>
      rcases post_call ref id op args attrs origin σ with ⟨-, h⟩ | ⟨-, -, -, -, h⟩ | ⟨-, -, h⟩
      · rw [h]; exact Or.inr le_rfl
      · rw [h]; exact Or.inr (copyArgs_grows _ args σ).next
      · rw [h]; exact Or.inl rfl
    | _ => exact Or.inl rfl
  mem := post_mem
  uses := post_uses

/-- The inserter keeps the origins below the addresses that it allocates. -/
theorem copyArgs_commOrigins (consumer_vd : Option VirtualDevice) (args : List Expr) {σ : Heap}
    {n : Nat} (hn : n ≤ σ.next) :
    ((copyArgs consumer_vd args σ).new_args.flatMap Expr.commOrigins).filter (· < n) =
      (args.flatMap Expr.commOrigins).filter (· < n) := by
  induction args generalizing σ with
  | nil => rfl
  | cons arg args ih =>
    rcases copyArgs_cons consumer_vd arg args σ with ⟨-, heq⟩ | ⟨-, heq⟩
    · rw [heq]
      simp only [List.flatMap_cons, List.filter_append, ih hn]
    · -- the origin of a copy is its own address, which is new
      have hcopy : (copyCall consumer_vd arg σ).1.commOrigins = σ.next :: arg.commOrigins := by
        rw [Expr.commOrigins_eq, (copyCall_spec consumer_vd arg σ).2.1]
        simp [copyCall, Heap.new, Op.Get, Expr.commOrigin?, GetCallOpName, IsCommunicationOpName]
      rw [heq]
      simp only [List.flatMap_cons, List.filter_append, hcopy,
        ih (hn.trans (copyCall_spec consumer_vd arg σ).2.2.2.next)]
      rw [List.filter_cons_of_neg (by simpa using hn)]

theorem post_opName (ref e : Expr) (σ : Heap) :
    GetCallOpName (post ref e σ).1 = GetCallOpName e := by
  cases e with
  | call id op args attrs origin =>
    rcases post_call ref id op args attrs origin σ with ⟨-, h⟩ | ⟨-, -, -, -, h⟩ | ⟨-, -, h⟩
    all_goals rw [h]
    all_goals rfl
  | _ => rfl

theorem post_commOrigins (ref e : Expr) {σ : Heap} {n : Nat} (hn : n ≤ σ.next) :
    (post ref e σ).1.commOrigins.filter (· < n) = e.commOrigins.filter (· < n) := by
  cases e with
  | call id op args attrs origin =>
    rcases post_call ref id op args attrs origin σ with ⟨-, h⟩ | ⟨-, -, -, -, h⟩ | ⟨-, -, h⟩
    · rw [h]
      simp only [Heap.new, Expr.commOrigins_eq (.call ..), Expr.commOrigin?, Expr.children]
    · rw [h]
      simp only [Heap.new, Expr.commOrigins_eq (.call ..), Expr.commOrigin?, Expr.children,
        List.flatMap_cons, List.filter_append, copyArgs_commOrigins _ args hn]
    · rw [h]
  | _ => rfl

theorem mutate_opName (e : Expr) (σ : Heap) :
    GetCallOpName (RelayPass.mutate post e σ).1 = GetCallOpName e := by
  cases hleaf : e.isLeaf with
  | true => rw [RelayPass.mutate_leaf hleaf]
  | false =>
    rw [RelayPass.mutate_node hleaf, post_opName]
    generalize RelayPass.mutateList post e.children σ = new
    rcases RelayPass.rebuild_cases e (new.1.map Expr.ptr != e.children.map Expr.ptr)
      (fun i => e.withChildren i new.1) new.2 with ⟨h, -⟩ | ⟨h, -⟩
    · rw [h]
    · rw [h]; exact Expr.withChildren_opName e _ _

theorem mutateList_commOrigins {es : List Expr} {σ : Heap} {n : Nat} (hn : n ≤ σ.next)
    (hes : ∀ e ∈ es, ∀ τ : Heap, n ≤ τ.next →
      (RelayPass.mutate post e τ).1.commOrigins.filter (· < n) = e.commOrigins.filter (· < n)) :
    ((RelayPass.mutateList post es σ).1.flatMap Expr.commOrigins).filter (· < n) =
      (es.flatMap Expr.commOrigins).filter (· < n) := by
  induction es generalizing σ with
  | nil => rfl
  | cons e es ih =>
    have hrest := ih (hn.trans (post_allocating.mutate_grows e σ).next)
      fun a ha => hes a (by simp [ha])
    simp only [RelayPass.mutateList, List.flatMap_cons, List.filter_append, hes e (by simp) σ hn,
      hrest]

/-- Below the addresses that it allocates, the inserter keeps the communication calls, path by
path. -/
theorem mutate_commOrigins {e : Expr} {σ : Heap} {n : Nat} (hlt : ∀ s ∈ e.subexprs, s.ptr < n)
    (hn : n ≤ σ.next) :
    (RelayPass.mutate post e σ).1.commOrigins.filter (· < n) = e.commOrigins.filter (· < n) := by
  induction e using Expr.induction_children generalizing σ with
  | h e ih =>
    cases hleaf : e.isLeaf with
    | true => rw [RelayPass.mutate_leaf hleaf]
    | false =>
      obtain ⟨i, υ, heq, hgrows, -⟩ := post_allocating.mutate_cases (σ := σ) hleaf
        fun c hc => (hlt c (Expr.child_mem_subexprs hc)).trans_le hn
      have hnext := (post_allocating.mutateList_grows e.children σ).next.trans hgrows.next
      have hchildren := mutateList_commOrigins hn fun c hc τ hτ =>
        ih c hc (fun s hs => hlt s (Expr.subexprs_trans (Expr.child_mem_subexprs hc) hs)) hτ
      have hhead : (RelayPass.mutateList post e.children σ).1.head?.map GetCallOpName =
          e.children.head?.map GetCallOpName := by
        cases e.children with
        | nil => rfl
        | cons c cs => exact congrArg some (mutate_opName c σ)
      obtain ⟨-, hcs⟩ := Expr.withChildren_spec (i := i) hleaf
        (RelayPass.mutateList_length post e.children σ)
      rw [heq, post_commOrigins _ _ (hn.trans hnext), Expr.commOrigins_eq, hcs,
        Expr.withChildren_commOrigin? hhead, Expr.commOrigins_eq e, List.filter_append, hchildren,
        List.filter_append]

/-- If the communication calls below a node are at addresses from `n` on, and the node is too when
there are any, the same holds of what the inserter makes of it. -/
theorem post_fresh {ref e : Expr} {σ : Heap} {n : Nat} (hn : n ≤ σ.next)
    (hchildren : ∀ c ∈ e.children, ∀ s ∈ c.subexprs, s.commOrigins ≠ [] → n ≤ s.ptr)
    (hself : e.children.flatMap Expr.commOrigins ≠ [] → n ≤ e.ptr) :
    ∀ s ∈ (post ref e σ).1.subexprs, s.commOrigins ≠ [] → n ≤ s.ptr := by
  intro s hs hcomm
  cases horigin : e.commOrigin? with
  | none =>
    rcases post_allocating.mem ref e σ s hs with hs | hs | hs
    · rcases Expr.mem_subexprs.mp hs with rfl | ⟨c, hc, hs⟩
      · rw [Expr.commOrigins_eq, horigin] at hcomm
        exact hself (by simpa using hcomm)
      · exact hchildren c hc s hs hcomm
    · cases s with
      | op => exact absurd rfl hcomm
      | _ => simp [Expr.isOp] at hs
    · exact hn.trans hs
  | some o =>
    -- a communication call is always made anew, over the same children
    cases e with
    | call id op args attrs origin =>
      rcases post_call ref id op args attrs origin σ with ⟨-, h⟩ | ⟨hname, -⟩ | ⟨hname, -⟩
      · rw [h] at hs
        rcases Expr.mem_subexprs.mp hs with rfl | ⟨c, hc, hs⟩
        · exact hn
        · exact hchildren c hc s hs hcomm
      · simp [Expr.commOrigin?, hname] at horigin
      · simp [Expr.commOrigin?, hname] at horigin
    | _ => simp [Expr.commOrigin?] at horigin

theorem mutateList_fresh {es : List Expr} {σ : Heap} {n : Nat} (hn : n ≤ σ.next)
    (hes : ∀ e ∈ es, ∀ τ : Heap, n ≤ τ.next → ∀ s ∈ (RelayPass.mutate post e τ).1.subexprs,
      s.commOrigins ≠ [] → n ≤ s.ptr) :
    ∀ c ∈ (RelayPass.mutateList post es σ).1, ∀ s ∈ c.subexprs,
      s.commOrigins ≠ [] → n ≤ s.ptr := by
  induction es generalizing σ with
  | nil => simp [RelayPass.mutateList]
  | cons e es ih =>
    exact List.forall_mem_cons.mpr ⟨hes e (by simp) σ hn,
      ih (hn.trans (post_allocating.mutate_grows e σ).next) fun a ha => hes a (by simp [ha])⟩

/-- The inserter makes every communication call anew, and every node above one. -/
theorem mutate_fresh {e : Expr} {σ : Heap} {n : Nat} (hlt : ∀ s ∈ e.subexprs, s.ptr < n)
    (hn : n ≤ σ.next) :
    ∀ s ∈ (RelayPass.mutate post e σ).1.subexprs, s.commOrigins ≠ [] → n ≤ s.ptr := by
  induction e using Expr.induction_children generalizing σ with
  | h e ih =>
    cases hleaf : e.isLeaf with
    | true =>
      rw [RelayPass.mutate_leaf hleaf]
      intro s hs hcomm
      cases e with
      | undef | constant | var | op =>
        simp only [Expr.subexprs, List.mem_singleton] at hs
        rw [hs] at hcomm
        exact absurd rfl hcomm
      | _ => simp [Expr.isLeaf] at hleaf
    | false =>
      have hltc : ∀ c ∈ e.children, ∀ s ∈ c.subexprs, s.ptr < n := fun c hc s hs =>
        hlt s (Expr.subexprs_trans (Expr.child_mem_subexprs hc) hs)
      obtain ⟨i, υ, heq, hgrows, hi⟩ := post_allocating.mutate_cases (σ := σ) hleaf
        fun c hc => (hltc c hc c c.self_mem_subexprs).trans_le hn
      have hnext := (post_allocating.mutateList_grows e.children σ).next
      have hchildren := mutateList_fresh hn fun c hc τ hτ => ih c hc (hltc c hc) hτ
      have hspec := Expr.withChildren_spec (i := i) hleaf
        (RelayPass.mutateList_length post e.children σ)
      rw [heq]
      generalize RelayPass.mutateList post e.children σ = new at hgrows hi hnext hchildren hspec
      refine post_fresh (hn.trans (hnext.trans hgrows.next)) (by rwa [hspec.2]) fun hcomm => ?_
      rw [hspec.1]
      rcases hi with ⟨-, hsame, -⟩ | ⟨rfl, -⟩
      · -- an unchanged child holds no communication call: it would have been made anew
        rw [hspec.2] at hcomm
        obtain ⟨o, ho⟩ := List.exists_mem_of_ne_nil _ hcomm
        obtain ⟨c, hc, ho⟩ := List.mem_flatMap.mp ho
        have hge := hchildren c hc c c.self_mem_subexprs (List.ne_nil_of_mem ho)
        have hold := hltc c (hsame ▸ hc) c c.self_mem_subexprs
        omega
      · exact hn.trans hnext

/-- Two places of the result with one address hold no communication call. -/
theorem mutate_pairwise {e : Expr} {σ : Heap} (hgraph : Graph σ e) :
    (RelayPass.mutate post e σ).1.subexprs.Pairwise fun s t =>
      s.ptr = t.ptr → s.commOrigins = [] ∧ t.commOrigins = [] := by
  have hfresh := mutate_fresh hgraph.allocated (le_refl σ.next)
  have honce := (post_allocating.mutate_once hgraph.allocated le_rfl hgraph.registered).pairwise
  refine honce.imp_of_mem fun {s t} hs ht hlt hptr => ?_
  have hold := hlt hptr
  constructor
  · by_contra hcomm
    have := hfresh s hs hcomm
    omega
  · by_contra hcomm
    have := hfresh t ht hcomm
    omega

end DeviceCommunicationInserter

end Kxc.Relay

namespace Kxc

/-- The origin of a communication node. -/
def ExecNode.commOrigin? : ExecNode → Option Nat
  | comm _ _ _ _ _ origin => some origin
  | _ => none

namespace Relay.RelayToExecPlanBuilder

open Lib

/-! ### The builder -/

/-- The origins of the communication nodes so far. -/
def commOrigins (b : PlanBuilder) : List Nat := b.nodes.filterMap ExecNode.commOrigin?

/-- The visits of `nodes` add one communication node for each of `origins`, and memo entries for
`nodes` only. -/
structure Emits (origins : List Nat) (nodes : List Expr) (b b' : PlanBuilder) : Prop where
  origins : (commOrigins b').Perm (commOrigins b ++ origins)
  memo : ∀ p, (∀ s ∈ nodes, s.ptr ≠ p) → b'.memo p = b.memo p

/-- Nodes that the memo table cannot take for each other where there is communication, and of which
it knows none that holds communication. -/
structure Ready (nodes : List Expr) (b : PlanBuilder) : Prop where
  distinct : nodes.Pairwise fun s t => s.ptr = t.ptr → s.commOrigins = [] ∧ t.commOrigins = []
  unknown : ∀ s ∈ nodes, s.commOrigins ≠ [] → b.memo s.ptr = none

theorem Emits.refl (nodes : List Expr) (b : PlanBuilder) : Emits [] nodes b b :=
  ⟨by simp, fun _ _ => rfl⟩

theorem Emits.trans {o o' : List Nat} {l l' : List Expr} {b b' b'' : PlanBuilder}
    (h : Emits o l b b') (h' : Emits o' l' b' b'') : Emits (o ++ o') (l ++ l') b b'' where
  origins := by
    rw [← List.append_assoc]
    exact h'.origins.trans (h.origins.append_right o')
  memo p hp := (h'.memo p fun s hs => hp s (List.mem_append_right _ hs)).trans
    (h.memo p fun s hs => hp s (List.mem_append_left _ hs))

theorem Emits.mono {o o' : List Nat} {l l' : List Expr} {b b' : PlanBuilder}
    (h : Emits o l b b') (ho : o.Perm o') (hl : ∀ s ∈ l, s ∈ l') : Emits o' l' b b' :=
  ⟨h.origins.trans (ho.append_left _), fun p hp => h.memo p fun s hs => hp s (hl s hs)⟩

/-- Writing other fields than the nodes and the memo table emits nothing. -/
theorem Emits.congr {o : List Nat} {l : List Expr} {b b' b'' : PlanBuilder} (h : Emits o l b b')
    (hnodes : b''.nodes = b'.nodes) (hmemo : b''.memo = b'.memo) : Emits o l b b'' :=
  ⟨by simpa only [commOrigins, hnodes] using h.origins, by simpa only [hmemo] using h.memo⟩

theorem Ready.congr {l : List Expr} {b b' : PlanBuilder} (h : Ready l b)
    (hmemo : b'.memo = b.memo) : Ready l b' :=
  ⟨h.distinct, by simpa only [hmemo] using h.unknown⟩

theorem Ready.sublist {l l' : List Expr} {b : PlanBuilder} (h : Ready l b) (hl : l'.Sublist l) :
    Ready l' b :=
  ⟨h.distinct.sublist hl, fun s hs => h.unknown s (hl.subset hs)⟩

theorem Ready.children {e : Expr} {b : PlanBuilder} (h : Ready e.subexprs b) :
    Ready (e.children.flatMap Expr.subexprs) b :=
  h.sublist (by rw [e.subexprs_eq]; exact List.sublist_cons_self _ _)

/-- What was visited is no obstacle for what comes after it. -/
theorem Ready.append_right {o : List Nat} {l l' : List Expr} {b b' : PlanBuilder}
    (h : Ready (l ++ l') b) (he : Emits o l b b') : Ready l' b' := by
  obtain ⟨-, hright, hcross⟩ := List.pairwise_append.mp h.distinct
  refine ⟨hright, fun t ht hcomm => ?_⟩
  rw [he.memo t.ptr fun s hs hptr => hcomm (hcross s hs t ht hptr).2]
  exact h.unknown t (List.mem_append_right _ ht) hcomm

theorem VisitVar_emits {σ : Heap} {v : Var} {l : List Expr} {b : PlanBuilder} :
    Ensures (VisitVar σ v) b fun _ b' => Emits [] l b b' := by
  simp only [VisitVar, outcome_bind, outcome_get]
  split
  · exact .refl l b
  · exact AllocateValue_spec fun _ => (Emits.refl l b).congr rfl rfl

theorem VisitConstant_emits {σ : Heap} {ref : Expr} {data : Option NDArray} {l : List Expr}
    {b : PlanBuilder} : Ensures (VisitConstant σ ref data) b fun _ b' => Emits [] l b b' := by
  simp only [VisitConstant, outcome_bind, outcome_modify]
  refine AllocateValue_spec fun devices => ?_
  split <;> exact (Emits.refl l b).congr rfl rfl

theorem emitKernel_emits {pass_ctx : PassContext} {σ : Heap} {ref : Expr} {op_name : String}
    {inputs : List Int} {l : List Expr} {b : PlanBuilder} :
    Ensures (emitKernel pass_ctx σ ref op_name inputs) b fun _ b' => Emits [] l b b' := by
  simp only [emitKernel, pushNode, outcome_bind, outcome_get, outcome_modify, outcome_pure]
  refine AllocateValue_spec fun devices => ⟨?_, fun _ _ => rfl⟩
  simp [commOrigins, ExecNode.commOrigin?, List.filterMap_cons]

theorem emitComm_emits {pass_ctx : PassContext} {σ : Heap} {ref : Expr} {op_name : String}
    {args : List Expr} {attrs : Option Attrs} {origin : Nat} {inputs : List Int} {l : List Expr}
    {b : PlanBuilder} :
    Ensures (emitComm pass_ctx σ ref op_name args attrs origin inputs) b fun _ b' =>
      Emits [origin] l b b' := by
  simp only [emitComm, pushNode, outcome_bind, outcome_get, outcome_modify, outcome_pure]
  refine AllocateValue_spec fun devices => ⟨?_, fun _ _ => rfl⟩
  simp [commOrigins, ExecNode.commOrigin?]

/-- `Visit` of a node emits what the visit of its children and of itself emits, unless the memo
table knows the node: then it holds no communication. -/
theorem memoized_emits {e : Expr} {visit : BuildM Int} {b : PlanBuilder}
    (hready : Ready e.subexprs b)
    (h : Ensures visit b fun _ b' =>
      Emits e.commOrigins (e.children.flatMap Expr.subexprs) b b') :
    Ensures (memoized e.ptr visit) b fun _ b' => Emits e.commOrigins e.subexprs b b' := by
  simp only [memoized, outcome_bind, outcome_get]
  split
  · rename_i x hx
    have hnone : e.commOrigins = [] := by
      by_contra hcomm
      rw [hready.unknown e e.self_mem_subexprs hcomm] at hx
      cases hx
    rw [hnone]
    exact .refl _ b
  · simp only [outcome_bind, outcome_modify, outcome_pure]
    refine h.mono fun x b' hb => ⟨hb.origins, fun p hp => ?_⟩
    have hne : p ≠ e.ptr := fun heq => hp e e.self_mem_subexprs heq.symm
    refine (Function.update_of_ne hne _ _).trans (hb.memo p fun s hs => hp s ?_)
    rw [e.subexprs_eq]
    exact List.mem_cons_of_mem _ hs

theorem VisitList_emits {pass_ctx : PassContext} {σ : Heap} {es : List Expr}
    (hvisit : ∀ e ∈ es, ∀ b, Ready e.subexprs b →
      Ensures (Visit pass_ctx σ e) b fun _ b' => Emits e.commOrigins e.subexprs b b')
    {b : PlanBuilder} (hready : Ready (es.flatMap Expr.subexprs) b) :
    Ensures (VisitList pass_ctx σ es) b fun _ b' =>
      Emits (es.flatMap Expr.commOrigins) (es.flatMap Expr.subexprs) b b' := by
  induction es generalizing b with
  | nil => exact .refl _ b
  | cons e es ih =>
    simp only [VisitList, outcome_bind, outcome_pure, List.flatMap_cons] at hready ⊢
    refine (hvisit e (by simp) b (hready.sublist (List.sublist_append_left _ _))).mono fun x b1 h1 => ?_
    have hrest := ih (fun a ha => hvisit a (by simp [ha])) (hready.append_right h1)
    exact hrest.mono fun xs b2 h2 => h1.trans h2

/-- A visit emits one communication node for each path to a communication call. -/
theorem Visit_emits {pass_ctx : PassContext} {σ : Heap} {e : Expr} {b : PlanBuilder}
    (hready : Ready e.subexprs b) :
    Ensures (Visit pass_ctx σ e) b fun _ b' => Emits e.commOrigins e.subexprs b b' := by
  induction e using Expr.induction generalizing b with
  | undef => exact .refl _ b
  | constant id data => exact memoized_emits hready VisitConstant_emits
  | var v => exact memoized_emits hready VisitVar_emits
  | op id name => exact memoized_emits hready trivial
  | call id callee args attrs origin _ iha =>
    refine memoized_emits hready ?_
    simp only [outcome_bind, outcome_ite, outcome_throw, implies_true, true_and]
    intro hname
    -- the callee is an operator, which is not visited
    have hcallee : callee.commOrigins = [] := by
      cases callee with
      | op => rfl
      | _ => exact absurd rfl hname
    have hargs := hready.children.sublist (List.sublist_append_right _ _)
    refine (VisitList_emits (fun a ha _ h => iha a ha h) hargs).mono fun xs b1 h1 => ?_
    have hsub : ∀ s ∈ args.flatMap Expr.subexprs ++ [],
        s ∈ (Expr.call id callee args attrs origin).children.flatMap Expr.subexprs :=
      fun s hs => List.mem_append_right _ (by simpa using hs)
    have horigins := Expr.commOrigins_eq (.call id callee args attrs origin)
    simp only [Expr.children, List.flatMap_cons, hcallee, List.nil_append] at horigins
    refine ⟨fun hcomm => ?_, fun hcomm => ?_⟩
    · refine emitComm_emits.mono fun x b2 h2 => (h1.trans h2).mono ?_ hsub
      simp only [Expr.commOrigin?, if_pos hcomm, Option.toList_some] at horigins
      rw [horigins]
      exact List.perm_append_comm
    · refine emitKernel_emits.mono fun x b2 h2 => (h1.trans h2).mono ?_ hsub
      simp only [Expr.commOrigin?, if_neg hcomm, Option.toList_none, List.nil_append] at horigins
      rw [horigins, List.append_nil]
  | function id params body ih =>
    refine memoized_emits hready ((ih (hready.children.sublist (by simp [Expr.children]))).mono
      fun x b1 h1 => ?_)
    simpa [Expr.commOrigins_eq (.function ..), Expr.commOrigin?, Expr.children] using h1
  | ifE id c t f => exact memoized_emits hready trivial
  | letE id v value body ihv ihb =>
    refine memoized_emits hready ?_
    have hboth : Ready (value.subexprs ++ body.subexprs) b := by
      simpa [Expr.children] using hready.children
    simp only [bindVar, outcome_bind, outcome_modify, outcome_pure]
    refine (ihv (hboth.sublist (List.sublist_append_left _ _))).mono fun x b1 h1 => ?_
    have hbody : Ready body.subexprs
        { b1 with var_bindings := Function.update b1.var_bindings v.id (some x) } :=
      (hboth.append_right h1).congr rfl
    refine (ihb hbody).mono fun y b2 h2 => ?_
    have h12 : Emits (value.commOrigins ++ body.commOrigins) (value.subexprs ++ body.subexprs) b
        { b2 with var_bindings := Function.update b2.var_bindings v.id none } :=
      h1.trans ⟨h2.origins, h2.memo⟩
    simpa [Expr.commOrigins_eq (.letE ..), Expr.commOrigin?, Expr.children] using h12
  | tuple id fields ih =>
    refine memoized_emits hready ?_
    simp only [outcome_bind]
    refine (VisitList_emits (fun a ha _ h => ih a ha h) hready.children).mono fun xs b1 h1 => ?_
    refine emitKernel_emits.mono fun x b2 h2 => (h1.trans (h2 : Emits [] [] b1 b2)).mono ?_ ?_
    · simp [Expr.commOrigins_eq (.tuple ..), Expr.commOrigin?, Expr.children]
    · simp [Expr.children]
  | tupleGetItem id t index ih =>
    refine memoized_emits hready ?_
    simp only [outcome_bind]
    refine (ih (hready.children.sublist (by simp [Expr.children]))).mono fun x b1 h1 => ?_
    refine emitKernel_emits.mono fun x b2 h2 => (h1.trans (h2 : Emits [] [] b1 b2)).mono ?_ ?_
    · simp [Expr.commOrigins_eq (.tupleGetItem ..), Expr.commOrigin?, Expr.children]
    · simp [Expr.children]

theorem VisitParams_emits {σ : Heap} {params : List Var} {b : PlanBuilder} :
    Ensures (VisitParams σ params) b fun _ b' => Emits [] [] b b' := by
  induction params generalizing b with
  | nil => exact .refl _ b
  | cons param params ih =>
    simp only [VisitParams, bindVar, outcome_bind, outcome_modify]
    refine AllocateValue_spec fun devices => ?_
    unfold CaptureValueInfoFromType
    split <;> exact ih.mono fun _ b' h => ⟨h.origins, h.memo⟩

end Relay.RelayToExecPlanBuilder

/-- The origins of the communication nodes of a plan. -/
def ExecutionPlan.commOrigins (plan : ExecutionPlan) : List Nat :=
  plan.nodes.filterMap ExecNode.commOrigin?

namespace Relay

open Lib

/-! ### Plans -/

/-- A plan has one communication node for each path to a communication call of the body. -/
theorem RelayToExecPlanBuilder.Build_commOrigins {pass_ctx : PassContext} {σ : Heap}
    {func : Function} {plan : ExecutionPlan} (h : Build pass_ctx σ func = .ok plan)
    (hready : Ready func.body.subexprs {}) : plan.commOrigins.Perm func.body.commOrigins := by
  have hrun : Ensures (do VisitParams σ func.params; Visit pass_ctx σ func.body) {}
      fun _ b => (commOrigins b).Perm func.body.commOrigins := by
    simp only [outcome_bind]
    refine VisitParams_emits.mono fun _ b1 h1 => ?_
    have hmemo : Ready func.body.subexprs b1 := hready.congr (funext fun p => h1.memo p (by simp))
    refine (Visit_emits hmemo).mono fun _ b2 h2 => ?_
    simpa [commOrigins] using (h1.trans h2).origins
  unfold Build at h
  cases hb : (do VisitParams σ func.params; Visit pass_ctx σ func.body :
      BuildM Int).run {} with
  | error e => rw [hb] at h; cases h
  | ok p =>
    rw [hb] at h
    cases h
    exact hrun.of_ok hb

/-- The inserter replaces the body by the mutated one. -/
theorem InsertDeviceCommunicationPass_body {func : Function} {σ : Heap}
    (hlt : func.body.ptr < σ.next) :
    (InsertDeviceCommunicationPass func σ).1.body =
      (RelayPass.mutate DeviceCommunicationInserter.post func.body σ).1 := by
  unfold InsertDeviceCommunicationPass RelayPass.mutateFunction RelayPass.visitFunction
  dsimp only
  split
  · rfl
  · rename_i hsame
    rcases DeviceCommunicationInserter.post_allocating.mutate_same_or_fresh func.body σ
      with h | h
    · exact h.symm
    · simp only [bne_iff_ne, ne_eq, Decidable.not_not] at hsame
      omega

/-- In a graph that no pass has rewritten, the paths to a communication call are the occurrences
of its address. -/
theorem Expr.IsInput.count_commOrigins {σ : Heap} {e s : Expr} (hinput : e.IsInput)
    (hgraph : Graph σ e) (hs : s ∈ e.subexprs) (hcomm : s.isCommCall = true) :
    e.commOrigins.count s.ptr = uses s.ptr e.subexprs := by
  obtain ⟨o, ho⟩ := Option.isSome_iff_exists.mp hcomm
  have hself : s.commOrigin? = some s.ptr := by rw [ho, hinput s hs o ho]
  rw [Expr.commOrigins, uses, List.count_filterMap, List.count, List.countP_map]
  refine List.countP_congr fun t ht => ?_
  simp only [Function.comp, beq_iff_eq]
  constructor
  · exact fun h => (hinput t ht _ h).symm
  · exact fun h => hgraph.coherent t ht s hs h ▸ hself

/-- A communication call of the input graph is executed as often as paths of the body reach it:
at least once, and more often where consumers share it. -/
theorem LowerRelayToExecPlanPass_count {apis : DeviceAPIManager} {current : PassContext}
    {func : Function} {σ : Heap} {plan : ExecutionPlan} (hgraph : Graph σ func.toExpr)
    (hinput : func.body.IsInput) (h : LowerRelayToExecPlanPass apis current func σ = .ok plan)
    {s : Expr} (hs : s ∈ func.body.subexprs) (hcomm : s.isCommCall = true) :
    plan.commOrigins.count s.ptr = uses s.ptr func.body.subexprs := by
  have hchild : func.body ∈ func.toExpr.subexprs :=
    Expr.child_mem_subexprs (by simp [Function.toExpr, Expr.children])
  have hbody : Graph σ func.body := hgraph.mono hchild (.refl σ)
  unfold LowerRelayToExecPlanPass at h
  cases hctx : lowerContext apis current func σ with
  | error e => rw [hctx] at h; cases h
  | ok pass_ctx =>
    rw [hctx] at h
    have hmutated := InsertDeviceCommunicationPass_body (hbody.allocated _ (Expr.self_mem_subexprs _))
    have hperm := RelayToExecPlanBuilder.Build_commOrigins h
      ⟨by rw [hmutated]; exact DeviceCommunicationInserter.mutate_pairwise hbody,
        fun _ _ _ => rfl⟩
    have hlt := hbody.allocated s hs
    have hfilter := DeviceCommunicationInserter.mutate_commOrigins hbody.allocated (le_refl σ.next)
    have hcount : ∀ l : List Nat, (l.filter (· < σ.next)).count s.ptr = l.count s.ptr :=
      fun l => List.count_filter (by simpa using hlt)
    rw [hperm.count_eq, hmutated, ← hcount, hfilter, hcount, hinput.count_commOrigins hbody hs hcomm]

/-- Every communication call of the input graph gives rise to exactly one communication node of
the plan if and only if each of them is reached along one path from the body. -/
theorem LowerRelayToExecPlanPass_comm_once {apis : DeviceAPIManager} {current : PassContext}
    {func : Function} {σ : Heap} {plan : ExecutionPlan} (hgraph : Graph σ func.toExpr)
    (hinput : func.body.IsInput) (h : LowerRelayToExecPlanPass apis current func σ = .ok plan) :
    (∀ s ∈ func.body.subexprs, s.isCommCall = true → plan.commOrigins.count s.ptr = 1) ↔
      ∀ s ∈ func.body.subexprs, s.isCommCall = true → uses s.ptr func.body.subexprs = 1 := by
  refine forall₃_congr fun s hs hcomm => ?_
  rw [LowerRelayToExecPlanPass_count hgraph hinput h hs hcomm]

/-- `fn (x) { add(y, y) }`, where the two arguments are one call `y` of `allreduce(x)`. -/
def sharedAllreduce : Function :=
  let x : Var := { id := 1, name_hint := "x" }
  let y := Expr.call 3 (.op 2 "device.allreduce") [.var x] none 3
  { id := 9, params := [x], body := .call 5 (.op 4 "add") [y, y] none 5 }

def sharedAllreducePlan : ExecutionPlan where
  nodes :=
    let attrs := some (.collective "device.allreduce" "sum" true 0 0)
    [.comm "device.allreduce" attrs [0] [1] [0] 3, .comm "device.allreduce" attrs [0] [2] [0] 3,
      .kernel "add" "" [1, 2] [3] [0]]
  value_virtual_devices := ∅
  input_value_ids := [0]
  constant_value_ids := []
  value_shapes := ∅
  value_dtypes := ∅
  num_values := 4
  pass_ctx := { defined := true, disco_placement := some {} }
  output_value := 3

theorem sharedAllreduce_graph : Graph { next := 10 } sharedAllreduce.toExpr where
  allocated := by decide
  coherent s hs t ht h := by
    simp only [sharedAllreduce, Function.toExpr, Expr.subexprs, Expr.subexprsList, List.mem_cons,
      List.mem_append, List.not_mem_nil, or_false] at hs ht
    rcases hs with rfl | rfl | rfl | (rfl | rfl | rfl) | rfl | rfl | rfl <;>
      rcases ht with rfl | rfl | rfl | (rfl | rfl | rfl) | rfl | rfl | rfl <;>
      first | rfl | cases h
  registered _ := Nat.zero_lt_succ 9

theorem sharedAllreduce_isInput : sharedAllreduce.body.IsInput := by decide

/-- The shared call is executed twice. -/
theorem sharedAllreduce_twice :
    sharedAllreduce.WellScoped ∧ Graph { next := 10 } sharedAllreduce.toExpr ∧
      sharedAllreduce.body.IsInput ∧
      LowerRelayToExecPlanPass (fun _ => .error "") {} sharedAllreduce { next := 10 } =
        .ok sharedAllreducePlan ∧
      ¬ ∀ s ∈ sharedAllreduce.body.subexprs, s.isCommCall = true →
        sharedAllreducePlan.commOrigins.count s.ptr = 1 :=
  ⟨⟨by simp [sharedAllreduce, Function.toExpr, Expr.ClosedIn, Expr.ClosedListIn],
      Expr.boundOnce_of_nodup (by decide)⟩,
    sharedAllreduce_graph, sharedAllreduce_isInput, rfl, by decide⟩

theorem sharedAllreduce_comm_once :
    (∀ s ∈ sharedAllreduce.body.subexprs, s.isCommCall = true →
        sharedAllreducePlan.commOrigins.count s.ptr = 1) ↔
      ∀ s ∈ sharedAllreduce.body.subexprs, s.isCommCall = true →
        uses s.ptr sharedAllreduce.body.subexprs = 1 :=
  @LowerRelayToExecPlanPass_comm_once (fun _ => .error "") {} sharedAllreduce { next := 10 }
    sharedAllreducePlan sharedAllreduce_graph sharedAllreduce_isInput rfl

end Relay

end Kxc
