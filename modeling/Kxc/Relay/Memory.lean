import Kxc.Relay.Pass
import Mathlib.Data.List.Forall2

/-! What the addresses of a graph hold while a rewriter runs. Every node that a rewriter reads or
builds is the one that the memory holds at its address, so comparing addresses, as `RelayPass`
does, compares nodes. -/

namespace Kxc.Relay

namespace Expr

/-- The variables in binding position at a node. -/
def boundVars : Expr → List Var
  | .function _ params _ => params
  | .letE _ v _ _ => [v]
  | _ => []

theorem withChildren_boundVars (e : Expr) (i : Nat) (cs : List Expr) :
    (e.withChildren i cs).boundVars = e.boundVars := by
  cases e <;> rcases cs with _ | ⟨a, _ | ⟨b, _ | ⟨c, _ | ⟨d, cs⟩⟩⟩⟩ <;> rfl

/-- The nodes of a tree, the variables in binding position among them. -/
def nodes (e : Expr) : List Expr := e.subexprs.flatMap fun s => s :: s.boundVars.map .var

theorem mem_nodes {e s : Expr} :
    s ∈ e.nodes ↔ ∃ t ∈ e.subexprs, s = t ∨ ∃ v ∈ t.boundVars, s = .var v := by
  simp only [nodes, List.mem_flatMap, List.mem_cons, List.mem_map, eq_comm]

theorem subexprs_subset_nodes (e : Expr) : e.subexprs ⊆ e.nodes :=
  fun s hs => mem_nodes.mpr ⟨s, hs, Or.inl rfl⟩

theorem nodes_subset {e s : Expr} (hs : s ∈ e.subexprs) : s.nodes ⊆ e.nodes := by
  intro t ht
  obtain ⟨u, hu, h⟩ := mem_nodes.mp ht
  exact mem_nodes.mpr ⟨u, subexprs_trans hs hu, h⟩

end Expr

/-- `e` is the tree of a graph that `σ` holds: its nodes, those in binding position too, are in
use, and nodes with one address are one node. -/
structure NodeGraph (σ : Heap) (e : Expr) : Prop where
  allocated : ∀ s ∈ e.nodes, s.ptr < σ.next
  coherent : ∀ s ∈ e.nodes, ∀ t ∈ e.nodes, s.ptr = t.ptr → s = t

/-- What the addresses below `next` hold. -/
structure Memory where
  next : Nat
  content : Nat → Expr

namespace Memory

/-- Every node of `e` is what `M` holds at its address. -/
def Holds (M : Memory) (e : Expr) : Prop :=
  ∀ s ∈ e.nodes, s.ptr < M.next ∧ M.content s.ptr = s

/-- `N` holds what `M` holds, and maybe more. -/
structure Extends (M N : Memory) : Prop where
  next : M.next ≤ N.next
  content : ∀ i < M.next, N.content i = M.content i

/-- `M` with a new node. -/
def alloc (M : Memory) (e : Expr) : Memory where
  next := M.next + 1
  content := Function.update M.content M.next e

theorem Extends.refl (M : Memory) : M.Extends M := ⟨le_rfl, fun _ _ => rfl⟩

theorem Extends.trans {M N P : Memory} (h : M.Extends N) (h' : N.Extends P) : M.Extends P :=
  ⟨h.next.trans h'.next,
    fun i hi => (h'.content i (hi.trans_le h.next)).trans (h.content i hi)⟩

theorem extends_alloc (M : Memory) (e : Expr) : M.Extends (M.alloc e) :=
  ⟨Nat.le_succ _, fun _ hi => Function.update_of_ne hi.ne _ _⟩

theorem Holds.mono {M N : Memory} {e : Expr} (h : M.Holds e) (hext : M.Extends N) : N.Holds e :=
  fun s hs => ⟨(h s hs).1.trans_le hext.next, (hext.content _ (h s hs).1).trans (h s hs).2⟩

theorem Holds.sub {M : Memory} {e s : Expr} (h : M.Holds e) (hs : s ∈ e.subexprs) : M.Holds s :=
  fun t ht => h t (Expr.nodes_subset hs ht)

theorem Holds.child {M : Memory} {e c : Expr} (h : M.Holds e) (hc : c ∈ e.children) : M.Holds c :=
  h.sub (Expr.child_mem_subexprs hc)

theorem Holds.boundVar {M : Memory} {e : Expr} {v : Var} (h : M.Holds e) (hv : v ∈ e.boundVars) :
    M.Holds (.var v) := by
  intro s hs
  obtain rfl : s = .var v := by simpa [Expr.nodes, Expr.subexprs, Expr.boundVars] using hs
  exact h _ (Expr.mem_nodes.mpr ⟨e, e.self_mem_subexprs, Or.inr ⟨v, hv, rfl⟩⟩)

/-- Two nodes with one address are one node. -/
theorem Holds.eq {M : Memory} {e e' : Expr} (h : M.Holds e) (h' : M.Holds e')
    (hptr : e.ptr = e'.ptr) : e = e' := by
  rw [← (h e (e.subexprs_subset_nodes e.self_mem_subexprs)).2, hptr,
    (h' e' (e'.subexprs_subset_nodes e'.self_mem_subexprs)).2]

theorem Holds.list_eq {M : Memory} {es es' : List Expr} (h : ∀ e ∈ es, M.Holds e)
    (h' : ∀ e ∈ es', M.Holds e) (hptr : es.map Expr.ptr = es'.map Expr.ptr) : es = es' := by
  induction es generalizing es' with
  | nil => exact (List.map_eq_nil_iff.mp hptr.symm).symm
  | cons e es ih =>
    cases es' with
    | nil => cases hptr
    | cons e' es' =>
      obtain ⟨hhead, htail⟩ := List.cons.inj hptr
      rw [(h e (by simp)).eq (h' e' (by simp)) hhead,
        ih (fun a ha => h a (by simp [ha])) (fun a ha => h' a (by simp [ha])) htail]

theorem holds_alloc {M : Memory} {e : Expr} (hptr : e.ptr = M.next)
    (hbound : ∀ v ∈ e.boundVars, M.Holds (.var v)) (h : ∀ c ∈ e.children, M.Holds c) :
    (M.alloc e).Holds e := by
  intro s hs
  obtain ⟨t, ht, hst⟩ := Expr.mem_nodes.mp hs
  rcases Expr.mem_subexprs.mp ht with rfl | ⟨c, hc, ht⟩
  · rcases hst with rfl | ⟨v, hv, rfl⟩
    · exact ⟨by simp [alloc, hptr], by simp [alloc, hptr]⟩
    · exact (hbound v hv).mono (M.extends_alloc t) _ (by simp [Expr.nodes, Expr.subexprs])
  · exact (h c hc).mono (M.extends_alloc e) s (Expr.mem_nodes.mpr ⟨t, ht, hst⟩)

/-- The memory of a graph. -/
theorem exists_of_graph {σ : Heap} {e : Expr} (h : NodeGraph σ e) :
    ∃ M : Memory, M.next = σ.next ∧ M.Holds e := by
  classical
  refine ⟨⟨σ.next, fun i => (e.nodes.find? fun s => s.ptr = i).getD .undef⟩, rfl, ?_⟩
  intro s hs
  refine ⟨h.allocated s hs, ?_⟩
  cases hfind : e.nodes.find? fun t => t.ptr = s.ptr with
  | none =>
    have hnone := List.find?_eq_none.mp hfind s hs
    simp at hnone
  | some t =>
    have hptr : t.ptr = s.ptr := by simpa using List.find?_some hfind
    simp only [hfind, Option.getD_some]
    exact h.coherent t (List.mem_of_find?_eq_some hfind) s hs hptr

/-- `r` is a result of a rewriter that ran from `M` and left `N`. -/
structure Yields (M : Memory) (r : Expr × Heap) (N : Memory) : Prop where
  grows : M.Extends N
  next : N.next = r.2.next
  holds : N.Holds r.1

end Memory

namespace RelayPass

theorem visitList_getElem? (f : Expr → Heap → Expr × Heap) (es : List Expr) (σ : Heap) (k : Nat) :
    (visitList f es σ).1[k]? =
      es[k]?.map fun e => (f e (visitList f (es.take k) σ).2).1 := by
  induction es generalizing σ k with
  | nil => rfl
  | cons e es ih =>
    cases k with
    | zero => rfl
    | succ k => exact ih _ k

/-- What holds of the run of `f` on each element holds of the elements one by one. -/
theorem visitList_forall₂ {f : Expr → Heap → Expr × Heap} {R : Expr → Expr → Prop}
    {es : List Expr} {σ : Heap}
    (hf : ∀ k e, es[k]? = some e → R e (f e (visitList f (es.take k) σ).2).1) :
    List.Forall₂ R es (visitList f es σ).1 := by
  induction es generalizing σ with
  | nil => exact .nil
  | cons e es ih => exact .cons (hf 0 e rfl) (ih fun k a ha => hf (k + 1) a ha)

/-- What holds of the run of `f` on each element, from any memory that extends `M`, holds of the
elements one by one. -/
theorem visitList_yields {f : Expr → Heap → Expr × Heap} {R : Expr → Expr → Prop} {es : List Expr}
    {M : Memory} {σ : Heap} (hσ : M.next = σ.next)
    (hf : ∀ k e, es[k]? = some e → ∀ N : Memory, M.Extends N →
      let τ := (visitList f (es.take k) σ).2
      N.next = τ.next → ∃ P, N.Yields (f e τ) P ∧ R e (f e τ).1) :
    ∃ N : Memory, M.Extends N ∧ N.next = (visitList f es σ).2.next ∧
      (∀ c ∈ (visitList f es σ).1, N.Holds c) ∧ List.Forall₂ R es (visitList f es σ).1 := by
  induction es generalizing M σ with
  | nil => exact ⟨M, .refl M, hσ, by simp [visitList], .nil⟩
  | cons e es ih =>
    obtain ⟨N, hyields, hR⟩ := hf 0 e rfl M (.refl M) hσ
    obtain ⟨P, hgrows, hnext, hholds, hRs⟩ := ih hyields.next
      fun k a ha N' hN' => hf (k + 1) a ha N' (hyields.grows.trans hN')
    refine ⟨P, hyields.grows.trans hgrows, hnext, ?_, .cons hR hRs⟩
    exact List.forall_mem_cons.mpr ⟨hyields.holds.mono hgrows, hholds⟩

/-- There is a memory before each element. -/
theorem visitList_take {f : Expr → Heap → Expr × Heap} {es : List Expr} {M : Memory} {σ : Heap}
    (hσ : M.next = σ.next)
    (hf : ∀ k e, es[k]? = some e → ∀ N : Memory, M.Extends N →
      let τ := (visitList f (es.take k) σ).2
      N.next = τ.next → ∃ P, N.Yields (f e τ) P)
    (k : Nat) : ∃ N : Memory, M.Extends N ∧ N.next = (visitList f (es.take k) σ).2.next := by
  obtain ⟨N, hgrows, hnext, -⟩ := @visitList_yields f (fun _ _ => True) (es.take k) M σ hσ
    fun j e hj => by
      rw [List.getElem?_take] at hj
      split at hj
      · next hjk => simpa [List.take_take, Nat.min_eq_left hjk.le] using hf j e hj
      · cases hj
  exact ⟨N, hgrows, hnext⟩

/-- A node rebuilt around mutated children holds these, at its own address or at a new one. -/
theorem rebuild_yields {e : Expr} {cs : List Expr} {M N : Memory} {σ : Heap}
    (hleaf : e.isLeaf = false) (he : M.Holds e) (hgrows : M.Extends N) (hσ : N.next = σ.next)
    (hholds : ∀ c ∈ cs, N.Holds c) (hlen : cs.length = e.children.length) :
    let rebuilt := rebuild e (cs.map Expr.ptr != e.children.map Expr.ptr)
      (fun i => e.withChildren i cs) σ
    ∃ P i, M.Yields rebuilt P ∧ rebuilt.1 = e.withChildren i cs := by
  intro rebuilt
  rcases rebuild_cases e (cs.map Expr.ptr != e.children.map Expr.ptr)
    (fun i => e.withChildren i cs) σ with ⟨heq, hsame⟩ | ⟨heq, -⟩
  · have hcs : cs = e.children := Memory.Holds.list_eq hholds
      (fun c hc => (he.child hc).mono hgrows) (by simpa using hsame)
    refine ⟨N, e.ptr, ?_, ?_⟩
    · simp only [rebuilt, heq]
      exact ⟨hgrows, hσ, he.mono hgrows⟩
    · simp only [rebuilt, heq]
      rw [hcs, Expr.withChildren_self hleaf]
  · obtain ⟨hptr, hchildren⟩ := Expr.withChildren_spec (i := σ.next) hleaf hlen
    refine ⟨N.alloc (e.withChildren σ.next cs), σ.next, ?_, by simp only [rebuilt, heq]; rfl⟩
    simp only [rebuilt, heq]
    exact ⟨hgrows.trans (N.extends_alloc _), congrArg (· + 1) hσ,
      Memory.holds_alloc (hptr.trans hσ.symm)
        (fun v hv => (he.boundVar (Expr.withChildren_boundVars e σ.next cs ▸ hv)).mono hgrows)
        fun c hc => hholds c (hchildren ▸ hc)⟩

/-- A visited node has its mutated children, at its own address or at a new one. -/
theorem visit_yields {f : Expr → Heap → Expr × Heap} {R : Expr → Expr → Prop} {e : Expr}
    {M : Memory} {σ : Heap} (hleaf : e.isLeaf = false) (hσ : M.next = σ.next) (he : M.Holds e)
    (hf : ∀ k c, e.children[k]? = some c → ∀ N : Memory, M.Extends N →
      let τ := (visitList f (e.children.take k) σ).2
      N.next = τ.next → ∃ P, N.Yields (f c τ) P ∧ R c (f c τ).1) :
    ∃ N i cs, M.Yields (visit f e σ) N ∧ (visit f e σ).1 = e.withChildren i cs ∧
      List.Forall₂ R e.children cs := by
  obtain ⟨N, hgrows, hnext, hholds, hRs⟩ := visitList_yields hσ hf
  obtain ⟨P, i, hyields, heq⟩ :=
    rebuild_yields hleaf he hgrows hnext hholds (visitList_length f e.children σ)
  exact ⟨P, i, _, hyields, heq, hRs⟩

/-- The function of a module gets the mutated body. -/
theorem visitFunction_body {func : Function} {new_body : Expr × Heap} {M N : Memory}
    (hbody : M.Holds func.body) (hyields : M.Yields new_body N) :
    (visitFunction func new_body).1.body = new_body.1 := by
  unfold visitFunction
  split
  · rfl
  · next hsame =>
    have hptr : new_body.1.ptr = func.body.ptr := by simpa using hsame
    exact (hbody.mono hyields.grows).eq hyields.holds hptr.symm

/-- A rewriter answers with a node that the memory holds, when it is given one. -/
def Holding (post : Post) : Prop :=
  ∀ (M : Memory) ref e (σ : Heap), M.next = σ.next → M.Holds e → ∃ N, M.Yields (post ref e σ) N

/-- In the run of a rewriter on an expression, the rewriter is given what `RelayPass` made of the
node `ref`. -/
inductive Acts (post : Post) : Expr → Heap → (ref rewritten : Expr) → Heap → Prop where
  | node {e : Expr} {σ : Heap} (hleaf : e.isLeaf = false) :
    Acts post e σ e (visit (mutate post) e σ).1 (visit (mutate post) e σ).2
  | child {e c ref rewritten : Expr} {σ τ : Heap} {k : Nat} (hc : e.children[k]? = some c)
    (h : Acts post c (visitList (mutate post) (e.children.take k) σ).2 ref rewritten τ) :
    Acts post e σ ref rewritten τ

/-- What holds of a leaf, and of a node that the rewriter is given once it holds of the node's
children, holds of every expression and what the rewriter makes of it. -/
theorem acts_yields {post : Post} {R : Expr → Expr → Prop} (hpost : Holding post)
    (hleaf : ∀ e, e.isLeaf = true → R e e) {e : Expr} {M : Memory} {σ : Heap}
    (hnode : ∀ ref i cs τ, Acts post e σ ref (ref.withChildren i cs) τ → ref.isLeaf = false →
      List.Forall₂ R ref.children cs → R ref (post ref (ref.withChildren i cs) τ).1)
    (hσ : M.next = σ.next) (he : M.Holds e) :
    ∃ N, M.Yields (mutate post e σ) N ∧ R e (mutate post e σ).1 := by
  induction e using Expr.induction_children generalizing M σ with
  | h e ih =>
    cases h : e.isLeaf with
    | true =>
      rw [mutate_leaf h]
      exact ⟨M, ⟨.refl M, hσ, he⟩, hleaf e h⟩
    | false =>
      obtain ⟨N, i, cs, hyields, heq, hRs⟩ := visit_yields h hσ he
        fun k c hc N hN hτ => ih c (List.mem_of_getElem? hc)
          (fun ref i cs τ hacts => hnode ref i cs τ (.child hc hacts)) hτ
          ((he.child (List.mem_of_getElem? hc)).mono hN)
      obtain ⟨P, hP⟩ := hpost N e _ _ hyields.next hyields.holds
      have hacts : Acts post e σ e (visit (mutate post) e σ).1 (visit (mutate post) e σ).2 :=
        .node h
      rw [mutate_eq_visit h]
      refine ⟨P, ⟨hyields.grows.trans hP.grows, hP.next, hP.holds⟩, ?_⟩
      rw [heq] at hacts ⊢
      exact hnode e i cs _ hacts h hRs

/-- What holds of a leaf, and of a node once it holds of the node's children, holds of every
expression and what a rewriter makes of it. -/
theorem mutate_yields {post : Post} {R : Expr → Expr → Prop} (hpost : Holding post)
    (hleaf : ∀ e, e.isLeaf = true → R e e)
    (hnode : ∀ e i cs σ, e.isLeaf = false → List.Forall₂ R e.children cs →
      R e (post e (e.withChildren i cs) σ).1)
    {e : Expr} {M : Memory} {σ : Heap} (hσ : M.next = σ.next) (he : M.Holds e) :
    ∃ N, M.Yields (mutate post e σ) N ∧ R e (mutate post e σ).1 :=
  acts_yields hpost hleaf (fun ref i cs τ _ => hnode ref i cs τ) hσ he

end RelayPass

end Kxc.Relay
