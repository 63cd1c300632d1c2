import Kxc.Relay.Pass

/-! Which addresses a mutator's result uses. A rewriter that only allocates returns its argument or
a node at a new address, so a child whose address did not change did not change at all, and every
address that a run allocates occurs once in its result, however the argument was shared. -/

namespace Kxc.Relay

/-- `e` is the tree of a graph that `σ` holds: its addresses are in use, and nodes with one
address are one node. -/
structure Graph (σ : Heap) (e : Expr) : Prop where
  allocated : ∀ s ∈ e.subexprs, s.ptr < σ.next
  coherent : ∀ s ∈ e.subexprs, ∀ t ∈ e.subexprs, s.ptr = t.ptr → s = t
  registered : ∀ name, σ.registry name < σ.next

theorem Graph.mono {σ τ : Heap} {e s : Expr} (h : Graph σ e) (hs : s ∈ e.subexprs)
    (hgrows : σ.Grows τ) : Graph τ s where
  allocated t ht := (h.allocated t (Expr.subexprs_trans hs ht)).trans_le hgrows.next
  coherent t ht u hu := h.coherent t (Expr.subexprs_trans hs ht) u (Expr.subexprs_trans hs hu)
  registered name := by rw [hgrows.registry]; exact (h.registered name).trans_le hgrows.next

/-- The number of occurrences of the address `p` among some nodes. -/
def uses (p : Nat) (nodes : List Expr) : Nat := (nodes.map Expr.ptr).count p

@[simp]
theorem uses_nil (p : Nat) : uses p [] = 0 := rfl

@[simp]
theorem uses_cons (p : Nat) (e : Expr) (nodes : List Expr) :
    uses p (e :: nodes) = uses p nodes + if e.ptr = p then 1 else 0 := by
  simp [uses, List.count_cons]

@[simp]
theorem uses_append (p : Nat) (l l' : List Expr) : uses p (l ++ l') = uses p l + uses p l' := by
  simp [uses]

/-- The address of a call, and those of its callee and its arguments. -/
theorem uses_call (p id : Nat) (op : Expr) (args : List Expr) (attrs : Option Attrs)
    (origin : Nat) :
    uses p (Expr.call id op args attrs origin).subexprs =
      uses p op.subexprs + uses p (args.flatMap Expr.subexprs) + if id = p then 1 else 0 := by
  rw [Expr.subexprs, uses_cons, uses_append, Expr.subexprsList_eq, Expr.ptr]

theorem uses_eq_zero {p : Nat} {nodes : List Expr} (h : ∀ s ∈ nodes, s.ptr ≠ p) :
    uses p nodes = 0 := by
  rw [uses, List.count_eq_zero, List.mem_map]
  rintro ⟨s, hs, hp⟩
  exact h s hs hp

theorem uses_pos {p : Nat} {nodes : List Expr} {s : Expr} (hs : s ∈ nodes) (hp : s.ptr = p) :
    0 < uses p nodes :=
  List.count_pos_iff.mpr (List.mem_map.mpr ⟨s, hs, hp⟩)

/-- Among the addresses from `n` on, the nodes use only those in `[a, b)`, each at most once. -/
def OnceIn (n a b : Nat) (nodes : List Expr) : Prop :=
  ∀ p, n ≤ p → uses p nodes ≤ if a ≤ p ∧ p < b then 1 else 0

namespace OnceIn

variable {n a b c : Nat} {l l' : List Expr}

theorem append (h : OnceIn n a b l) (h' : OnceIn n b c l') (hab : a ≤ b) (hbc : b ≤ c) :
    OnceIn n a c (l ++ l') := by
  intro p hp
  have h1 := h p hp
  have h2 := h' p hp
  rw [uses_append]
  split_ifs at h1 h2 ⊢ <;> omega

theorem cons_new {e : Expr} (h : OnceIn n a b l) (he : e.ptr = b) (hab : a ≤ b) :
    OnceIn n a (b + 1) (e :: l) := by
  intro p hp
  have h1 := h p hp
  rw [uses_cons]
  split_ifs at h1 ⊢ <;> omega

theorem old (h : ∀ s ∈ l, s.ptr < n) : OnceIn n a b l := by
  intro p hp
  rw [uses_eq_zero fun s hs => by have := h s hs; omega]
  exact Nat.zero_le _

theorem range (h : OnceIn n a b l) {s : Expr} (hs : s ∈ l) (hn : n ≤ s.ptr) :
    a ≤ s.ptr ∧ s.ptr < b := by
  have h1 := h s.ptr hn
  have h2 := uses_pos hs rfl
  split_ifs at h1 with h3
  · exact h3
  · omega

/-- Two places with one address from `n` on are one place. -/
theorem pairwise (h : OnceIn n a b l) : l.Pairwise fun s t => s.ptr = t.ptr → s.ptr < n := by
  induction l with
  | nil => exact .nil
  | cons e l ih =>
    have hle : ∀ p, uses p l ≤ uses p (e :: l) := fun p => by rw [uses_cons]; omega
    refine .cons (fun t ht heq => ?_) (ih fun p hp => (hle p).trans (h p hp))
    by_contra hn
    have h1 := h e.ptr (not_lt.mp hn)
    have h2 := uses_pos ht heq.symm
    rw [uses_cons, if_pos rfl] at h1
    split_ifs at h1 <;> omega

end OnceIn

namespace RelayPass

/-- A rewriter that only allocates: it keeps the node it is given or answers with a new one, and
what it builds holds the nodes of its argument, registered operators, and new nodes, each once. -/
structure Allocating (post : Post) : Prop where
  grows : ∀ ref e (σ : Heap), σ.Grows (post ref e σ).2
  same_or_fresh : ∀ ref e σ, (post ref e σ).1 = e ∨ σ.next ≤ (post ref e σ).1.ptr
  mem : ∀ ref e σ, ∀ s ∈ (post ref e σ).1.subexprs,
    s ∈ e.subexprs ∨ s.isOp = true ∨ σ.next ≤ s.ptr
  uses : ∀ ref e σ p, (∀ name, σ.registry name ≠ p) →
    uses p (post ref e σ).1.subexprs ≤
      uses p e.subexprs + if σ.next ≤ p ∧ p < (post ref e σ).2.next then 1 else 0

namespace Allocating

variable {post : Post} (h : Allocating post)

include h

theorem mutate_grows (e : Expr) (σ : Heap) : σ.Grows (mutate post e σ).2 :=
  grows_mutate h.grows e σ

theorem mutateList_grows (es : List Expr) (σ : Heap) : σ.Grows (mutateList post es σ).2 :=
  grows_mutateList (fun e _ => h.mutate_grows e) σ

theorem mutate_same_or_fresh (e : Expr) (σ : Heap) :
    (mutate post e σ).1 = e ∨ σ.next ≤ (mutate post e σ).1.ptr := by
  cases hleaf : e.isLeaf with
  | true => exact Or.inl (by rw [mutate_leaf hleaf])
  | false =>
    have hnext := (h.mutateList_grows e.children σ).next
    have hlen := mutateList_length post e.children σ
    rw [mutate_node hleaf]
    generalize mutateList post e.children σ = new at hnext hlen
    obtain ⟨cs, τ⟩ := new
    replace hnext : σ.next ≤ τ.next := hnext
    rcases rebuild_cases e (cs.map Expr.ptr != e.children.map Expr.ptr)
      (fun i => e.withChildren i cs) τ with ⟨hr, -⟩ | ⟨hr, -⟩
    · simp only [hr]
      exact (h.same_or_fresh e e τ).imp_right hnext.trans
    · simp only [hr, Heap.new]
      refine Or.inr ?_
      have hptr := (Expr.withChildren_spec (i := τ.next) hleaf hlen).1
      rcases h.same_or_fresh e (e.withChildren τ.next cs)
        (τ.new (fun i => e.withChildren i cs) (τ.annOf e)).2 with hs | hs
      · simp only [Heap.new] at hs
        rw [hs, hptr]
        exact hnext
      · simp only [Heap.new] at hs
        omega

/-- Children whose addresses did not change did not change. -/
theorem mutateList_eq {es : List Expr} {σ : Heap} (hlt : ∀ e ∈ es, e.ptr < σ.next)
    (hptr : (mutateList post es σ).1.map Expr.ptr = es.map Expr.ptr) :
    (mutateList post es σ).1 = es := by
  induction es generalizing σ with
  | nil => rfl
  | cons e es ih =>
    simp only [mutateList, List.map_cons, List.cons.injEq] at hptr ⊢
    have he := hlt e (by simp)
    refine ⟨?_, ih (fun a ha => ?_) hptr.2⟩
    · rcases h.mutate_same_or_fresh e σ with hs | hs
      · exact hs
      · omega
    · exact (hlt a (by simp [ha])).trans_le (h.mutate_grows e σ).next

/-- A node is handed to the rewriter with its mutated children: at its own address, where no child
changed, or as a new node with its annotations. -/
theorem mutate_cases {e : Expr} {σ : Heap} (hleaf : e.isLeaf = false)
    (hlt : ∀ c ∈ e.children, c.ptr < σ.next) :
    ∃ i υ, mutate post e σ = post e (e.withChildren i (mutateList post e.children σ).1) υ ∧
      (mutateList post e.children σ).2.Grows υ ∧
      ((i = e.ptr ∧ (mutateList post e.children σ).1 = e.children ∧
          υ = (mutateList post e.children σ).2) ∨
        (i = (mutateList post e.children σ).2.next ∧ υ.next = i + 1 ∧
          υ.ann i = (mutateList post e.children σ).2.annOf e ∧
          (mutateList post e.children σ).1 ≠ e.children)) := by
  have heq := h.mutateList_eq hlt
  rw [mutate_node hleaf]
  generalize mutateList post e.children σ = new at heq
  obtain ⟨cs, τ⟩ := new
  rcases rebuild_cases e (cs.map Expr.ptr != e.children.map Expr.ptr)
    (fun i => e.withChildren i cs) τ with ⟨hr, hsame⟩ | ⟨hr, hchanged⟩
  · have hcs : cs = e.children := heq (by simpa using hsame)
    refine ⟨e.ptr, τ, ?_, .refl _, Or.inl ⟨rfl, hcs, rfl⟩⟩
    simp only [hr]
    rw [hcs, Expr.withChildren_self hleaf]
  · refine ⟨τ.next, _, by simp only [hr]; rfl, τ.grows_new (fun i => e.withChildren i cs)
      (τ.annOf e), Or.inr ⟨rfl, rfl, by simp [Heap.new], ?_⟩⟩
    rintro rfl
    simp at hchanged

theorem mutateList_mem {es : List Expr} {σ : Heap}
    (hes : ∀ e ∈ es, ∀ τ : Heap, σ.next ≤ τ.next → ∀ s ∈ (mutate post e τ).1.subexprs,
      s ∈ e.subexprs ∨ s.isOp = true ∨ σ.next ≤ s.ptr)
    {τ : Heap} (hτ : σ.next ≤ τ.next) :
    ∀ c ∈ (mutateList post es τ).1, ∀ s ∈ c.subexprs,
      (∃ e ∈ es, s ∈ e.subexprs) ∨ s.isOp = true ∨ σ.next ≤ s.ptr := by
  induction es generalizing τ with
  | nil => simp [mutateList]
  | cons e es ih =>
    refine List.forall_mem_cons.mpr ⟨fun s hs => ?_, fun c hc s hs => ?_⟩
    · exact (hes e (by simp) τ hτ s hs).imp_left fun hs => ⟨e, by simp, hs⟩
    · refine (ih (fun a ha => hes a (by simp [ha])) (hτ.trans (h.mutate_grows e τ).next) c hc s
        hs).imp_left ?_
      rintro ⟨a, ha, hs⟩
      exact ⟨a, by simp [ha], hs⟩

/-- The result holds only nodes of the argument, registered operators and new nodes. -/
theorem mutate_mem {e : Expr} {σ : Heap} (hlt : ∀ s ∈ e.subexprs, s.ptr < σ.next) :
    ∀ s ∈ (mutate post e σ).1.subexprs, s ∈ e.subexprs ∨ s.isOp = true ∨ σ.next ≤ s.ptr := by
  induction e using Expr.induction_children generalizing σ with
  | h e ih =>
    cases hleaf : e.isLeaf with
    | true => rw [mutate_leaf hleaf]; exact fun s hs => Or.inl hs
    | false =>
      obtain ⟨i, υ, heq, hgrows, hi⟩ := h.mutate_cases (σ := σ) hleaf
        fun c hc => hlt c (Expr.child_mem_subexprs hc)
      have hlen := mutateList_length post e.children σ
      have hchildren := h.mutateList_mem (σ := σ) (τ := σ) (fun c hc τ hτ s hs =>
        (ih c hc (fun t ht => (hlt t (Expr.subexprs_trans (Expr.child_mem_subexprs hc)
          ht)).trans_le hτ) s hs).imp_right (Or.imp_right hτ.trans)) le_rfl
      have hnext := (h.mutateList_grows e.children σ).next
      rw [heq]
      generalize mutateList post e.children σ = new at hgrows hi hlen hchildren hnext
      intro s hs
      rcases h.mem e _ υ s hs with hs | hs | hs
      · obtain ⟨hptr, hcs⟩ := Expr.withChildren_spec (i := i) hleaf hlen
        rcases Expr.mem_subexprs.mp hs with rfl | ⟨c, hc, hs⟩
        · rcases hi with ⟨rfl, hsame, -⟩ | ⟨rfl, -⟩
          · rw [hsame, Expr.withChildren_self hleaf]
            exact Or.inl e.self_mem_subexprs
          · exact Or.inr (Or.inr (by rw [hptr]; exact hnext))
        · refine (hchildren c (hcs ▸ hc) s hs).imp_left ?_
          rintro ⟨a, ha, hs⟩
          exact Expr.subexprs_trans (Expr.child_mem_subexprs ha) hs
      · exact Or.inr (Or.inl hs)
      · exact Or.inr (Or.inr ((hnext.trans hgrows.next).trans hs))

theorem mutateList_once {n : Nat} {es : List Expr} {σ : Heap} (hn : n ≤ σ.next)
    (hreg : ∀ name, σ.registry name < n)
    (hes : ∀ e ∈ es, ∀ τ : Heap, n ≤ τ.next → (∀ name, τ.registry name < n) →
      OnceIn n τ.next (mutate post e τ).2.next (mutate post e τ).1.subexprs) :
    OnceIn n σ.next (mutateList post es σ).2.next
      ((mutateList post es σ).1.flatMap Expr.subexprs) := by
  induction es generalizing σ with
  | nil => exact .old (by simp [mutateList])
  | cons e es ih =>
    have hgrows := h.mutate_grows e σ
    have hfirst := hes e (by simp) σ hn hreg
    have hrest := ih (hn.trans hgrows.next) (by rw [hgrows.registry]; exact hreg)
      fun a ha => hes a (by simp [ha])
    simp only [mutateList, List.flatMap_cons]
    exact hfirst.append hrest hgrows.next (h.mutateList_grows es _).next

/-- Each new address occurs once in the result. -/
theorem mutate_once {n : Nat} {e : Expr} {σ : Heap} (hlt : ∀ s ∈ e.subexprs, s.ptr < n)
    (hn : n ≤ σ.next) (hreg : ∀ name, σ.registry name < n) :
    OnceIn n σ.next (mutate post e σ).2.next (mutate post e σ).1.subexprs := by
  induction e using Expr.induction_children generalizing σ with
  | h e ih =>
    cases hleaf : e.isLeaf with
    | true => rw [mutate_leaf hleaf]; exact .old hlt
    | false =>
      obtain ⟨i, υ, heq, hgrows, hi⟩ := h.mutate_cases (σ := σ) hleaf
        fun c hc => (hlt c (Expr.child_mem_subexprs hc)).trans_le hn
      have hlen := mutateList_length post e.children σ
      have hlist := h.mutateList_grows e.children σ
      have hchildren := h.mutateList_once hn hreg fun c hc τ hτ hregτ =>
        ih c hc (fun t ht => hlt t (Expr.subexprs_trans (Expr.child_mem_subexprs hc) ht)) hτ hregτ
      have hself := hlt e e.self_mem_subexprs
      rw [heq]
      generalize mutateList post e.children σ = new at hgrows hi hlen hchildren hlist
      obtain ⟨hptr, hcs⟩ := Expr.withChildren_spec (i := i) hleaf hlen
      have hnode : OnceIn n σ.next υ.next (e.withChildren i new.1).subexprs := by
        rw [Expr.subexprs_eq, hcs]
        rcases hi with ⟨rfl, -, rfl⟩ | ⟨rfl, hυ, -⟩
        · intro p hp
          rw [uses_cons, if_neg (by omega)]
          exact hchildren p hp
        · rw [hυ]
          exact hchildren.cons_new hptr hlist.next
      intro p hp
      have hpost := h.uses e (e.withChildren i new.1) υ p fun name => by
        rw [hgrows.registry, hlist.registry]
        exact (hreg name |>.trans_le hp).ne
      have hle := hnode p hp
      have hυ : σ.next ≤ υ.next := hlist.next.trans hgrows.next
      have hτ := (h.grows e (e.withChildren i new.1) υ).next
      split_ifs at hpost hle ⊢ <;> omega

end Allocating

end RelayPass

end Kxc.Relay
