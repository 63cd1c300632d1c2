import Kxc.Relay.Transforms.CapturePostDfsIndexInSpans

/-! What the depth-first walk of `CapturePostDfsIndexInSpansPass` leaves. A node is open while its
children are walked. Every open node has the node that is walked below it, so an acyclic graph
never leads back to an open node, and a node is placed after all its children. -/

namespace Kxc.Relay

open Lib

namespace CapturePostDfsIndexInSpans

/-- The addresses of the children of a node that the walk enters. -/
def kids (e : Expr) : List Nat := ((GetChildren e).filter fun c => !skipped c).map Expr.ptr

/-- An edge from a node of the graph of `root` to a child. -/
def Edge (root : Expr) (p c : Nat) : Prop := ∃ e ∈ root.nodes, e.ptr = p ∧ c ∈ kids e

/-- A node that paths from the root lead to. -/
def Reached (root : Expr) (n : Nat) : Prop := ∃ l, Path (Edge root) root.ptr n l

theorem mem_kids {e : Expr} {n : Nat} :
    n ∈ kids e ↔ ∃ c ∈ GetChildren e, skipped c = false ∧ c.ptr = n := by
  simp only [kids, List.mem_map, List.mem_filter, Bool.not_eq_true', and_assoc]

theorem GetChildren_nodes {e c : Expr} (hc : c ∈ GetChildren e) :
    c ∈ e.children ∨ ∃ v ∈ e.boundVars, c = .var v := by
  cases e with
  | undef | constant | var | op => cases hc
  | call id callee args attrs origin => exact Or.inl (List.mem_cons_of_mem _ hc)
  | function id params body =>
    simp only [GetChildren, List.mem_append, List.mem_map, List.mem_singleton] at hc
    rcases hc with ⟨v, hv, rfl⟩ | rfl
    · exact Or.inr ⟨v, hv, rfl⟩
    · exact Or.inl (List.mem_singleton_self _)
  | letE id v value body =>
    simp only [GetChildren, List.mem_cons, List.not_mem_nil, or_false] at hc
    rcases hc with rfl | hc
    · exact Or.inr ⟨v, List.mem_singleton_self v, rfl⟩
    · exact Or.inl (by simpa [Expr.children] using hc)
  | ifE | tuple | tupleGetItem => exact Or.inl hc

theorem child_mem_nodes {root e c : Expr} (he : e ∈ root.nodes) (hc : c ∈ GetChildren e) :
    c ∈ root.nodes := by
  obtain ⟨t, ht, rfl | ⟨v, -, rfl⟩⟩ := Expr.mem_nodes.mp he
  · rcases GetChildren_nodes hc with hchild | ⟨v, hv, rfl⟩
    · exact Expr.subexprs_subset_nodes _
        (Expr.subexprs_trans ht (Expr.child_mem_subexprs hchild))
    · exact Expr.mem_nodes.mpr ⟨e, ht, Or.inr ⟨v, hv, rfl⟩⟩
  · cases hc

section Walk

variable {root : Expr} {M : Memory}

/-- What the walk of the graph of `root` keeps; `M` is the memory of the graph. -/
structure Walked (root : Expr) (M : Memory) (s : DfsState) : Prop where
  nodup : s.postorder.Nodup
  entered : ∀ n ∈ s.postorder, n ∈ s.visited
  known : ∀ n ∈ s.visited, s.node_to_expr n = some (M.content n)
  unknown : ∀ n ∉ s.visited, s.node_to_expr n = none
  reached : ∀ n ∈ s.visited, Reached root n
  closed : ∀ n ∈ s.postorder, ∀ c ∈ kids (M.content n),
    c ∈ s.postorder ∧ s.postorder.idxOf c < s.postorder.idxOf n ∧ n ∈ s.pred c
  preds : ∀ c, ∀ p ∈ s.pred c, p ∈ s.visited ∧ c ∈ kids (M.content p)

/-- What a part of the walk leaves as it was. -/
structure Continues (s t : DfsState) : Prop where
  order : s.postorder <+: t.postorder
  visited : s.visited ⊆ t.visited
  preds : ∀ c, s.pred c ⊆ t.pred c
  opened : ∀ n ∈ t.visited, n ∉ t.postorder → n ∈ s.visited ∧ n ∉ s.postorder
  stays : ∀ n ∈ s.visited, n ∉ s.postorder → n ∉ t.postorder

theorem Continues.refl (s : DfsState) : Continues s s :=
  ⟨List.prefix_rfl, Finset.Subset.refl _, fun _ _ h => h, fun _ h h' => ⟨h, h'⟩, fun _ _ h => h⟩

theorem Continues.trans {s t u : DfsState} (h : Continues s t) (h' : Continues t u) :
    Continues s u where
  order := h.order.trans h'.order
  visited := h.visited.trans h'.visited
  preds c _ hp := h'.preds c (h.preds c hp)
  opened n hn hopen := by
    obtain ⟨hn, hopen⟩ := h'.opened n hn hopen
    exact h.opened n hn hopen
  stays n hn hopen := h'.stays n (h.visited hn) (h.stays n hn hopen)

theorem continues_addPred (s : DfsState) (node child : Nat) :
    Continues s (s.addPred node child) where
  order := List.prefix_rfl
  visited := Finset.Subset.refl _
  preds c p hp := by
    by_cases hc : c = child
    · subst hc
      simpa [DfsState.addPred] using Or.inl hp
    · simpa [DfsState.addPred, Function.update_of_ne hc] using hp
  opened _ hn hopen := ⟨hn, hopen⟩
  stays _ _ hopen := hopen

theorem Walked.addPred {s : DfsState} {node child : Nat} (h : Walked root M s)
    (hnode : node ∈ s.visited) (hchild : child ∈ kids (M.content node)) :
    Walked root M (s.addPred node child) := by
  refine ⟨h.nodup, h.entered, h.known, h.unknown, h.reached, fun n hn c hc => ?_,
    fun c p hp => ?_⟩
  · obtain ⟨hc, hlt, hp⟩ := h.closed n hn c hc
    exact ⟨hc, hlt, (continues_addPred s node child).preds c hp⟩
  · by_cases hc : c = child
    · subst hc
      simp only [DfsState.addPred, Function.update_self, List.mem_append,
        List.mem_singleton] at hp
      rcases hp with hp | rfl
      · exact h.preds c p hp
      · exact ⟨hnode, hchild⟩
    · simp only [DfsState.addPred, Function.update_of_ne hc] at hp
      exact h.preds c p hp

theorem Walked.enter {s : DfsState} {e : Expr} (h : Walked root M s)
    (hcontent : M.content e.ptr = e) (hreached : Reached root e.ptr) :
    Walked root M (s.enter e) where
  nodup := h.nodup
  entered n hn := Finset.mem_insert_of_mem (h.entered n hn)
  known n hn := by
    by_cases hne : n = e.ptr
    · subst hne
      simp [DfsState.enter, hcontent]
    · simp only [DfsState.enter, Function.update_of_ne hne]
      exact h.known n ((Finset.mem_insert.mp hn).resolve_left hne)
  unknown n hn := by
    obtain ⟨hne, hn⟩ := not_or.mp (Finset.mem_insert.not.mp hn)
    simp only [DfsState.enter, Function.update_of_ne hne]
    exact h.unknown n hn
  reached n hn := by
    rcases Finset.mem_insert.mp hn with rfl | hn
    · exact hreached
    · exact h.reached n hn
  closed := h.closed
  preds c p hp := ⟨Finset.mem_insert_of_mem (h.preds c p hp).1, (h.preds c p hp).2⟩

theorem Walked.leave {s : DfsState} {n : Nat} (h : Walked root M s) (hn : n ∈ s.visited)
    (hopen : n ∉ s.postorder)
    (hkids : ∀ c ∈ kids (M.content n), c ∈ s.postorder ∧ n ∈ s.pred c) :
    Walked root M (s.leave n) where
  nodup := List.nodup_append.mpr ⟨h.nodup, List.nodup_singleton n, fun a ha b hb => by
    obtain rfl := List.mem_singleton.mp hb
    exact fun hab => hopen (hab ▸ ha)⟩
  entered m hm := by
    rcases List.mem_append.mp hm with hm | hm
    · exact h.entered m hm
    · exact List.mem_singleton.mp hm ▸ hn
  known := h.known
  unknown := h.unknown
  reached := h.reached
  closed m hm c hc := by
    rcases List.mem_append.mp hm with hm | hm
    · obtain ⟨hmem, hlt, hp⟩ := h.closed m hm c hc
      refine ⟨List.mem_append_left _ hmem, ?_, hp⟩
      simpa [DfsState.leave, List.idxOf_append_of_mem hmem, List.idxOf_append_of_mem hm] using hlt
    · obtain rfl := List.mem_singleton.mp hm
      obtain ⟨hmem, hp⟩ := hkids c hc
      refine ⟨List.mem_append_left _ hmem, ?_, hp⟩
      simpa [DfsState.leave, List.idxOf_append_of_mem hmem, List.idxOf_append_of_notMem hopen]
        using List.idxOf_lt_length_of_mem hmem
  preds := h.preds

theorem continues_leave {s t : DfsState} {e : Expr} (hnew : e.ptr ∉ s.visited)
    (h : Continues (s.enter e) t) : Continues s (t.leave e.ptr) where
  order := h.order.trans (List.prefix_append _ _)
  visited := (Finset.subset_insert _ _).trans h.visited
  preds := h.preds
  opened n hn hopen := by
    obtain ⟨hopen, hne⟩ := not_or.mp (List.mem_append.not.mp hopen)
    obtain ⟨hn, hopen⟩ := h.opened n hn hopen
    exact ⟨(Finset.mem_insert.mp hn).resolve_left fun heq => hne (heq ▸ List.mem_singleton_self _),
      hopen⟩
  stays n hn hopen hmem := by
    rcases List.mem_append.mp hmem with hmem | hmem
    · exact h.stays n (Finset.mem_insert_of_mem hn) hopen hmem
    · exact hnew (List.mem_singleton.mp hmem ▸ hn)

/-- The trees of the open nodes have at least `k` nodes. -/
def OpenAbove (M : Memory) (s : DfsState) (k : Nat) : Prop :=
  ∀ n ∈ s.visited, n ∉ s.postorder → k ≤ (M.content n).subexprs.length

/-- The walk of `e` from `s` ends in `t`. -/
structure Walks (root : Expr) (M : Memory) (s : DfsState) (e : Expr) (t : DfsState) : Prop where
  walked : Walked root M t
  continues : Continues s t
  placed : e.ptr ∈ t.postorder

theorem dfs_eq (s : DfsState) (e : Expr) :
    dfs s e = if skipped e || decide (e.ptr ∈ s.visited) then s
      else ((GetChildren e).foldl (fun t c =>
        if skipped c then t else dfs (t.addPred e.ptr c.ptr) c) (s.enter e)).leave e.ptr := by
  rw [dfs]
  have hattach := List.foldl_attach (l := GetChildren e) (b := s.enter e)
    (f := fun t c => if skipped c then t else dfs (t.addPred e.ptr c.ptr) c)
  simp only [← hattach]

/-- The loop over the children of an open node. -/
theorem foldl_walks {e : Expr} (hcontent : M.content e.ptr = e) (cs : List Expr)
    (hcs : ∀ c ∈ cs, c ∈ GetChildren e)
    (ih : ∀ c ∈ cs, skipped c = false → ∀ t, Walked root M t → Reached root c.ptr →
      OpenAbove M t (c.subexprs.length + 1) → Walks root M t c (dfs t c))
    (hreached : ∀ c ∈ kids e, Reached root c) {s : DfsState} (h : Walked root M s)
    (he : e.ptr ∈ s.visited) (hopen : OpenAbove M s e.subexprs.length) {t : DfsState}
    (ht : cs.foldl (fun t c => if skipped c then t else dfs (t.addPred e.ptr c.ptr) c) s = t) :
    Walked root M t ∧ Continues s t ∧
      ∀ c ∈ cs, skipped c = false → c.ptr ∈ t.postorder ∧ e.ptr ∈ t.pred c.ptr := by
  induction cs generalizing s with
  | nil => exact ⟨ht ▸ h, ht ▸ .refl s, by simp⟩
  | cons c cs ihcs =>
    rw [List.foldl_cons] at ht
    have hrest := fun c' hc' => hcs c' (List.mem_cons_of_mem _ hc')
    have ihrest := fun c' hc' => ih c' (List.mem_cons_of_mem _ hc')
    by_cases hskip : skipped c
    · rw [if_pos hskip] at ht
      obtain ⟨hwalked, hcont, hplaced⟩ := ihcs hrest ihrest h he hopen ht
      refine ⟨hwalked, hcont, fun c' hc' hs => ?_⟩
      rcases List.mem_cons.mp hc' with rfl | hc'
      · simp [hskip] at hs
      · exact hplaced c' hc' hs
    · rw [if_neg hskip] at ht
      have hskip : skipped c = false := by simpa using hskip
      have hchild : c ∈ GetChildren e := hcs c List.mem_cons_self
      have hkid : c.ptr ∈ kids e := mem_kids.mpr ⟨c, hchild, hskip, rfl⟩
      have hstart := h.addPred he (hcontent.symm ▸ hkid)
      have hbelow : OpenAbove M (s.addPred e.ptr c.ptr) (c.subexprs.length + 1) :=
        fun n hn hno => (GetChildren_length_lt hchild).trans_le (hopen n hn hno)
      have hc := ih c List.mem_cons_self hskip _ hstart (hreached _ hkid) hbelow
      have hfirst := (continues_addPred s e.ptr c.ptr).trans hc.continues
      have hopen' : OpenAbove M (dfs (s.addPred e.ptr c.ptr) c) e.subexprs.length := by
        intro n hn hno
        obtain ⟨hn, hno⟩ := hfirst.opened n hn hno
        exact hopen n hn hno
      obtain ⟨hwalked, hcont, hplaced⟩ :=
        ihcs hrest ihrest hc.walked (hfirst.visited he) hopen' ht
      refine ⟨hwalked, hfirst.trans hcont, fun c' hc' hs => ?_⟩
      rcases List.mem_cons.mp hc' with rfl | hc'
      · refine ⟨hcont.order.subset hc.placed, hcont.preds _ (hc.continues.preds _ ?_)⟩
        simp [DfsState.addPred]
      · exact hplaced c' hc' hs

/-- A node is placed after the nodes below it, whatever has been walked before. -/
theorem dfs_walks (hM : M.Holds root) (s : DfsState) {e : Expr} (he : e ∈ root.nodes)
    (hskip : skipped e = false) (h : Walked root M s) (hreached : Reached root e.ptr)
    (hopen : OpenAbove M s (e.subexprs.length + 1)) : Walks root M s e (dfs s e) := by
  induction hk : e.subexprs.length using Nat.strong_induction_on generalizing s e with
  | h k ih =>
    subst hk
    have hcontent := (hM e he).2
    rw [dfs_eq, hskip, Bool.false_or]
    by_cases hvisited : e.ptr ∈ s.visited
    · rw [if_pos (decide_eq_true hvisited)]
      refine ⟨h, .refl s, ?_⟩
      -- an open node would be below itself
      by_contra hno
      have := hopen _ hvisited hno
      rw [hcontent] at this
      omega
    · rw [if_neg (by simpa using hvisited)]
      obtain ⟨l, hpath⟩ := hreached
      have hkids : ∀ c ∈ kids e, Reached root c :=
        fun c hc => ⟨c :: l, hpath.step ⟨e, he, rfl, hc⟩⟩
      have hentered := h.enter hcontent ⟨l, hpath⟩
      have hopen' : OpenAbove M (s.enter e) e.subexprs.length := by
        intro n hn hno
        rcases Finset.mem_insert.mp hn with rfl | hn
        · rw [hcontent]
        · exact Nat.le_of_succ_le (hopen n hn hno)
      obtain ⟨hwalked, hcont, hplaced⟩ := foldl_walks hcontent (GetChildren e) (fun _ hc => hc)
        (fun c hc hs t ht hr ho =>
          ih _ (GetChildren_length_lt hc) t (child_mem_nodes he hc) hs ht hr ho rfl)
        hkids hentered (Finset.mem_insert_self _ _) hopen' rfl
      have hself := hcont.visited (Finset.mem_insert_self e.ptr s.visited)
      have hstill := hcont.stays e.ptr (Finset.mem_insert_self _ _)
        fun hmem => hvisited (h.entered _ hmem)
      refine ⟨hwalked.leave hself hstill fun c hc => ?_, continues_leave hvisited hcont,
        List.mem_append_right _ (List.mem_singleton_self _)⟩
      rw [hcontent] at hc
      obtain ⟨child, hchild, hs, rfl⟩ := mem_kids.mp hc
      exact hplaced child hchild hs

/-- What the whole walk leaves. -/
theorem dfs_root (hM : M.Holds root) (hskip : skipped root = false) :
    Walks root M {} root (dfs {} root) := by
  have hroot := root.subexprs_subset_nodes root.self_mem_subexprs
  refine dfs_walks hM {} hroot hskip ?_ ⟨_, .root⟩ fun n hn => absurd hn (Finset.notMem_empty n)
  exact ⟨List.nodup_nil, by simp, by simp, fun _ _ => rfl, by simp, by simp, by simp⟩

theorem Reached.node {n : Nat} (h : Reached root n) : ∃ e ∈ root.nodes, e.ptr = n := by
  obtain ⟨l, hpath⟩ := h
  cases hpath with
  | root => exact ⟨root, root.subexprs_subset_nodes root.self_mem_subexprs, rfl⟩
  | step _ hedge =>
    obtain ⟨e, he, -, hkid⟩ := hedge
    obtain ⟨c, hc, -, rfl⟩ := mem_kids.mp hkid
    exact ⟨c, child_mem_nodes he hc, rfl⟩

theorem Reached.edge {p c : Nat} (h : Reached root p) (hedge : Edge root p c) : Reached root c := by
  obtain ⟨l, hpath⟩ := h
  exact ⟨c :: l, hpath.step hedge⟩

/-- The edges of a graph without cycles descend. -/
theorem Edge.length_lt (hM : M.Holds root) {p c : Nat} (h : Edge root p c) :
    (M.content c).subexprs.length < (M.content p).subexprs.length := by
  obtain ⟨e, he, rfl, hkid⟩ := h
  obtain ⟨child, hchild, -, rfl⟩ := mem_kids.mp hkid
  rw [(hM e he).2, (hM child (child_mem_nodes he hchild)).2]
  exact GetChildren_length_lt hchild

theorem edge_iff (hM : M.Holds root) {p c : Nat} (h : Reached root p) :
    Edge root p c ↔ c ∈ kids (M.content p) := by
  obtain ⟨e, he, rfl⟩ := h.node
  rw [(hM e he).2]
  constructor
  · rintro ⟨e', he', hptr, hc⟩
    rwa [← (hM e he).2, ← hptr, (hM e' he').2]
  · exact fun hc => ⟨e, he, rfl, hc⟩

end Walk

/-- A walk of the graph of `root`: its nodes in post-order, and the parents of each. -/
structure PostOrdered (root : Expr) (s : DfsState) : Prop where
  nodup : s.postorder.Nodup
  mem_iff : ∀ n, n ∈ s.postorder ↔ Reached root n
  descends : ∀ p c, Reached root p → Edge root p c →
    s.postorder.idxOf c < s.postorder.idxOf p
  mem_pred : ∀ p c, p ∈ s.pred c ↔ Reached root p ∧ Edge root p c
  known : ∀ n, (s.node_to_expr n).isSome ↔ Reached root n

theorem dfs_postOrdered {root : Expr} {M : Memory} (hM : M.Holds root)
    (hskip : skipped root = false) : PostOrdered root (dfs {} root) := by
  obtain ⟨hwalked, hcont, hplaced⟩ := dfs_root hM hskip
  have hvisited : ∀ n, n ∈ (dfs {} root).visited → n ∈ (dfs {} root).postorder := by
    intro n hn
    by_contra hno
    exact absurd (hcont.opened n hn hno).1 (Finset.notMem_empty n)
  have hmem : ∀ n, n ∈ (dfs {} root).postorder ↔ Reached root n := by
    refine fun n => ⟨fun hn => hwalked.reached n (hwalked.entered n hn), ?_⟩
    rintro ⟨l, hpath⟩
    induction hpath with
    | root => exact hplaced
    | @step p n l hpath hedge ih =>
      exact (hwalked.closed p ih n ((edge_iff hM ⟨l, hpath⟩).mp hedge)).1
  refine ⟨hwalked.nodup, hmem, fun p c hp hedge => ?_, fun p c => ⟨fun hp => ?_, ?_⟩, fun n => ?_⟩
  · exact (hwalked.closed p ((hmem p).mpr hp) c ((edge_iff hM hp).mp hedge)).2.1
  · obtain ⟨hvis, hkid⟩ := hwalked.preds c p hp
    have hreached := hwalked.reached p hvis
    exact ⟨hreached, (edge_iff hM hreached).mpr hkid⟩
  · rintro ⟨hp, hedge⟩
    exact (hwalked.closed p ((hmem p).mpr hp) c ((edge_iff hM hp).mp hedge)).2.2
  · constructor
    · intro hsome
      by_contra hno
      have hnew : n ∉ (dfs {} root).visited := fun hn => hno (hwalked.reached n hn)
      rw [hwalked.unknown n hnew] at hsome
      exact absurd hsome Bool.false_ne_true
    · intro hreached
      rw [hwalked.known n (hwalked.entered n ((hmem n).mpr hreached))]
      rfl

end CapturePostDfsIndexInSpans

end Kxc.Relay
