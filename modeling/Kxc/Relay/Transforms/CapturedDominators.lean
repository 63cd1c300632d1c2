import Kxc.Relay.Transforms.PostDfsOrder
import Mathlib.Algebra.Order.BigOperators.Group.Finset
import Mathlib.Data.Finset.Sort
import Mathlib.Data.List.Induction

/-! The sets of dominators that `CapturePostDfsIndexInSpansPass` iterates to, and the spans that it
writes. The sets shrink from above towards the greatest solution of the equations, whatever the
order in which the nodes are taken; a round that changes nothing has reached it. -/

namespace Kxc.Relay

open Lib

namespace CapturePostDfsIndexInSpans

theorem foldl_update {β : Type} (l : List Nat) (f : Nat → β) (m : Nat → β) (n : Nat) :
    l.foldl (fun m x => Function.update m x (f x)) m n = if n ∈ l then f n else m n := by
  induction l using List.reverseRecOn with
  | nil => simp
  | append_singleton l a ih =>
    rw [List.foldl_append, List.foldl_cons, List.foldl_nil]
    by_cases hn : n = a
    · subst hn
      simp
    · rw [Function.update_of_ne hn, ih]
      simp [hn]

theorem postIndex_eq {l : List Nat} (hnodup : l.Nodup) {n : Nat} (hn : n ∈ l) :
    postIndex l n = l.idxOf n := by
  induction l using List.reverseRecOn with
  | nil => cases hn
  | append_singleton l a ih =>
    obtain ⟨hl, -, hdisjoint⟩ := List.nodup_append.mp hnodup
    have ha : a ∉ l := fun h => hdisjoint a h a (List.mem_singleton_self a) rfl
    rw [postIndex, List.zipIdx_append, List.foldl_append]
    simp only [Nat.zero_add, List.zipIdx_cons, List.zipIdx_nil, List.foldl_cons, List.foldl_nil]
    rcases List.mem_append.mp hn with hn | hn
    · have hne : n ≠ a := fun h => ha (h ▸ hn)
      rw [Function.update_of_ne hne, List.idxOf_append_of_mem hn]
      exact ih hl hn
    · obtain rfl := List.mem_singleton.mp hn
      simp [List.idxOf_append_of_notMem ha]

section Sweep

variable {pred : Nat → List Nat}

theorem mem_intersect (ps : List Nat) (D : Dominators) (S : Finset Nat) (x : Nat) :
    x ∈ ps.foldl (fun new_dom q => IntersectInto new_dom (D q)) S ↔
      x ∈ S ∧ ∀ q ∈ ps, x ∈ D q := by
  induction ps generalizing S with
  | nil => simp
  | cons p ps ih =>
    rw [List.foldl_cons, ih, IntersectInto, Finset.mem_filter, List.forall_mem_cons, and_assoc]

theorem mem_newDom {D : Dominators} {n x : Nat} :
    x ∈ newDom pred D n ↔ x = n ∨ pred n ≠ [] ∧ ∀ p ∈ pred n, x ∈ D p := by
  cases hpred : pred n with
  | nil => simp [newDom, hpred]
  | cons p ps =>
    simp only [newDom, hpred, Finset.mem_insert, mem_intersect, List.forall_mem_cons]
    simp

theorem newDom_mono (pred : Nat → List Nat) {D D' : Dominators} (h : ∀ n, D n ⊆ D' n) (n : Nat) :
    newDom pred D n ⊆ newDom pred D' n := by
  intro x hx
  rw [mem_newDom] at hx ⊢
  rcases hx with rfl | ⟨hne, hx⟩
  · exact Or.inl rfl
  · exact Or.inr ⟨hne, fun p hp => h p (hx p hp)⟩

variable {root : Expr} {s : DfsState} (ho : PostOrdered root s)

/-- Sets that hold every dominator and still solve the equations from above. -/
structure Above (root : Expr) (s : DfsState) (D : Dominators) : Prop where
  start : D root.ptr = {root.ptr}
  above : ∀ n, Reached root n → ∀ x, Dominates (Edge root) root.ptr x n → x ∈ D n
  shrinks : ∀ n ∈ s.postorder, n ≠ root.ptr → newDom s.pred D n ⊆ D n

/-- How much the sets of the nodes hold together. -/
def weight (s : DfsState) (D : Dominators) : Nat := ∑ n ∈ s.postorder.toFinset, (D n).card

theorem weight_update_lt {D : Dominators} {n : Nat} {S : Finset Nat} (hn : n ∈ s.postorder)
    (hsub : S ⊆ D n) (hne : S ≠ D n) : weight s (Function.update D n S) < weight s D := by
  have hcard := Finset.card_lt_card (hsub.ssubset_of_ne hne)
  refine Finset.sum_lt_sum (fun m _ => ?_) ⟨n, List.mem_toFinset.mpr hn, ?_⟩
  · by_cases hm : m = n
    · subst hm
      rw [Function.update_self]
      exact hcard.le
    · rw [Function.update_of_ne hm]
  · rwa [Function.update_self]

include ho

theorem PostOrdered.pred_ne_nil {n : Nat} (hn : Reached root n) (hne : n ≠ root.ptr) :
    s.pred n ≠ [] := by
  obtain ⟨l, hpath⟩ := hn
  cases hpath with
  | root => exact absurd rfl hne
  | @step p _ l hpath hedge =>
    exact List.ne_nil_of_mem ((ho.mem_pred p n).mpr ⟨⟨l, hpath⟩, hedge⟩)

theorem initial_above : Above root s (initialDominators s.postorder root.ptr) := by
  have hinit : ∀ n, Reached root n → initialDominators s.postorder root.ptr n =
      if n = root.ptr then {root.ptr} else s.postorder.toFinset := by
    intro n hn
    rw [initialDominators, foldl_update, if_pos ((ho.mem_iff n).mpr hn)]
  refine ⟨?_, fun n hn x hx => ?_, fun n hn hne x hx => ?_⟩
  · rw [hinit _ ⟨_, .root⟩, if_pos rfl]
  · rw [hinit n hn]
    obtain ⟨l, hpath⟩ := hn
    split
    · rename_i hroot
      subst hroot
      exact Finset.mem_singleton.mpr (List.mem_singleton.mp (hx _ .root))
    · obtain ⟨m, suffix, rest, rfl, hrest, -⟩ := hpath.last ⟨x, hx l hpath, rfl⟩
      exact List.mem_toFinset.mpr ((ho.mem_iff _).mpr ⟨rest, hrest⟩)
  · have hreached := (ho.mem_iff n).mp hn
    rw [hinit n hreached, if_neg hne, List.mem_toFinset]
    rcases mem_newDom.mp hx with rfl | ⟨hpred, hx⟩
    · exact hn
    · obtain ⟨p, hp⟩ := List.exists_mem_of_ne_nil _ hpred
      have hreached := ((ho.mem_pred p n).mp hp).1
      have hxp := hx p hp
      rw [hinit p hreached] at hxp
      split at hxp
      · obtain rfl := Finset.mem_singleton.mp hxp
        exact (ho.mem_iff _).mpr ⟨_, .root⟩
      · exact List.mem_toFinset.mp hxp

/-- `dominators[node] = new_dom`. -/
theorem Above.update {D : Dominators} (h : Above root s D) {n : Nat} (hn : n ∈ s.postorder)
    (hne : n ≠ root.ptr) : Above root s (Function.update D n (newDom s.pred D n)) := by
  have hle : ∀ m, Function.update D n (newDom s.pred D n) m ⊆ D m := by
    intro m
    by_cases hm : m = n
    · subst hm
      rw [Function.update_self]
      exact h.shrinks m hn hne
    · rw [Function.update_of_ne hm]
  refine ⟨?_, fun m hm x hx => ?_, fun m hm hmroot => ?_⟩
  · rw [Function.update_of_ne hne.symm, h.start]
  · by_cases hmn : m = n
    · subst hmn
      rw [Function.update_self, mem_newDom]
      by_cases hxm : x = m
      · exact Or.inl hxm
      · refine Or.inr ⟨ho.pred_ne_nil hm hne, fun p hp => ?_⟩
        obtain ⟨hreached, hedge⟩ := (ho.mem_pred p m).mp hp
        exact h.above p hreached x (hx.pred hxm hedge)
    · rw [Function.update_of_ne hmn]
      exact h.above m hm x hx
  · have hmono := newDom_mono s.pred hle m
    by_cases hmn : m = n
    · subst hmn
      rwa [Function.update_self]
    · rw [Function.update_of_ne hmn]
      exact hmono.trans (h.shrinks m hm hmroot)

/-- What the loop body does at the nodes `ns`. -/
structure Sweeps (root : Expr) (s : DfsState) (ns : List Nat) (a b : Dominators × Bool) :
    Prop where
  above : Above root s b.1
  weight_le : weight s b.1 ≤ weight s a.1
  changed : b.2 = true → a.2 = true ∨ weight s b.1 < weight s a.1
  settled : b.2 = false →
    a = b ∧ ∀ n ∈ ns, n ≠ root.ptr → newDom s.pred a.1 n = a.1 n

theorem updateDom_sweeps {a : Dominators × Bool} (h : Above root s a.1) {n : Nat}
    (hn : n ∈ s.postorder) : Sweeps root s [n] a (updateDom s.pred root.ptr a n) := by
  rw [updateDom]
  split
  · rename_i hroot
    exact ⟨h, le_rfl, Or.inl, fun _ => ⟨rfl, fun m hm hne =>
      absurd ((List.mem_singleton.mp hm).trans hroot) hne⟩⟩
  · rename_i hne
    dsimp only
    split
    · rename_i hnew
      have hlt : weight s (Function.update a.1 n (newDom s.pred a.1 n)) < weight s a.1 :=
        weight_update_lt hn (h.shrinks n hn hne) hnew
      exact ⟨h.update ho hn hne, hlt.le, fun _ => Or.inr hlt, fun hfalse =>
        absurd hfalse (Bool.false_ne_true ∘ Eq.symm)⟩
    · rename_i hsame
      refine ⟨h, le_rfl, Or.inl, fun _ => ⟨rfl, fun m hm _ => ?_⟩⟩
      rw [List.mem_singleton.mp hm]
      exact not_not.mp hsame

theorem foldl_sweeps (ns : List Nat) (hns : ∀ n ∈ ns, n ∈ s.postorder)
    {a : Dominators × Bool} (h : Above root s a.1) :
    Sweeps root s ns a (ns.foldl (updateDom s.pred root.ptr) a) := by
  induction ns generalizing a with
  | nil => exact ⟨h, le_rfl, Or.inl, fun _ => ⟨rfl, by simp⟩⟩
  | cons n ns ih =>
    have hfirst := updateDom_sweeps ho h (hns n List.mem_cons_self)
    have hrest := ih (fun m hm => hns m (List.mem_cons_of_mem _ hm)) hfirst.above
    rw [List.foldl_cons]
    refine ⟨hrest.above, hrest.weight_le.trans hfirst.weight_le, fun htrue => ?_, fun hfalse => ?_⟩
    · rcases hrest.changed htrue with hchanged | hlt
      · exact (hfirst.changed hchanged).imp_right hrest.weight_le.trans_lt
      · exact Or.inr (hlt.trans_le hfirst.weight_le)
    · obtain ⟨heq, hsettled⟩ := hrest.settled hfalse
      obtain ⟨heq', hsettled'⟩ := hfirst.settled (heq ▸ hfalse)
      refine ⟨heq'.trans heq, List.forall_mem_cons.mpr ⟨hsettled' n List.mem_cons_self, ?_⟩⟩
      exact heq' ▸ hsettled

/-- Enough rounds end, with sets that solve the equations. -/
theorem iterate_ends {D : Dominators} (h : Above root s D) :
    ∃ D' : Dominators, Above root s D' ∧
      (∀ n ∈ s.postorder, n ≠ root.ptr → newDom s.pred D' n = D' n) ∧
      ∀ fuel, weight s D < fuel → iterate s.pred root.ptr s.postorder fuel D = some D' := by
  induction hk : weight s D using Nat.strong_induction_on generalizing D with
  | h k ih =>
    subst hk
    have hsweep := foldl_sweeps ho s.postorder (fun n hn => hn) (a := (D, false)) h
    generalize hround : s.postorder.foldl (updateDom s.pred root.ptr) (D, false) = r at hsweep
    obtain ⟨E, changed⟩ := r
    cases changed with
    | false =>
      obtain ⟨heq, hsettled⟩ := hsweep.settled rfl
      obtain rfl := (Prod.mk.inj heq).1
      refine ⟨D, h, hsettled, fun fuel hfuel => ?_⟩
      obtain ⟨fuel, rfl⟩ := Nat.exists_eq_add_of_lt hfuel
      simp [iterate, hround]
    | true =>
      have hlt := (hsweep.changed rfl).resolve_left Bool.false_ne_true
      obtain ⟨D', habove, hfix, hends⟩ := ih _ hlt hsweep.above rfl
      refine ⟨D', habove, hfix, fun fuel hfuel => ?_⟩
      obtain ⟨fuel, rfl⟩ := Nat.exists_eq_add_of_lt hfuel
      simp only [iterate, hround, if_true]
      exact hends _ (hlt.trans_le (by dsimp only; omega))

/-- Sets that solve the equations and hold every dominator hold the dominators. -/
theorem mem_iff_dominates {D : Dominators} (h : Above root s D)
    (hfix : ∀ n ∈ s.postorder, n ≠ root.ptr → newDom s.pred D n = D n) {n : Nat} {l : List Nat}
    (hpath : Path (Edge root) root.ptr n l) (x : Nat) :
    x ∈ D n ↔ Dominates (Edge root) root.ptr x n := by
  refine ⟨fun hx => ?_, h.above n ⟨l, hpath⟩ x⟩
  refine dominates_of_equations (D := D) (fun y hy => ?_) (fun p l' m hp hedge hne y hy => ?_) hx
  · rw [h.start] at hy
    exact Finset.mem_singleton.mp hy
  · have hreached : Reached root m := ⟨m :: l', hp.step hedge⟩
    rw [← hfix m ((ho.mem_iff m).mpr hreached) hne, mem_newDom] at hy
    exact hy.imp_right fun hy => hy.2 p ((ho.mem_pred p m).mpr ⟨⟨l', hp⟩, hedge⟩)

end Sweep

/-- The candidate with the largest set is selected. -/
theorem foldl_select (D : Dominators) (root n : Nat) (l : List Nat) :
    let best := l.foldl (fun (best : Nat × Nat) candidate =>
      if candidate = n then best
      else if best.2 < (D candidate).card then (candidate, (D candidate).card)
      else best) (root, 0)
    (∀ c ∈ l, c ≠ n → (D c).card ≤ best.2) ∧
      (best.2 = 0 ∨ best.1 ∈ l ∧ best.1 ≠ n ∧ best.2 = (D best.1).card) := by
  induction l using List.reverseRecOn with
  | nil => simp
  | append_singleton l a ih =>
    simp only [List.foldl_append, List.foldl_cons, List.foldl_nil, List.mem_append,
      List.mem_singleton] at ih ⊢
    obtain ⟨hle, hbest⟩ := ih
    split
    · rename_i ha
      refine ⟨?_, hbest.imp_right fun hbest => ⟨Or.inl hbest.1, hbest.2⟩⟩
      rintro c (hc | rfl) hne
      · exact hle c hc hne
      · exact absurd ha hne
    · rename_i ha
      split
      · rename_i hlt
        refine ⟨?_, Or.inr ⟨Or.inr rfl, ha, rfl⟩⟩
        rintro c (hc | rfl) hne
        · exact (hle c hc hne).trans hlt.le
        · exact le_rfl
      · rename_i hlt
        refine ⟨?_, hbest.imp_right fun hbest => ⟨Or.inl hbest.1, hbest.2⟩⟩
        rintro c (hc | rfl) hne
        · exact hle c hc hne
        · exact not_lt.mp hlt

theorem selectIdom_immediate {root : Expr} {M : Memory} {s : DfsState} (hM : M.Holds root)
    (ho : PostOrdered root s) (order : SetOrder) {D : Dominators} (h : Above root s D)
    (hfix : ∀ n ∈ s.postorder, n ≠ root.ptr → newDom s.pred D n = D n) {n : Nat}
    (hn : Reached root n) (hne : n ≠ root.ptr) :
    ImmediateDominator (Edge root) root.ptr (selectIdom order D root.ptr n) n := by
  obtain ⟨l, hpath⟩ := hn
  have hD := fun m l' (hl : Path (Edge root) root.ptr m l') => mem_iff_dominates ho h hfix hl
  have hcandidate : ∀ c, c ∈ order.elements n (D n) ↔ Dominates (Edge root) root.ptr c n :=
    fun c => (order.mem_elements n (D n) c).trans (hD n l hpath c)
  obtain ⟨hle, hbest⟩ := foldl_select D root.ptr n (order.elements n (D n))
  -- the root is a candidate, so one is selected
  have hroot := hle root.ptr ((hcandidate _).mpr (dominates_root n)) hne.symm
  rw [h.start, Finset.card_singleton] at hroot
  obtain ⟨hmem, hbestne, hscore⟩ := hbest.resolve_left (by omega)
  have hrank := fun p c (hedge : Edge root p c) => hedge.length_lt hM
  refine immediateDominator_of_card hrank hpath hD ((hcandidate _).mp hmem) hbestne
    fun c hc hcn => ?_
  exact (hle c ((hcandidate c).mpr hc) hcn).trans_eq hscore

/-- The position that the pass gives to a node. -/
def postDfsIndex (func : Function) : Nat → Nat := postIndex (dfs {} func.toExpr).postorder

/-- What spans say that `index` and the immediate dominators of the graph give. -/
structure Captures (func : Function) (index : Nat → Nat) (spans out : Spans) : Prop where
  unique : ∀ m n, Reached func.toExpr m → Reached func.toExpr n → index m = index n → m = n
  children : ∀ p c, Reached func.toExpr p → Edge func.toExpr p c → index c < index p
  immediate : ∀ n, Reached func.toExpr n → n ≠ func.id → spans n = none →
    ∃ d, ImmediateDominator (Edge func.toExpr) func.id d n ∧
      (∀ d', ImmediateDominator (Edge func.toExpr) func.id d' n → d' = d) ∧
      out n = some ⟨"pass.capture_post_dfs", index n, index d⟩
  root : spans func.id = none →
    out func.id = some ⟨"pass.capture_post_dfs", index func.id, index func.id⟩
  kept : ∀ n, spans n ≠ none ∨ ¬Reached func.toExpr n → out n = spans n

/-- The pass ends and captures post-order positions and immediate dominators, whatever the order
in which sets list their elements. -/
theorem CapturePostDfsIndexInSpansPass_captures {σ : Heap} {func : Function}
    (hgraph : NodeGraph σ func.toExpr) (order : SetOrder) (spans : Spans) :
    ∃ out limit, (∀ fuel, limit < fuel →
        CapturePostDfsIndexInSpansPass order fuel func spans = some out) ∧
      Captures func (postDfsIndex func) spans out := by
  obtain ⟨M, -, hM⟩ := Memory.exists_of_graph hgraph
  have ho : PostOrdered func.toExpr (dfs {} func.toExpr) := dfs_postOrdered hM rfl
  have hindex : ∀ n, Reached func.toExpr n →
      postDfsIndex func n = (dfs {} func.toExpr).postorder.idxOf n :=
    fun n hn => postIndex_eq ho.nodup ((ho.mem_iff n).mpr hn)
  obtain ⟨D, habove, hfix, hends⟩ := iterate_ends ho (initial_above ho)
  generalize weight _ _ = limit at hends
  have hroot : func.id ∈ (dfs {} func.toExpr).postorder := (ho.mem_iff _).mpr ⟨_, .root⟩
  obtain ⟨out, hout⟩ : ∃ out, out = writeSpans (dfs {} func.toExpr).node_to_expr
    (postDfsIndex func) (dominatorPostIndex order D (dfs {} func.toExpr).postorder func.id)
    spans := ⟨_, rfl⟩
  have hwritten : ∀ n, Reached func.toExpr n → spans n = none → out n =
      some ⟨"pass.capture_post_dfs", postDfsIndex func n, if n = func.id then postDfsIndex func n
        else postDfsIndex func (selectIdom order D func.id n)⟩ := by
    intro n hn hnone
    obtain ⟨e, he⟩ := Option.isSome_iff_exists.mp ((ho.known n).mpr hn)
    rw [hout, writeSpans, if_neg (by simp [hnone, he]),
      dominatorPostIndex, foldl_update, if_pos ((ho.mem_iff n).mpr hn)]
    rfl
  refine ⟨out, limit, fun fuel hfuel => ?_, ⟨?_, fun p c hp hedge => ?_, fun n hn hne hnone => ?_,
    fun hnone => ?_, fun n hn => ?_⟩⟩
  · rw [CapturePostDfsIndexInSpansPass, if_neg (by simpa using List.ne_nil_of_mem hroot)]
    exact hout ▸ congrArg (Option.map _) (hends fuel hfuel)
  · intro m n hm hn heq
    rw [hindex m hm, hindex n hn] at heq
    exact (List.idxOf_inj ((ho.mem_iff m).mpr hm)).mp heq
  · rw [hindex p hp, hindex c (hp.edge hedge)]
    exact ho.descends p c hp hedge
  · obtain ⟨l, hpath⟩ := hn
    have hidom := selectIdom_immediate hM ho order habove hfix ⟨l, hpath⟩ hne
    refine ⟨_, hidom, fun d' hd' => ?_, (hwritten n ⟨l, hpath⟩ hnone).trans ?_⟩
    · have hrank := fun p c (hedge : Edge func.toExpr p c) => hedge.length_lt hM
      exact ImmediateDominator.unique hrank hpath hd' hidom
    · rw [if_neg hne]
      rfl
  · exact (hwritten func.id ⟨_, .root⟩ hnone).trans (by rw [if_pos rfl])
  · rw [← ho.known n] at hn
    rw [hout, writeSpans, if_pos]
    rcases hn with hn | hn
    · simp [Option.isSome_iff_ne_none.mpr hn]
    · simp [Option.not_isSome_iff_eq_none.mp hn]

/-- `fn () { let c = -k; (-c, -c) }` without the `let`: both fields read one node. -/
def sharedNegation : Function :=
  let shared : Expr := .call 2 (.op 0 "negative") [.constant 1 none] none 2
  let first : Expr := .call 3 (.op 0 "negative") [shared] none 3
  let second : Expr := .call 4 (.op 0 "negative") [shared] none 4
  { id := 6, params := [], body := .tuple 5 [first, second] }

theorem sharedNegation_graph : NodeGraph { next := 7 } sharedNegation.toExpr where
  allocated := by
    simp [Expr.nodes, Expr.subexprs, Expr.subexprsList, Expr.boundVars, Function.toExpr,
      sharedNegation, Expr.ptr]
  coherent := by
    simp [Expr.nodes, Expr.subexprs, Expr.subexprsList, Expr.boundVars, Function.toExpr,
      sharedNegation, Expr.ptr]

def ascending : SetOrder where
  elements _ s := s.sort
  mem_elements _ _ _ := Finset.mem_sort _

theorem sharedNegation_captured :
    ∃ out limit, (∀ fuel, limit < fuel →
        CapturePostDfsIndexInSpansPass ascending fuel sharedNegation (fun _ => none) = some out) ∧
      Captures sharedNegation (postDfsIndex sharedNegation) (fun _ => none) out :=
  CapturePostDfsIndexInSpansPass_captures sharedNegation_graph ascending fun _ => none

end CapturePostDfsIndexInSpans

end Kxc.Relay
