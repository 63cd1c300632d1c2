import Kxc.Relay.Memory
import Kxc.Relay.PassUtils

/-! Elimination of common subexpressions (`relay/transforms/eliminate_common_subexpr.cc`): the
variable of a `Let` whose value prints like the value of an enclosing `Let` gives way to the
variable of that one. -/

namespace Kxc.Relay

open RelayPass pass_utils

namespace EliminateCommonSubexprRewriter

/-- `cse_table_`: the keys of the values of the enclosing `Let`s with the variables they bind. The
entry of a `Let` is erased after its body, so the table is an argument. -/
abbrev Table := List (String × Var)

mutual

/-- `EliminateCommonSubexprRewriter::Mutate`: `VisitLet` on a `Let`, and on any other node
`RelayPass::VisitX`. -/
def mutate (cse_table : Table) (e : Expr) (σ : Heap) : Expr × Heap :=
  match e with
  | .letE id var value body =>
    let ref := Expr.letE id var value body
    let new_value := mutate cse_table value σ
    if !HasSideEffect new_value.1 then
      let key := ExprStructuralKey new_value.2 new_value.1
      match cse_table.lookup key with
      | some earlier =>
        let replaced_body := SubstituteVar body var (.var earlier) new_value.2
        let new_body := mutate cse_table replaced_body.1 replaced_body.2
        (new_body.1, CopyVirtualDevice ref new_body.1 new_body.2)
      | none =>
        let new_body := mutate ((key, var) :: cse_table) body new_value.2
        let changed := new_value.1.ptr != value.ptr || new_body.1.ptr != body.ptr
        rebuild ref changed (fun i => .letE i var new_value.1 new_body.1) new_body.2
    else
      let new_body := mutate cse_table body new_value.2
      let changed := new_value.1.ptr != value.ptr || new_body.1.ptr != body.ptr
      rebuild ref changed (fun i => .letE i var new_value.1 new_body.1) new_body.2
  | e =>
    let new := mutateList cse_table e.children σ
    rebuild e (new.1.map Expr.ptr != e.children.map Expr.ptr) (fun i => e.withChildren i new.1)
      new.2
termination_by (e.subexprs.length, 0)
decreasing_by
  all_goals refine Prod.Lex.left _ _ ?_
  · exact Expr.length_child_lt (by simp [Expr.children])
  · exact (VarSubstituter.mutate_length var earlier body _).trans_lt
      (Expr.length_child_lt (by simp [Expr.children]))
  · exact Expr.length_child_lt (by simp [Expr.children])
  · exact Expr.length_child_lt (by simp [Expr.children])
  · exact e.length_children_lt

/-- `Mutate` of the elements of an array, from the first to the last. -/
def mutateList (cse_table : Table) (es : List Expr) (σ : Heap) : List Expr × Heap :=
  match es with
  | [] => ([], σ)
  | e :: es =>
    let new_e := mutate cse_table e σ
    let new_es := mutateList cse_table es new_e.2
    (new_e.1 :: new_es.1, new_es.2)
termination_by ((Expr.subexprsList es).length, 1)
decreasing_by
  · simp only [Expr.subexprsList, List.length_append]
    exact (Nat.le_add_right _ _).eq_or_lt.elim (fun h => h ▸ Prod.Lex.right _ Nat.one_pos)
      (Prod.Lex.left _ _)
  · simp only [Expr.subexprsList, List.length_append]
    exact Prod.Lex.left _ _ (Nat.lt_add_of_pos_left (Expr.length_subexprs_pos e))

end

theorem mutateList_eq_visitList (cse_table : Table) (es : List Expr) (σ : Heap) :
    mutateList cse_table es σ = visitList (mutate cse_table) es σ := by
  induction es generalizing σ with
  | nil => rw [mutateList, visitList]
  | cons e es ih => rw [mutateList, visitList, ih]

theorem mutate_leaf {e : Expr} (cse_table : Table) (hleaf : e.isLeaf = true) (σ : Heap) :
    mutate cse_table e σ = (e, σ) := by
  cases e with
  | undef | constant | var | op =>
    rw [mutate] <;> simp [Expr.children, mutateList, rebuild]
  | _ => simp [Expr.isLeaf] at hleaf

theorem mutate_node {e : Expr} (cse_table : Table)
    (hlet : ∀ id var value body, e ≠ .letE id var value body) (σ : Heap) :
    mutate cse_table e σ = visit (mutate cse_table) e σ := by
  rw [mutate, mutateList_eq_visitList, visit]
  exact hlet

/-- The variable that a `Let` gives way to, if its value is in the table. -/
def found (cse_table : Table) (new_value : Expr × Heap) : Option Var :=
  if HasSideEffect new_value.1 then none
  else cse_table.lookup (ExprStructuralKey new_value.2 new_value.1)

/-- The table for the body of a `Let` that stays. -/
def enter (cse_table : Table) (var : Var) (new_value : Expr × Heap) : Table :=
  if HasSideEffect new_value.1 then cse_table
  else (ExprStructuralKey new_value.2 new_value.1, var) :: cse_table

theorem mutate_found {cse_table : Table} {id : Nat} {var earlier : Var} {value body : Expr}
    {σ : Heap} (h : found cse_table (mutate cse_table value σ) = some earlier) :
    mutate cse_table (.letE id var value body) σ =
      let replaced_body := SubstituteVar body var (.var earlier) (mutate cse_table value σ).2
      let new_body := mutate cse_table replaced_body.1 replaced_body.2
      (new_body.1, CopyVirtualDevice (.letE id var value body) new_body.1 new_body.2) := by
  unfold found at h
  split at h
  · cases h
  · next hpure =>
    rw [mutate]
    simp only [hpure, h]
    rfl

theorem mutate_let {cse_table : Table} {id : Nat} {var : Var} {value body : Expr} {σ : Heap}
    (h : found cse_table (mutate cse_table value σ) = none) :
    mutate cse_table (.letE id var value body) σ =
      let new_value := mutate cse_table value σ
      let new_body := mutate (enter cse_table var new_value) body new_value.2
      let e := Expr.letE id var value body
      let cs := [new_value.1, new_body.1]
      rebuild e (cs.map Expr.ptr != e.children.map Expr.ptr) (fun i => e.withChildren i cs)
        new_body.2 := by
  unfold found at h
  rw [mutate]
  simp only [Expr.children, List.map_cons, List.map_nil, cons_bne_cons, Expr.withChildren]
  split at h
  · next heffect =>
    simp only [heffect, enter, if_true]
    simp
  · next hpure =>
    simp only [hpure, h, enter]
    simp

/-- The variables of the table are nodes that the memory holds, and are in scope. -/
def Table.InScope (cse_table : Table) (M : Memory) (scope : List Nat) : Prop :=
  ∀ entry ∈ cse_table, M.Holds (.var entry.2) ∧ entry.2.id ∈ scope

theorem Table.InScope.mono {cse_table : Table} {M N : Memory} {scope scope' : List Nat}
    (h : cse_table.InScope M scope) (hMN : M.Extends N) (hscope : scope ⊆ scope') :
    cse_table.InScope N scope' :=
  fun entry hentry => ⟨(h entry hentry).1.mono hMN, hscope (h entry hentry).2⟩

theorem Table.InScope.enter {cse_table : Table} {M : Memory} {scope : List Nat}
    (h : cse_table.InScope M scope) {var : Var} (hvar : M.Holds (.var var))
    (hscope : var.id ∈ scope) (new_value : Expr × Heap) :
    (enter cse_table var new_value).InScope M scope := by
  unfold EliminateCommonSubexprRewriter.enter
  split
  · exact h
  · exact List.forall_mem_cons.mpr ⟨⟨hvar, hscope⟩, h⟩

theorem found_mem {cse_table : Table} {new_value : Expr × Heap} {earlier : Var}
    (h : found cse_table new_value = some earlier) : ∃ key, (key, earlier) ∈ cse_table := by
  unfold found at h
  split at h
  · cases h
  · obtain ⟨l₁, l₂, rfl, -⟩ := List.lookup_eq_some_iff.mp h
    exact ⟨_, List.mem_append_right l₁ List.mem_cons_self⟩

/-- Induction on a run: over the nodes that are not `Let`s, the `Let`s that stay, and the `Let`s
whose variable gives way to an earlier one. In the last case the run goes on in the body that
substitution makes. -/
theorem run_induction {P : Table → Expr → Heap → Prop}
    (leaf : ∀ cse_table e σ, e.isLeaf = true → P cse_table e σ)
    (node : ∀ cse_table e σ i, e.isLeaf = false → (∀ id v value body, e ≠ .letE id v value body) →
      let f := mutate cse_table
      (f e σ).1 = e.withChildren i (visitList f e.children σ).1 →
      (∀ k c, e.children[k]? = some c →
        P cse_table c (visitList f (e.children.take k) σ).2) → P cse_table e σ)
    (letE : ∀ cse_table id var value body σ i,
      let new_value := mutate cse_table value σ
      let new_body := mutate (enter cse_table var new_value) body new_value.2
      found cse_table new_value = none →
      (mutate cse_table (.letE id var value body) σ).1 = .letE i var new_value.1 new_body.1 →
      P cse_table value σ → P (enter cse_table var new_value) body new_value.2 →
      P cse_table (.letE id var value body) σ)
    (replaced : ∀ cse_table id var earlier value body σ,
      let new_value := mutate cse_table value σ
      let replaced_body := SubstituteVar body var (.var earlier) new_value.2
      found cse_table new_value = some earlier →
      (∀ l ∈ body.subexprs, var.id ∉ l.binders ∧ earlier.id ∉ l.binders) →
      (∃ M : Memory, M.next = new_value.2.next ∧ M.Holds body ∧ M.Holds (.var earlier)) →
      (mutate cse_table (.letE id var value body) σ).1 =
        (mutate cse_table replaced_body.1 replaced_body.2).1 →
      P cse_table value σ → P cse_table replaced_body.1 replaced_body.2 →
      P cse_table (.letE id var value body) σ)
    {cse_table : Table} {e : Expr} {σ : Heap} {M : Memory} {scope : List Nat}
    (hσ : M.next = σ.next) (he : M.Holds e) (hscope : e.NoShadow scope)
    (htable : cse_table.InScope M scope) :
    P cse_table e σ ∧ ∃ N, M.Yields (mutate cse_table e σ) N := by
  induction hn : e.subexprs.length using Nat.strong_induction_on
    generalizing cse_table e σ M scope with
  | h n ih =>
    subst hn
    cases hleaf : e.isLeaf with
    | true =>
      refine ⟨leaf _ _ _ hleaf, M, ?_⟩
      rw [mutate_leaf _ hleaf]
      exact ⟨.refl M, hσ, he⟩
    | false =>
      have hchild : ∀ c ∈ e.children, ∀ {T : Table} {N : Memory} {τ : Heap}, M.Extends N →
          N.next = τ.next → T.InScope N (e.binders ++ scope) →
          P T c τ ∧ ∃ P, N.Yields (mutate T c τ) P := fun c hc T N τ hN hτ hT =>
        ih _ (Expr.length_child_lt hc) hτ ((he.child hc).mono hN) (hscope.child hc) hT rfl
      have hmono : ∀ {N : Memory}, M.Extends N → cse_table.InScope N (e.binders ++ scope) :=
        fun hN => htable.mono hN (List.subset_append_right _ _)
      by_cases hlet : ∃ id var value body, e = .letE id var value body
      · obtain ⟨id, var, value, body, rfl⟩ := hlet
        have hvar : M.Holds (.var var) := he.boundVar (by simp [Expr.boundVars])
        have hbody : body ∈ (Expr.letE id var value body).children := by simp [Expr.children]
        obtain ⟨hPvalue, N, hvalue⟩ := hchild value (by simp [Expr.children]) (.refl M) hσ
          (hmono (.refl M))
        cases hfound : found cse_table (mutate cse_table value σ) with
        | none =>
          obtain ⟨hPbody, O, hnew⟩ := hchild body hbody hvalue.grows hvalue.next
            ((hmono hvalue.grows).enter (hvar.mono hvalue.grows) (by simp [Expr.binders])
              (mutate cse_table value σ))
          obtain ⟨Q, i, hyields, heq⟩ := rebuild_yields (e := .letE id var value body) rfl he
            (hvalue.grows.trans hnew.grows) hnew.next
            (List.forall_mem_cons.mpr ⟨hvalue.holds.mono hnew.grows,
              List.forall_mem_singleton.mpr hnew.holds⟩) rfl
          rw [← mutate_let hfound] at hyields heq
          exact ⟨letE _ _ _ _ _ _ i hfound heq hPvalue hPbody, Q, hyields⟩
        | some earlier =>
          obtain ⟨key, hmem⟩ := found_mem hfound
          obtain ⟨hearlier, hin⟩ := htable _ hmem
          have hbinds : ∀ l ∈ body.subexprs, var.id ∉ l.binders ∧ earlier.id ∉ l.binders :=
            fun l hl => ⟨(hscope.child hbody).not_mem_binders (by simp [Expr.binders]) l hl,
              (hscope.child hbody).not_mem_binders (by simp [hin]) l hl⟩
          have hheld := (he.child hbody).mono hvalue.grows
          obtain ⟨O, hreplaced, hshadow⟩ := VarSubstituter.mutate_yields
            (R := fun e e' => ∀ scope, e.NoShadow scope → e'.NoShadow scope)
            (fun _ _ _ _ => .intro (by simp [Expr.binders]) (by simp [Expr.children]))
            (fun _ _ _ _ h => h) (fun _ _ _ h hcs _ hscope => hscope.withChildren h hcs)
            hvalue.next hheld (hearlier.mono hvalue.grows) fun l hl => (hbinds l hl).1
          have hlen := VarSubstituter.mutate_length var earlier body (mutate cse_table value σ).2
          have hMO := hvalue.grows.trans hreplaced.grows
          obtain ⟨hPbody, Q, hnew⟩ := ih _ (hlen.trans_lt (Expr.length_child_lt hbody))
            hreplaced.next hreplaced.holds (hshadow _ (hscope.child hbody)) (hmono hMO) rfl
          refine ⟨replaced _ _ _ _ _ _ _ hfound hbinds
            ⟨N, hvalue.next, hheld, hearlier.mono hvalue.grows⟩
            (by rw [mutate_found hfound]) hPvalue hPbody, Q, ?_⟩
          rw [mutate_found hfound]
          exact ⟨hMO.trans hnew.grows, hnew.next.trans (CopyVirtualDevice_next ..).symm,
            hnew.holds⟩
      · have hlet' : ∀ id v value body, e ≠ .letE id v value body :=
          fun id v value body heq => hlet ⟨id, v, value, body, heq⟩
        have hchildren : ∀ k c, e.children[k]? = some c → ∀ N : Memory, M.Extends N →
            let τ := (visitList (mutate cse_table) (e.children.take k) σ).2
            N.next = τ.next → P cse_table c τ ∧ ∃ P, N.Yields (mutate cse_table c τ) P :=
          fun k c hc N hN hτ => hchild c (List.mem_of_getElem? hc) hN hτ (hmono hN)
        obtain ⟨N, hgrows, hnext, hholds, -⟩ := visitList_yields (R := fun _ _ => True) hσ
          fun k c hc N hN hτ => by simpa using (hchildren k c hc N hN hτ).2
        obtain ⟨Q, i, hyields, heq⟩ :=
          rebuild_yields hleaf he hgrows hnext hholds (visitList_length _ e.children σ)
        have hvisit := mutate_node cse_table hlet' σ
        refine ⟨node _ _ _ i hleaf hlet' (by rw [hvisit]; exact heq) fun k c hc => ?_,
          Q, by rw [hvisit]; exact hyields⟩
        obtain ⟨O, hMO, hO⟩ := visitList_take hσ
          (fun k c hc N hN hτ => (hchildren k c hc N hN hτ).2) k
        exact (hchildren k c hc O hMO hO).1

end EliminateCommonSubexprRewriter

/-- `EliminateCommonSubexprPass`. -/
def EliminateCommonSubexprPass (func : Function) (σ : Heap) : Function × Heap :=
  visitFunction func (EliminateCommonSubexprRewriter.mutate [] func.body σ)

end Kxc.Relay
