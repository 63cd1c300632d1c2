import Kxc.Relay.Transforms.PassEffects

/-! Which side effects the rewriting passes of `optimize_default` keep: elimination of common
subexpressions as a rewriter of the sites that it visits, and the law for all of the passes. -/

namespace Kxc.Relay

open Lib.Rewriting RelayPass pass_utils Memory

namespace EliminateCommonSubexprRewriter

/-- Where a run stands: the table, the expression to be mutated, and the heap. -/
structure Site where
  cse_table : Table
  node : Expr
  heap : Heap

/-- The sites of the elements of a list, which the run visits from the first to the last. -/
def siteList (cse_table : Table) : List Expr → Heap → List Site
  | [], _ => []
  | e :: es, σ => ⟨cse_table, e, σ⟩ :: siteList cse_table es (mutate cse_table e σ).2

/-- The pass at a site: a `Let` whose value is in the table gives way to its body with the earlier
variable. -/
def move : Site → Move Site
  | ⟨cse_table, .letE _ var value body, σ⟩ =>
    let new_value := mutate cse_table value σ
    match found cse_table new_value with
    | some earlier =>
      let replaced_body := SubstituteVar body var (.var earlier) new_value.2
      .forward ⟨cse_table, replaced_body.1, replaced_body.2⟩
    | none => .keep [⟨cse_table, value, σ⟩, ⟨enter cse_table var new_value, body, new_value.2⟩]
  | ⟨cse_table, e, σ⟩ => .keep (siteList cse_table e.children σ)

theorem siteList_getElem? (cse_table : Table) (es : List Expr) (σ : Heap) (k : Nat) :
    (siteList cse_table es σ)[k]? =
      es[k]?.map fun e => ⟨cse_table, e, (visitList (mutate cse_table) (es.take k) σ).2⟩ := by
  induction es generalizing σ k with
  | nil => rfl
  | cons e es ih =>
    cases k with
    | zero => rfl
    | succ k => exact ih _ k

theorem siteList_length (cse_table : Table) (es : List Expr) (σ : Heap) :
    (siteList cse_table es σ).length = es.length := by
  induction es generalizing σ with
  | nil => rfl
  | cons e es ih => simp [siteList, ih]

theorem move_node {cse_table : Table} {e : Expr} {σ : Heap}
    (hlet : ∀ id v value body, e ≠ .letE id v value body) :
    move ⟨cse_table, e, σ⟩ = .keep (siteList cse_table e.children σ) := by
  cases e with
  | letE id var value body => exact (hlet id var value body rfl).elim
  | _ => rfl

/-- A node becomes one with other children, when the operators among its children stay. -/
theorem becomes_withChildren {e : Expr} {i : Nat} {cs : List Expr} (hleaf : e.isLeaf = false)
    (h : List.Forall₂ (fun c c' => c.isOp = true → c' = c) e.children cs) :
    e.Becomes (e.withChildren i cs) := by
  refine ⟨⟨i, cs, rfl⟩, fun c hc hop => ?_⟩
  rw [(Expr.withChildren_spec hleaf h.length_eq.symm).2]
  generalize e.children = es at h hc
  cases h with
  | nil => cases hc
  | cons hfirst _ =>
    obtain rfl := Option.some.inj hc
    rw [List.head?_cons, hfirst hop]

/-- Every call of `e'` is a call of `e` with other operands. -/
def CallsStem (e e' : Expr) : Prop :=
  ∀ t ∈ e'.subexprs, ∀ o ∈ t.origin?, ∃ s ∈ e.subexprs, s.Counterpart t

theorem CallsStem.of_leaf {e e' : Expr} (hleaf : e'.isLeaf = true) : CallsStem e e' := by
  intro t ht o ho
  cases e' with
  | undef | constant | var | op =>
    simp only [Expr.subexprs, List.mem_singleton] at ht
    subst ht
    cases ho
  | _ => simp [Expr.isLeaf] at hleaf

theorem CallsStem.withChildren {e : Expr} {i : Nat} {cs : List Expr} (hleaf : e.isLeaf = false)
    (h : List.Forall₂ CallsStem e.children cs)
    (hops : List.Forall₂ (fun c c' => c.isOp = true → c' = c) e.children cs) :
    CallsStem e (e.withChildren i cs) := by
  intro t ht o ho
  have hbecomes := becomes_withChildren (i := i) hleaf hops
  rcases Expr.mem_subexprs.mp ht with rfl | ⟨c', hc', ht⟩
  · rw [hbecomes.origin_eq] at ho
    exact ⟨e, e.self_mem_subexprs, hbecomes.counterpart ho⟩
  · rw [(Expr.withChildren_spec hleaf h.length_eq.symm).2] at hc'
    obtain ⟨c, hc, hcalls⟩ := Expr.exists_mem_of_forall₂ h hc'
    obtain ⟨s, hs, hst⟩ := hcalls t ht o ho
    exact ⟨s, Expr.subexprs_trans (Expr.child_mem_subexprs hc) hs, hst⟩

/-- Substitution of a variable for another leaves every call. -/
theorem substitute_calls {target earlier : Var} {e : Expr} {M : Memory} {σ : Heap}
    (hσ : M.next = σ.next) (he : M.Holds e) (hearlier : M.Holds (.var earlier))
    (hbinds : ∀ l ∈ e.subexprs, target.id ∉ l.binders) :
    CallsStem e (SubstituteVar e target (.var earlier) σ).1 := by
  obtain ⟨-, -, hcalls, -⟩ := VarSubstituter.mutate_yields
    (R := fun e e' => CallsStem e e' ∧ (e.isOp = true → e' = e))
    (fun v _ => ⟨.of_leaf rfl, fun h => by cases h⟩)
    (fun e hleaf _ => ⟨.of_leaf hleaf, fun _ => rfl⟩)
    (fun e i cs hleaf hcs => ⟨.withChildren hleaf (hcs.imp fun _ _ h => h.1)
      (hcs.imp fun _ _ h => h.2), fun hop => by simp [Expr.isLeaf_of_isOp hop] at hleaf⟩)
    hσ he hearlier hbinds
  exact hcalls

/-- What the pass makes of a site is what `move` says, and every call that stays is one of its
input. -/
def Made (cse_table : Table) (e : Expr) (σ : Heap) : Prop :=
  Outcome move Expr.children (fun s t => s.node.Becomes t) ⟨cse_table, e, σ⟩
      (mutate cse_table e σ).1 ∧
    ∀ u, Kept move ⟨cse_table, e, σ⟩ u → ∀ o ∈ u.node.origin?,
      ∃ s ∈ e.subexprs, s.Counterpart u.node

theorem made_leaf {cse_table : Table} {e : Expr} {σ : Heap} (hleaf : e.isLeaf = true) :
    Made cse_table e σ := by
  have hlet : ∀ id v value body, e ≠ .letE id v value body := fun _ _ _ _ h => by
    simp [h, Expr.isLeaf] at hleaf
  have hchildren : e.children = [] := by
    cases e <;> first | rfl | simp [Expr.isLeaf] at hleaf
  have hmove : move ⟨cse_table, e, σ⟩ = .keep [] := by
    rw [move_node hlet, hchildren]
    rfl
  refine ⟨?_, fun u hu o ho => ?_⟩
  · rw [mutate_leaf cse_table hleaf]
    exact .keep hmove (.refl e) (by rw [hchildren]; rfl) fun k a b ha _ => by simp at ha
  · cases hu with
    | self => exact ⟨e, e.self_mem_subexprs, .refl ho⟩
    | part hmove' ht => cases (Move.keep.inj (hmove.symm.trans hmove')) ▸ ht
    | forward hmove' => cases hmove.symm.trans hmove'

theorem made_node {cse_table : Table} {e : Expr} {σ : Heap} {i : Nat} (hleaf : e.isLeaf = false)
    (hlet : ∀ id v value body, e ≠ .letE id v value body)
    (heq : (mutate cse_table e σ).1 =
      e.withChildren i (visitList (mutate cse_table) e.children σ).1)
    (ih : ∀ k c, e.children[k]? = some c →
      Made cse_table c (visitList (mutate cse_table) (e.children.take k) σ).2) :
    Made cse_table e σ := by
  have hmove : move ⟨cse_table, e, σ⟩ = .keep (siteList cse_table e.children σ) := move_node hlet
  have hlen := visitList_length (mutate cse_table) e.children σ
  refine ⟨?_, fun u hu o ho => ?_⟩
  · rw [heq]
    refine .keep hmove (becomes_withChildren hleaf ?_) ?_ fun k a b ha hb => ?_
    · exact visitList_forall₂ fun k c _ hop => by rw [mutate_leaf _ (Expr.isLeaf_of_isOp hop)]
    · rw [siteList_length, (Expr.withChildren_spec hleaf hlen).2, hlen]
    · rw [siteList_getElem?] at ha
      rw [(Expr.withChildren_spec hleaf hlen).2, visitList_getElem?] at hb
      cases hc : e.children[k]? with
      | none => simp [hc] at ha
      | some c =>
        rw [hc] at ha hb
        obtain rfl := Option.some.inj ha
        obtain rfl := Option.some.inj hb
        exact (ih k c hc).1
  · cases hu with
    | self => exact ⟨e, e.self_mem_subexprs, .refl ho⟩
    | part hmove' ht hkept =>
      obtain rfl := Move.keep.inj (hmove.symm.trans hmove')
      obtain ⟨k, hk⟩ := List.mem_iff_getElem?.mp ht
      rw [siteList_getElem?] at hk
      cases hc : e.children[k]? with
      | none => simp [hc] at hk
      | some c =>
        rw [hc] at hk
        obtain rfl := Option.some.inj hk
        obtain ⟨s, hs, hsu⟩ := (ih k c hc).2 u hkept o ho
        exact ⟨s, Expr.subexprs_trans (Expr.child_mem_subexprs (List.mem_of_getElem? hc)) hs, hsu⟩
    | forward hmove' => cases hmove.symm.trans hmove'

theorem made_let {cse_table : Table} {id i : Nat} {var : Var} {value body : Expr} {σ : Heap}
    (hfound : found cse_table (mutate cse_table value σ) = none)
    (heq : (mutate cse_table (.letE id var value body) σ).1 =
      .letE i var (mutate cse_table value σ).1
        (mutate (enter cse_table var (mutate cse_table value σ)) body
          (mutate cse_table value σ).2).1)
    (hvalue : Made cse_table value σ)
    (hbody : Made (enter cse_table var (mutate cse_table value σ)) body
      (mutate cse_table value σ).2) : Made cse_table (.letE id var value body) σ := by
  have hmove : move ⟨cse_table, .letE id var value body, σ⟩ =
      .keep [⟨cse_table, value, σ⟩, ⟨enter cse_table var (mutate cse_table value σ), body,
        (mutate cse_table value σ).2⟩] := by
    simp only [move, hfound]
  refine ⟨?_, fun u hu o ho => ?_⟩
  · rw [heq]
    refine .keep hmove ⟨⟨i, [_, _], rfl⟩, fun c hc hop => ?_⟩ rfl fun k a b ha hb => ?_
    · obtain rfl : value = c := Option.some.inj hc
      rw [mutate_leaf _ (Expr.isLeaf_of_isOp hop)]
      rfl
    · match k with
      | 0 =>
        obtain rfl := Option.some.inj ha
        obtain rfl := Option.some.inj hb
        exact hvalue.1
      | 1 =>
        obtain rfl := Option.some.inj ha
        obtain rfl := Option.some.inj hb
        exact hbody.1
      | k + 2 => simp at ha
  · have hchild : ∀ c ∈ [value, body], c.subexprs ⊆ (Expr.letE id var value body).subexprs :=
      fun c hc s hs => Expr.subexprs_trans (Expr.child_mem_subexprs hc) hs
    cases hu with
    | self => cases ho
    | part hmove' ht hkept =>
      obtain rfl := Move.keep.inj (hmove.symm.trans hmove')
      rcases List.mem_pair.mp ht with rfl | rfl
      · obtain ⟨s, hs, hsu⟩ := hvalue.2 u hkept o ho
        exact ⟨s, hchild value (by simp) hs, hsu⟩
      · obtain ⟨s, hs, hsu⟩ := hbody.2 u hkept o ho
        exact ⟨s, hchild body (by simp) hs, hsu⟩
    | forward hmove' => cases hmove.symm.trans hmove'

theorem made_replaced {cse_table : Table} {id : Nat} {var earlier : Var} {value body : Expr}
    {σ : Heap} (hfound : found cse_table (mutate cse_table value σ) = some earlier)
    (hcalls : CallsStem body
      (SubstituteVar body var (.var earlier) (mutate cse_table value σ).2).1)
    (hreplaced :
      let replaced_body := SubstituteVar body var (.var earlier) (mutate cse_table value σ).2
      Made cse_table replaced_body.1 replaced_body.2) :
    Made cse_table (.letE id var value body) σ := by
  have hmove : move ⟨cse_table, .letE id var value body, σ⟩ =
      let replaced_body := SubstituteVar body var (.var earlier) (mutate cse_table value σ).2
      .forward ⟨cse_table, replaced_body.1, replaced_body.2⟩ := by
    simp only [move, hfound]
  refine ⟨?_, fun u hu o ho => ?_⟩
  · rw [mutate_found hfound]
    exact .forward hmove hreplaced.1
  · cases hu with
    | self hmove' => cases hmove.symm.trans hmove'
    | part hmove' => cases hmove.symm.trans hmove'
    | forward hmove' hkept =>
      obtain rfl := Move.forward.inj (hmove.symm.trans hmove')
      obtain ⟨s, hs, hsu⟩ := hreplaced.2 u hkept o ho
      obtain ⟨s', hs', hss'⟩ := hcalls s hs o (hsu.origin_eq ▸ ho)
      exact ⟨s', Expr.subexprs_trans (Expr.child_mem_subexprs (by simp [Expr.children])) hs',
        hss'.trans hsu⟩

theorem made_mutate {T : Table} {e : Expr} {σ : Heap} {M : Memory} {scope : List Nat}
    (hσ : M.next = σ.next) (he : M.Holds e) (hscope : e.NoShadow scope)
    (htable : T.InScope M scope) : Made T e σ ∧ ∃ N, M.Yields (mutate T e σ) N := by
  refine run_induction (P := Made) (fun _ _ _ h => made_leaf h)
    (fun _ _ _ _ hleaf hlet heq ih => made_node hleaf hlet heq ih)
    (fun _ _ _ _ _ _ _ hfound heq hvalue hbody => made_let hfound heq hvalue hbody)
    (fun _ _ _ _ _ _ _ hfound hbinds hmem _ _ hreplaced => ?_) hσ he hscope htable
  obtain ⟨M, hσ, hbody, hearlier⟩ := hmem
  exact made_replaced hfound (substitute_calls hσ hbody hearlier fun l hl => (hbinds l hl).1)
    hreplaced

end EliminateCommonSubexprRewriter

/-! ### The rewriters answer with nodes of the graph -/

/-- A rewriter may answer with a new node above nodes of the graph. -/
theorem Memory.yields_new {M : Memory} {σ : Heap} {mk : Nat → Expr} {ref : Expr}
    (hσ : M.next = σ.next) (hptr : (mk σ.next).ptr = σ.next)
    (hbound : (mk σ.next).boundVars = []) (hchildren : ∀ c ∈ (mk σ.next).children, M.Holds c) :
    M.Yields ((σ.new mk {}).1, CopyVirtualDevice ref (σ.new mk {}).1 (σ.new mk {}).2)
      (M.alloc (mk σ.next)) where
  grows := M.extends_alloc _
  next := by
    rw [CopyVirtualDevice_next]
    exact congrArg (· + 1) hσ
  holds := holds_alloc (hptr.trans hσ.symm) (by simp [hbound]) hchildren

theorem FoldTupleGetItemRewriter.holding : Holding post := by
  refine .of_mem fun ref e σ => ?_
  by_cases hkind : e.kind = .tupleGetItem
  · cases e with
    | tupleGetItem id t index =>
      have hself := Expr.self_mem_subexprs (.tupleGetItem id t index)
      cases t with
      | tuple tid fields =>
        simp only [post]
        split
        · next field hfield =>
          have hmem := mem_of_itemOf (e := .tuple tid fields) hfield
          exact ⟨Expr.subexprs_trans (Expr.child_mem_subexprs (by simp [Expr.children]))
            (Expr.child_mem_subexprs hmem), CopyVirtualDevice_next ..⟩
        · exact ⟨hself, rfl⟩
      | _ => exact ⟨hself, rfl⟩
    | _ => cases hkind
  · rw [post_other hkind]
    exact ⟨e.self_mem_subexprs, rfl⟩

theorem SimplifyExprRewriter.holding : Holding post := by
  refine .of_mem fun ref e σ => ?_
  cases h : isBinary e with
  | false =>
    rw [(other h).2.2]
    exact ⟨e.self_mem_subexprs, rfl⟩
  | true =>
    obtain ⟨id, op, lhs, rhs, attrs, origin, rfl⟩ := exists_of_isBinary h
    have hmem : ∀ c ∈ [lhs, rhs], c ∈ (Expr.call id op [lhs, rhs] attrs origin).subexprs :=
      fun c hc => Expr.child_mem_subexprs (List.mem_cons_of_mem op hc)
    simp only [post]
    split
    · next first _ =>
      split_ifs
      · exact ⟨Expr.self_mem_subexprs _, rfl⟩
      · exact ⟨hmem lhs (by simp), CopyVirtualDevice_next ..⟩
      · exact ⟨Expr.self_mem_subexprs _, rfl⟩
      · exact ⟨hmem rhs (by simp), CopyVirtualDevice_next ..⟩
    · exact ⟨Expr.self_mem_subexprs _, rfl⟩

theorem EliminateDeadLetRewriter.holding : Holding post := by
  refine .of_mem fun ref e σ => ?_
  by_cases hkind : e.kind = .letE
  · cases e with
    | letE id var value body =>
      simp only [post]
      split_ifs
      · exact ⟨Expr.self_mem_subexprs _, rfl⟩
      · exact ⟨Expr.child_mem_subexprs (by simp [Expr.children]), CopyVirtualDevice_next ..⟩
    | _ => cases hkind
  · rw [post_other hkind]
    exact ⟨e.self_mem_subexprs, rfl⟩

theorem MergeRule.innerArgs_subset {rule : MergeRule} {attrs : Option Attrs} {arg inner_arg : Expr}
    {inner_args : List Expr} (h : rule.innerArgs attrs arg = some (inner_arg :: inner_args)) :
    inner_arg ∈ arg.children := by
  cases arg with
  | call id inner_op args inner_attrs origin =>
    simp only [innerArgs] at h
    split_ifs at h
    obtain rfl := Option.some.inj h
    simp [Expr.children]
  | _ => cases h

theorem MergeRule.holding (rule : MergeRule) : Holding rule.post := by
  intro M ref e σ hσ he
  by_cases hkind : e.kind = .call
  · cases e with
    | call id op args attrs origin =>
      cases args with
      | nil => exact ⟨M, .refl M, hσ, he⟩
      | cons arg args =>
        simp only [post]
        split_ifs
        · split
          · next inner_arg inner_args hinner =>
            have harg : M.Holds arg := he.child (by simp [Expr.children])
            refine ⟨_, M.yields_new hσ rfl rfl fun c hc => ?_⟩
            simp only [Expr.children, List.mem_cons] at hc
            rcases hc with rfl | rfl | hc
            · exact he.child (by simp [Expr.children])
            · exact harg.child (innerArgs_subset hinner)
            · exact he.child (by simp [Expr.children, List.mem_of_mem_take hc])
          · exact ⟨M, .refl M, hσ, he⟩
        · exact ⟨M, .refl M, hσ, he⟩
    | _ => cases hkind
  · rw [rule.post_other hkind]
    exact ⟨M, .refl M, hσ, he⟩

theorem FoldConstantRewriter.holding : Holding post := by
  intro M ref e σ hσ he
  cases h : isBinary e with
  | false =>
    rw [post_other h]
    exact ⟨M, .refl M, hσ, he⟩
  | true =>
    obtain ⟨id, op, lhs, rhs, attrs, origin, rfl⟩ := exists_of_isBinary h
    simp only [post]
    repeat' split
    all_goals first
      | exact ⟨M, .refl M, hσ, he⟩
      | exact ⟨_, M.yields_new hσ rfl rfl fun c hc => by simp [Expr.children] at hc⟩

/-! ### The law for all passes -/

/-- The calls that a pass must reach through nodes that stay, to keep every side effect. -/
def RewritingPass.Keeps (func : Function) (σ : Heap) : RewritingPass → Prop
  | fold_tuple_get_item => EffectsStay FoldTupleGetItemRewriter.move id func.body func.body
  | fold_constant => True
  | simplify_expr => EffectsStay SimplifyExprRewriter.move id func.body func.body
  | canonicalize_cast => EffectsStay CanonicalizeCastRewriter.move id func.body func.body
  | remove_standalone_reshapes =>
    EffectsStay RemoveStandaloneReshapesRewriter.move id func.body func.body
  | eliminate_common_subexpr =>
    EffectsStay EliminateCommonSubexprRewriter.move (·.node) ⟨[], func.body, σ⟩ func.body
  | eliminate_dead_let => EffectsStay EliminateDeadLetRewriter.move id func.body func.body

theorem FoldConstantRewriter.keepsEffects {func : Function} {σ : Heap}
    (hgraph : NodeGraph σ func.toExpr) :
    KeepsEffects func.body (mutateFunction post func σ).1.body := by
  obtain ⟨M, hσ, hfunc⟩ := exists_of_graph hgraph
  have hbody : M.Holds func.body := hfunc.child (by simp [Function.toExpr, Expr.children])
  have hrefl : ∀ e, Loses e e := fun e => by
    refine ⟨fun s hs heffect => ?_, fun _ => rfl, fun _ => rfl⟩
    obtain ⟨o, ho⟩ := exists_origin_of_effectful heffect
    exact ⟨s, hs, .refl ho⟩
  obtain ⟨N, hyields, hloses⟩ := RelayPass.mutate_yields (R := Loses) holding
    (fun e _ => hrefl e) (fun e i cs σ hleaf hcs => loses_post hleaf hcs) hσ hbody
  rw [mutateFunction, visitFunction_body hbody hyields]
  exact hloses.effects

theorem EliminateCommonSubexprRewriter.keepsEffects_iff {func : Function} {σ : Heap}
    (hgraph : NodeGraph σ func.toExpr) (hscope : func.WellScoped)
    (hown : func.body.Unrewritten) :
    KeepsEffects func.body (EliminateCommonSubexprPass func σ).1.body ↔
      EffectsStay move (·.node) ⟨[], func.body, σ⟩ func.body := by
  obtain ⟨M, hσ, hfunc⟩ := exists_of_graph hgraph
  have hmem : func.body ∈ func.toExpr.children := by simp [Function.toExpr, Expr.children]
  have hbody := hfunc.child hmem
  have hshadow : func.toExpr.NoShadow [] := hscope.bound_once.noShadow (by simp)
  obtain ⟨⟨houtcome, hstem⟩, N, hyields⟩ := made_mutate hσ hbody (hshadow.child hmem) (T := [])
    fun _ h => by cases h
  rw [EliminateCommonSubexprPass, visitFunction_body hbody hyields]
  have hsub : func.body.subexprs ⊆ func.toExpr.nodes :=
    fun s hs => func.toExpr.subexprs_subset_nodes
      (Expr.subexprs_trans (Expr.child_mem_subexprs hmem) hs)
  exact Relay.keepsEffects_iff houtcome hstem
    (fun s hs t ht => hgraph.coherent s (hsub hs) t (hsub ht)) hown

/-- `fn (x, y) { (device.allreduce(x), y).index }`. -/
def allreduceField (index : Int32) : Function :=
  let x : Var := { id := 0, name_hint := "x" }
  let y : Var := { id := 1, name_hint := "y" }
  let reduced := Expr.call 3 (.op 2 "device.allreduce") [.var x] none 3
  { id := 6, params := [x, y], body := .tupleGetItem 5 (.tuple 4 [reduced, .var y]) index }

def allreduceFieldHeap : Heap := { next := 7 }

theorem allreduceField_graph (index : Int32) :
    NodeGraph allreduceFieldHeap (allreduceField index).toExpr where
  allocated := by
    simp [Expr.nodes, Expr.subexprs, Expr.subexprsList, Expr.boundVars, Function.toExpr,
      allreduceField, allreduceFieldHeap, Expr.ptr]
  coherent := by
    simp [Expr.nodes, Expr.subexprs, Expr.subexprsList, Expr.boundVars, Function.toExpr,
      allreduceField, Expr.ptr]

theorem allreduceField_wellScoped (index : Int32) : (allreduceField index).WellScoped where
  closed := by
    simp [Function.toExpr, allreduceField, Expr.ClosedIn, Expr.ClosedListIn]
  bound_once := Expr.boundOnce_of_nodup (by
    simp [Function.toExpr, allreduceField, Expr.subexprs, Expr.subexprsList, Expr.binders])

theorem allreduceField_unrewritten (index : Int32) : (allreduceField index).body.Unrewritten := by
  simp [Expr.Unrewritten, allreduceField, Expr.subexprs, Expr.subexprsList, Expr.origin?, Expr.ptr]

end Kxc.Relay
