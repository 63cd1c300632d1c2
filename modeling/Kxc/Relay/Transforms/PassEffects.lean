import Kxc.Relay.Transforms.SideEffects

/-! What each rewriting pass of `optimize_default` does with the side effects of a function: for
every pass the effectful calls that it keeps, in terms of its input. -/

namespace Kxc.Relay

open Lib.Rewriting pass_utils

theorem RelayPass.Holding.of_mem {post : RelayPass.Post}
    (h : ∀ ref e σ, (post ref e σ).1 ∈ e.subexprs ∧ (post ref e σ).2.next = σ.next) :
    RelayPass.Holding post := fun M ref e σ hσ he =>
  ⟨M, .refl M, hσ.trans (h ref e σ).2.symm, he.sub (h ref e σ).1⟩

/-! ### Tuples -/

namespace FoldTupleGetItemRewriter

/-- The field of an expression that is a tuple. -/
def itemOf : Expr → Int32 → Option Expr
  | .tuple _ fields, index => itemAt fields index
  | _, _ => none

theorem mem_of_itemOf {e c : Expr} {index : Int32} (h : itemOf e index = some c) :
    c ∈ e.children := by
  cases e with
  | tuple id fields =>
    by_cases hindex : 0 ≤ index
    · simp only [itemOf, itemAt, if_pos hindex] at h
      exact List.mem_of_getElem? h
    · simp [itemOf, itemAt, hindex] at h
  | _ => cases h

/-- The node of the input that stands where `e` was after the pass, up to the nodes below it. -/
def value : (e : Expr) → {r : Expr // r ∈ e.subexprs}
  | .tupleGetItem id t index =>
    match h : itemOf (value t).1 index with
    | some c =>
      ⟨(value c).1, Expr.subexprs_trans (Expr.child_mem_subexprs (by simp [Expr.children]))
        (Expr.subexprs_trans (value t).2 (Expr.subexprs_trans
          (Expr.child_mem_subexprs (mem_of_itemOf h)) (value c).2))⟩
    | none => ⟨.tupleGetItem id t index, Expr.self_mem_subexprs _⟩
  | e => ⟨e, e.self_mem_subexprs⟩
termination_by e => e.subexprs.length
decreasing_by
  · exact Expr.length_child_lt (by simp [Expr.children])
  · exact (Expr.length_child_lt (mem_of_itemOf h)).trans
      ((Expr.subexprs_sublist (Subtype.property _)).length_le.trans_lt
        (Expr.length_child_lt (by simp [Expr.children])))

/-- The pass at a node of its input. -/
def move : Expr → Move Expr
  | .tupleGetItem _ t index =>
    match itemOf (value t).1 index with
    | some c => .forward c
    | none => .keep [t]
  | e => .keep e.children

theorem moves : Moves move where
  forward s t hmove := by
    cases s with
    | tupleGetItem id u index =>
      simp only [move] at hmove
      split at hmove
      · next c hc =>
        cases hmove
        exact Expr.subexprs_trans (Expr.child_mem_subexprs (by simp [Expr.children]))
          (Expr.subexprs_trans (value u).2 (Expr.child_mem_subexprs (mem_of_itemOf hc)))
      · cases hmove
    | _ => cases hmove
  keep s parts hmove c hc := by
    have hparts : parts = s.children := by
      cases s with
      | tupleGetItem id u index =>
        simp only [move] at hmove
        split at hmove <;> cases hmove
        rfl
      | _ => cases hmove; rfl
    exact Expr.child_mem_subexprs (hparts ▸ hc)
  leaf e hleaf := by cases e <;> first | rfl | cases hleaf

theorem value_keep (s : Expr) (parts : List Expr) (hmove : move s = .keep parts) :
    (value s).1 = s := by
  cases s with
  | tupleGetItem id t index =>
    rw [value]
    simp only [move] at hmove
    split
    · next c hc => simp [hc] at hmove
    · rfl
  | _ => rw [value]; simp

theorem value_forward (s t : Expr) (hmove : move s = .forward t) :
    (value s).1 = (value t).1 := by
  cases s with
  | tupleGetItem id u index =>
    rw [value]
    simp only [move] at hmove
    split
    · next c hc =>
      rw [hc] at hmove
      cases hmove
      rfl
    · next hc => simp [hc] at hmove
  | _ => cases hmove

theorem post_other {ref e : Expr} (h : e.kind ≠ .tupleGetItem) (σ : Heap) :
    post ref e σ = (e, σ) := by
  cases e <;> first | rfl | exact (h rfl).elim

theorem post_tupleGetItem (ref : Expr) (id : Nat) (t : Expr) (index : Int32) (σ : Heap) :
    (post ref (.tupleGetItem id t index) σ).1 =
      (itemOf t index).getD (.tupleGetItem id t index) := by
  cases t with
  | tuple tid fields =>
    simp only [post, itemOf]
    cases itemAt fields index <;> rfl
  | _ => rfl

theorem itemOf_eq_none {e : Expr} (h : e.kind ≠ .tuple) (index : Int32) : itemOf e index = none := by
  cases e <;> first | rfl | exact (h rfl).elim

/-- A tuple that stays has the fields that its fields become. -/
theorem itemOf_makes {v t : Expr} {parts : List Expr} (hmove : move v = .keep parts)
    (h : Makes move v t) (index : Int32) :
    itemOf v index = none ∧ itemOf t index = none ∨
      ∃ c c', itemOf v index = some c ∧ itemOf t index = some c' ∧ Makes move c c' := by
  cases h with
  | forward hmove' => cases hmove.symm.trans hmove'
  | keep hmove' hsame hlength hparts =>
    obtain ⟨j, cs, rfl⟩ := hsame.rebuilt
    cases v with
    | tuple id fields =>
      cases hmove'
      simp only [itemOf, itemAt, Expr.withChildren]
      split_ifs with hindex
      · cases hc : fields[index.toInt.toNat]? with
        | none =>
          refine Or.inl ⟨rfl, List.getElem?_eq_none_iff.mpr ?_⟩
          exact hlength ▸ List.getElem?_eq_none_iff.mp hc
        | some c =>
          obtain ⟨hk, -⟩ := List.getElem?_eq_some_iff.mp hc
          have hc' : cs[index.toInt.toNat]? = some cs[index.toInt.toNat] :=
            List.getElem?_eq_getElem (hlength ▸ hk)
          exact Or.inr ⟨c, _, rfl, hc', hparts _ c _ hc hc'⟩
      · exact Or.inl ⟨rfl, rfl⟩
    | _ => exact Or.inl ⟨rfl, itemOf_eq_none (by rw [Expr.withChildren_kind]; simp [Expr.kind]) _⟩

/-- The pass makes of each node what `move` says. -/
theorem makes_post {e : Expr} {i : Nat} {cs : List Expr} {σ : Heap} (hleaf : e.isLeaf = false)
    (hcs : List.Forall₂ (Makes move) e.children cs) :
    Makes move e (post e (e.withChildren i cs) σ).1 := by
  by_cases hkind : e.kind = .tupleGetItem
  · cases e with
    | tupleGetItem id t index =>
      have hnode := hcs
      obtain _ | ⟨ht, _ | _⟩ := hcs
      obtain ⟨parts, hmove, -, hvalue⟩ := ht.settle value_keep value_forward
      simp only [Expr.withChildren, post_tupleGetItem]
      rcases itemOf_makes hmove hvalue index with ⟨hnone, hnone'⟩ | ⟨c, c', hc, hc', hmakes⟩
      · rw [hnone']
        exact moves.makes_node hleaf (by simp only [move, hnone]; rfl) hnode
      · rw [hc']
        exact .forward (by simp only [move, hc]) hmakes
    | _ => cases hkind
  · rw [post_other (by rwa [Expr.withChildren_kind])]
    exact moves.makes_node hleaf (by cases e <;> first | rfl | exact (hkind rfl).elim) hcs

end FoldTupleGetItemRewriter

/-! ### Casts and reshapes -/

namespace MergeRule

variable (rule : MergeRule)

/-- A call with the attributes `attrs` is merged with its first argument. -/
def mergesWith (attrs : Option Attrs) (arg : Expr) : Bool :=
  match rule.innerArgs attrs arg with
  | some (_ :: _) => true
  | _ => false

/-- The expression of the input that becomes the first argument of what a call becomes. -/
def firstArg : Expr → Expr
  | .call _ op (arg :: _) attrs _ =>
    if GetCallOpName op = rule.op_name && rule.mergesWith attrs arg then firstArg arg else arg
  | e => e

/-- The pass at a node of its input. -/
def move : Expr → Move Expr
  | .call _ op (arg :: args) attrs _ =>
    if GetCallOpName op = rule.op_name && rule.mergesWith attrs arg then
      .keep (op :: rule.firstArg arg :: args.take rule.kept)
    else .keep (op :: arg :: args)
  | e => .keep e.children

theorem firstArg_mem (e : Expr) : rule.firstArg e ∈ e.subexprs := by
  induction e using Expr.induction_children with
  | h e ih =>
    cases e with
    | call id op args attrs origin =>
      cases args with
      | nil => exact Expr.self_mem_subexprs _
      | cons arg args =>
        have harg : arg ∈ (Expr.call id op (arg :: args) attrs origin).children := by
          simp [Expr.children]
        rw [firstArg]
        split
        · exact Expr.subexprs_trans (Expr.child_mem_subexprs harg) (ih arg harg)
        · exact Expr.child_mem_subexprs harg
    | _ => exact Expr.self_mem_subexprs _

/-- Every node stays. The first two parts of a call are its callee and its first argument. -/
theorem move_call (id : Nat) (op arg : Expr) (args : List Expr) (attrs : Option Attrs)
    (origin : Nat) :
    ∃ rest, rest ⊆ args ∧ rule.move (.call id op (arg :: args) attrs origin) =
      .keep (op :: rule.firstArg (.call id op (arg :: args) attrs origin) :: rest) := by
  simp only [move, firstArg]
  split
  · exact ⟨_, List.take_subset _ _, rfl⟩
  · exact ⟨_, List.Subset.refl _, rfl⟩

theorem move_ne_forward (s t : Expr) : rule.move s ≠ .forward t := by
  intro hmove
  cases s with
  | call id op args attrs origin =>
    cases args with
    | nil => cases hmove
    | cons arg args =>
      obtain ⟨rest, -, heq⟩ := rule.move_call id op arg args attrs origin
      cases heq.symm.trans hmove
  | _ => cases hmove

theorem moves : Moves rule.move where
  forward s t hmove := (rule.move_ne_forward s t hmove).elim
  keep s parts hmove c hc := by
    cases s with
    | call id op args attrs origin =>
      cases args with
      | nil => cases hmove; exact Expr.child_mem_subexprs hc
      | cons arg args =>
        obtain ⟨rest, hrest, heq⟩ := rule.move_call id op arg args attrs origin
        obtain rfl := Move.keep.inj (heq.symm.trans hmove)
        rcases List.mem_cons.mp hc with rfl | hc
        · exact Expr.child_mem_subexprs (by simp [Expr.children])
        · rcases List.mem_cons.mp hc with rfl | hc
          · exact rule.firstArg_mem _
          · exact Expr.child_mem_subexprs (by simp [Expr.children, hrest hc])
    | _ => cases hmove; exact Expr.child_mem_subexprs hc
  leaf e hleaf := by cases e <;> first | rfl | cases hleaf

theorem post_other {ref e : Expr} (h : e.kind ≠ .call) (σ : Heap) :
    rule.post ref e σ = (e, σ) := by
  cases e <;> first | rfl | exact (h rfl).elim

theorem post_call_of_not (ref : Expr) {id : Nat} {op arg : Expr} {args : List Expr}
    {attrs : Option Attrs} {origin : Nat} {σ : Heap}
    (h : GetCallOpName op = rule.op_name → rule.mergesWith attrs arg = false) :
    rule.post ref (.call id op (arg :: args) attrs origin) σ =
      (.call id op (arg :: args) attrs origin, σ) := by
  simp only [post]
  split_ifs with hname
  · replace h := h hname
    unfold mergesWith at h
    split
    · next hinner => simp [hinner] at h
    · rfl
  · rfl

variable {rule}

theorem becomes {e e' : Expr} (h : Makes rule.move e e') : e.Becomes e' := by
  cases h with
  | keep _ hsame => exact hsame
  | forward hmove => exact (rule.move_ne_forward _ _ hmove).elim

/-- A call becomes a call of what its callee and its first argument become. -/
theorem makes_call {id : Nat} {op arg e' : Expr} {args : List Expr} {attrs : Option Attrs}
    {origin : Nat} (h : Makes rule.move (.call id op (arg :: args) attrs origin) e') :
    ∃ i op' arg' args', e' = .call i op' (arg' :: args') attrs origin ∧
      GetCallOpName op' = GetCallOpName op ∧
      Makes rule.move (rule.firstArg (.call id op (arg :: args) attrs origin)) arg' := by
  obtain ⟨rest, -, hmove⟩ := rule.move_call id op arg args attrs origin
  obtain ⟨hsame, hparts⟩ := h.parts hmove
  obtain ⟨i, op', args', rfl⟩ := hsame.call_eq
  obtain _ | ⟨hop, _ | ⟨harg, -⟩⟩ := hparts
  exact ⟨i, op', _, _, rfl, (becomes hop).opName_eq, harg⟩

theorem innerArgs_eq_none {e : Expr} (h : e.kind ≠ .call) (attrs : Option Attrs) :
    rule.innerArgs attrs e = none := by
  cases e <;> first | rfl | exact (h rfl).elim

/-- A call can be merged with what its argument becomes as with its argument. -/
theorem innerArgs_makes {arg arg' : Expr} (h : Makes rule.move arg arg') (attrs : Option Attrs) :
    (∃ c rest, rule.innerArgs attrs arg' = some (c :: rest) ∧
        rule.mergesWith attrs arg = true ∧ Makes rule.move (rule.firstArg arg) c) ∨
      rule.mergesWith attrs arg' = false ∧ rule.mergesWith attrs arg = false := by
  by_cases hkind : arg.kind = .call
  · cases arg with
    | call id op args inner_attrs origin =>
      cases args with
      | nil =>
        obtain ⟨hsame, hparts⟩ := h.parts rfl
        obtain ⟨i, op', args', rfl⟩ := hsame.call_eq
        obtain _ | ⟨-, _ | _⟩ := hparts
        simp only [mergesWith, innerArgs]
        exact Or.inr ⟨by split_ifs <;> rfl, by split_ifs <;> rfl⟩
      | cons b args =>
        obtain ⟨i, op', c, args', rfl, hname, hmakes⟩ := makes_call h
        simp only [mergesWith, innerArgs, hname]
        split_ifs
        · exact Or.inl ⟨c, args', rfl, rfl, hmakes⟩
        · exact Or.inr ⟨rfl, rfl⟩
    | _ => cases hkind
  · refine Or.inr ⟨?_, ?_⟩
    · rw [mergesWith, innerArgs_eq_none (by rwa [(becomes h).kind_eq])]
    · rw [mergesWith, innerArgs_eq_none hkind]

/-- The pass makes of each node what `move` says. -/
theorem makes_post {e : Expr} {i : Nat} {cs : List Expr} {σ : Heap} (hleaf : e.isLeaf = false)
    (hcs : List.Forall₂ (Makes rule.move) e.children cs) :
    Makes rule.move e (rule.post e (e.withChildren i cs) σ).1 := by
  by_cases hkind : e.kind = .call
  · cases e with
    | call id op args attrs origin =>
      have hnode := hcs
      obtain _ | ⟨hop, hargs⟩ := hcs
      rename_i op' args'
      have hname := (becomes hop).opName_eq
      obtain _ | ⟨harg, hargs⟩ := hargs
      · exact rule.moves.makes_node hleaf rfl hnode
      · rename_i arg arg' args args'
        simp only [Expr.withChildren]
        by_cases hop_name : GetCallOpName op = rule.op_name
        · rcases innerArgs_makes harg attrs with ⟨c, rest, hinner, hmerges, hmakes⟩ | ⟨hno', hno⟩
          · simp only [post, hname, if_pos hop_name, hinner]
            have hmove : rule.move (.call id op (arg :: args) attrs origin) =
                .keep (op :: rule.firstArg arg :: args.take rule.kept) := by
              simp [move, hop_name, hmerges]
            exact rule.moves.makes_parts (i := σ.next) hmove
              (.cons hop (.cons hmakes (List.forall₂_take _ hargs))) rfl rfl
          · rw [rule.post_call_of_not _ fun _ => hno']
            exact rule.moves.makes_node hleaf (by simp [move, hno, Expr.children]) hnode
        · rw [rule.post_call_of_not _ fun h => (hop_name (hname ▸ h)).elim]
          exact rule.moves.makes_node hleaf (by simp [move, hop_name, Expr.children]) hnode
    | _ => cases hkind
  · rw [rule.post_other (by rwa [Expr.withChildren_kind])]
    exact rule.moves.makes_node hleaf (by cases e <;> first | rfl | exact (hkind rfl).elim) hcs

end MergeRule

/-- A call of two arguments. -/
def isBinary : Expr → Bool
  | .call _ _ [_, _] _ _ => true
  | _ => false

theorem exists_of_isBinary {e : Expr} (h : isBinary e = true) :
    ∃ id op lhs rhs attrs origin, e = .call id op [lhs, rhs] attrs origin := by
  unfold isBinary at h
  split at h
  · exact ⟨_, _, _, _, _, _, rfl⟩
  · cases h

theorem isBinary_withChildren {e : Expr} {i : Nat} {cs : List Expr}
    (hlen : cs.length = e.children.length) : isBinary (e.withChildren i cs) = isBinary e := by
  cases e with
  | call id op args attrs origin =>
    rcases args with _ | ⟨a, _ | ⟨b, _ | ⟨c, args⟩⟩⟩ <;>
      rcases cs with _ | ⟨a', _ | ⟨b', _ | ⟨c', _ | ⟨d', cs⟩⟩⟩⟩ <;>
      first | rfl | simp [Expr.children] at hlen
  | _ => rcases cs with _ | ⟨a, _ | ⟨b, _ | ⟨c, _ | ⟨d, cs⟩⟩⟩⟩ <;> rfl

/-! ### Neutral operands -/

namespace SimplifyExprRewriter

/-- The operand that takes the place of a call of two arguments, if one is simplified to. -/
def operand (op lhs rhs : Expr) : Option Bool :=
  match simplified (GetCallOpName op) lhs rhs with
  | some first => if (if first then lhs else rhs).isUndef then none else some first
  | none => none

/-- The node of the input that stands where `e` was after the pass, up to the nodes below it. -/
def value : Expr → Expr
  | .call id op [lhs, rhs] attrs origin =>
    match operand (value op) (value lhs) (value rhs) with
    | some first => if first then value lhs else value rhs
    | none => .call id op [lhs, rhs] attrs origin
  | e => e

/-- The pass at a node of its input. -/
def move : Expr → Move Expr
  | .call _ op [lhs, rhs] _ _ =>
    match operand (value op) (value lhs) (value rhs) with
    | some first => .forward (if first then lhs else rhs)
    | none => .keep [op, lhs, rhs]
  | e => .keep e.children

theorem post_call (ref : Expr) (id : Nat) (op lhs rhs : Expr) (attrs : Option Attrs) (origin : Nat)
    (σ : Heap) :
    (post ref (.call id op [lhs, rhs] attrs origin) σ).1 =
      match operand op lhs rhs with
      | some first => if first then lhs else rhs
      | none => .call id op [lhs, rhs] attrs origin := by
  simp only [post, operand]
  rcases simplified (GetCallOpName op) lhs rhs with _ | _ | _
  · rfl
  · cases h : rhs.isUndef <;> simp [h]
  · cases h : lhs.isUndef <;> simp [h]

theorem other {e : Expr} (h : isBinary e = false) :
    move e = .keep e.children ∧ value e = e ∧ ∀ ref σ, post ref e σ = (e, σ) := by
  cases e with
  | call id op args attrs origin =>
    rcases args with _ | ⟨a, _ | ⟨b, _ | ⟨c, args⟩⟩⟩
    · exact ⟨rfl, rfl, fun _ _ => rfl⟩
    · exact ⟨rfl, rfl, fun _ _ => rfl⟩
    · cases h
    · exact ⟨rfl, rfl, fun _ _ => rfl⟩
  | _ => exact ⟨rfl, rfl, fun _ _ => rfl⟩

theorem moves : Moves move where
  forward s t hmove := by
    cases h : isBinary s with
    | false => cases (other h).1.symm.trans hmove
    | true =>
      obtain ⟨id, op, lhs, rhs, attrs, origin, rfl⟩ := exists_of_isBinary h
      simp only [move] at hmove
      split at hmove <;> cases hmove
      next first _ =>
        exact Expr.child_mem_subexprs (by cases first <;> simp [Expr.children])
  keep s parts hmove c hc := by
    have hparts : parts = s.children := by
      cases h : isBinary s with
      | false => exact (Move.keep.inj ((other h).1.symm.trans hmove)).symm
      | true =>
        obtain ⟨id, op, lhs, rhs, attrs, origin, rfl⟩ := exists_of_isBinary h
        simp only [move] at hmove
        split at hmove <;> cases hmove
        rfl
    exact Expr.child_mem_subexprs (hparts ▸ hc)
  leaf e hleaf := by cases e <;> first | rfl | cases hleaf

theorem value_keep (s : Expr) (parts : List Expr) (hmove : move s = .keep parts) :
    value s = s := by
  cases h : isBinary s with
  | false => exact (other h).2.1
  | true =>
    obtain ⟨id, op, lhs, rhs, attrs, origin, rfl⟩ := exists_of_isBinary h
    simp only [move] at hmove
    split at hmove
    · cases hmove
    · next hnone => simp only [value, hnone]

theorem value_forward (s t : Expr) (hmove : move s = .forward t) : value s = value t := by
  cases h : isBinary s with
  | false => cases (other h).1.symm.trans hmove
  | true =>
    obtain ⟨id, op, lhs, rhs, attrs, origin, rfl⟩ := exists_of_isBinary h
    simp only [move] at hmove
    split at hmove
    · next first hsome =>
      cases hmove
      cases first <;> simp [value, hsome]
    · cases hmove

theorem scalar_becomes {s t : Expr} (h : s.Becomes t) :
    TryGetScalarConstantValue t = TryGetScalarConstantValue s ∧ t.isUndef = s.isUndef := by
  obtain ⟨i, cs, rfl⟩ := h.rebuilt
  cases s <;> rcases cs with _ | ⟨a, _ | ⟨b, _ | ⟨c, _ | ⟨d, cs⟩⟩⟩⟩ <;> exact ⟨rfl, rfl⟩

/-- Whether an operand is neutral does not change when the pass goes over it. -/
theorem operand_becomes {op op' lhs lhs' rhs rhs' : Expr} (hop : op.Becomes op')
    (hlhs : lhs.Becomes lhs') (hrhs : rhs.Becomes rhs') :
    operand op' lhs' rhs' = operand op lhs rhs := by
  have hundef (first : Bool) :
      (if first then lhs' else rhs').isUndef = (if first then lhs else rhs).isUndef := by
    cases first
    · exact (scalar_becomes hrhs).2
    · exact (scalar_becomes hlhs).2
  have hconst {s t : Expr} (h : s.Becomes t) :
      IsConstZero t = IsConstZero s ∧ IsConstOne t = IsConstOne s := by
    simp only [IsConstZero, IsConstOne, (scalar_becomes h).1, and_self]
  have hsimplified : simplified (GetCallOpName op') lhs' rhs' =
      simplified (GetCallOpName op) lhs rhs := by
    simp only [simplified, hop.opName_eq, hconst hlhs, hconst hrhs]
  rw [operand, operand, hsimplified]
  split
  · next first _ => simp only [hundef first]
  · rfl

/-- The pass makes of each node what `move` says. -/
theorem makes_post {e : Expr} {i : Nat} {cs : List Expr} {σ : Heap} (hleaf : e.isLeaf = false)
    (hcs : List.Forall₂ (Makes move) e.children cs) :
    Makes move e (post e (e.withChildren i cs) σ).1 := by
  cases h : isBinary e with
  | false =>
    rw [(other ((isBinary_withChildren hcs.length_eq.symm).trans h)).2.2]
    exact moves.makes_node hleaf (other h).1 hcs
  | true =>
    obtain ⟨id, op, lhs, rhs, attrs, origin, rfl⟩ := exists_of_isBinary h
    have hnode := hcs
    obtain _ | ⟨hop, _ | ⟨hlhs, _ | ⟨hrhs, _ | _⟩⟩⟩ := hcs
    have hvalue {s t : Expr} (h : Makes move s t) : (value s).Becomes t := by
      obtain ⟨-, -, hsame, -⟩ := h.settle value_keep value_forward
      exact hsame
    have hoperand := operand_becomes (hvalue hop) (hvalue hlhs) (hvalue hrhs)
    simp only [Expr.withChildren, post_call, hoperand]
    split
    · next first hsome =>
      refine .forward (by simp only [move, hsome]; rfl) ?_
      cases first
      · exact hrhs
      · exact hlhs
    · next hnone => exact moves.makes_node hleaf (by simp only [move, hnone]; rfl) hnode

end SimplifyExprRewriter

/-! ### Dead bindings -/

namespace EliminateDeadLetRewriter

mutual

/-- The expression without its dead `Let`s, the innermost first. -/
def live : Expr → Expr
  | .call id op args attrs origin => .call id (live op) (liveList args) attrs origin
  | .function id params body => .function id params (live body)
  | .ifE id c t f => .ifE id (live c) (live t) (live f)
  | .letE id var value body =>
    if HasSideEffect (live value) || CountVarUses var (live body) != 0 then
      .letE id var (live value) (live body)
    else live body
  | .tuple id fields => .tuple id (liveList fields)
  | .tupleGetItem id t index => .tupleGetItem id (live t) index
  | e => e

/-- `live` of each expression of a list. -/
def liveList : List Expr → List Expr
  | [] => []
  | e :: es => live e :: liveList es

end

/-- The pass at a node of its input. -/
def move : Expr → Move Expr
  | .letE _ var value body =>
    if HasSideEffect (live value) || CountVarUses var (live body) != 0 then .keep [value, body]
    else .forward body
  | e => .keep e.children

/-- What the pass asks of an expression: its side effects, its uses of variables, and the name of
the operator that it is. -/
structure Alike (e e' : Expr) : Prop where
  effect : HasSideEffect e = HasSideEffect e'
  uses : ∀ v, CountVarUses v e = CountVarUses v e'
  opName : GetCallOpName e = GetCallOpName e'

theorem moves : Moves move where
  forward s t hmove := by
    cases s with
    | letE id var value body =>
      simp only [move] at hmove
      split at hmove <;> cases hmove
      exact Expr.child_mem_subexprs (by simp [Expr.children])
    | _ => cases hmove
  keep s parts hmove c hc := by
    have hparts : parts = s.children := by
      cases s with
      | letE id var value body =>
        simp only [move] at hmove
        split at hmove <;> cases hmove
        rfl
      | _ => cases hmove; rfl
    exact Expr.child_mem_subexprs (hparts ▸ hc)
  leaf e hleaf := by cases e <;> first | rfl | cases hleaf

theorem Alike.refl (e : Expr) : Alike e e := ⟨rfl, fun _ => rfl, rfl⟩

/-- Two nodes of one kind are alike when their children are. -/
theorem alike_withChildren {e : Expr} {i j : Nat} {cs cs' : List Expr} (hleaf : e.isLeaf = false)
    (hlen : cs.length = e.children.length) (h : List.Forall₂ Alike cs cs') :
    Alike (e.withChildren i cs) (e.withChildren j cs') := by
  have hlist : ∀ {es es' : List Expr}, List.Forall₂ Alike es es' →
      AnySideEffect es = AnySideEffect es' ∧
        ∀ v, CountVarUsesList v es = CountVarUsesList v es' := by
    intro es es' h
    induction h with
    | nil => exact ⟨rfl, fun _ => rfl⟩
    | cons hc _ ih => simp [AnySideEffect, CountVarUsesList, hc.effect, hc.uses, ih]
  cases e with
  | undef | constant | var | op => cases hleaf
  | call id op args attrs origin =>
    obtain _ | ⟨hop, hargs⟩ := h
    · exact .refl _
    · rename_i op op' args args'
      have hcallee : isEffectfulCallee op = isEffectfulCallee op' := by
        simp only [isEffectfulCallee, hop.opName]
      exact ⟨by simp only [Expr.withChildren, HasSideEffect, hcallee, (hlist hargs).1],
        fun v => by simp only [Expr.withChildren, CountVarUses, hop.uses, (hlist hargs).2], rfl⟩
  | function | tupleGetItem =>
    obtain _ | ⟨h1, _ | _⟩ := h
    · cases hlen
    · exact ⟨h1.effect, h1.uses, rfl⟩
    · cases hlen
  | ifE id c t f =>
    obtain _ | ⟨h1, _ | ⟨h2, _ | ⟨h3, _ | _⟩⟩⟩ := h <;> try cases hlen
    exact ⟨by simp only [Expr.withChildren, HasSideEffect, h1.effect, h2.effect, h3.effect],
      fun v => by simp only [Expr.withChildren, CountVarUses, h1.uses, h2.uses, h3.uses], rfl⟩
  | letE id var value body =>
    obtain _ | ⟨h1, _ | ⟨h2, _ | _⟩⟩ := h <;> try cases hlen
    exact ⟨by simp only [Expr.withChildren, HasSideEffect, h1.effect, h2.effect],
      fun v => by simp only [Expr.withChildren, CountVarUses, h1.uses, h2.uses], rfl⟩
  | tuple id fields => exact ⟨(hlist h).1, (hlist h).2, rfl⟩

theorem post_other {ref e : Expr} (h : e.kind ≠ .letE) (σ : Heap) : post ref e σ = (e, σ) := by
  cases e <;> first | rfl | exact (h rfl).elim

theorem live_node {e : Expr} (hleaf : e.isLeaf = false) (h : e.kind ≠ .letE) :
    live e = e.withChildren e.ptr (liveList e.children) := by
  cases e with
  | letE => exact (h rfl).elim
  | undef | constant | var | op => cases hleaf
  | _ => rfl

theorem live_leaf {e : Expr} (hleaf : e.isLeaf = true) : live e = e := by
  cases e <;> first | rfl | cases hleaf

/-- The pass makes of each node what `move` says. -/
theorem makes_post {e : Expr} {i : Nat} {cs : List Expr} {σ : Heap} (hleaf : e.isLeaf = false)
    (hcs : List.Forall₂ (fun e e' => Makes move e e' ∧ Alike (live e) e') e.children cs) :
    Makes move e (post e (e.withChildren i cs) σ).1 ∧
      Alike (live e) (post e (e.withChildren i cs) σ).1 := by
  have hmakes : List.Forall₂ (Makes move) e.children cs := hcs.imp fun _ _ h => h.1
  have halike : List.Forall₂ Alike (liveList e.children) cs := by
    generalize e.children = es at hcs
    clear hmakes
    induction hcs with
    | nil => exact .nil
    | cons h _ ih => exact .cons h.2 ih
  by_cases hkind : e.kind = .letE
  · cases e with
    | letE id var value body =>
      obtain _ | ⟨h1, _ | ⟨h2, _ | _⟩⟩ := hcs
      simp only [Expr.withChildren, post, live, ← h1.2.effect, ← h2.2.uses]
      by_cases hstays : (HasSideEffect (live value) || CountVarUses var (live body) != 0) = true
      · rw [if_pos hstays, if_pos hstays]
        refine ⟨moves.makes_node hleaf (by simp only [move, if_pos hstays]; rfl) hmakes, ?_⟩
        exact alike_withChildren (e := .letE id var (live value) (live body)) (i := id) (j := i)
          rfl rfl halike
      · rw [if_neg hstays, if_neg hstays]
        exact ⟨.forward (by simp only [move, if_neg hstays]) h2.1, h2.2⟩
    | _ => cases hkind
  · rw [post_other (by rwa [Expr.withChildren_kind]), live_node hleaf hkind]
    refine ⟨moves.makes_node hleaf ?_ hmakes, alike_withChildren hleaf ?_ halike⟩
    · cases e <;> first | rfl | exact (hkind rfl).elim
    · rw [halike.length_eq, hcs.length_eq]

end EliminateDeadLetRewriter

/-! ### Constants -/

namespace FoldConstantRewriter

/-- No effectful call is lost on the way from `e` to `e'`, and `e'` is an operator only if `e` is. -/
structure Loses (e e' : Expr) : Prop where
  effects : KeepsEffects e e'
  operator : e'.isOp = true → e' = e
  callee : e.isOp = true → e' = e

theorem folded_name {op_name : String} {lhs rhs : Float} {dtype : DLDataType}
    (h : folded op_name lhs rhs dtype ≠ none) :
    op_name ∈ ["add", "subtract", "sub", "mul", "multiply", "divide", "div", "equal",
      "greater"] := by
  by_contra hmem
  simp only [List.mem_cons, List.not_mem_nil, not_or] at hmem
  obtain ⟨h1, h2, h3, h4, h5, h6, h7, h8, h9, -⟩ := hmem
  exact h (by simp only [folded, h1, h2, h3, h4, h5, h6, h7, h8, h9, or_self, if_false])

theorem not_effectful_of_folded {op : Expr} {lhs rhs : Float} {dtype : DLDataType}
    (h : folded (GetCallOpName op) lhs rhs dtype ≠ none) : isEffectfulCallee op = false := by
  have hall : ∀ name ∈ ["add", "subtract", "sub", "mul", "multiply", "divide", "div", "equal",
      "greater"], (name == "" || "device.".toList.isPrefixOf name.toList) = false := by decide
  exact hall _ (folded_name h)

/-- A folded call is a call of an operator without side effects on two constants. -/
theorem post_call (ref : Expr) (id : Nat) (op lhs rhs : Expr) (attrs : Option Attrs) (origin : Nat)
    (σ : Heap) :
    (post ref (.call id op [lhs, rhs] attrs origin) σ).1 = .call id op [lhs, rhs] attrs origin ∨
      isEffectfulCallee op = false ∧ lhs.isConstant = true ∧ rhs.isConstant = true ∧
        (post ref (.call id op [lhs, rhs] attrs origin) σ).1.isConstant = true := by
  have hconst {e : Expr} {r : Float × DLDataType}
      (h : TryGetScalarConstantValueWithDType e = some r) : e.isConstant = true := by
    cases e <;> first | rfl | cases h
  simp only [post]
  split_ifs
  · exact Or.inl rfl
  · split
    · next l ldtype r _ hl hr =>
      split
      · next v vdtype hfolded =>
        split_ifs
        · exact Or.inr ⟨not_effectful_of_folded (hfolded ▸ Option.some_ne_none _), hconst hl,
            hconst hr, rfl⟩
        · exact Or.inl rfl
      · exact Or.inl rfl
    · exact Or.inl rfl

theorem post_other {ref e : Expr} (h : isBinary e = false) (σ : Heap) : post ref e σ = (e, σ) := by
  cases e with
  | call id op args attrs origin =>
    rcases args with _ | ⟨a, _ | ⟨b, _ | ⟨c, args⟩⟩⟩ <;> first | rfl | cases h
  | _ => rfl

/-- A constant holds no effectful call, so nothing that became one did. -/
theorem not_effectful_of_constant {e e' s : Expr} (h : KeepsEffects e e')
    (hconst : e'.isConstant = true) (hs : s ∈ e.subexprs) : s.isEffectful = false := by
  cases heffect : s.isEffectful with
  | false => rfl
  | true =>
    obtain ⟨t, ht, hst⟩ := h s hs heffect
    cases e' with
    | constant id data =>
      rw [Expr.subexprs, List.mem_singleton] at ht
      subst ht
      cases hst
    | _ => cases hconst

theorem isOp_of_not_effectful {op : Expr} (h : isEffectfulCallee op = false) : op.isOp = true := by
  cases op <;> first | rfl | cases h

/-- A node that stays keeps the effectful calls that its children keep. -/
theorem keepsEffects_withChildren {e : Expr} {i : Nat} {cs : List Expr} (hleaf : e.isLeaf = false)
    (hcs : List.Forall₂ Loses e.children cs) : KeepsEffects e (e.withChildren i cs) := by
  obtain ⟨-, hchildren⟩ := Expr.withChildren_spec (i := i) hleaf hcs.length_eq.symm
  intro s hs heffect
  rcases Expr.mem_subexprs.mp hs with rfl | ⟨c, hc, hs⟩
  · obtain ⟨o, ho⟩ := exists_origin_of_effectful heffect
    refine ⟨_, Expr.self_mem_subexprs _, Expr.Becomes.counterpart ⟨⟨i, cs, rfl⟩, ?_⟩ ho⟩
    intro c hc hop
    rw [hchildren]
    cases hcs' : s.children with
    | nil => simp [hcs'] at hc
    | cons a as =>
      rw [hcs'] at hcs hc
      obtain _ | ⟨hfirst, -⟩ := hcs
      obtain rfl : a = c := Option.some.inj hc
      rw [List.head?_cons, hfirst.callee hop]
  · obtain ⟨k, hk, rfl⟩ := List.getElem_of_mem hc
    have hloses := (List.forall₂_iff_get.mp hcs).2 k hk (hcs.length_eq ▸ hk)
    obtain ⟨t, ht, hst⟩ := hloses.effects s hs heffect
    have hmem : cs.get ⟨k, hcs.length_eq ▸ hk⟩ ∈ (e.withChildren i cs).children := by
      rw [hchildren]
      exact List.get_mem _ _
    exact ⟨t, Expr.subexprs_trans (Expr.child_mem_subexprs hmem) ht, hst⟩

/-- The pass loses no effectful call, and makes an operator of nothing else. -/
theorem loses_post {e : Expr} {i : Nat} {cs : List Expr} {σ : Heap} (hleaf : e.isLeaf = false)
    (hcs : List.Forall₂ Loses e.children cs) :
    Loses e (post e (e.withChildren i cs) σ).1 := by
  have hno : e.isOp = true → ∀ e', e' = e := fun hop => by
    cases (Expr.isLeaf_of_isOp hop).symm.trans hleaf
  have hstays : Loses e (e.withChildren i cs) := by
    refine ⟨keepsEffects_withChildren hleaf hcs, fun hop => ?_, fun hop => hno hop _⟩
    cases (Expr.isLeaf_of_isOp hop).symm.trans ((Expr.withChildren_isLeaf e i cs).trans hleaf)
  cases h : isBinary e with
  | false =>
    rwa [post_other ((isBinary_withChildren hcs.length_eq.symm).trans h)]
  | true =>
    obtain ⟨id, op, lhs, rhs, attrs, origin, rfl⟩ := exists_of_isBinary h
    obtain _ | ⟨hop, _ | ⟨hlhs, _ | ⟨hrhs, _ | _⟩⟩⟩ := hcs
    rename_i op' lhs' rhs'
    simp only [Expr.withChildren] at hstays ⊢
    rcases post_call (.call id op [lhs, rhs] attrs origin) i op' lhs' rhs' attrs origin σ with
      heq | ⟨hcallee, hl, hr, hconst⟩
    · rwa [heq]
    · have hopOp := isOp_of_not_effectful hcallee
      obtain rfl := hop.operator hopOp
      refine ⟨fun s hs heffect => ?_, fun h => ?_, fun hop => hno hop _⟩
      · have hpure : s.isEffectful = false := by
          rcases Expr.mem_subexprs.mp hs with rfl | ⟨c, hc, hsub⟩
          · exact hcallee
          · simp only [Expr.children, List.mem_cons, List.not_mem_nil, or_false] at hc
            rcases hc with rfl | rfl | rfl
            · cases c with
              | op id name =>
                rw [Expr.subexprs, List.mem_singleton] at hsub
                subst hsub
                rfl
              | _ => cases hopOp
            · exact not_effectful_of_constant hlhs.effects hl hsub
            · exact not_effectful_of_constant hrhs.effects hr hsub
        cases hpure.symm.trans heffect
      · generalize (post _ _ σ).1 = e' at hconst h
        cases e' with
        | op => cases hconst
        | _ => cases h

end FoldConstantRewriter

end Kxc.Relay
