import Kxc.Lib.StateExcept
import Kxc.Relay.Memory
import Kxc.Relay.Scope
import Kxc.Relay.Transforms.InferType

/-! The typing rules of Relay, and what they say of a derivation: types are unique, they depend on
the variables in scope only, and each node of a derivation has its type. -/

namespace Kxc.Relay

/-- The types of the variables, given by their addresses. -/
abbrev TypeEnv := Nat → Option RelayType

mutual

/-- The rule of each kind of expression. -/
inductive HasType : TypeEnv → Expr → RelayType → Prop where
  | constant {Γ : TypeEnv} {id : Nat} {data : NDArray} {dtype : String}
    (h : TypeInferencer.DTypeToString data.dtype = .ok dtype) :
    HasType Γ (.constant id (some data)) (.tensor data.shape dtype)
  | var {Γ : TypeEnv} {v : Var} {τ : RelayType} (h : Γ v.id = some τ) : HasType Γ (.var v) τ
  | call {Γ : TypeEnv} {id op_id origin : Nat} {op_name : String} {args : List Expr}
    {attrs : Option Attrs} {infer_rule : FInferType} {τs : List RelayType} {τ : RelayType}
    (hrule : registeredInferType op_name = some infer_rule) (hargs : HasTypes Γ args τs)
    (h : infer_rule attrs τs = .ok τ) :
    HasType Γ (.call id (.op op_id op_name) args attrs origin) τ
  | ifE {Γ : TypeEnv} {id : Nat} {c t f : Expr} {τ : RelayType}
    (hc : HasType Γ c (.tensor [] "bool")) (ht : HasType Γ t τ) (hf : HasType Γ f τ) :
    HasType Γ (.ifE id c t f) τ
  | letE {Γ : TypeEnv} {id : Nat} {v : Var} {value body : Expr} {τ τ' : RelayType}
    (hvalue : HasType Γ value τ)
    (h : ∀ annotation, v.type_annotation = some annotation → annotation = τ)
    (hbody : HasType (Function.update Γ v.id (some τ)) body τ') :
    HasType Γ (.letE id v value body) τ'
  | tuple {Γ : TypeEnv} {id : Nat} {fields : List Expr} {τs : List RelayType}
    (h : HasTypes Γ fields τs) : HasType Γ (.tuple id fields) (.tuple (τs.map some))
  | tupleGetItem {Γ : TypeEnv} {id : Nat} {t : Expr} {index : Int32}
    {fields : List (Option RelayType)} {τ : RelayType} (ht : HasType Γ t (.tuple fields))
    (hindex : 0 ≤ index) (h : fields[index.toInt.toNat]? = some (some τ)) :
    HasType Γ (.tupleGetItem id t index) τ

/-- Each expression of a list has its type. -/
inductive HasTypes : TypeEnv → List Expr → List RelayType → Prop where
  | nil {Γ : TypeEnv} : HasTypes Γ [] []
  | cons {Γ : TypeEnv} {e : Expr} {es : List Expr} {τ : RelayType} {τs : List RelayType}
    (h : HasType Γ e τ) (hs : HasTypes Γ es τs) : HasTypes Γ (e :: es) (τ :: τs)

end

variable {Γ Δ : TypeEnv} {e : Expr} {τ τ' : RelayType}

theorem hasTypes_iff {es : List Expr} {τs : List RelayType} :
    HasTypes Γ es τs ↔ List.Forall₂ (HasType Γ) es τs := by
  constructor
  · intro h
    induction es generalizing τs with
    | nil =>
      cases h
      exact .nil
    | cons e es ih =>
      cases h with
      | cons h hs => exact .cons h (ih hs)
  · intro h
    induction h with
    | nil => exact .nil
    | cons h _ ih => exact .cons h ih

theorem HasTypes.imp {es : List Expr} {τs : List RelayType} (h : HasTypes Γ es τs)
    (himp : ∀ e ∈ es, ∀ τ, HasType Γ e τ → HasType Δ e τ) : HasTypes Δ es τs := by
  rw [hasTypes_iff] at h ⊢
  induction h with
  | nil => exact .nil
  | cons h _ ih =>
    exact .cons (himp _ (by simp) _ h) (ih fun e he => himp e (List.mem_cons_of_mem _ he))

/-- A type depends on the variables in scope only. -/
theorem HasType.mono {scope : List Nat} (h : HasType Γ e τ) (hclosed : e.ClosedIn scope)
    (hΓ : ∀ x ∈ scope, ∀ σ, Γ x = some σ → Δ x = some σ) : HasType Δ e τ := by
  induction e using Expr.induction generalizing Γ Δ scope τ with
  | undef | op | function => cases h
  | constant id data =>
    cases h with
    | constant h => exact .constant h
  | var v =>
    cases h with
    | var h => exact .var (hΓ _ hclosed _ h)
  | call id op args attrs origin iho iha =>
    cases h with
    | call hrule hargs h =>
      have hclosed := Expr.closedListIn_iff.mp hclosed.2
      exact .call hrule (hargs.imp fun a ha τ h => iha a ha h (hclosed a ha) hΓ) h
  | ifE id c t f ihc iht ihf =>
    cases h with
    | ifE hc ht hf =>
      exact .ifE (ihc hc hclosed.1 hΓ) (iht ht hclosed.2.1 hΓ) (ihf hf hclosed.2.2 hΓ)
  | letE id v value body ihv ihb =>
    cases h with
    | letE hvalue h hbody =>
      refine .letE (ihv hvalue hclosed.1 hΓ) h (ihb hbody hclosed.2 fun x hx σ hσ => ?_)
      by_cases hxv : x = v.id
      · rwa [hxv, Function.update_self] at hσ ⊢
      · rw [Function.update_of_ne hxv] at hσ ⊢
        exact hΓ x (List.mem_of_ne_of_mem hxv hx) σ hσ
  | tuple id fields ih =>
    cases h with
    | tuple h =>
      have hclosed := Expr.closedListIn_iff.mp hclosed
      exact .tuple (h.imp fun a ha τ h => ih a ha h (hclosed a ha) hΓ)
  | tupleGetItem id t index ih =>
    cases h with
    | tupleGetItem ht hindex h => exact .tupleGetItem (ih ht hclosed hΓ) hindex h

theorem HasTypes.unique {es : List Expr} {τs τs' : List RelayType} (h : HasTypes Γ es τs)
    (h' : HasTypes Γ es τs')
    (hunique : ∀ e ∈ es, ∀ {τ τ'}, HasType Γ e τ → HasType Γ e τ' → τ = τ') : τs = τs' := by
  induction es generalizing τs τs' with
  | nil =>
    cases h
    cases h'
    rfl
  | cons e es ih =>
    cases h with
    | cons h hs =>
      cases h' with
      | cons h' hs' =>
        rw [hunique e (by simp) h h', ih hs hs' fun e he => hunique e (List.mem_cons_of_mem _ he)]

/-- An expression has one type. -/
theorem HasType.unique (h : HasType Γ e τ) (h' : HasType Γ e τ') : τ = τ' := by
  induction e using Expr.induction generalizing Γ τ τ' with
  | undef | op | function => cases h
  | constant id data =>
    cases h with
    | constant h =>
      cases h' with
      | constant h' => rw [Except.ok.inj (h.symm.trans h')]
  | var v =>
    cases h with
    | var h =>
      cases h' with
      | var h' => exact Option.some.inj (h.symm.trans h')
  | call id op args attrs origin iho iha =>
    cases h with
    | call hrule hargs h =>
      cases h' with
      | call hrule' hargs' h' =>
        obtain rfl := Option.some.inj (hrule.symm.trans hrule')
        obtain rfl := hargs.unique hargs' fun a ha => @iha a ha Γ
        exact Except.ok.inj (h.symm.trans h')
  | ifE id c t f ihc iht ihf =>
    cases h with
    | ifE hc ht hf =>
      cases h' with
      | ifE hc' ht' hf' => exact iht ht ht'
  | letE id v value body ihv ihb =>
    cases h with
    | letE hvalue h hbody =>
      cases h' with
      | letE hvalue' h' hbody' =>
        obtain rfl := ihv hvalue hvalue'
        exact ihb hbody hbody'
  | tuple id fields ih =>
    cases h with
    | tuple h =>
      cases h' with
      | tuple h' => rw [h.unique h' fun a ha => @ih a ha Γ]
  | tupleGetItem id t index ih =>
    cases h with
    | tupleGetItem ht hindex h =>
      cases h' with
      | tupleGetItem ht' hindex' h' =>
        obtain ⟨⟩ := ih ht ht'
        exact Option.some.inj (Option.some.inj (h.symm.trans h'))

/-- A type without undefined parts. -/
inductive RelayType.Complete : RelayType → Prop where
  | tensor (shape : List Int64) (dtype : String) : Complete (.tensor shape dtype)
  | tuple {fields : List (Option RelayType)} (hne : ∀ field ∈ fields, field ≠ none)
    (h : ∀ τ, some τ ∈ fields → Complete τ) : Complete (.tuple fields)

/-- What `x` returns is the type of a tensor. -/
def ReturnsTensor (x : Except String RelayType) : Prop :=
  ∀ τ, x = .ok τ → ∃ shape dtype, τ = .tensor shape dtype

theorem ReturnsTensor.ok (shape : List Int64) (dtype : String) :
    ReturnsTensor (.ok (.tensor shape dtype)) := fun _ h => ⟨shape, dtype, (Except.ok.inj h).symm⟩

theorem ReturnsTensor.error (what : String) : ReturnsTensor (.error what) := fun _ h => by cases h

theorem ReturnsTensor.bind {α : Type} {x : Except String α} {f : α → Except String RelayType}
    (h : ∀ a, ReturnsTensor (f a)) : ReturnsTensor (x >>= f) := by
  intro τ hτ
  obtain ⟨a, -, ha⟩ := Lib.except_bind_eq_ok.mp hτ
  exact h a τ ha

theorem ReturnsTensor.ite {c : Prop} [Decidable c] {x y : Except String RelayType}
    (hx : ReturnsTensor x) (hy : ReturnsTensor y) : ReturnsTensor (if c then x else y) := by
  split
  · exact hx
  · exact hy

theorem SoftmaxInferType_returnsTensor (attrs : Option Attrs) (input_types : List RelayType) :
    ReturnsTensor (SoftmaxInferType attrs input_types) := by
  refine .bind fun _ => .bind fun data => .ite (.ok _ _) ?_
  exact .bind fun _ => .ok _ _

theorem ReshapeInferType_returnsTensor (attrs : Option Attrs) (input_types : List RelayType) :
    ReturnsTensor (ReshapeInferType attrs input_types) := by
  refine .bind fun _ => .bind fun data => ?_
  split
  · exact .bind fun s => .bind fun out => .ok out data.dtype
  · exact .error _

/-- The operators return tensors. -/
theorem registeredInferType_returnsTensor {op_name : String} {infer_rule : FInferType}
    (h : registeredInferType op_name = some infer_rule) (attrs : Option Attrs)
    (input_types : List RelayType) : ReturnsTensor (infer_rule attrs input_types) := by
  unfold registeredInferType at h
  split at h
  all_goals cases h
  case h_4 => exact SoftmaxInferType_returnsTensor attrs input_types
  case h_16 => exact ReshapeInferType_returnsTensor attrs input_types
  all_goals
    repeat refine .bind fun _ => ?_
    exact .ok _ _

/-- The types of a derivation have no undefined parts, if those of the variables have none. -/
theorem HasType.complete (h : HasType Γ e τ) (hΓ : ∀ x σ, Γ x = some σ → σ.Complete) :
    τ.Complete := by
  induction e using Expr.induction generalizing Γ τ with
  | undef | op | function => cases h
  | constant id data =>
    cases h with
    | constant h => exact .tensor _ _
  | var v =>
    cases h with
    | var h => exact hΓ _ _ h
  | call id op args attrs origin iho iha =>
    cases h with
    | call hrule hargs h =>
      obtain ⟨shape, dtype, rfl⟩ := registeredInferType_returnsTensor hrule _ _ _ h
      exact .tensor _ _
  | ifE id c t f ihc iht ihf =>
    cases h with
    | ifE hc ht hf => exact iht ht hΓ
  | letE id v value body ihv ihb =>
    cases h with
    | letE hvalue h hbody =>
      refine ihb hbody fun x σ hσ => ?_
      by_cases hxv : x = v.id
      · rw [hxv, Function.update_self] at hσ
        obtain rfl := Option.some.inj hσ
        exact ihv hvalue hΓ
      · rw [Function.update_of_ne hxv] at hσ
        exact hΓ x σ hσ
  | tuple id fields ih =>
    cases h with
    | tuple h =>
      refine .tuple (by simp) fun σ hσ => ?_
      obtain ⟨σ, hσ, ⟨⟩⟩ := List.mem_map.mp hσ
      obtain ⟨field, hfield, hτ⟩ := Expr.exists_mem_of_forall₂ (hasTypes_iff.mp h) hσ
      exact ih field hfield hτ hΓ
  | tupleGetItem id t index ih =>
    cases h with
    | tupleGetItem ht hindex h =>
      cases ih ht hΓ with
      | tuple hne h' => exact h' _ (List.mem_of_getElem? h)

namespace Expr

mutual

/-- Neither a function nor an operator stands for a value. -/
def FirstOrder : Expr → Prop
  | .undef | .constant .. | .var _ => True
  | .op .. | .function .. => False
  | .call _ _ args _ _ => FirstOrderList args
  | .ifE _ c t f => FirstOrder c ∧ FirstOrder t ∧ FirstOrder f
  | .letE _ _ value body => FirstOrder value ∧ FirstOrder body
  | .tuple _ fields => FirstOrderList fields
  | .tupleGetItem _ t _ => FirstOrder t

/-- `FirstOrder` of each expression of a list. -/
def FirstOrderList : List Expr → Prop
  | [] => True
  | e :: es => FirstOrder e ∧ FirstOrderList es

end

theorem firstOrderList_iff {es : List Expr} : FirstOrderList es ↔ ∀ e ∈ es, FirstOrder e := by
  induction es with
  | nil => simp [FirstOrderList]
  | cons e es ih => simp [FirstOrderList, ih]

/-- The operands of an expression that are in its own scope. -/
def operandsInScope : Expr → List Expr
  | .call _ _ args _ _ => args
  | .ifE _ c t f => [c, t, f]
  | .letE _ _ value _ => [value]
  | .tuple _ fields => fields
  | .tupleGetItem _ t _ => [t]
  | _ => []

theorem operandsInScope_subset {e c : Expr} (hc : c ∈ e.operandsInScope) : c ∈ e.children := by
  cases e with
  | undef | constant | var | op | function => cases hc
  | call => exact List.mem_cons_of_mem _ hc
  | ifE | tuple | tupleGetItem => exact hc
  | letE => exact List.mem_singleton.mp hc ▸ List.mem_cons_self

theorem ClosedIn.operandsInScope {scope : List Nat} {e c : Expr} (h : e.ClosedIn scope)
    (hc : c ∈ e.operandsInScope) : c.ClosedIn scope := by
  cases e with
  | undef | constant | var | op | function => cases hc
  | call => exact closedListIn_iff.mp h.2 c hc
  | ifE =>
    rcases List.mem_cons.mp hc with rfl | hc
    · exact h.1
    · rcases List.mem_pair.mp hc with rfl | rfl
      · exact h.2.1
      · exact h.2.2
  | letE => exact List.mem_singleton.mp hc ▸ h.1
  | tuple => exact closedListIn_iff.mp h c hc
  | tupleGetItem => exact List.mem_singleton.mp hc ▸ h

end Expr

/-- In the derivation of the type of `e`, the node `s` has the type `τ`. -/
inductive NodeType : TypeEnv → Expr → Expr → RelayType → Prop where
  | root {Γ : TypeEnv} {e : Expr} {τ : RelayType} (h : HasType Γ e τ) : NodeType Γ e e τ
  | operand {Γ : TypeEnv} {e c s : Expr} {τ : RelayType} (hc : c ∈ e.operandsInScope)
    (h : NodeType Γ c s τ) : NodeType Γ e s τ
  | binder {Γ : TypeEnv} {id : Nat} {v : Var} {value body : Expr} {τ : RelayType}
    (h : HasType Γ value τ) : NodeType Γ (.letE id v value body) (.var v) τ
  | body {Γ : TypeEnv} {id : Nat} {v : Var} {value body s : Expr} {τ τ' : RelayType}
    (hvalue : HasType Γ value τ) (h : NodeType (Function.update Γ v.id (some τ)) body s τ') :
    NodeType Γ (.letE id v value body) s τ'

theorem HasTypes.exists_type {es : List Expr} {τs : List RelayType} (h : HasTypes Γ es τs)
    {e : Expr} (he : e ∈ es) : ∃ τ, HasType Γ e τ := by
  induction es generalizing τs with
  | nil => cases he
  | cons a es ih =>
    cases h with
    | cons h hs =>
      rcases List.mem_cons.mp he with rfl | he
      · exact ⟨_, h⟩
      · exact ih hs he

theorem HasType.operand (h : HasType Γ e τ) {c : Expr} (hc : c ∈ e.operandsInScope) :
    ∃ τ', HasType Γ c τ' := by
  cases h with
  | constant | var => cases hc
  | call hrule hargs h => exact hargs.exists_type hc
  | ifE hcond ht hf =>
    rcases List.mem_cons.mp hc with rfl | hc
    · exact ⟨_, hcond⟩
    · rcases List.mem_pair.mp hc with rfl | rfl
      · exact ⟨_, ht⟩
      · exact ⟨_, hf⟩
  | letE hvalue h hbody =>
    obtain rfl := List.mem_singleton.mp hc
    exact ⟨_, hvalue⟩
  | tuple h => exact h.exists_type hc
  | tupleGetItem ht hindex h =>
    obtain rfl := List.mem_singleton.mp hc
    exact ⟨_, ht⟩

theorem NodeType.mem_nodes {s : Expr} (h : NodeType Γ e s τ) : s ∈ e.nodes := by
  induction h with
  | root h => exact Expr.subexprs_subset_nodes _ (Expr.self_mem_subexprs _)
  | operand hc _ ih =>
    exact Expr.nodes_subset (Expr.child_mem_subexprs (Expr.operandsInScope_subset hc)) ih
  | binder h =>
    exact Expr.mem_nodes.mpr ⟨_, Expr.self_mem_subexprs _, .inr ⟨_, List.mem_singleton_self _, rfl⟩⟩
  | body hvalue _ ih =>
    exact Expr.nodes_subset (Expr.child_mem_subexprs (by simp [Expr.children])) ih

/-- Every node but the operators has a type in a derivation. -/
theorem HasType.nodeType (h : HasType Γ e τ) {s : Expr} (hs : s ∈ e.nodes)
    (hop : s.isOp = false) : ∃ τ', NodeType Γ e s τ' := by
  induction e using Expr.induction_children generalizing Γ τ with
  | h e ih =>
    obtain ⟨t, ht, hst⟩ := Expr.mem_nodes.mp hs
    rcases Expr.mem_subexprs.mp ht with rfl | ⟨c, hc, ht⟩
    · rcases hst with rfl | ⟨v, hv, rfl⟩
      · exact ⟨τ, .root h⟩
      · cases h with
        | letE hvalue h hbody =>
          obtain rfl := List.mem_singleton.mp hv
          exact ⟨_, .binder hvalue⟩
        | constant | var | call | ifE | tuple | tupleGetItem => cases hv
    · have hsc : s ∈ c.nodes := Expr.mem_nodes.mpr ⟨t, ht, hst⟩
      have hoperand (hoperand : c ∈ e.operandsInScope) : ∃ τ', NodeType Γ e s τ' := by
        obtain ⟨σ, hσ⟩ := h.operand hoperand
        obtain ⟨τ', hτ'⟩ := ih c hc hσ hsc
        exact ⟨τ', .operand hoperand hτ'⟩
      cases h with
      | constant | var => cases hc
      | call hrule hargs h =>
        rcases List.mem_cons.mp hc with rfl | hc
        · obtain rfl := List.mem_singleton.mp hsc
          cases hop
        · exact hoperand hc
      | ifE | tuple | tupleGetItem => exact hoperand hc
      | letE hvalue h hbody =>
        rcases List.mem_pair.mp hc with rfl | rfl
        · exact hoperand (List.mem_singleton.mpr rfl)
        · obtain ⟨τ', hτ'⟩ := ih c hc hbody hsc
          exact ⟨τ', .body hvalue hτ'⟩

/-- The types of the parameters. -/
def paramTypes (params : List Var) : TypeEnv := fun x =>
  (params.find? fun p => p.id == x).bind Var.type_annotation

/-- The parameters of a function are annotated with types of tensors, and its body has a type. -/
structure Function.HasType (func : Function) (τ : RelayType) : Prop where
  params : ∀ p ∈ func.params, ∃ shape dtype, p.type_annotation = some (.tensor shape dtype)
  body : Relay.HasType (paramTypes func.params) func.body τ

/-- In the derivation of a function's type, the node `s` has the type `τ`; the function itself has
that of its body. -/
inductive Function.NodeType (func : Function) : Expr → RelayType → Prop where
  | function {τ : RelayType} (h : Relay.HasType (paramTypes func.params) func.body τ) :
    func.NodeType func.toExpr τ
  | param {p : Var} {τ : RelayType} (hp : p ∈ func.params) (h : p.type_annotation = some τ) :
    func.NodeType (.var p) τ
  | body {s : Expr} {τ : RelayType} (h : Relay.NodeType (paramTypes func.params) func.body s τ) :
    func.NodeType s τ

/-- Every node but the operators has a type in the derivation of a function's type. -/
theorem Function.HasType.nodeType {func : Function} (h : func.HasType τ) {s : Expr}
    (hs : s ∈ func.toExpr.nodes) (hop : s.isOp = false) : ∃ τ', func.NodeType s τ' := by
  obtain ⟨t, ht, hst⟩ := Expr.mem_nodes.mp hs
  rcases Expr.mem_subexprs.mp ht with rfl | ⟨c, hc, ht⟩
  · rcases hst with rfl | ⟨p, hp, rfl⟩
    · exact ⟨τ, .function h.body⟩
    · obtain ⟨shape, dtype, htype⟩ := h.params p hp
      exact ⟨_, .param hp htype⟩
  · obtain rfl := List.mem_singleton.mp hc
    obtain ⟨τ', hτ'⟩ := h.body.nodeType (Expr.mem_nodes.mpr ⟨t, ht, hst⟩) hop
    exact ⟨τ', .body hτ'⟩

end Kxc.Relay
