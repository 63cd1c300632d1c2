import Kxc.Lib.StateExcept
import Kxc.Relay.Typing

/-! `InferTypePass` agrees with the typing rules: it succeeds exactly if they derive a type, and
then each node has the type that it has in the derivation. -/

namespace Kxc.Relay

open Lib

mutual

theorem typeEqual_iff (t t' : Option RelayType) : TypeEqual t t' = true ↔ t = t' := by
  match t, t' with
  | none, none => simp [TypeEqual]
  | none, some _ => simp [TypeEqual]
  | some (.tensor s d), none => simp [TypeEqual]
  | some (.tuple fs), none => simp [TypeEqual]
  | some (.tensor s d), some (.tensor s' d') => simp [TypeEqual, and_comm]
  | some (.tensor s d), some (.tuple fs) => simp [TypeEqual]
  | some (.tuple fs), some (.tensor s d) => simp [TypeEqual]
  | some (.tuple fs), some (.tuple fs') => simp [TypeEqual, typesEqual_iff fs fs']

theorem typesEqual_iff (ts ts' : List (Option RelayType)) :
    TypesEqual ts ts' = true ↔ ts = ts' := by
  match ts, ts' with
  | [], [] => simp [TypesEqual]
  | [], _ :: _ => simp [TypesEqual]
  | _ :: _, [] => simp [TypesEqual]
  | t :: ts, t' :: ts' => simp [TypesEqual, typeEqual_iff t t', typesEqual_iff ts ts']

end

namespace TypeInferencer

theorem isScalarBool_iff {τ : RelayType} :
    isScalarBool (some τ) = true ↔ τ = .tensor [] "bool" := by
  cases τ with
  | tensor shape dtype => simp [isScalarBool, AsTensor, and_comm]
  | tuple => simp [isScalarBool, AsTensor]

theorem annotationMatches_iff {v : Var} {τ : RelayType} : annotationMatches v (some τ) = true ↔
    ∀ annotation, v.type_annotation = some annotation → annotation = τ := by
  rw [annotationMatches, Bool.or_eq_true, typeEqual_iff]
  cases v.type_annotation <;> simp

/-- The types of the variables in the environment. -/
def State.env (s : State) : TypeEnv := fun x => (s.var_env x).join

/-- The checked type of the node at an address. -/
def State.checked (s : State) (id : Nat) : Option RelayType := (s.heap.ann id).checked_type_

/-- The node `e` is in the memo table with the type `τ`. -/
structure Done (s : State) (e : Expr) (τ : RelayType) : Prop where
  checked : s.checked e.ptr = some τ
  typed : ∃ scope, e.ClosedIn scope ∧ (∀ x ∈ scope, s.env x ≠ none) ∧ HasType s.env e τ
  operands : ∀ c ∈ e.operandsInScope, s.memo c.ptr ≠ none
  bound : ∀ {id v value body}, e = .letE id v value body →
    s.memo body.ptr ≠ none ∧ ∃ τ', s.memo value.ptr = some (some τ') ∧ s.env v.id = some τ'

/-- What holds during the traversal of `root`, where the variables `scope` are in scope. -/
structure Inv (root : Expr) (scope : List Nat) (s : State) : Prop where
  in_scope : ∀ x ∈ scope, s.env x ≠ none
  done : ∀ e ∈ root.subexprs, ∀ type, s.memo e.ptr = some type → ∃ τ, type = some τ ∧ Done s e τ
  vars : ∀ x τ, s.env x = some τ →
    s.checked x = some τ ∧ ∃ v, .var v ∈ root.nodes ∧ v.id = x
  binders : ∀ l ∈ root.subexprs, ∀ x ∈ l.binders, s.env x ≠ none →
    x ∈ scope ∨ s.memo l.ptr ≠ none
  complete : ∀ x τ, s.env x = some τ → τ.Complete

/-- The tables have grown, the memo table by some of `nodes`. -/
structure Grows (nodes : List Expr) (s s' : State) : Prop where
  env : ∀ x τ, s.env x = some τ → s'.env x = some τ
  memo : ∀ p type, s.memo p = some type → s'.memo p = some type
  fresh : ∀ p, s.memo p = none → s'.memo p ≠ none → ∃ t ∈ nodes, t.ptr = p

theorem Grows.refl (nodes : List Expr) (s : State) : Grows nodes s s :=
  ⟨fun _ _ h => h, fun _ _ h => h, fun _ h h' => absurd h h'⟩

theorem Grows.trans {nodes : List Expr} {s s' s'' : State} (h : Grows nodes s s')
    (h' : Grows nodes s' s'') : Grows nodes s s'' where
  env x τ hx := h'.env x τ (h.env x τ hx)
  memo p type hp := h'.memo p type (h.memo p type hp)
  fresh p hp hp' := by
    by_cases hmid : s'.memo p = none
    · exact h'.fresh p hmid hp'
    · exact h.fresh p hp hmid

theorem Grows.mono {nodes nodes' : List Expr} {s s' : State} (h : Grows nodes s s')
    (hsub : nodes ⊆ nodes') : Grows nodes' s s' :=
  ⟨h.env, h.memo, fun p hp hp' => by
    obtain ⟨t, ht, hptr⟩ := h.fresh p hp hp'
    exact ⟨t, hsub ht, hptr⟩⟩

theorem Grows.env_ne {nodes : List Expr} {s s' : State} (h : Grows nodes s s') {x : Nat}
    (hx : s.env x ≠ none) : s'.env x ≠ none := by
  obtain ⟨τ, hτ⟩ := Option.ne_none_iff_exists'.mp hx
  rw [h.env x τ hτ]
  exact Option.some_ne_none τ

theorem Grows.memo_ne {nodes : List Expr} {s s' : State} (h : Grows nodes s s') {p : Nat}
    (hp : s.memo p ≠ none) : s'.memo p ≠ none := by
  obtain ⟨type, htype⟩ := Option.ne_none_iff_exists'.mp hp
  rw [h.memo p type htype]
  exact Option.some_ne_none type

/-- A type in scope is the same before and after. -/
theorem Grows.hasType_iff {nodes : List Expr} {s s' : State} (h : Grows nodes s s')
    {scope : List Nat} (hscoped : ∀ x ∈ scope, s.env x ≠ none) {e : Expr}
    (hclosed : e.ClosedIn scope) {τ : RelayType} : HasType s'.env e τ ↔ HasType s.env e τ := by
  constructor
  · refine fun hτ => hτ.mono hclosed fun x hx σ hσ => ?_
    obtain ⟨σ', hσ'⟩ := Option.ne_none_iff_exists'.mp (hscoped x hx)
    rw [hσ', ← h.env x σ' hσ', hσ]
  · exact fun hτ => hτ.mono hclosed fun x _ σ hσ => h.env x σ hσ

/-- What is in the memo table stays there, if its checked type does. -/
theorem Done.mono {nodes : List Expr} {s s' : State} {e : Expr} {τ : RelayType} (h : Done s e τ)
    (hgrows : Grows nodes s s') (hchecked : s'.checked e.ptr = s.checked e.ptr) :
    Done s' e τ where
  checked := hchecked.trans h.checked
  typed := by
    obtain ⟨scope, hclosed, hscoped, hτ⟩ := h.typed
    exact ⟨scope, hclosed, fun x hx => hgrows.env_ne (hscoped x hx),
      (hgrows.hasType_iff hscoped hclosed).mpr hτ⟩
  operands c hc := hgrows.memo_ne (h.operands c hc)
  bound he := by
    obtain ⟨hbody, τ', hvalue, hv⟩ := h.bound he
    exact ⟨hgrows.memo_ne hbody, τ', hgrows.memo _ _ hvalue, hgrows.env _ _ hv⟩

/-- The outcome of the visit of `e`, which is in scope. -/
structure Visited (root : Expr) (scope : List Nat) (e : Expr) (s : State) (type : Option RelayType)
    (s' : State) : Prop where
  typed : ∃ τ, type = some τ ∧ HasType s.env e τ ∧ s'.memo e.ptr = some (some τ)
  inv : Inv root scope s'
  grows : Grows e.subexprs s s'

/-- The outcome of the `VisitX` of the node `e`: its operands are in the memo table. -/
structure Computed (root : Expr) (scope : List Nat) (e : Expr) (s : State) (τ : RelayType)
    (s' : State) : Prop where
  typed : HasType s.env e τ
  inv : Inv root (e.binders ++ scope) s'
  grows : Grows (e.children.flatMap Expr.subexprs) s s'
  operands : ∀ c ∈ e.operandsInScope, s'.memo c.ptr ≠ none
  bound : ∀ {id v value body}, e = .letE id v value body →
    s'.memo body.ptr ≠ none ∧ ∃ τ', s'.memo value.ptr = some (some τ') ∧ s'.env v.id = some τ'

/-- The rule of the node has no type to give. -/
def Untyped (s : State) (e : Expr) (_ : String) : Prop := ∀ τ, ¬ HasType s.env e τ

/-- Nodes with one address are one node, and each variable is bound once. -/
structure Graph (root : Expr) : Prop where
  coherent : ∀ s ∈ root.nodes, ∀ t ∈ root.nodes, s.ptr = t.ptr → s = t
  bound_once : root.BoundOnce

section Visit

variable {root : Expr} {scope : List Nat} {e : Expr} {s : State}

theorem Graph.eq (hgraph : Graph root) {t : Expr} (he : e ∈ root.subexprs)
    (ht : t ∈ root.subexprs) (h : e.ptr = t.ptr) : e = t :=
  hgraph.coherent e (root.subexprs_subset_nodes he) t (root.subexprs_subset_nodes ht) h

/-- The node is not in the memo table while its children are visited. -/
theorem Grows.memo_eq_none (hgraph : Graph root) (he : e ∈ root.subexprs)
    (hnone : s.memo e.ptr = none) {nodes : List Expr} {s' : State} (h : Grows nodes s s')
    (hsub : nodes ⊆ e.children.flatMap Expr.subexprs) : s'.memo e.ptr = none := by
  by_contra hne
  obtain ⟨t, ht, hptr⟩ := (h.mono hsub).fresh _ hnone hne
  obtain ⟨c, hc, ht⟩ := List.mem_flatMap.mp ht
  have hroot : t ∈ root.subexprs :=
    Expr.subexprs_trans he (Expr.subexprs_trans (Expr.child_mem_subexprs hc) ht)
  have heq : t = e := hgraph.eq hroot he hptr
  exact Expr.not_mem_subexprs_child hc (heq ▸ ht)

/-- The node at `id` gets a checked type and an entry in the memo table. -/
def State.record (s : State) (id : Nat) (τ : RelayType) : State :=
  { s with
    heap := s.heap.setAnn id { s.heap.ann id with checked_type_ := some τ }
    memo := Function.update s.memo id (some (some τ)) }

@[simp] theorem record_env (s : State) (id : Nat) (τ : RelayType) : (s.record id τ).env = s.env :=
  rfl

theorem record_checked_self (s : State) (id : Nat) (τ : RelayType) :
    (s.record id τ).checked id = some τ := by
  simp [State.checked, State.record, Heap.setAnn]

theorem record_checked_of_ne (s : State) {id p : Nat} (τ : RelayType) (h : p ≠ id) :
    (s.record id τ).checked p = s.checked p := by
  simp [State.checked, State.record, Heap.setAnn, Function.update_of_ne h]

theorem record_memo_self (s : State) (id : Nat) (τ : RelayType) :
    (s.record id τ).memo id = some (some τ) := Function.update_self ..

theorem record_memo_of_ne (s : State) {id p : Nat} (τ : RelayType) (h : p ≠ id) :
    (s.record id τ).memo p = s.memo p := Function.update_of_ne h ..

theorem record_grows {s : State} (hnone : s.memo e.ptr = none) (τ : RelayType) :
    Grows [e] s (s.record e.ptr τ) where
  env _ _ hx := hx
  memo p type hp := by
    have hne : p ≠ e.ptr := by
      rintro rfl
      cases hnone.symm.trans hp
    rw [record_memo_of_ne s τ hne, hp]
  fresh p hp hp' := by
    by_cases h : p = e.ptr
    · exact ⟨e, List.mem_singleton.mpr rfl, h.symm⟩
    · rw [record_memo_of_ne s τ h] at hp'
      exact absurd hp hp'

/-- The node has been visited once its type is recorded. -/
theorem Computed.visited (hgraph : Graph root) (he : e ∈ root.subexprs)
    (hin_scope : ∀ x ∈ scope, s.env x ≠ none) (hclosed : e.ClosedIn scope)
    (hnone : s.memo e.ptr = none) {τ : RelayType} {s' : State} (h : Computed root scope e s τ s') :
    Visited root scope e s (some τ) (s'.record e.ptr τ) := by
  have hgrows := record_grows (h.grows.memo_eq_none hgraph he hnone (List.Subset.refl _)) τ
  have hscope' : ∀ x ∈ scope, s'.env x ≠ none :=
    fun x hx => h.inv.in_scope x (List.mem_append_right _ hx)
  have htyped : HasType s'.env e τ := (h.grows.hasType_iff hin_scope hclosed).mpr h.typed
  refine ⟨⟨τ, rfl, h.typed, record_memo_self ..⟩,
    ⟨hscope', ?_, ?_, ?_, h.inv.complete⟩, ?_⟩
  · intro t ht type hmemo
    by_cases hptr : t.ptr = e.ptr
    · obtain rfl : t = e := hgraph.eq ht he hptr
      obtain rfl := Option.some.inj ((record_memo_self ..).symm.trans hmemo)
      refine ⟨τ, rfl, record_checked_self .., ⟨scope, hclosed, hscope', htyped⟩,
        fun c hc => hgrows.memo_ne (h.operands c hc), fun heq => ?_⟩
      obtain ⟨hbody, τ', hvalue, hv⟩ := h.bound heq
      exact ⟨hgrows.memo_ne hbody, τ', hgrows.memo _ _ hvalue, hv⟩
    · rw [record_memo_of_ne s' τ hptr] at hmemo
      obtain ⟨σ, rfl, hdone⟩ := h.inv.done t ht type hmemo
      exact ⟨σ, rfl, hdone.mono hgrows (record_checked_of_ne s' τ hptr)⟩
  · intro x σ hx
    obtain ⟨hchecked, v, hv, rfl⟩ := h.inv.vars x σ hx
    refine ⟨?_, v, hv, rfl⟩
    by_cases hptr : v.id = e.ptr
    · obtain rfl : .var v = e := hgraph.coherent _ hv e (root.subexprs_subset_nodes he) hptr
      cases htyped with
      | var hτ =>
        obtain rfl := Option.some.inj (hτ.symm.trans hx)
        exact record_checked_self ..
    · rw [record_checked_of_ne s' τ hptr, hchecked]
  · intro l hl x hx hne
    rcases h.inv.binders l hl x hx hne with hmem | hmemo
    · rcases List.mem_append.mp hmem with hbound | hmem
      · obtain rfl := hgraph.bound_once.unique l hl e he x hx hbound
        exact .inr (by rw [record_memo_self]; exact Option.some_ne_none _)
      · exact .inl hmem
    · exact .inr (hgrows.memo_ne hmemo)
  · rw [Expr.subexprs_eq]
    exact (h.grows.mono (List.subset_cons_self _ _)).trans
      (hgrows.mono (List.cons_subset_cons _ (List.nil_subset _)))

/-- `Visit` of a node whose `VisitX` gives its type. -/
theorem memoized_visited (hgraph : Graph root) (he : e ∈ root.subexprs) (hinv : Inv root scope s)
    (hclosed : e.ClosedIn scope) {visit : InferM (Option RelayType)}
    (h : s.memo e.ptr = none → Outcome visit s (Untyped s e) fun type s' =>
      ∃ τ, type = some τ ∧ Computed root scope e s τ s') :
    Outcome (memoized e.ptr visit) s (Untyped s e) (Visited root scope e s) := by
  simp only [memoized, outcome_bind, outcome_get]
  cases hmemo : s.memo e.ptr with
  | some type =>
    obtain ⟨τ, rfl, hdone⟩ := hinv.done e he type hmemo
    obtain ⟨_, -, -, hτ⟩ := hdone.typed
    exact ⟨⟨τ, rfl, hτ, hmemo⟩, hinv, .refl _ _⟩
  | none =>
    refine outcome_bind.mpr ((h hmemo).mono ?_)
    rintro _ s' ⟨τ, rfl, hcomputed⟩
    exact hcomputed.visited hgraph he hinv.in_scope hclosed hmemo

/-- `Visit` of `e` in scope does what the rules say. -/
def Visits (root : Expr) (scope : List Nat) (e : Expr) : Prop :=
  ∀ s, Inv root scope s → Outcome (Visit e) s (Untyped s e) (Visited root scope e s)

/-- The outcome of the visits of `es`, which are in scope. -/
structure ListVisited (root : Expr) (scope : List Nat) (es : List Expr) (s : State)
    (τs : List RelayType) (s' : State) : Prop where
  typed : HasTypes s.env es τs
  inv : Inv root scope s'
  grows : Grows (es.flatMap Expr.subexprs) s s'
  memo : ∀ e ∈ es, s'.memo e.ptr ≠ none

theorem Visited.memo_ne {type : Option RelayType} {s' : State}
    (h : Visited root scope e s type s') : s'.memo e.ptr ≠ none := by
  obtain ⟨τ, -, -, hmemo⟩ := h.typed
  rw [hmemo]
  exact Option.some_ne_none _

theorem Grows.hasTypes_iff {nodes : List Expr} {s s' : State} (h : Grows nodes s s')
    (hin_scope : ∀ x ∈ scope, s.env x ≠ none) {es : List Expr}
    (hclosed : ∀ e ∈ es, e.ClosedIn scope) {τs : List RelayType} :
    HasTypes s'.env es τs ↔ HasTypes s.env es τs :=
  ⟨fun hτs => hτs.imp fun e he _ => (h.hasType_iff hin_scope (hclosed e he)).mp,
    fun hτs => hτs.imp fun e he _ => (h.hasType_iff hin_scope (hclosed e he)).mpr⟩

theorem ListVisited.cons {es : List Expr} {s1 s2 : State} {τ : RelayType} {τs : List RelayType}
    (hin_scope : ∀ x ∈ scope, s.env x ≠ none) (hclosed : ∀ e ∈ es, e.ClosedIn scope)
    (he : Visited root scope e s (some τ) s1) (hes : ListVisited root scope es s1 τs s2) :
    ListVisited root scope (e :: es) s (τ :: τs) s2 := by
  obtain ⟨σ, hσ, hτ, -⟩ := he.typed
  obtain rfl := Option.some.inj hσ
  refine ⟨.cons hτ ((he.grows.hasTypes_iff hin_scope hclosed).mp hes.typed), hes.inv, ?_, ?_⟩
  · rw [List.flatMap_cons]
    exact (he.grows.mono (List.subset_append_left _ _)).trans
      (hes.grows.mono (List.subset_append_right _ _))
  · intro a ha
    rcases List.mem_cons.mp ha with rfl | ha
    · exact hes.grows.memo_ne he.memo_ne
    · exact hes.memo a ha

theorem VisitFields_visited {es : List Expr} (h : ∀ e ∈ es, Visits root scope e)
    (hclosed : ∀ e ∈ es, e.ClosedIn scope) (hinv : Inv root scope s) :
    Outcome (VisitFields es) s (fun _ => ∀ τs, ¬ HasTypes s.env es τs) fun types s' =>
      ∃ τs : List RelayType, types = τs.map some ∧ ListVisited root scope es s τs s' := by
  induction es generalizing s with
  | nil => exact ⟨[], rfl, .nil, hinv, .refl _ _, fun _ h => by cases h⟩
  | cons e es ih =>
    have hclosed' : ∀ e ∈ es, e.ClosedIn scope := fun a ha => hclosed a (List.mem_cons_of_mem _ ha)
    rw [VisitFields, outcome_bind]
    refine (h e (by simp) s hinv).weaken (fun _ hno τs hτs => ?_) fun type s1 he => ?_
    · cases hτs with
      | cons hτ _ => exact hno _ hτ
    · obtain ⟨τ, rfl, -⟩ := he.typed
      rw [outcome_bind]
      refine (ih (fun a ha => h a (List.mem_cons_of_mem _ ha)) hclosed' he.inv).weaken
        (fun _ hno τs hτs => ?_) ?_
      · cases hτs with
        | cons _ hs => exact hno _ ((he.grows.hasTypes_iff hinv.in_scope hclosed').mpr hs)
      · rintro _ s2 ⟨τs, rfl, hes⟩
        exact ⟨τ :: τs, rfl, .cons hinv.in_scope hclosed' he hes⟩

theorem VisitArgs_visited {op_name : String} {es : List Expr}
    (h : ∀ e ∈ es, Visits root scope e) (hclosed : ∀ e ∈ es, e.ClosedIn scope)
    (hinv : Inv root scope s) :
    Outcome (VisitArgs op_name es) s (fun _ => ∀ τs, ¬ HasTypes s.env es τs)
      (ListVisited root scope es s) := by
  induction es generalizing s with
  | nil => exact ⟨.nil, hinv, .refl _ _, fun _ h => by cases h⟩
  | cons e es ih =>
    have hclosed' : ∀ e ∈ es, e.ClosedIn scope := fun a ha => hclosed a (List.mem_cons_of_mem _ ha)
    rw [VisitArgs, outcome_bind]
    refine (h e (by simp) s hinv).weaken (fun _ hno τs hτs => ?_) fun type s1 he => ?_
    · cases hτs with
      | cons hτ _ => exact hno _ hτ
    · obtain ⟨τ, rfl, -⟩ := he.typed
      dsimp only
      rw [outcome_bind]
      refine (ih (fun a ha => h a (List.mem_cons_of_mem _ ha)) hclosed' he.inv).weaken
        (fun _ hno τs hτs => ?_) fun τs s2 hes => ?_
      · cases hτs with
        | cons _ hs => exact hno _ ((he.grows.hasTypes_iff hinv.in_scope hclosed').mpr hs)
      · exact .cons hinv.in_scope hclosed' he hes

/-- The variable at `id` gets a type. -/
def State.bind (s : State) (id : Nat) (τ : RelayType) : State :=
  { s with
    heap := s.heap.setAnn id { s.heap.ann id with checked_type_ := some τ }
    var_env := Function.update s.var_env id (some (some τ)) }

@[simp] theorem outcome_bindVar {v : Var} {τ : RelayType} {E : String → Prop}
    {Q : Unit → State → Prop} :
    Outcome (bindVar v (some τ)) s E Q ↔ Q () (s.bind v.id τ) := Iff.rfl

@[simp] theorem bind_memo (s : State) (id : Nat) (τ : RelayType) : (s.bind id τ).memo = s.memo :=
  rfl

theorem bind_env (s : State) (id : Nat) (τ : RelayType) :
    (s.bind id τ).env = Function.update s.env id (some τ) := by
  funext x
  by_cases hx : x = id
  · subst hx
    simp [State.env, State.bind]
  · simp [State.env, State.bind, Function.update_of_ne hx]

theorem bind_checked (s : State) (id : Nat) (τ : RelayType) :
    (s.bind id τ).checked = Function.update s.checked id (some τ) := by
  funext p
  by_cases hp : p = id
  · subst hp
    simp [State.checked, State.bind, Heap.setAnn]
  · simp [State.checked, State.bind, Heap.setAnn, Function.update_of_ne hp]

theorem bind_grows {id : Nat} (hfresh : s.env id = none) (τ : RelayType) :
    Grows [] s (s.bind id τ) where
  env x σ hx := by
    have hne : x ≠ id := by
      rintro rfl
      cases hfresh.symm.trans hx
    rw [bind_env, Function.update_of_ne hne, hx]
  memo p type hp := hp
  fresh p hp hp' := absurd hp hp'

/-- A `Let` binds a variable that has no type yet. -/
theorem Inv.bind (hgraph : Graph root) (hinv : Inv root scope s) {v : Var}
    (hv : .var v ∈ root.nodes) (hfresh : s.env v.id = none) {τ : RelayType} (hτ : τ.Complete) :
    Inv root (v.id :: scope) (s.bind v.id τ) where
  in_scope x hx := by
    rw [bind_env]
    by_cases hxv : x = v.id
    · rw [hxv, Function.update_self]
      exact Option.some_ne_none τ
    · rw [Function.update_of_ne hxv]
      exact hinv.in_scope x (List.mem_of_ne_of_mem hxv hx)
  done t ht type hmemo := by
    obtain ⟨σ, rfl, hdone⟩ := hinv.done t ht type hmemo
    refine ⟨σ, rfl, hdone.mono (bind_grows hfresh τ) ?_⟩
    have hne : t.ptr ≠ v.id := by
      intro hptr
      obtain rfl : t = .var v := hgraph.coherent t (root.subexprs_subset_nodes ht) _ hv hptr
      obtain ⟨_, hclosed, hscoped, -⟩ := hdone.typed
      exact hscoped v.id hclosed hfresh
    rw [bind_checked, Function.update_of_ne hne]
  vars x σ hx := by
    rw [bind_env] at hx
    rw [bind_checked]
    by_cases hxv : x = v.id
    · subst hxv
      rw [Function.update_self] at hx ⊢
      exact ⟨hx, v, hv, rfl⟩
    · rw [Function.update_of_ne hxv] at hx ⊢
      exact hinv.vars x σ hx
  binders l hl x hx hne := by
    rw [bind_env] at hne
    by_cases hxv : x = v.id
    · exact .inl (hxv ▸ List.mem_cons_self)
    · rw [Function.update_of_ne hxv] at hne
      exact (hinv.binders l hl x hx hne).imp_left (List.mem_cons_of_mem _)
  complete x σ hx := by
    rw [bind_env] at hx
    by_cases hxv : x = v.id
    · rw [hxv, Function.update_self] at hx
      exact Option.some.inj hx ▸ hτ
    · rw [Function.update_of_ne hxv] at hx
      exact hinv.complete x σ hx

theorem VisitConstant_visits (hgraph : Graph root) {id : Nat} {data : Option NDArray}
    (he : .constant id data ∈ root.subexprs) : Visits root scope (.constant id data) := by
  intro s hinv
  refine memoized_visited hgraph he hinv trivial fun _ => ?_
  cases data with
  | none => exact fun τ hτ => by cases hτ
  | some data =>
    rw [VisitConstant, outcome_bind]
    cases hdtype : DTypeToString data.dtype with
    | error what =>
      intro τ hτ
      cases hτ with
      | constant h => cases hdtype.symm.trans h
    | ok dtype =>
      exact ⟨_, rfl, .constant hdtype, hinv, .refl _ _, (by rintro _ ⟨⟩), (by rintro _ _ _ _ ⟨⟩)⟩

theorem VisitVar_visits (hgraph : Graph root) {v : Var} (he : .var v ∈ root.subexprs)
    (hclosed : v.id ∈ scope) : Visits root scope (.var v) := by
  intro s hinv
  refine memoized_visited hgraph he hinv hclosed fun _ => ?_
  obtain ⟨τ, hτ⟩ := Option.ne_none_iff_exists'.mp (hinv.in_scope v.id hclosed)
  have henv : s.var_env v.id = some (some τ) := Option.join_eq_some_iff.mp hτ
  rw [VisitVar, outcome_bind, outcome_get]
  simp only [henv]
  exact ⟨τ, rfl, .var hτ, hinv, .refl _ _, (by rintro _ ⟨⟩), (by rintro _ _ _ _ ⟨⟩)⟩

theorem VisitCall_visits (hgraph : Graph root) {id origin : Nat} {op : Expr} {args : List Expr}
    {attrs : Option Attrs} (he : .call id op args attrs origin ∈ root.subexprs)
    (hclosed : (Expr.call id op args attrs origin).ClosedIn scope)
    (ih : ∀ a ∈ args, Visits root scope a) : Visits root scope (.call id op args attrs origin) := by
  intro s hinv
  refine memoized_visited hgraph he hinv hclosed fun _ => ?_
  have hargs : ∀ a ∈ args, a.ClosedIn scope := Expr.closedListIn_iff.mp hclosed.2
  cases op with
  | op op_id op_name =>
    dsimp only
    rw [outcome_bind]
    refine (VisitArgs_visited ih hargs hinv).weaken (fun _ hno τ hτ => ?_) fun τs s1 hvisited => ?_
    · cases hτ with
      | call hrule hτs h => exact hno _ hτs
    · rw [applyInferType]
      cases hrule : registeredInferType op_name with
      | none =>
        intro τ hτ
        cases hτ with
        | call hrule' => cases hrule.symm.trans hrule'
      | some infer_rule =>
        dsimp only
        rw [outcome_bind]
        cases hout : infer_rule attrs τs with
        | error what =>
          intro τ hτ
          cases hτ with
          | call hrule' hτs' h =>
            obtain rfl := Option.some.inj (hrule.symm.trans hrule')
            obtain rfl := hvisited.typed.unique hτs' fun a _ => HasType.unique
            cases hout.symm.trans h
        | ok τ =>
          refine ⟨τ, rfl, .call hrule hvisited.typed hout, hvisited.inv, hvisited.grows.mono ?_,
            hvisited.memo, (by rintro _ _ _ _ ⟨⟩)⟩
          exact List.subset_append_right _ _
  | _ => exact fun τ hτ => by cases hτ

theorem VisitIf_visits (hgraph : Graph root) {id : Nat} {c t f : Expr}
    (he : .ifE id c t f ∈ root.subexprs) (hclosed : (Expr.ifE id c t f).ClosedIn scope)
    (ihc : Visits root scope c) (iht : Visits root scope t) (ihf : Visits root scope f) :
    Visits root scope (.ifE id c t f) := by
  intro s hinv
  refine memoized_visited hgraph he hinv hclosed fun _ => ?_
  obtain ⟨hclosed_c, hclosed_t, hclosed_f⟩ := hclosed
  rw [outcome_bind]
  refine (ihc s hinv).weaken (fun _ hno τ hτ => ?_) fun type s1 hc => ?_
  · cases hτ with
    | ifE hc => exact hno _ hc
  obtain ⟨τc, rfl, hτc, hmemo_c⟩ := hc.typed
  cases hbool : isScalarBool (some τc) with
  | false =>
    intro τ hτ
    cases hτ with
    | ifE hc' =>
      obtain rfl := hτc.unique hc'
      cases hbool
  | true =>
    obtain rfl := isScalarBool_iff.mp hbool
    simp only [Bool.not_true, Bool.false_eq_true, if_false]
    rw [outcome_bind]
    refine (iht s1 hc.inv).weaken (fun _ hno τ hτ => ?_) fun type s2 ht => ?_
    · cases hτ with
      | ifE _ ht => exact hno _ ((hc.grows.hasType_iff hinv.in_scope hclosed_t).mpr ht)
    have hgrows := (hc.grows.mono (List.subset_append_left _ t.subexprs)).trans
      (ht.grows.mono (List.subset_append_right c.subexprs _))
    rw [outcome_bind]
    refine (ihf s2 ht.inv).weaken (fun _ hno τ hτ => ?_) fun type s3 hf => ?_
    · cases hτ with
      | ifE _ _ hf => exact hno _ ((hgrows.hasType_iff hinv.in_scope hclosed_f).mpr hf)
    obtain ⟨τt, rfl, hτt, hmemo_t⟩ := ht.typed
    obtain ⟨τf, rfl, hτf, hmemo_f⟩ := hf.typed
    have hτt := (hc.grows.hasType_iff hinv.in_scope hclosed_t).mp hτt
    have hτf := (hgrows.hasType_iff hinv.in_scope hclosed_f).mp hτf
    cases heq : TypeEqual (some τt) (some τf) with
    | false =>
      intro τ hτ
      cases hτ with
      | ifE _ ht' hf' =>
        rw [hτt.unique ht', hτf.unique hf', (typeEqual_iff _ _).mpr rfl] at heq
        cases heq
    | true =>
      obtain rfl := Option.some.inj ((typeEqual_iff _ _).mp heq)
      refine ⟨τt, rfl, .ifE hτc hτt hτf, hf.inv, ?_, ?_, by rintro _ _ _ _ ⟨⟩⟩
      · refine (hgrows.mono ?_).trans (hf.grows.mono ?_)
        · simp [Expr.children, ← List.append_assoc]
        · simp [Expr.children, ← List.append_assoc]
      · rintro a (_ | ⟨_, _ | ⟨_, _ | ⟨_, ⟨⟩⟩⟩⟩)
        · exact hf.grows.memo_ne (ht.grows.memo_ne hc.memo_ne)
        · exact hf.grows.memo_ne ht.memo_ne
        · exact hf.memo_ne

theorem VisitLet_visits (hgraph : Graph root) {id : Nat} {v : Var} {value body : Expr}
    (he : .letE id v value body ∈ root.subexprs)
    (hclosed : (Expr.letE id v value body).ClosedIn scope) (hscope : v.id ∉ scope)
    (ihv : Visits root scope value) (ihb : Visits root (v.id :: scope) body) :
    Visits root scope (.letE id v value body) := by
  intro s hinv
  refine memoized_visited hgraph he hinv hclosed fun hnone => ?_
  rw [outcome_bind]
  refine (ihv s hinv).weaken (fun _ hno τ hτ => ?_) fun type s1 hv => ?_
  · cases hτ with
    | letE hvalue => exact hno _ hvalue
  obtain ⟨τ, rfl, hτ, hmemo⟩ := hv.typed
  cases hmatch : annotationMatches v (some τ) with
  | false =>
    intro τ' hτ'
    cases hτ' with
    | letE hvalue h =>
      obtain rfl := hτ.unique hvalue
      rw [annotationMatches_iff.mpr h] at hmatch
      cases hmatch
  | true =>
    simp only [Bool.not_true, Bool.false_eq_true, if_false, outcome_bind, outcome_bindVar]
    have hgrows_v : Grows ((Expr.letE id v value body).children.flatMap Expr.subexprs) s s1 :=
      hv.grows.mono (by simp [Expr.children])
    -- no variable that the node binds has a type before the node is in the memo table
    have hfresh : s1.env v.id = none := by
      by_contra hne
      rcases hv.inv.binders _ he v.id (List.mem_singleton.mpr rfl) hne with hmem | hmemo
      · exact hscope hmem
      · exact hmemo (hgrows_v.memo_eq_none hgraph he hnone (List.Subset.refl _))
    have hvar : .var v ∈ root.nodes :=
      Expr.mem_nodes.mpr ⟨_, he, .inr ⟨v, List.mem_singleton.mpr rfl, rfl⟩⟩
    have hcomplete : τ.Complete := hτ.complete hinv.complete
    have hbody : ∀ {τ'}, HasType (s1.bind v.id τ).env body τ' ↔
        HasType (Function.update s.env v.id (some τ)) body τ' := by
      rw [bind_env]
      have hupdate {Γ Δ : TypeEnv} (h : ∀ x ∈ scope, ∀ σ, Γ x = some σ → Δ x = some σ) {τ'}
          (hτ' : HasType (Function.update Γ v.id (some τ)) body τ') :
          HasType (Function.update Δ v.id (some τ)) body τ' := by
        refine hτ'.mono hclosed.2 fun x hx σ hσ => ?_
        by_cases hxv : x = v.id
        · rwa [hxv, Function.update_self] at hσ ⊢
        · rw [Function.update_of_ne hxv] at hσ ⊢
          exact h x (List.mem_of_ne_of_mem hxv hx) σ hσ
      refine fun {τ'} => ⟨hupdate fun x hx σ hσ => ?_, hupdate fun x _ => hv.grows.env x⟩
      obtain ⟨σ', hσ'⟩ := Option.ne_none_iff_exists'.mp (hinv.in_scope x hx)
      rw [hσ', ← hv.grows.env x σ' hσ', hσ]
    refine (ihb _ (hv.inv.bind hgraph hvar hfresh hcomplete)).weaken (fun _ hno τ' hτ' => ?_)
      fun type s2 hb => ?_
    · cases hτ' with
      | letE hvalue _ hτ' =>
        obtain rfl := hτ.unique hvalue
        exact hno _ (hbody.mpr hτ')
    obtain ⟨τ', rfl, hτ', hmemo_b⟩ := hb.typed
    have hgrows_b := hb.grows.mono (List.subset_append_right value.subexprs _)
    refine ⟨τ', rfl, .letE hτ (annotationMatches_iff.mp hmatch) (hbody.mp hτ'), hb.inv, ?_, ?_, ?_⟩
    · refine hgrows_v.trans (((bind_grows hfresh τ).mono (List.nil_subset _)).trans ?_)
      exact hb.grows.mono (by simp [Expr.children])
    · rintro c (_ | ⟨_, ⟨⟩⟩)
      exact hb.grows.memo_ne hv.memo_ne
    · rintro _ _ _ _ ⟨⟩
      refine ⟨hb.memo_ne, τ, hb.grows.memo _ _ hmemo, hb.grows.env _ _ ?_⟩
      rw [bind_env, Function.update_self]

theorem VisitTuple_visits (hgraph : Graph root) {id : Nat} {fields : List Expr}
    (he : .tuple id fields ∈ root.subexprs) (hclosed : (Expr.tuple id fields).ClosedIn scope)
    (ih : ∀ a ∈ fields, Visits root scope a) : Visits root scope (.tuple id fields) := by
  intro s hinv
  refine memoized_visited hgraph he hinv hclosed fun _ => ?_
  rw [outcome_bind]
  refine (VisitFields_visited ih (Expr.closedListIn_iff.mp hclosed) hinv).weaken
    (fun _ hno τ hτ => ?_) ?_
  · cases hτ with
    | tuple hτs => exact hno _ hτs
  rintro _ s1 ⟨τs, rfl, hvisited⟩
  exact ⟨_, rfl, .tuple hvisited.typed, hvisited.inv, hvisited.grows, hvisited.memo,
    (by rintro _ _ _ _ ⟨⟩)⟩

theorem VisitTupleGetItem_visits (hgraph : Graph root) {id : Nat} {t : Expr} {index : Int32}
    (he : .tupleGetItem id t index ∈ root.subexprs)
    (hclosed : (Expr.tupleGetItem id t index).ClosedIn scope) (ih : Visits root scope t) :
    Visits root scope (.tupleGetItem id t index) := by
  intro s hinv
  refine memoized_visited hgraph he hinv hclosed fun _ => ?_
  rw [outcome_bind]
  refine (ih s hinv).weaken (fun _ hno τ hτ => ?_) fun type s1 ht => ?_
  · cases hτ with
    | tupleGetItem ht => exact hno _ ht
  obtain ⟨τt, rfl, hτt, -⟩ := ht.typed
  cases τt with
  | tensor shape dtype =>
    intro τ hτ
    cases hτ with
    | tupleGetItem ht' => cases hτt.unique ht'
  | tuple fields =>
    simp only [tupleField, AsTuple, outcome_ite, not_or, Int32.not_lt, not_le]
    refine ⟨fun hrange τ hτ => ?_, fun hin => ?_⟩
    · cases hτ with
      | tupleGetItem ht' hindex h =>
        obtain ⟨⟩ := hτt.unique ht'
        obtain ⟨hlt, -⟩ := List.getElem?_eq_some_iff.mp h
        rcases hrange with hneg | hlen
        · exact absurd hneg (Int32.not_lt.mpr hindex)
        · omega
    · obtain ⟨hindex, hlen⟩ := hin
      have hne : ∀ field ∈ fields, field ≠ none := by
        cases hτt.complete hinv.complete with
        | tuple hne => exact hne
      obtain ⟨τ, hτ⟩ := Option.ne_none_iff_exists'.mp (hne _ (List.getElem_mem hlen))
      refine ⟨τ, ?_, .tupleGetItem hτt hindex ?_, ht.inv, ?_, ?_, by rintro _ _ _ _ ⟨⟩⟩
      · rw [List.getD_eq_getElem?_getD, List.getElem?_eq_getElem hlen, hτ, Option.getD_some]
      · rw [List.getElem?_eq_getElem hlen, hτ]
      · exact ht.grows.mono (by simp [Expr.children])
      · rintro c (_ | ⟨_, ⟨⟩⟩)
        exact ht.memo_ne

/-- `Visit` agrees with the rules on each expression of the graph. -/
theorem Visit_visits (hgraph : Graph root) (he : e ∈ root.subexprs) (hclosed : e.ClosedIn scope)
    {above : List Nat} (hsub : scope ⊆ above) (hshadow : Expr.NoShadow above e)
    (hfirst : e.FirstOrder) : Visits root scope e := by
  induction e using Expr.induction generalizing scope above with
  | undef => exact hclosed.elim
  | constant id data => exact VisitConstant_visits hgraph he
  | var v => exact VisitVar_visits hgraph he hclosed
  | op | function => exact hfirst.elim
  | call id op args attrs origin iho iha =>
    refine VisitCall_visits hgraph he hclosed fun a ha => ?_
    have hmem : a ∈ (Expr.call id op args attrs origin).children := List.mem_cons_of_mem _ ha
    exact iha a ha (Expr.subexprs_trans he (Expr.child_mem_subexprs hmem))
      (Expr.closedListIn_iff.mp hclosed.2 a ha) hsub (hshadow.child hmem)
      (Expr.firstOrderList_iff.mp hfirst a ha)
  | ifE id c t f ihc iht ihf =>
    have hmem {a : Expr} (ha : a ∈ [c, t, f]) : a ∈ root.subexprs :=
      Expr.subexprs_trans he (Expr.child_mem_subexprs ha)
    obtain ⟨hclosed_c, hclosed_t, hclosed_f⟩ := hclosed
    obtain ⟨hfirst_c, hfirst_t, hfirst_f⟩ := hfirst
    exact VisitIf_visits hgraph he ⟨hclosed_c, hclosed_t, hclosed_f⟩
      (ihc (hmem (by simp)) hclosed_c hsub (hshadow.child (by simp [Expr.children])) hfirst_c)
      (iht (hmem (by simp)) hclosed_t hsub (hshadow.child (by simp [Expr.children])) hfirst_t)
      (ihf (hmem (by simp)) hclosed_f hsub (hshadow.child (by simp [Expr.children])) hfirst_f)
  | letE id v value body ihv ihb =>
    have hmem {a : Expr} (ha : a ∈ [value, body]) : a ∈ root.subexprs :=
      Expr.subexprs_trans he (Expr.child_mem_subexprs ha)
    obtain ⟨hfresh, hchildren⟩ := hshadow
    have hscope : v.id ∉ scope := fun h => hfresh v.id (List.mem_singleton.mpr rfl) (hsub h)
    exact VisitLet_visits hgraph he hclosed hscope
      (ihv (hmem (by simp)) hclosed.1 (List.subset_cons_of_subset v.id hsub)
        (hchildren _ (by simp [Expr.children])) hfirst.1)
      (ihb (hmem (by simp)) hclosed.2 (List.cons_subset_cons v.id hsub)
        (hchildren _ (by simp [Expr.children])) hfirst.2)
  | tuple id fields ih =>
    refine VisitTuple_visits hgraph he hclosed fun a ha => ?_
    exact ih a ha (Expr.subexprs_trans he (Expr.child_mem_subexprs ha))
      (Expr.closedListIn_iff.mp hclosed a ha) hsub (hshadow.child ha)
      (Expr.firstOrderList_iff.mp hfirst a ha)
  | tupleGetItem id t index ih =>
    have hmem : t ∈ (Expr.tupleGetItem id t index).children := List.mem_singleton.mpr rfl
    exact VisitTupleGetItem_visits hgraph he hclosed
      (ih (Expr.subexprs_trans he (Expr.child_mem_subexprs hmem)) hclosed hsub
        (hshadow.child hmem) hfirst)

/-- The parameters `params` have their annotations for types. -/
structure ParamsBound (params : List Var) (s s' : State) : Prop where
  annotated : ∀ p ∈ params, ∃ shape dtype, p.type_annotation = some (.tensor shape dtype)
  memo : s'.memo = s.memo
  env : ∀ p ∈ params, s'.env p.id = p.type_annotation
  checked : ∀ p ∈ params, s'.checked p.id = p.type_annotation
  frame : ∀ x, (∀ p ∈ params, p.id ≠ x) → s'.env x = s.env x ∧ s'.checked x = s.checked x

theorem VisitParams_bound {params : List Var} (hnodup : (params.map (·.id)).Nodup) :
    Outcome (VisitParams params) s
      (fun _ => ¬∀ p ∈ params, ∃ shape dtype, p.type_annotation = some (.tensor shape dtype))
      fun _ s' => ParamsBound params s s' := by
  induction params generalizing s with
  | nil => exact ⟨by simp, rfl, by simp, by simp, fun _ _ => ⟨rfl, rfl⟩⟩
  | cons p params ih =>
    obtain ⟨hp, hnodup⟩ := List.nodup_cons.mp hnodup
    have hne : ∀ q ∈ params, q.id ≠ p.id := by
      rintro q hq heq
      exact hp (List.mem_map.mpr ⟨q, hq, heq⟩)
    rw [VisitParams]
    cases htype : p.type_annotation with
    | none =>
      intro hall
      obtain ⟨shape, dtype, h⟩ := hall p (by simp)
      cases htype.symm.trans h
    | some type =>
      cases type with
      | tuple fields =>
        intro hall
        obtain ⟨shape, dtype, h⟩ := hall p (by simp)
        cases htype.symm.trans h
      | tensor shape dtype =>
        simp only [outcome_bind, outcome_bindVar]
        refine (ih hnodup).weaken (fun _ hno hall => hno fun q hq => hall q (by simp [hq]))
          fun _ s' hbound => ?_
        obtain ⟨henv, hchecked⟩ := hbound.frame p.id hne
        rw [bind_env, Function.update_self] at henv
        rw [bind_checked, Function.update_self] at hchecked
        refine ⟨?_, hbound.memo, ?_, ?_, fun x hx => ?_⟩
        · rintro q (_ | ⟨_, hq⟩)
          · exact ⟨shape, dtype, htype⟩
          · exact hbound.annotated q hq
        · rintro q (_ | ⟨_, hq⟩)
          · rw [henv, htype]
          · exact hbound.env q hq
        · rintro q (_ | ⟨_, hq⟩)
          · rw [hchecked, htype]
          · exact hbound.checked q hq
        · have hxp : x ≠ p.id := fun h => hx p (by simp) h.symm
          obtain ⟨henv', hchecked'⟩ := hbound.frame x fun q hq => hx q (by simp [hq])
          rw [henv', hchecked', bind_env, bind_checked, Function.update_of_ne hxp,
            Function.update_of_ne hxp]
          exact ⟨rfl, rfl⟩

end Visit

section Infer

variable {func : Function}

theorem paramTypes_of_mem {params : List Var} (hnodup : (params.map (·.id)).Nodup) {p : Var}
    (hp : p ∈ params) : paramTypes params p.id = p.type_annotation := by
  induction params with
  | nil => cases hp
  | cons q params ih =>
    obtain ⟨hq, hnodup⟩ := List.nodup_cons.mp hnodup
    rcases List.mem_cons.mp hp with rfl | hp
    · simp [paramTypes]
    · have hne : q.id ≠ p.id := fun h => hq (List.mem_map.mpr ⟨p, hp, h.symm⟩)
      simpa [paramTypes, hne] using ih hnodup hp

/-- The tables after the visit of the body of `func`, of type `τ`. -/
structure BodyVisited (func : Function) (τ : RelayType) (s : State) : Prop where
  typed : func.HasType τ
  inv : Inv func.toExpr (func.params.map (·.id)) s
  params : ∀ x ∈ func.params.map (·.id), ∀ σ, paramTypes func.params x = some σ → s.env x = some σ
  body : s.memo func.body.ptr ≠ none

/-- The variables in scope after the parameters have been visited. -/
theorem ParamsBound.inv {σ : Heap} {s : State} (h : ParamsBound func.params { heap := σ } s) :
    Inv func.toExpr (func.params.map (·.id)) s where
  in_scope x hx := by
    obtain ⟨p, hp, rfl⟩ := List.mem_map.mp hx
    obtain ⟨shape, dtype, htype⟩ := h.annotated p hp
    rw [h.env p hp, htype]
    exact Option.some_ne_none _
  done e he type hmemo := by
    rw [h.memo] at hmemo
    cases hmemo
  vars x τ hx := by
    by_cases hp : ∃ p ∈ func.params, p.id = x
    · obtain ⟨p, hp, rfl⟩ := hp
      refine ⟨by rw [h.checked p hp, ← h.env p hp, hx], p, ?_, rfl⟩
      exact Expr.mem_nodes.mpr ⟨_, Expr.self_mem_subexprs _, .inr ⟨p, hp, rfl⟩⟩
    · rw [(h.frame x fun p hp' hpx => hp ⟨p, hp', hpx⟩).1] at hx
      cases hx
  binders l hl x hx hne := by
    by_cases hp : ∃ p ∈ func.params, p.id = x
    · obtain ⟨p, hp, rfl⟩ := hp
      exact .inl (List.mem_map.mpr ⟨p, hp, rfl⟩)
    · rw [(h.frame x fun p hp' hpx => hp ⟨p, hp', hpx⟩).1] at hne
      exact absurd rfl hne
  complete x τ hx := by
    by_cases hp : ∃ p ∈ func.params, p.id = x
    · obtain ⟨p, hp, rfl⟩ := hp
      obtain ⟨shape, dtype, htype⟩ := h.annotated p hp
      rw [h.env p hp, htype] at hx
      cases hx
      exact .tensor shape dtype
    · rw [(h.frame x fun p hp' hpx => hp ⟨p, hp', hpx⟩).1] at hx
      cases hx

/-- `Visit` of the function at the top. -/
theorem Visit_function (hgraph : Graph func.toExpr) (hclosed : func.toExpr.ClosedIn [])
    (hfirst : func.body.FirstOrder) (σ : Heap) :
    Outcome (Visit func.toExpr) { heap := σ } (fun _ => ∀ τ, ¬ func.HasType τ) fun _ s' =>
      ∃ τ s, BodyVisited func τ s ∧ s'.checked = Function.update s.checked func.id (some τ) := by
  have hself : func.toExpr ∈ func.toExpr.subexprs := Expr.self_mem_subexprs _
  have hnodup : (func.params.map (·.id)).Nodup := hgraph.bound_once.nodup _ hself
  have hbody : func.body ∈ func.toExpr.children := List.mem_singleton.mpr rfl
  have hclosed_b : func.body.ClosedIn (func.params.map (·.id)) := by
    simpa [Function.toExpr, Expr.ClosedIn] using hclosed
  have hshadow : Expr.NoShadow (func.params.map (·.id) ++ []) func.body :=
    (hgraph.bound_once.noShadow (by simp)).child hbody
  rw [Function.toExpr, Visit, memoized]
  simp only [outcome_bind, outcome_get]
  refine (VisitParams_bound hnodup).weaken (fun _ hno τ hτ => hno hτ.params) fun _ s1 hbound => ?_
  have henv : ∀ x ∈ func.params.map (·.id), s1.env x = paramTypes func.params x := by
    intro x hx
    obtain ⟨p, hp, rfl⟩ := List.mem_map.mp hx
    rw [hbound.env p hp, paramTypes_of_mem hnodup hp]
  have hvisits := Visit_visits hgraph
    (Expr.subexprs_trans hself (Expr.child_mem_subexprs hbody)) hclosed_b
    (List.subset_append_left _ _) hshadow hfirst s1 hbound.inv
  refine hvisits.weaken (fun _ hno τ hτ => ?_) fun type s2 hvisited => ?_
  · exact hno τ (hτ.body.mono hclosed_b fun x hx σ hσ => by rw [henv x hx, hσ])
  obtain ⟨τ, rfl, hτ, hmemo⟩ := hvisited.typed
  refine ⟨τ, s2, ⟨⟨hbound.annotated, ?_⟩, hvisited.inv, fun x hx σ hσ => ?_, hvisited.memo_ne⟩, ?_⟩
  · exact hτ.mono hclosed_b fun x hx σ hσ => by rw [← henv x hx, hσ]
  · exact hvisited.grows.env x σ (by rw [henv x hx, hσ])
  · funext p
    by_cases hp : p = func.id
    · simp [State.checked, Heap.setAnn, hp]
    · simp [State.checked, Heap.setAnn, hp]

section NodeTypes

variable {root : Expr} {outer scope : List Nat} {S : State} {Γ : TypeEnv} {e : Expr} {τ : RelayType}

theorem Inv.exists_done (hinv : Inv root outer S) (he : e ∈ root.subexprs)
    (hmemo : S.memo e.ptr ≠ none) : ∃ τ, S.memo e.ptr = some (some τ) ∧ Done S e τ := by
  obtain ⟨type, htype⟩ := Option.ne_none_iff_exists'.mp hmemo
  obtain ⟨τ, rfl, hdone⟩ := hinv.done e he type htype
  exact ⟨τ, htype, hdone⟩

/-- The derived type of a node in the memo table. -/
theorem Inv.done_of_hasType (hinv : Inv root outer S) (he : e ∈ root.subexprs)
    (hmemo : S.memo e.ptr ≠ none) (hclosed : e.ClosedIn scope)
    (hΓ : ∀ x ∈ scope, ∀ σ, Γ x = some σ → S.env x = some σ) (h : HasType Γ e τ) :
    S.memo e.ptr = some (some τ) ∧ Done S e τ := by
  obtain ⟨τ', hmemo, hdone⟩ := hinv.exists_done he hmemo
  obtain ⟨_, -, -, hτ'⟩ := hdone.typed
  obtain rfl := hτ'.unique (h.mono hclosed hΓ)
  exact ⟨hmemo, hdone⟩

/-- The variable of a `Let` in the memo table has the type of the value. -/
theorem Inv.let_bound (hinv : Inv root outer S) {id : Nat} {v : Var} {value body : Expr}
    (he : .letE id v value body ∈ root.subexprs) (hmemo : S.memo id ≠ none)
    (hclosed : value.ClosedIn scope) (hΓ : ∀ x ∈ scope, ∀ σ, Γ x = some σ → S.env x = some σ)
    (h : HasType Γ value τ) : S.memo body.ptr ≠ none ∧ S.env v.id = some τ := by
  obtain ⟨_, -, hlet⟩ := hinv.exists_done he hmemo
  obtain ⟨hbody, τ', hvalue, hv⟩ := hlet.bound rfl
  have hmem : value ∈ root.subexprs :=
    Expr.subexprs_trans he (Expr.child_mem_subexprs List.mem_cons_self)
  have hne : S.memo value.ptr ≠ none := by
    rw [hvalue]
    exact Option.some_ne_none _
  obtain ⟨hvalue', -⟩ := hinv.done_of_hasType hmem hne hclosed hΓ h
  cases hvalue.symm.trans hvalue'
  exact ⟨hbody, hv⟩

/-- The checked types of the nodes are their types in the derivation. -/
theorem Inv.checked_of_nodeType (hinv : Inv root outer S) {s : Expr} (h : NodeType Γ e s τ)
    (he : e ∈ root.subexprs) (hmemo : S.memo e.ptr ≠ none) (hclosed : e.ClosedIn scope)
    (hΓ : ∀ x ∈ scope, ∀ σ, Γ x = some σ → S.env x = some σ) : S.checked s.ptr = some τ := by
  induction h generalizing scope with
  | root h => exact (hinv.done_of_hasType he hmemo hclosed hΓ h).2.checked
  | operand hc h ih =>
    obtain ⟨_, -, hdone⟩ := hinv.exists_done he hmemo
    exact ih (Expr.subexprs_trans he (Expr.child_mem_subexprs (Expr.operandsInScope_subset hc)))
      (hdone.operands _ hc) (hclosed.operandsInScope hc) hΓ
  | binder h => exact (hinv.vars _ _ (hinv.let_bound he hmemo hclosed.1 hΓ h).2).1
  | @body Γ id v value body s τ τ' h _ ih =>
    obtain ⟨hbody, hv⟩ := hinv.let_bound he hmemo hclosed.1 hΓ h
    have hmem : body ∈ root.subexprs :=
      Expr.subexprs_trans he (Expr.child_mem_subexprs (by simp [Expr.children]))
    refine ih hmem hbody hclosed.2 fun x hx σ hσ => ?_
    by_cases hxv : x = v.id
    · rw [hxv, Function.update_self] at hσ
      rw [hxv, hv, hσ]
    · rw [Function.update_of_ne hxv] at hσ
      exact hΓ x (List.mem_of_ne_of_mem hxv hx) σ hσ

end NodeTypes

/-- The function is no node of its body. -/
theorem toExpr_notMem_body_nodes (func : Function) : func.toExpr ∉ func.body.nodes := by
  intro hmem
  obtain ⟨t, ht, rfl | ⟨v, -, hv⟩⟩ := Expr.mem_nodes.mp hmem
  · exact Expr.not_mem_subexprs_child (List.mem_singleton.mpr rfl) ht
  · cases hv

/-- The types in the derivation of a function's type are the checked types. -/
theorem BodyVisited.checked_of_nodeType (hgraph : Graph func.toExpr)
    (hclosed : func.body.ClosedIn (func.params.map (·.id))) {τ : RelayType} {S S' : State}
    (h : BodyVisited func τ S) (hS' : S'.checked = Function.update S.checked func.id (some τ))
    {s : Expr} {τ' : RelayType} (hs : func.NodeType s τ') : S'.checked s.ptr = some τ' := by
  have hself : func.toExpr ∈ func.toExpr.subexprs := Expr.self_mem_subexprs _
  have hbody : func.body ∈ func.toExpr.subexprs :=
    Expr.child_mem_subexprs (List.mem_singleton.mpr rfl)
  have hne {s : Expr} (hs : s ∈ func.toExpr.nodes) (hne : s ≠ func.toExpr) : s.ptr ≠ func.id :=
    fun hptr => hne (hgraph.coherent s hs _ (func.toExpr.subexprs_subset_nodes hself) hptr)
  rw [hS']
  cases hs with
  | function hτ' => rw [hτ'.unique h.typed.body]; exact Function.update_self ..
  | @param p _ hp htype =>
    have hmem : .var p ∈ func.toExpr.nodes := Expr.mem_nodes.mpr ⟨_, hself, .inr ⟨p, hp, rfl⟩⟩
    rw [Function.update_of_ne (hne hmem (by rintro ⟨⟩))]
    have hnodup : (func.params.map (·.id)).Nodup := hgraph.bound_once.nodup _ hself
    refine (h.inv.vars p.id τ' (h.params p.id (List.mem_map.mpr ⟨p, hp, rfl⟩) τ' ?_)).1
    rw [paramTypes_of_mem hnodup hp, htype]
  | body hs =>
    have hmem : s ∈ func.body.nodes := hs.mem_nodes
    rw [Function.update_of_ne (hne (Expr.nodes_subset hbody hmem)
      (by rintro rfl; exact toExpr_notMem_body_nodes func hmem))]
    exact h.inv.checked_of_nodeType hs hbody h.body hclosed h.params

theorem InferTypePass_eq_ok {σ σ' : Heap} : InferTypePass func σ = .ok σ' ↔
    ∃ type s, Visit func.toExpr { heap := σ } = .ok (type, s) ∧ s.heap = σ' := by
  simp only [InferTypePass, Infer, StateT.run]
  cases Visit func.toExpr { heap := σ } with
  | error what => simp [bind, Except.bind]
  | ok p =>
    obtain ⟨type, s⟩ := p
    simp [bind, Except.bind, pure, Except.pure]

end Infer

end TypeInferencer

/-- Type inference of a function of first order succeeds exactly if the rules derive a type. Each
node but the operators has then the type of the derivation, whatever its checked type was. -/
theorem InferTypePass_types (func : Function) (σ : Heap) (hgraph : NodeGraph σ func.toExpr)
    (hscoped : func.WellScoped) (hfirst : func.body.FirstOrder) :
    ((∃ σ', InferTypePass func σ = .ok σ') ↔ ∃ τ, func.HasType τ) ∧
      ∀ σ', InferTypePass func σ = .ok σ' → ∀ s ∈ func.toExpr.nodes, s.isOp = false →
        ∃ τ, (σ'.ann s.ptr).checked_type_ = some τ ∧ ∀ τ', func.NodeType s τ' ↔ τ' = τ := by
  have hg : TypeInferencer.Graph func.toExpr := ⟨hgraph.coherent, hscoped.bound_once⟩
  have hclosed : func.body.ClosedIn (func.params.map (·.id)) := by
    simpa [Function.toExpr, Expr.ClosedIn] using hscoped.closed
  have houtcome := TypeInferencer.Visit_function hg hscoped.closed hfirst σ
  have hok {σ' : Heap} (h : InferTypePass func σ = .ok σ') :
      ∃ (τ : RelayType) (S S' : TypeInferencer.State), TypeInferencer.BodyVisited func τ S ∧ S'.heap = σ' ∧
        S'.checked = Function.update S.checked func.id (some τ) := by
    obtain ⟨type, S', hvisit, hheap⟩ := TypeInferencer.InferTypePass_eq_ok.mp h
    obtain ⟨τ, S, hbody, hchecked⟩ := houtcome.of_ok hvisit
    exact ⟨τ, S, S', hbody, hheap, hchecked⟩
  refine ⟨⟨?_, ?_⟩, ?_⟩
  · rintro ⟨σ', h⟩
    obtain ⟨τ, S, S', hbody, -, -⟩ := hok h
    exact ⟨τ, hbody.typed⟩
  · rintro ⟨τ, hτ⟩
    cases hvisit : TypeInferencer.Visit func.toExpr { heap := σ } with
    | error what => exact absurd hτ (houtcome.of_error hvisit τ)
    | ok p => exact ⟨_, TypeInferencer.InferTypePass_eq_ok.mpr ⟨_, _, hvisit, rfl⟩⟩
  · intro σ' h s hs hop
    obtain ⟨τ, S, S', hbody, rfl, hchecked⟩ := hok h
    obtain ⟨τs, hτs⟩ := hbody.typed.nodeType hs hop
    have hcheck := hbody.checked_of_nodeType hg hclosed hchecked hτs
    refine ⟨τs, hcheck, fun τ' => ⟨fun hτ' => ?_, ?_⟩⟩
    · have hcheck' := hbody.checked_of_nodeType hg hclosed hchecked hτ'
      exact Option.some.inj (hcheck'.symm.trans hcheck)
    · rintro rfl
      exact hτs

/-- `fn (x : Tensor[(2), float32]) { nn_relu(x) }`. -/
def reluOfParam : Function :=
  let x : Var := { id := 1, name_hint := "x", type_annotation := some (.tensor [2] "float32") }
  { id := 4, params := [x], body := .call 3 (.op 2 "nn_relu") [.var x] none 3 }

theorem reluOfParam_types :
    ∃ σ', InferTypePass reluOfParam { next := 5 } = .ok σ' ∧
      ∀ s ∈ reluOfParam.toExpr.nodes, s.isOp = false → ∃ τ,
        (σ'.ann s.ptr).checked_type_ = some τ ∧ ∀ τ', reluOfParam.NodeType s τ' ↔ τ' = τ := by
  obtain ⟨hsucceeds, htypes⟩ := InferTypePass_types reluOfParam { next := 5 }
    ⟨by simp [Expr.nodes, Expr.subexprs, Expr.subexprsList, Expr.boundVars, Function.toExpr,
        reluOfParam, Expr.ptr],
      by simp [Expr.nodes, Expr.subexprs, Expr.subexprsList, Expr.boundVars, Function.toExpr,
        reluOfParam, Expr.ptr]⟩
    ⟨by simp [reluOfParam, Function.toExpr, Expr.ClosedIn, Expr.ClosedListIn],
      Expr.boundOnce_of_nodup (by decide)⟩
    (by simp [reluOfParam, Expr.FirstOrder, Expr.FirstOrderList])
  have htyped : reluOfParam.HasType (.tensor [2] "float32") :=
    ⟨by simp [reluOfParam], .call rfl (.cons (.var rfl) .nil) rfl⟩
  obtain ⟨σ', hσ'⟩ := hsucceeds.mpr ⟨_, htyped⟩
  exact ⟨σ', hσ', htypes σ' hσ'⟩

/-- `fn () { add }`, which returns an operator: no rule gives it a type, but the inference leaves
it without one and succeeds. -/
theorem InferTypePass_operator :
    let func : Function := { id := 1, params := [], body := .op 0 "add" }
    let σ : Heap := { next := 2 }
    NodeGraph σ func.toExpr ∧ func.WellScoped ∧
      (∀ id params body, .function id params body ∉ func.body.subexprs) ∧
      (∃ σ', InferTypePass func σ = .ok σ') ∧ ¬∃ τ, func.HasType τ := by
  refine ⟨⟨?_, ?_⟩, ⟨?_, Expr.boundOnce_of_nodup (by decide)⟩, ?_, ⟨_, rfl⟩, ?_⟩
  · simp [Expr.nodes, Expr.subexprs, Expr.boundVars, Function.toExpr, Expr.ptr]
  · simp [Expr.nodes, Expr.subexprs, Expr.boundVars, Function.toExpr, Expr.ptr]
  · simp [Function.toExpr, Expr.ClosedIn]
  · simp [Expr.subexprs]
  · rintro ⟨τ, -, ⟨⟩⟩

end Kxc.Relay
