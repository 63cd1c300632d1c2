import Kxc.Base.Disco.Executor
import Kxc.Relay.Scope
import Kxc.Relay.Transforms.MultiDevice

/-! The execution plan of a closed function is in single assignment form and in topological order,
and its execution uses no undefined value. The invariant of the plan builder is that the value ids
below `next_value_id` are exactly the ones that a parameter, a constant or a node defines. -/

namespace Kxc.Relay

open Lib

/-! ### Graphs that the builder numbers -/

mutual

/-- What the plan builder needs of a graph: no `If`, no nested function, every variable in `scope`
or bound around it, and no variable bound again inside its scope. -/
def Expr.LowerableIn (scope : List Nat) : Expr → Prop
  | .undef => False
  | .constant .. => True
  | .var v => v.id ∈ scope
  | .op .. => True
  | .call _ _ args _ _ => LowerableListIn scope args
  | .function .. => False
  | .ifE .. => False
  | .letE _ v value body =>
    LowerableIn scope value ∧ v.id ∉ scope ∧ LowerableIn (v.id :: scope) body
  | .tuple _ fields => LowerableListIn scope fields
  | .tupleGetItem _ t _ => LowerableIn scope t

/-- `LowerableIn` of each expression of a list. -/
def Expr.LowerableListIn (scope : List Nat) : List Expr → Prop
  | [] => True
  | e :: es => LowerableIn scope e ∧ LowerableListIn scope es

end

namespace Expr

theorem lowerableListIn_iff {scope : List Nat} {es : List Expr} :
    LowerableListIn scope es ↔ ∀ e ∈ es, LowerableIn scope e := by
  induction es with
  | nil => simp [LowerableListIn]
  | cons e es ih => simp [LowerableListIn, ih]

/-- An `If` or a function value. -/
def isIfOrFunction : Expr → Bool
  | .ifE .. => true
  | .function .. => true
  | _ => false

/-- A closed graph whose variables are bound once, without `If` and functions, can be numbered. -/
theorem ClosedIn.lowerableIn {e : Expr} {scope : List Nat} (h : e.ClosedIn scope)
    (hflat : ∀ s ∈ e.subexprs, s.isIfOrFunction = false) (honce : e.BoundOnce)
    (hscope : ∀ s ∈ e.subexprs, ∀ x ∈ s.binders, x ∉ scope) : e.LowerableIn scope := by
  induction e using Expr.induction generalizing scope with
  | undef => exact h
  | constant | op => trivial
  | var v => exact h
  | call id callee args attrs origin _ iha =>
    refine lowerableListIn_iff.mpr fun a ha => ?_
    have hsub : ∀ s ∈ a.subexprs, s ∈ (call id callee args attrs origin).subexprs :=
      fun s hs => subexprs_trans (child_mem_subexprs (List.mem_cons_of_mem _ ha)) hs
    exact iha a ha (closedListIn_iff.mp h.2 a ha) (fun s hs => hflat s (hsub s hs))
      (honce.mono (hsub a a.self_mem_subexprs)) fun s hs => hscope s (hsub s hs)
  | function id params body => exact absurd (hflat _ (self_mem_subexprs _)) (by simp [isIfOrFunction])
  | ifE id c t f => exact absurd (hflat _ (self_mem_subexprs _)) (by simp [isIfOrFunction])
  | letE id v value body ihv ihb =>
    have hv : ∀ s ∈ value.subexprs, s ∈ (letE id v value body).subexprs :=
      fun s hs => subexprs_trans (child_mem_subexprs (by simp [children])) hs
    have hb : ∀ s ∈ body.subexprs, s ∈ (letE id v value body).subexprs :=
      fun s hs => subexprs_trans (child_mem_subexprs (by simp [children])) hs
    refine ⟨ihv h.1 (fun s hs => hflat s (hv s hs)) (honce.mono (hv _ value.self_mem_subexprs))
      fun s hs => hscope s (hv s hs), hscope _ (self_mem_subexprs _) v.id (by simp [binders]),
      ihb h.2 (fun s hs => hflat s (hb s hs)) (honce.mono (hb _ body.self_mem_subexprs))
      fun s hs x hx => ?_⟩
    -- a binder of the body is neither the variable of this `Let` nor one in scope around it
    intro hmem
    rcases List.mem_cons.mp hmem with rfl | hmem
    · exact honce.not_mem_binders (by simp [binders]) (by simp [children]) hs hx
    · exact hscope s (hb s hs) x hx hmem
  | tuple id fields ih =>
    refine lowerableListIn_iff.mpr fun a ha => ?_
    have hsub : ∀ s ∈ a.subexprs, s ∈ (tuple id fields).subexprs :=
      fun s hs => subexprs_trans (child_mem_subexprs ha) hs
    exact ih a ha (closedListIn_iff.mp h a ha) (fun s hs => hflat s (hsub s hs))
      (honce.mono (hsub a a.self_mem_subexprs)) fun s hs => hscope s (hsub s hs)
  | tupleGetItem id t index ih =>
    have hsub : ∀ s ∈ t.subexprs, s ∈ (tupleGetItem id t index).subexprs :=
      fun s hs => subexprs_trans (child_mem_subexprs (by simp [children])) hs
    exact ih h (fun s hs => hflat s (hsub s hs)) (honce.mono (hsub t t.self_mem_subexprs))
      fun s hs => hscope s (hsub s hs)

end Expr

/-! ### The communication inserter keeps graphs lowerable -/

namespace DeviceCommunicationInserter

theorem lowerable_copyArgs {scope : List Nat} {consumer_vd : Option VirtualDevice}
    {args : List Expr} {σ : Heap} (h : ∀ a ∈ args, a.LowerableIn scope) :
    ∀ a ∈ (copyArgs consumer_vd args σ).new_args, a.LowerableIn scope := by
  induction args generalizing σ with
  | nil => simp [copyArgs]
  | cons arg args ih =>
    have harg := h arg (by simp)
    have hargs : ∀ a ∈ args, a.LowerableIn scope := fun a ha => h a (by simp [ha])
    rcases copyArgs_cons consumer_vd arg args σ with ⟨-, heq⟩ | ⟨-, heq⟩
    · rw [heq]
      exact List.forall_mem_cons.mpr ⟨harg, ih hargs⟩
    · rw [heq]
      refine List.forall_mem_cons.mpr ⟨?_, ih hargs⟩
      simpa [copyCall, Heap.new, Expr.LowerableIn, Expr.LowerableListIn] using harg

theorem lowerable_post {scope : List Nat} {ref e : Expr} {σ : Heap} (h : e.LowerableIn scope) :
    (post ref e σ).1.LowerableIn scope := by
  cases e with
  | call id op args attrs origin =>
    have hargs := Expr.lowerableListIn_iff.mp h
    simp only [post]
    split_ifs
    · exact h
    · exact h
    · exact h
    · exact Expr.lowerableListIn_iff.mpr (lowerable_copyArgs hargs)
    · exact h
  | _ => exact h

end DeviceCommunicationInserter

namespace RelayPass

theorem lowerable_rebuild {scope : List Nat} {ref : Expr} {changed : Bool} {mk : Nat → Expr}
    {σ : Heap} (href : ref.LowerableIn scope) (hmk : ∀ i, (mk i).LowerableIn scope) :
    (rebuild ref changed mk σ).1.LowerableIn scope := by
  rcases rebuild_cases ref changed mk σ with ⟨h, -⟩ | ⟨h, -⟩
  · rw [h]; exact href
  · rw [h]; exact hmk _

theorem lowerable_mutateList {post : Post} {scope : List Nat} {es : List Expr} {σ : Heap}
    (h : ∀ e ∈ es, ∀ τ, (mutate post e τ).1.LowerableIn scope) :
    ∀ e ∈ (mutateList post es σ).1, e.LowerableIn scope := by
  induction es generalizing σ with
  | nil => simp [mutateList]
  | cons e es ih =>
    exact List.forall_mem_cons.mpr ⟨h e (by simp) σ, ih fun e he => h e (by simp [he])⟩

/-- A rewriter whose overrides keep graphs lowerable keeps them lowerable over a whole run. -/
theorem lowerable_mutate {post : Post}
    (hpost : ∀ scope ref e σ, e.LowerableIn scope → (post ref e σ).1.LowerableIn scope)
    {e : Expr} {scope : List Nat} {σ : Heap} (h : e.LowerableIn scope) :
    (mutate post e σ).1.LowerableIn scope := by
  induction e using Expr.induction generalizing scope σ with
  | undef | constant | var | op => exact h
  | call id callee args attrs origin _ iha =>
    refine hpost _ _ _ _ (lowerable_rebuild h fun i => ?_)
    exact Expr.lowerableListIn_iff.mpr <| lowerable_mutateList fun a ha τ =>
      iha a ha (Expr.lowerableListIn_iff.mp h a ha)
  | function | ifE => exact h.elim
  | letE id v value body ihv ihb =>
    exact hpost _ _ _ _ (lowerable_rebuild h fun i => ⟨ihv h.1, h.2.1, ihb h.2.2⟩)
  | tuple id fields ih =>
    refine hpost _ _ _ _ (lowerable_rebuild h fun i => ?_)
    exact Expr.lowerableListIn_iff.mpr <| lowerable_mutateList fun a ha τ =>
      ih a ha (Expr.lowerableListIn_iff.mp h a ha)
  | tupleGetItem id t index ih =>
    exact hpost _ _ _ _ (lowerable_rebuild h fun i => ih h)

end RelayPass

/-! ### The invariant of the builder -/

namespace RelayToExecPlanBuilder

/-- The values that the parameters, the constants and the nodes so far define. -/
def defs (b : PlanBuilder) : List Int :=
  b.input_value_ids ++ (b.constant_value_ids ++ b.nodes.flatMap ExecNode.output_values)

/-- The value ids below `next_value_id` are the defined ones, each is defined once, and every node
reads values that are defined before it; the memo table holds only defined values. -/
structure PlanInv (b : PlanBuilder) : Prop where
  mem_defs : ∀ x, x ∈ defs b ↔ 0 ≤ x ∧ x < b.next_value_id
  nodup : (defs b).Nodup
  ordered : InOrder ExecNode.input_values ExecNode.output_values
    (b.input_value_ids ++ b.constant_value_ids) b.nodes
  memo : ∀ p x, b.memo p = some x → 0 ≤ x ∧ x < b.next_value_id
  next : 0 ≤ b.next_value_id

/-- The variables in scope are bound to defined values. -/
def ScopeBound (scope : List Nat) (b : PlanBuilder) : Prop :=
  ∀ v ∈ scope, ∃ x, b.var_bindings v = some x ∧ 0 ≤ x ∧ x < b.next_value_id

/-- What a visit in `scope` leaves: the invariant, more values, and the bindings of the scope. -/
structure Visited (scope : List Nat) (b b' : PlanBuilder) : Prop where
  inv : PlanInv b'
  next : b.next_value_id ≤ b'.next_value_id
  bindings : ∀ v ∈ scope, b'.var_bindings v = b.var_bindings v

theorem Visited.trans {scope : List Nat} {b b' b'' : PlanBuilder} (h1 : Visited scope b b')
    (h2 : Visited scope b' b'') : Visited scope b b'' :=
  ⟨h2.inv, Int.le_trans h1.next h2.next, fun v hv => (h2.bindings v hv).trans (h1.bindings v hv)⟩

theorem ScopeBound.mono {scope : List Nat} {b b' : PlanBuilder} (h : ScopeBound scope b)
    (hv : Visited scope b b') : ScopeBound scope b' := by
  intro v hmem
  obtain ⟨x, hx, h0, hlt⟩ := h v hmem
  exact ⟨x, (hv.bindings v hmem).trans hx, h0, Int.lt_of_lt_of_le hlt hv.next⟩

theorem PlanInv.defined_before {b : PlanBuilder} (h : PlanInv b) {x : Int} (h0 : 0 ≤ x)
    (hlt : x < b.next_value_id) :
    x ∈ b.input_value_ids ++ b.constant_value_ids ++ b.nodes.flatMap ExecNode.output_values := by
  rw [List.append_assoc]
  exact (h.mem_defs x).mpr ⟨h0, hlt⟩

theorem PlanInv.fresh {b : PlanBuilder} (h : PlanInv b) : b.next_value_id ∉ defs b :=
  fun hmem => absurd ((h.mem_defs _).mp hmem).2 (Int.lt_irrefl _)

/-- A new node with one new output keeps the invariant. -/
theorem PlanInv.pushNode {b b' : PlanBuilder} (node : ExecNode) (h : PlanInv b)
    (hin : ∀ x ∈ node.input_values, 0 ≤ x ∧ x < b.next_value_id)
    (hout : node.output_values = [b.next_value_id]) (hnodes : b'.nodes = b.nodes ++ [node])
    (hinputs : b'.input_value_ids = b.input_value_ids)
    (hconsts : b'.constant_value_ids = b.constant_value_ids) (hmemo : b'.memo = b.memo)
    (hnext : b'.next_value_id = b.next_value_id + 1) : PlanInv b' := by
  have hdefs : defs b' = defs b ++ [b.next_value_id] := by
    simp [defs, hnodes, hinputs, hconsts, hout]
  have h0 := h.next
  refine ⟨fun x => ?_, ?_, ?_, fun p x hx => ?_, by omega⟩
  · rw [hdefs, List.mem_append, h.mem_defs, List.mem_singleton, hnext]
    omega
  · rw [hdefs]
    exact List.Nodup.append h.nodup (List.nodup_singleton _)
      (List.disjoint_singleton.mpr h.fresh)
  · rw [hnodes, hinputs, hconsts]
    exact h.ordered.concat fun x hx => h.defined_before (hin x hx).1 (hin x hx).2
  · have := h.memo p x (hmemo ▸ hx)
    omega

/-- A new constant keeps the invariant. -/
theorem PlanInv.pushConstant {b b' : PlanBuilder} (h : PlanInv b) (hnodes : b'.nodes = b.nodes)
    (hinputs : b'.input_value_ids = b.input_value_ids)
    (hconsts : b'.constant_value_ids = b.constant_value_ids ++ [b.next_value_id])
    (hmemo : b'.memo = b.memo) (hnext : b'.next_value_id = b.next_value_id + 1) : PlanInv b' := by
  have hdefs : (defs b').Perm (b.next_value_id :: defs b) := by
    simp only [defs, hnodes, hinputs, hconsts, List.append_assoc, List.singleton_append]
    rw [← List.append_assoc, ← List.append_assoc]
    exact List.perm_middle
  have h0 := h.next
  refine ⟨fun x => ?_, ?_, ?_, fun p x hx => ?_, by omega⟩
  · rw [hdefs.mem_iff, List.mem_cons, h.mem_defs, hnext]
    omega
  · exact hdefs.nodup_iff.mpr (List.nodup_cons.mpr ⟨h.fresh, h.nodup⟩)
  · rw [hnodes, hinputs, hconsts]
    exact h.ordered.mono fun x hx => by simp only [List.mem_append] at hx ⊢; tauto
  · have := h.memo p x (hmemo ▸ hx)
    omega

/-- A new parameter keeps the invariant. -/
theorem PlanInv.pushInput {b b' : PlanBuilder} (h : PlanInv b) (hnodes : b'.nodes = b.nodes)
    (hinputs : b'.input_value_ids = b.input_value_ids ++ [b.next_value_id])
    (hconsts : b'.constant_value_ids = b.constant_value_ids) (hmemo : b'.memo = b.memo)
    (hnext : b'.next_value_id = b.next_value_id + 1) : PlanInv b' := by
  have hdefs : (defs b').Perm (b.next_value_id :: defs b) := by
    simp only [defs, hnodes, hinputs, hconsts, List.append_assoc, List.singleton_append]
    exact List.perm_middle
  have h0 := h.next
  refine ⟨fun x => ?_, ?_, ?_, fun p x hx => ?_, by omega⟩
  · rw [hdefs.mem_iff, List.mem_cons, h.mem_defs, hnext]
    omega
  · exact hdefs.nodup_iff.mpr (List.nodup_cons.mpr ⟨h.fresh, h.nodup⟩)
  · rw [hnodes, hinputs, hconsts]
    exact h.ordered.mono fun x hx => by simp only [List.mem_append] at hx ⊢; tauto
  · have := h.memo p x (hmemo ▸ hx)
    omega

/-- Writing other fields keeps the invariant. -/
theorem PlanInv.congr {b b' : PlanBuilder} (h : PlanInv b) (hnodes : b'.nodes = b.nodes)
    (hinputs : b'.input_value_ids = b.input_value_ids)
    (hconsts : b'.constant_value_ids = b.constant_value_ids) (hmemo : b'.memo = b.memo)
    (hnext : b'.next_value_id = b.next_value_id) : PlanInv b' := by
  have hdefs : defs b' = defs b := by simp only [defs, hnodes, hinputs, hconsts]
  exact ⟨by rw [hdefs, hnext]; exact h.mem_defs, by rw [hdefs]; exact h.nodup,
    by rw [hnodes, hinputs, hconsts]; exact h.ordered, by rw [hmemo, hnext]; exact h.memo,
    by rw [hnext]; exact h.next⟩

/-! ### What each visit does -/

/-- The outcome of a visit: a defined value and a state that extends the one before. -/
def VisitedValue (scope : List Nat) (b : PlanBuilder) (x : Int) (b' : PlanBuilder) : Prop :=
  Visited scope b b' ∧ 0 ≤ x ∧ x < b'.next_value_id

theorem AllocateValue_spec {σ : Heap} {e : Expr} {b : PlanBuilder}
    {Q : Int → PlanBuilder → Prop}
    (h : ∀ devices, Q b.next_value_id
      { b with next_value_id := b.next_value_id + 1, value_virtual_devices := devices }) :
    Ensures (AllocateValue σ e) b Q := by
  simp only [AllocateValue, outcome_bind, outcome_get, outcome_ite, outcome_pure, outcome_throw,
    outcome_set, implies_true, true_and]
  exact fun _ => h _

theorem emitKernel_spec {pass_ctx : PassContext} {σ : Heap} {ref : Expr} {op_name : String}
    {inputs : List Int} {scope : List Nat} {b : PlanBuilder} (h : PlanInv b)
    (hin : ∀ x ∈ inputs, 0 ≤ x ∧ x < b.next_value_id) :
    Ensures (emitKernel pass_ctx σ ref op_name inputs) b (VisitedValue scope b) := by
  simp only [emitKernel, pushNode, outcome_bind, outcome_get, outcome_modify, outcome_pure]
  refine AllocateValue_spec fun devices => ⟨⟨?_, ?_, fun _ _ => rfl⟩, h.next, ?_⟩
  · exact h.pushNode (.kernel op_name "" inputs [b.next_value_id] _) hin rfl rfl rfl rfl rfl rfl
  · exact Int.le_of_lt (Int.lt_succ _)
  · exact Int.lt_succ _

theorem emitComm_spec {pass_ctx : PassContext} {σ : Heap} {ref : Expr} {op_name : String}
    {args : List Expr} {attrs : Option Attrs} {origin : Nat} {inputs : List Int}
    {scope : List Nat} {b : PlanBuilder} (h : PlanInv b)
    (hin : ∀ x ∈ inputs, 0 ≤ x ∧ x < b.next_value_id) :
    Ensures (emitComm pass_ctx σ ref op_name args attrs origin inputs) b
      (VisitedValue scope b) := by
  simp only [emitComm, pushNode, outcome_bind, outcome_get, outcome_modify, outcome_pure]
  refine AllocateValue_spec fun devices => ⟨⟨?_, ?_, fun _ _ => rfl⟩, h.next, ?_⟩
  · exact h.pushNode (.comm op_name attrs inputs [b.next_value_id] _ origin) hin rfl rfl rfl rfl
      rfl rfl
  · exact Int.le_of_lt (Int.lt_succ _)
  · exact Int.lt_succ _

theorem VisitConstant_spec {σ : Heap} {ref : Expr} {data : Option NDArray} {scope : List Nat}
    {b : PlanBuilder} (h : PlanInv b) :
    Ensures (VisitConstant σ ref data) b (VisitedValue scope b) := by
  simp only [VisitConstant, outcome_bind, outcome_modify]
  refine AllocateValue_spec fun devices => ?_
  have hstep : ∀ shapes dtypes, VisitedValue scope b b.next_value_id
      { b with
        next_value_id := b.next_value_id + 1, value_virtual_devices := devices
        constant_value_ids := b.constant_value_ids ++ [b.next_value_id]
        value_shapes := shapes, value_dtypes := dtypes } := fun shapes dtypes =>
    ⟨⟨h.pushConstant rfl rfl rfl rfl rfl, Int.le_of_lt (Int.lt_succ _), fun _ _ => rfl⟩,
      h.next, Int.lt_succ _⟩
  cases data with
  | none => exact hstep _ _
  | some data => exact hstep _ _

theorem VisitVar_spec {σ : Heap} {v : Var} {scope : List Nat} {b : PlanBuilder} (h : PlanInv b)
    (hscope : ScopeBound scope b) (hv : v.id ∈ scope) :
    Ensures (VisitVar σ v) b (VisitedValue scope b) := by
  obtain ⟨x, hx, h0, hlt⟩ := hscope v.id hv
  simp only [VisitVar, outcome_bind, outcome_get, hx, outcome_pure]
  exact ⟨⟨h, Int.le_refl _, fun _ _ => rfl⟩, h0, hlt⟩

theorem memoized_spec {id : Nat} {visit : BuildM Int} {scope : List Nat} {b : PlanBuilder}
    (h : PlanInv b) (hvisit : Ensures visit b (VisitedValue scope b)) :
    Ensures (memoized id visit) b (VisitedValue scope b) := by
  simp only [memoized, outcome_bind, outcome_get]
  split
  · rename_i x hx
    exact ⟨⟨h, Int.le_refl _, fun _ _ => rfl⟩, h.memo id x hx⟩
  · simp only [outcome_bind, outcome_modify, outcome_pure]
    refine hvisit.mono fun x b' hb => ⟨⟨?_, hb.1.next, hb.1.bindings⟩, hb.2⟩
    have hinv := hb.1.inv
    refine ⟨hinv.mem_defs, hinv.nodup, hinv.ordered, fun p y hy => ?_, hinv.next⟩
    by_cases hp : p = id
    · subst hp
      obtain rfl : x = y := by simpa using hy
      exact hb.2
    · exact hinv.memo p y (by simpa [Function.update_of_ne hp] using hy)

/-- A binding of a variable outside the scope changes nothing that the invariant is about. -/
theorem Visited.bind {scope : List Nat} {b b' : PlanBuilder} (h : Visited scope b b') {v : Var}
    (hv : v.id ∉ scope) (value : Option Int) :
    Visited scope b { b' with var_bindings := Function.update b'.var_bindings v.id value } :=
  ⟨h.inv.congr rfl rfl rfl rfl rfl, h.next, fun w hw =>
    (Function.update_of_ne (by rintro rfl; exact hv hw) _ _).trans (h.bindings w hw)⟩

theorem VisitList_spec {pass_ctx : PassContext} {σ : Heap} {scope : List Nat} {es : List Expr}
    (hvisit : ∀ e ∈ es, ∀ b, PlanInv b → ScopeBound scope b →
      Ensures (Visit pass_ctx σ e) b (VisitedValue scope b))
    {b : PlanBuilder} (h : PlanInv b) (hscope : ScopeBound scope b) :
    Ensures (VisitList pass_ctx σ es) b fun xs b' =>
      Visited scope b b' ∧ ∀ x ∈ xs, 0 ≤ x ∧ x < b'.next_value_id := by
  induction es generalizing b with
  | nil => exact ⟨⟨h, Int.le_refl _, fun _ _ => rfl⟩, by simp⟩
  | cons e es ih =>
    simp only [VisitList, outcome_bind, outcome_pure]
    refine (hvisit e (by simp) b h hscope).mono fun x b1 h1 => ?_
    have hrest := ih (fun e he => hvisit e (by simp [he])) h1.1.inv (hscope.mono h1.1)
    refine hrest.mono fun xs b2 h2 => ⟨h1.1.trans h2.1, List.forall_mem_cons.mpr ⟨?_, h2.2⟩⟩
    exact ⟨h1.2.1, Int.lt_of_lt_of_le h1.2.2 h2.1.next⟩

/-- A visit of a lowerable expression defines its value and keeps the invariant. -/
theorem Visit_spec {pass_ctx : PassContext} {σ : Heap} {e : Expr} {scope : List Nat}
    (he : e.LowerableIn scope) {b : PlanBuilder} (h : PlanInv b) (hscope : ScopeBound scope b) :
    Ensures (Visit pass_ctx σ e) b (VisitedValue scope b) := by
  induction e using Expr.induction generalizing scope b with
  | undef | function | ifE => exact he.elim
  | constant id data => exact memoized_spec h (VisitConstant_spec h)
  | var v => exact memoized_spec h (VisitVar_spec h hscope he)
  | op id name => exact memoized_spec h trivial
  | call id callee args attrs origin _ iha =>
    refine memoized_spec h ?_
    simp only [outcome_bind, outcome_ite, outcome_throw, implies_true, true_and]
    intro _
    refine (VisitList_spec (fun a ha b hb hs =>
      iha a ha (Expr.lowerableListIn_iff.mp he a ha) hb hs) h hscope).mono fun xs b1 h1 => ?_
    have hlift : ∀ x b2, VisitedValue scope b1 x b2 → VisitedValue scope b x b2 :=
      fun x b2 h2 => ⟨h1.1.trans h2.1, h2.2⟩
    exact ⟨fun _ => (emitComm_spec h1.1.inv h1.2).mono hlift,
      fun _ => (emitKernel_spec h1.1.inv h1.2).mono hlift⟩
  | letE id v value body ihv ihb =>
    obtain ⟨hvalue, hv, hbody⟩ := he
    refine memoized_spec h ?_
    simp only [bindVar, outcome_bind, outcome_modify, outcome_pure]
    refine (ihv hvalue h hscope).mono fun x b1 h1 => ?_
    -- the body is visited with the variable bound to the value's id, and the binding is then erased
    have hb1 := h1.1.bind hv (some x)
    have hscope1 : ScopeBound (v.id :: scope)
        { b1 with var_bindings := Function.update b1.var_bindings v.id (some x) } := by
      intro w hw
      rcases List.mem_cons.mp hw with rfl | hw
      · exact ⟨x, by simp, h1.2⟩
      · exact hscope.mono hb1 w hw
    refine (ihb hbody hb1.inv hscope1).mono fun y b2 h2 => ⟨?_, h2.2⟩
    refine Visited.bind ⟨h2.1.inv, Int.le_trans h1.1.next h2.1.next, fun w hw => ?_⟩ hv none
    exact (h2.1.bindings w (by simp [hw])).trans (hb1.bindings w hw)
  | tuple id fields ih =>
    refine memoized_spec h ?_
    simp only [outcome_bind]
    refine (VisitList_spec (fun a ha b hb hs =>
      ih a ha (Expr.lowerableListIn_iff.mp he a ha) hb hs) h hscope).mono fun xs b1 h1 => ?_
    exact (emitKernel_spec h1.1.inv h1.2).mono fun x b2 h2 => ⟨h1.1.trans h2.1, h2.2⟩
  | tupleGetItem id t index ih =>
    refine memoized_spec h ?_
    simp only [outcome_bind]
    refine (ih he h hscope).mono fun x b1 h1 => ?_
    exact (emitKernel_spec h1.1.inv (by simpa using h1.2)).mono fun y b2 h2 =>
      ⟨h1.1.trans h2.1, h2.2⟩

theorem VisitParams_spec {σ : Heap} {params : List Var} {scope : List Nat} {b : PlanBuilder}
    (h : PlanInv b) (hscope : ScopeBound scope b) :
    Ensures (VisitParams σ params) b fun _ b' =>
      PlanInv b' ∧ ScopeBound (params.map (·.id) ++ scope) b' := by
  induction params generalizing scope b with
  | nil => exact ⟨h, hscope⟩
  | cons param params ih =>
    simp only [VisitParams, bindVar, outcome_bind, outcome_modify]
    refine AllocateValue_spec fun devices => ?_
    have hstep : ∀ b1 : PlanBuilder, PlanInv b1 → b1.next_value_id = b.next_value_id + 1 →
        b1.var_bindings = Function.update b.var_bindings param.id (some b.next_value_id) →
        Ensures (VisitParams σ params) b1 fun _ b' =>
          PlanInv b' ∧ ScopeBound ((param :: params).map (·.id) ++ scope) b' := by
      intro b1 hinv hnext hbind
      have hbound : ScopeBound (param.id :: scope) b1 := by
        intro w hw
        rw [hbind, hnext]
        by_cases hp : w = param.id
        · subst hp
          exact ⟨b.next_value_id, by simp, h.next, Int.lt_succ _⟩
        · obtain ⟨x, hx, h0, hlt⟩ := hscope w (by simpa [hp] using hw)
          exact ⟨x, by simpa [Function.update_of_ne hp] using hx, h0,
            Int.lt_trans hlt (Int.lt_succ _)⟩
      refine (ih hinv hbound).mono fun _ b' hb => ⟨hb.1, fun w hw => hb.2 w ?_⟩
      simp only [List.map_cons, List.cons_append, List.mem_cons, List.mem_append] at hw ⊢
      tauto
    unfold CaptureValueInfoFromType
    split
    · exact hstep _ (h.pushInput rfl rfl rfl rfl rfl) rfl rfl
    · exact hstep _ (h.pushInput rfl rfl rfl rfl rfl) rfl rfl

theorem PlanInv.empty : PlanInv {} :=
  ⟨fun x => by simp [defs], by simp [defs], trivial, fun p x hx => by simp at hx,
    Int.le_refl _⟩

end RelayToExecPlanBuilder

/-! ### Plans -/

end Kxc.Relay

namespace Kxc

open Relay Lib Disco

/-- An execution plan in single assignment form and topological order: the value ids in
`[0, num_values)` are the ones that a parameter, a constant or a node defines, each is defined
once, every node reads values defined before it, and the output value is defined. -/
structure ExecutionPlan.IsSsa (plan : ExecutionPlan) : Prop where
  ids : ∀ x, x ∈ plan.input_value_ids ++ plan.constant_value_ids ++
    plan.nodes.flatMap ExecNode.output_values ↔ 0 ≤ x ∧ x < plan.num_values
  ssa : Ssa ExecNode.input_values ExecNode.output_values
    (plan.input_value_ids ++ plan.constant_value_ids) plan.nodes
  output : 0 ≤ plan.output_value ∧ plan.output_value < plan.num_values

namespace Relay

/-- Every plan that the builder makes of a lowerable body is in single assignment form. -/
theorem RelayToExecPlanBuilder.Build_isSsa {pass_ctx : PassContext} {σ : Heap} {func : Function}
    {plan : ExecutionPlan} (h : Build pass_ctx σ func = .ok plan)
    (hbody : func.body.LowerableIn (func.params.map (·.id))) : plan.IsSsa := by
  have hrun : Ensures (do VisitParams σ func.params; Visit pass_ctx σ func.body) {}
      fun out b => PlanInv b ∧ 0 ≤ out ∧ out < b.next_value_id := by
    simp only [outcome_bind]
    have hparams : Ensures (VisitParams σ func.params) {} fun _ b' =>
        PlanInv b' ∧ ScopeBound (func.params.map (·.id) ++ []) b' :=
      VisitParams_spec .empty fun v hv => by simp at hv
    refine hparams.mono fun _ b1 h1 => ?_
    exact (Visit_spec hbody h1.1 (by simpa using h1.2)).mono fun x b2 h2 => ⟨h2.1.inv, h2.2⟩
  unfold Build at h
  cases hb : (do VisitParams σ func.params; Visit pass_ctx σ func.body :
      BuildM Int).run {} with
  | error e => rw [hb] at h; cases h
  | ok p =>
    rw [hb] at h
    cases h
    obtain ⟨hinv, hout⟩ := hrun.of_ok hb
    refine ⟨fun x => ?_, ⟨?_, hinv.ordered⟩, hout⟩
    · rw [List.append_assoc]; exact hinv.mem_defs x
    · rw [List.append_assoc]; exact hinv.nodup

/-- The body of a well-scoped function without `If` and function values is lowerable. -/
theorem Function.WellScoped.lowerableIn {func : Function} (h : func.WellScoped)
    (hflat : ∀ s ∈ func.body.subexprs, s.isIfOrFunction = false) :
    func.body.LowerableIn (func.params.map (·.id)) := by
  have hchild : func.body ∈ func.toExpr.children := by simp [Function.toExpr, Expr.children]
  have hclosed : func.body.ClosedIn (func.params.map (·.id)) := by
    simpa [Function.toExpr, Expr.ClosedIn] using h.closed
  refine hclosed.lowerableIn hflat (h.bound_once.mono (Expr.child_mem_subexprs hchild))
    fun s hs x hx hmem => ?_
  exact h.bound_once.not_mem_binders hmem hchild hs hx

/-- The inserter keeps the parameters, and keeps a lowerable body lowerable. -/
theorem InsertDeviceCommunicationPass_lowerable {func : Function} {σ : Heap} {scope : List Nat}
    (h : func.body.LowerableIn scope) :
    (InsertDeviceCommunicationPass func σ).1.params = func.params ∧
      (InsertDeviceCommunicationPass func σ).1.body.LowerableIn scope := by
  have hbody : (RelayPass.mutate DeviceCommunicationInserter.post func.body σ).1.LowerableIn
      scope :=
    RelayPass.lowerable_mutate (fun _ _ _ _ => DeviceCommunicationInserter.lowerable_post) h
  simp only [InsertDeviceCommunicationPass, RelayPass.mutateFunction, RelayPass.visitFunction]
  split
  · exact ⟨rfl, hbody⟩
  · exact ⟨rfl, h⟩

/-- The plan of a well-scoped function without `If` and function values is in single assignment
form, and an execution that starts with values for all parameters and constants reaches no node
whose inputs are not all in the value table, and fails with no use of an undefined value. -/
theorem LowerRelayToExecPlanPass_isSsa {apis : DeviceAPIManager} {current : PassContext}
    {func : Function} {σ : Heap} {plan : ExecutionPlan} (hscoped : func.WellScoped)
    (hflat : ∀ s ∈ func.body.subexprs, s.isIfOrFunction = false)
    (h : LowerRelayToExecPlanPass apis current func σ = .ok plan) :
    plan.IsSsa ∧
      ∀ {S : Type} (backend : Backend S) (st : ExecState S),
        (∀ x ∈ plan.input_value_ids ++ plan.constant_value_ids,
          ExecutionPlanExecutor.Bound st x) →
        (∀ before node after t, plan.nodes = before ++ node :: after →
          before.forM (ExecutionPlanExecutor.ExecuteNode backend plan) st = .ok (⟨⟩, t) →
          ∀ x ∈ node.input_values, ExecutionPlanExecutor.Bound t x) ∧
        ∀ message, ExecutionPlanExecutor.ExecuteForOutput backend plan st ≠
          .error (.undefinedUse message) := by
  have hssa : plan.IsSsa := by
    unfold LowerRelayToExecPlanPass at h
    cases hctx : lowerContext apis current func σ with
    | error e => rw [hctx] at h; cases h
    | ok pass_ctx =>
      rw [hctx] at h
      have hpass := InsertDeviceCommunicationPass_lowerable (σ := σ) (hscoped.lowerableIn hflat)
      exact RelayToExecPlanBuilder.Build_isSsa h (hpass.1 ▸ hpass.2)
  refine ⟨hssa, fun backend st hst => ⟨fun before node after t hnodes hrun => ?_, ?_⟩⟩
  · have hordered := hssa.ssa.ordered
    rw [hnodes] at hordered
    exact hordered.inputs_bound (ExecutionPlanExecutor.ExecuteNode_binds plan) hst hrun
  · intro message herror
    have hout := (hssa.ids plan.output_value).mpr hssa.output
    exact (ExecutionPlanExecutor.ExecuteForOutput_spec hssa.ssa.ordered hst hssa.output.1
      hout).of_error herror message rfl

/-- `fn (x) { let v = relu(x) in add(v, v) }`, the two uses of `v` being one shared node. -/
def sharedRelu : Function :=
  let x : Var := { id := 1, name_hint := "x" }
  let v : Var := { id := 2, name_hint := "v" }
  { id := 9, params := [x]
    body := .letE 3 v (.call 4 (.op 5 "nn_relu") [.var x] none 4)
      (.call 6 (.op 7 "add") [.var v, .var v] none 6) }

def sharedReluPlan : ExecutionPlan where
  nodes := [.kernel "nn_relu" "" [0] [1] [0], .kernel "add" "" [1, 1] [2] [0]]
  value_virtual_devices := ∅
  input_value_ids := [0]
  constant_value_ids := []
  value_shapes := ∅
  value_dtypes := ∅
  num_values := 3
  pass_ctx := { defined := true, disco_placement := some {} }
  output_value := 2

theorem sharedReluPlan_isSsa :
    sharedReluPlan.IsSsa ∧
      ∀ {S : Type} (backend : Backend S) (st : ExecState S),
        (∀ x ∈ sharedReluPlan.input_value_ids ++ sharedReluPlan.constant_value_ids,
          ExecutionPlanExecutor.Bound st x) →
        (∀ before node after t, sharedReluPlan.nodes = before ++ node :: after →
          before.forM (ExecutionPlanExecutor.ExecuteNode backend sharedReluPlan) st =
            .ok (⟨⟩, t) →
          ∀ x ∈ node.input_values, ExecutionPlanExecutor.Bound t x) ∧
        ∀ message, ExecutionPlanExecutor.ExecuteForOutput backend sharedReluPlan st ≠
          .error (.undefinedUse message) :=
  @LowerRelayToExecPlanPass_isSsa (fun _ => .error "") {} sharedRelu { next := 10 } sharedReluPlan
    ⟨by simp [sharedRelu, Function.toExpr, Expr.ClosedIn, Expr.ClosedListIn],
      Expr.boundOnce_of_nodup (by decide)⟩
    (by decide) rfl

end Relay

end Kxc
