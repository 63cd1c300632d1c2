import Kxc.Relay.Effects
import Kxc.Relay.Transforms.OptimizeEffects

/-! Elimination of dead bindings (`relay/transforms/eliminate_dead_let.cc`): what a function does
when it runs stays, and every `Let` that is left has a side effect or a use. -/

namespace Kxc.Relay

open pass_utils

/-- Every `Let` whose value has no side effect has its variable used in its body. -/
def Expr.LetsUsed (e : Expr) : Prop :=
  ∀ id var value body, .letE id var value body ∈ e.subexprs → HasSideEffect value = false →
    ∃ v : Var, .var v ∈ body.subexprs ∧ v.id = var.id

theorem mem_of_countVarUses {var : Var} {e : Expr} (h : CountVarUses var e ≠ 0) :
    ∃ v : Var, .var v ∈ e.subexprs ∧ v.id = var.id := by
  contrapose! h
  induction e using Expr.induction_children with
  | h e ih =>
    have hchild (c : Expr) (hc : c ∈ e.children) : CountVarUses var c = 0 :=
      ih c hc fun v hv => h v (Expr.subexprs_trans (Expr.child_mem_subexprs hc) hv)
    cases e with
    | undef | constant | op => rfl
    | var v => simp [CountVarUses, h v (Expr.self_mem_subexprs _)]
    | call id op args attrs origin =>
      have hargs : CountVarUsesList var args = 0 :=
        countVarUsesList_eq_zero.mpr fun a ha => hchild a (by simp [Expr.children, ha])
      rw [CountVarUses, hchild op (by simp [Expr.children]), hargs]
    | tuple id fields => exact countVarUsesList_eq_zero.mpr hchild
    | _ =>
      simp only [Expr.children, List.forall_mem_cons] at hchild
      simp [CountVarUses, hchild]

theorem Expr.LetsUsed.leaf {e : Expr} (hleaf : e.isLeaf = true) : e.LetsUsed := by
  intro id var value body hmem
  rcases Expr.mem_subexprs.mp hmem with rfl | ⟨c, hc, -⟩
  · cases hleaf
  · cases e with
    | undef | constant | var | op => cases hc
    | _ => cases hleaf

/-- A node has its `Let`s used when its children have theirs, and itself is no dead `Let`. -/
theorem Expr.LetsUsed.node {e : Expr} (hchildren : ∀ c ∈ e.children, c.LetsUsed)
    (hself : ∀ id var value body, e = .letE id var value body →
      HasSideEffect value = false → CountVarUses var body ≠ 0) : e.LetsUsed := by
  intro id var value body hmem hpure
  rcases Expr.mem_subexprs.mp hmem with rfl | ⟨c, hc, hmem⟩
  · exact mem_of_countVarUses (hself id var value body rfl hpure)
  · exact hchildren c hc id var value body hmem hpure

namespace EliminateDeadLetRewriter

variable {V : Type} (S : Machine V)

/-- `e'` runs as `e`, and has no dead `Let`. -/
structure Cleans (e e' : Expr) : Prop where
  run : ∀ ρ history, Relay.run S e' ρ history = Relay.run S e ρ history
  used : e'.LetsUsed

variable {S}

theorem Cleans.leaf {e : Expr} (hleaf : e.isLeaf = true) : Cleans S e e :=
  ⟨fun _ _ => rfl, .leaf hleaf⟩

theorem run_node {e : Expr} {i : Nat} {cs : List Expr} (hleaf : e.isLeaf = false)
    (hcs : List.Forall₂ (Cleans S) e.children cs) (ρ : Env (Value V)) (history : List (Event V)) :
    run S (e.withChildren i cs) ρ history = run S e ρ history := by
  cases e with
  | function id params body =>
    obtain _ | ⟨hbody, _ | _⟩ := hcs
    have hbody := fun vs : Fin params.length → Value V => funext (hbody.run (bindParams ρ params vs))
    simp only [Expr.withChildren, run, hbody]
  | letE id var value body =>
    obtain _ | ⟨hvalue, _ | ⟨hbody, _ | _⟩⟩ := hcs
    simp only [Expr.withChildren, run, hvalue.run, hbody.run]
  | _ => exact run_withChildren i hleaf rfl (hcs.imp fun _ _ h => h.run ρ) history

theorem used_node {e : Expr} {i : Nat} {cs : List Expr} (hleaf : e.isLeaf = false)
    (hcs : List.Forall₂ (Cleans S) e.children cs)
    (hself : ∀ id var value body, e.withChildren i cs = .letE id var value body →
      HasSideEffect value = false → CountVarUses var body ≠ 0) : (e.withChildren i cs).LetsUsed := by
  refine .node (fun c hc => ?_) hself
  rw [(Expr.withChildren_spec hleaf hcs.length_eq.symm).2] at hc
  obtain ⟨c', -, hclean⟩ := Expr.exists_mem_of_forall₂ hcs hc
  exact hclean.used

/-- The rewriter at a node whose children are clean. -/
theorem cleans_post {e : Expr} {i : Nat} {cs : List Expr} {σ : Heap} (hleaf : e.isLeaf = false)
    (hcs : List.Forall₂ (Cleans S) e.children cs) :
    Cleans S e (post e (e.withChildren i cs) σ).1 := by
  by_cases hkind : e.kind = .letE
  · cases e with
    | letE id var value body =>
      have hnode := hcs
      obtain _ | @⟨_, value', _, _, hvalue, _ | @⟨_, body', _, _, hbody, _ | _⟩⟩ := hcs
      simp only [Expr.withChildren, post]
      by_cases hstays : (HasSideEffect value' || CountVarUses var body' != 0) = true
      · rw [if_pos hstays]
        refine ⟨run_node hleaf hnode, used_node (i := i) hleaf hnode ?_⟩
        rintro _ _ _ _ ⟨⟩ hpure
        simpa [hpure] using hstays
      · rw [if_neg hstays]
        obtain ⟨hpure, hunused⟩ := by simpa using hstays
        -- the value makes no call, and the body does not look at it
        refine ⟨fun ρ history => ?_, hbody.used⟩
        rw [← run_node (i := i) hleaf hnode]
        simp only [Expr.withChildren, run, run_history hpure]
        exact (run_unused hunused (fun y hy => Function.update_of_ne hy _ _) history).symm
    | _ => cases hkind
  · have hkind' : (e.withChildren i cs).kind ≠ .letE := by rwa [Expr.withChildren_kind]
    rw [post_other hkind']
    refine ⟨run_node hleaf hcs, used_node hleaf hcs fun _ _ _ _ heq => ?_⟩
    exact absurd (congrArg Expr.kind heq) hkind'

end EliminateDeadLetRewriter

/-- The pass changes neither what a function returns on any input nor the calls with side effects
that it makes, and leaves no dead `Let`. -/
theorem EliminateDeadLetPass_cleans {V : Type} {S : Machine V} {func : Function} {σ : Heap}
    (hgraph : NodeGraph σ func.toExpr) :
    let cleaned := (RewritingPass.eliminate_dead_let.run func σ).1
    cleaned.params = func.params ∧
      (∀ ρ history, run S cleaned.body ρ history = run S func.body ρ history) ∧
      cleaned.body.LetsUsed := by
  intro cleaned
  obtain ⟨M, hσ, hfunc⟩ := Memory.exists_of_graph hgraph
  have hmem : func.body ∈ func.toExpr.children := by simp [Function.toExpr, Expr.children]
  obtain ⟨N, hyields, hclean⟩ := RelayPass.mutate_yields EliminateDeadLetRewriter.holding
    (fun _ => EliminateDeadLetRewriter.Cleans.leaf (S := S))
    (fun _ _ _ _ => EliminateDeadLetRewriter.cleans_post) hσ (hfunc.child hmem)
  have hbody : cleaned.body = (RelayPass.mutate EliminateDeadLetRewriter.post func.body σ).1 :=
    RelayPass.visitFunction_body (hfunc.child hmem) hyields
  refine ⟨?_, ?_, ?_⟩
  · show (RelayPass.visitFunction func _).1.params = func.params
    unfold RelayPass.visitFunction
    split <;> rfl
  · rw [hbody]
    exact hclean.run
  · rw [hbody]
    exact hclean.used

/-- Answers every call with the number of calls made so far. -/
def countingMachine : Machine Nat where
  undef := 0
  constant _ := 0
  call _ args _ := .data args.length
  function n _ := n
  truth _ := true
  tuple fields := fields.length
  tupleGetItem v _ := v
  answer _ history := (.data history.length, [])

/-- `fn (x) { let y = device.copy(x); let z = add(x, y); x }`. -/
def deadSum : Function :=
  let x : Var := { id := 0, name_hint := "x" }
  let y : Var := { id := 1, name_hint := "y" }
  let z : Var := { id := 2, name_hint := "z" }
  { id := 9, params := [x],
    body := .letE 8 y (.call 4 (.op 3 "device.copy") [.var x] none 4)
      (.letE 7 z (.call 6 (.op 5 "add") [.var x, .var y] none 6) (.var x)) }

theorem deadSum_graph : NodeGraph { next := 10 } deadSum.toExpr where
  allocated := by
    simp [Expr.nodes, Expr.subexprs, Expr.subexprsList, Expr.boundVars, Function.toExpr, deadSum,
      Expr.ptr]
  coherent := by
    simp [Expr.nodes, Expr.subexprs, Expr.subexprsList, Expr.boundVars, Function.toExpr, deadSum,
      Expr.ptr]

/-- The sum goes, the copy stays although its result is no longer used. -/
theorem deadSum_cleaned :
    let cleaned := (RewritingPass.eliminate_dead_let.run deadSum { next := 10 }).1
    (∃ id y copied x, cleaned.body = .letE id y copied (.var x)) ∧
      (cleaned.params = deadSum.params ∧
        (∀ ρ history, run countingMachine cleaned.body ρ history =
          run countingMachine deadSum.body ρ history) ∧
        cleaned.body.LetsUsed) :=
  ⟨⟨_, _, _, _, rfl⟩, EliminateDeadLetPass_cleans deadSum_graph⟩

end Kxc.Relay
