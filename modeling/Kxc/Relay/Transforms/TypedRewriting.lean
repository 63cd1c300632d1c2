import Kxc.Relay.Transforms.Pipeline
import Kxc.Relay.Typing

/-! What a rewriter keeps of the types: a function has its type after the pass if each node that the
rewriter is given keeps the types that it has. -/

namespace Kxc.Relay

/-- `e'` has the types of `e`, and is `e` if that holds no expressions. -/
structure KeepsTypes (e e' : Expr) : Prop where
  leaf : e.isLeaf = true → e' = e
  type : ∀ Γ τ, HasType Γ e τ → HasType Γ e' τ

theorem KeepsTypes.refl (e : Expr) : KeepsTypes e e := ⟨fun _ => rfl, fun _ _ h => h⟩

theorem HasTypes.keeps {Γ : TypeEnv} {es es' : List Expr} {τs : List RelayType}
    (h : HasTypes Γ es τs) (hes : List.Forall₂ KeepsTypes es es') : HasTypes Γ es' τs := by
  induction hes generalizing τs with
  | nil => exact h
  | cons hkeeps _ ih =>
    cases h with
    | cons h hs => exact .cons (hkeeps.type _ _ h) (ih hs)

/-- A node whose children keep their types keeps its type. -/
theorem HasType.withChildren {Γ : TypeEnv} {e : Expr} {τ : RelayType} {cs : List Expr}
    (h : HasType Γ e τ) (hleaf : e.isLeaf = false) (hcs : List.Forall₂ KeepsTypes e.children cs)
    (i : Nat) : HasType Γ (e.withChildren i cs) τ := by
  cases h with
  | constant | var => cases hleaf
  | call hrule hargs h =>
    obtain _ | ⟨hop, hargs'⟩ := hcs
    obtain rfl := hop.leaf rfl
    exact .call hrule (hargs.keeps hargs') h
  | ifE hc ht hf =>
    obtain _ | ⟨hc', _ | ⟨ht', _ | ⟨hf', _ | _⟩⟩⟩ := hcs
    exact .ifE (hc'.type _ _ hc) (ht'.type _ _ ht) (hf'.type _ _ hf)
  | letE hvalue h hbody =>
    obtain _ | ⟨hvalue', _ | ⟨hbody', _ | _⟩⟩ := hcs
    exact .letE (hvalue'.type _ _ hvalue) h (hbody'.type _ _ hbody)
  | tuple h => exact .tuple (h.keeps hcs)
  | tupleGetItem ht hindex h =>
    obtain _ | ⟨ht', _ | _⟩ := hcs
    exact .tupleGetItem (ht'.type _ _ ht) hindex h

/-- A callee with a name is an operator. -/
theorem op_of_name {op : Expr} {name : String} (h : GetCallOpName op = name) (hne : name ≠ "") :
    ∃ id, op = .op id name := by
  cases op with
  | op id name' => exact ⟨id, congrArg _ h⟩
  | _ => exact absurd h.symm hne

namespace RelayPass

/-- A rewriter that keeps the types of the nodes that it is given keeps the type of a function. -/
theorem mutateFunction_hasType {post : Post} {func : Function} {σ : Heap} {τ : RelayType}
    (hpost : Holding post) (hgraph : NodeGraph σ func.toExpr) (h : func.HasType τ)
    (hkeeps : ∀ ref e υ, Acts post func.body σ ref e υ → ∀ Γ τ, HasType Γ e τ →
      HasType Γ (post ref e υ).1 τ) :
    (mutateFunction post func σ).1.HasType τ := by
  obtain ⟨M, hσ, hfunc⟩ := Memory.exists_of_graph hgraph
  have hbody : M.Holds func.body := hfunc.child (by simp [Function.toExpr, Expr.children])
  obtain ⟨N, hyields, htypes⟩ := acts_yields (R := KeepsTypes) hpost
    (fun e _ => .refl e)
    (fun ref i cs υ hacts hleaf hcs => ⟨fun h => absurd h (by simp [hleaf]),
      fun Γ τ h => hkeeps ref _ υ hacts Γ τ (h.withChildren hleaf hcs i)⟩) hσ hbody
  have hparams : (mutateFunction post func σ).1.params = func.params := by
    unfold mutateFunction visitFunction
    split <;> rfl
  refine ⟨hparams ▸ h.params, ?_⟩
  rw [mutateFunction, visitFunction_body hbody hyields, ← mutateFunction, hparams]
  exact htypes.type _ _ h.body

end RelayPass

end Kxc.Relay
