import Kxc.Relay.PassUtils
import Kxc.Relay.Memory

/-! What Relay expressions denote. The meaning of the operators, and of every other construct that
is not a variable or a `Let`, is a parameter; variables denote what an environment says. -/

namespace Kxc.Relay

/-- A meaning of the constructs of Relay among the values `V`. -/
structure Semantics (V : Type) where
  undef : V
  constant : Option NDArray → V
  op : String → V
  call : V → List V → Option Attrs → V
  function : (n : Nat) → ((Fin n → V) → V) → V
  ifE : V → V → V → V
  tuple : List V → V
  tupleGetItem : V → Int32 → V

/-- What the variables, given by their addresses, denote. -/
abbrev Env (V : Type) := Nat → V

variable {V : Type}

/-- The environment of a function's body. -/
def bindParams (ρ : Env V) (params : List Var) (vs : Fin params.length → V) : Env V := fun x =>
  match params.findFinIdx? fun p => p.id == x with
  | some i => vs i
  | none => ρ x

mutual

/-- What an expression denotes. -/
def denote (S : Semantics V) : Expr → Env V → V
  | .undef, _ => S.undef
  | .constant _ data, _ => S.constant data
  | .var v, ρ => ρ v.id
  | .op _ name, _ => S.op name
  | .call _ callee args attrs _, ρ => S.call (denote S callee ρ) (denoteList S args ρ) attrs
  | .function _ params body, ρ =>
    S.function params.length fun vs => denote S body (bindParams ρ params vs)
  | .ifE _ c t f, ρ => S.ifE (denote S c ρ) (denote S t ρ) (denote S f ρ)
  | .letE _ v value body, ρ => denote S body (Function.update ρ v.id (denote S value ρ))
  | .tuple _ fields, ρ => S.tuple (denoteList S fields ρ)
  | .tupleGetItem _ t index, ρ => S.tupleGetItem (denote S t ρ) index

/-- What each expression of a list denotes. -/
def denoteList (S : Semantics V) : List Expr → Env V → List V
  | [], _ => []
  | e :: es, ρ => denote S e ρ :: denoteList S es ρ

end

theorem denoteList_eq (S : Semantics V) (es : List Expr) (ρ : Env V) :
    denoteList S es ρ = es.map (denote S · ρ) := by
  induction es with
  | nil => rfl
  | cons e es ih => simp [denoteList, ih]

theorem bindParams_of_not_mem {ρ : Env V} {params : List Var} {vs : Fin params.length → V} {x : Nat}
    (hx : x ∉ params.map (·.id)) : bindParams ρ params vs x = ρ x := by
  have hnone : params.findFinIdx? (fun p => p.id == x) = none := by
    rw [List.findFinIdx?_eq_none_iff]
    intro p hp heq
    exact hx (List.mem_map.mpr ⟨p, hp, by simpa using heq⟩)
  simp [bindParams, hnone]

theorem bindParams_update {ρ : Env V} {params : List Var} {vs : Fin params.length → V} {x : Nat}
    {a : V} (hx : x ∉ params.map (·.id)) :
    bindParams (Function.update ρ x a) params vs = Function.update (bindParams ρ params vs) x a := by
  funext y
  by_cases hy : y = x
  · rw [hy, bindParams_of_not_mem hx, Function.update_self, Function.update_self]
  · simp [bindParams, hy]

/-- A function or a `Let`. -/
def Expr.isBinder : Expr → Bool
  | .function .. | .letE .. => true
  | _ => false

/-- A node that binds no variable denotes what its kind makes of what its children denote. -/
theorem denote_withChildren {S : Semantics V} {e : Expr} {cs : List Expr} {ρ ρ' : Env V} (i : Nat)
    (hleaf : e.isLeaf = false) (hbinder : e.isBinder = false)
    (h : List.Forall₂ (fun c c' => denote S c' ρ' = denote S c ρ) e.children cs) :
    denote S (e.withChildren i cs) ρ' = denote S e ρ := by
  have hlist : ∀ {es es' : List Expr},
      List.Forall₂ (fun c c' => denote S c' ρ' = denote S c ρ) es es' →
        denoteList S es' ρ' = denoteList S es ρ := by
    intro es es' h
    induction h with
    | nil => rfl
    | cons hc _ ih => rw [denoteList, denoteList, hc, ih]
  cases e with
  | undef | constant | var | op => simp [Expr.isLeaf] at hleaf
  | function | letE => simp [Expr.isBinder] at hbinder
  | call id callee args attrs origin =>
    obtain _ | ⟨hc, hargs⟩ := h
    simp only [Expr.withChildren, denote, hc, hlist hargs]
  | ifE id c t f =>
    obtain _ | ⟨hc, _ | ⟨ht, _ | ⟨hf, _ | _⟩⟩⟩ := h
    simp only [Expr.withChildren, denote, hc, ht, hf]
  | tuple id fields => exact congrArg S.tuple (hlist h)
  | tupleGetItem id t index =>
    obtain _ | ⟨ht, _ | _⟩ := h
    simp only [Expr.withChildren, denote, ht]

/-- Substitution of a variable for another that nothing below binds is an assignment. -/
theorem denote_substitute {S : Semantics V} {target earlier : Var} {e : Expr} {M : Memory}
    {σ : Heap} (hσ : M.next = σ.next) (he : M.Holds e) (hearlier : M.Holds (.var earlier))
    (hbinds : ∀ l ∈ e.subexprs, target.id ∉ l.binders ∧ earlier.id ∉ l.binders) (ρ : Env V) :
    denote S (pass_utils.SubstituteVar e target (.var earlier) σ).1 ρ =
      denote S e (Function.update ρ target.id (ρ earlier.id)) := by
  let R (e e' : Expr) : Prop :=
    (∀ l ∈ e.subexprs, target.id ∉ l.binders ∧ earlier.id ∉ l.binders) →
      ∀ ρ : Env V, denote S e' ρ = denote S e (Function.update ρ target.id (ρ earlier.id))
  suffices hR : ∃ N, M.Yields (pass_utils.SubstituteVar e target (.var earlier) σ) N ∧
      R e (pass_utils.SubstituteVar e target (.var earlier) σ).1 by
    obtain ⟨-, -, hR⟩ := hR
    exact hR hbinds ρ
  refine pass_utils.VarSubstituter.mutate_yields ?_ ?_ ?_ hσ he hearlier fun l hl => (hbinds l hl).1
  · intro v hv _ ρ
    simp [denote, hv]
  · intro e hleaf hne _ ρ
    cases e with
    | var v => simp [denote, Function.update_of_ne (hne v rfl)]
    | undef | constant | op => rfl
    | _ => simp [Expr.isLeaf] at hleaf
  · intro e i cs hleaf hcs hbinds ρ
    have hself := hbinds e e.self_mem_subexprs
    replace hcs := ((List.forall₂_and_left _ _).mpr ⟨fun c hc l hl =>
      hbinds l (Expr.subexprs_trans (Expr.child_mem_subexprs hc) hl), hcs⟩).imp
        fun _ _ h => h.2 h.1
    cases e with
    | function id params body =>
      obtain _ | ⟨hbody, _ | _⟩ := hcs
      simp only [Expr.withChildren, denote, hbody, bindParams_update hself.1,
        bindParams_of_not_mem hself.2]
    | letE id v value body =>
      obtain _ | ⟨hvalue, _ | ⟨hbody, _ | _⟩⟩ := hcs
      have hv : target.id ≠ v.id ∧ earlier.id ≠ v.id := by simpa [Expr.binders] using hself
      simp only [Expr.withChildren, denote, hvalue, hbody, Function.update_of_ne hv.2,
        Function.update_comm hv.1]
    | _ => exact denote_withChildren i hleaf rfl (hcs.imp fun _ _ h => h ρ)

end Kxc.Relay
