import Kxc.Relay.Pass
import Mathlib.Data.List.Nodup
import Mathlib.Data.List.Forall2
import Mathlib.Data.List.Pairwise

/-! Scoping of Relay graphs: where variables are bound, graphs whose variables are all in scope and
bound once, and that a bound variable is then never bound again inside its own scope. -/

namespace Kxc.Relay

namespace Expr

/-- The variables that a node binds. -/
def binders : Expr → List Nat
  | .function _ params _ => params.map (·.id)
  | .letE _ v _ _ => [v.id]
  | _ => []

mutual

/-- Every variable of the expression is in `scope` or bound around it; an undefined expression
denotes nothing and is not closed. -/
def ClosedIn (scope : List Nat) : Expr → Prop
  | .undef => False
  | .constant .. => True
  | .var v => v.id ∈ scope
  | .op .. => True
  | .call _ callee args _ _ => ClosedIn scope callee ∧ ClosedListIn scope args
  | .function _ params body => ClosedIn (params.map (·.id) ++ scope) body
  | .ifE _ c t f => ClosedIn scope c ∧ ClosedIn scope t ∧ ClosedIn scope f
  | .letE _ v value body => ClosedIn scope value ∧ ClosedIn (v.id :: scope) body
  | .tuple _ fields => ClosedListIn scope fields
  | .tupleGetItem _ t _ => ClosedIn scope t

/-- `ClosedIn` of each expression of a list. -/
def ClosedListIn (scope : List Nat) : List Expr → Prop
  | [] => True
  | e :: es => ClosedIn scope e ∧ ClosedListIn scope es

end

/-- Each variable is bound once: by one node, and once there. -/
structure BoundOnce (e : Expr) : Prop where
  nodup : ∀ l ∈ e.subexprs, l.binders.Nodup
  unique : ∀ l ∈ e.subexprs, ∀ l' ∈ e.subexprs, ∀ x ∈ l.binders, x ∈ l'.binders → l = l'

theorem closedListIn_iff {scope : List Nat} {es : List Expr} :
    ClosedListIn scope es ↔ ∀ e ∈ es, ClosedIn scope e := by
  induction es with
  | nil => simp [ClosedListIn]
  | cons e es ih => simp [ClosedListIn, ih]

theorem BoundOnce.mono {e s : Expr} (h : e.BoundOnce) (hs : s ∈ e.subexprs) : s.BoundOnce :=
  ⟨fun l hl => h.nodup l (subexprs_trans hs hl),
    fun l hl l' hl' => h.unique l (subexprs_trans hs hl) l' (subexprs_trans hs hl')⟩

/-- A tree in which no variable is bound at two places binds each variable once. -/
theorem boundOnce_of_nodup {e : Expr} (h : (e.subexprs.flatMap binders).Nodup) : e.BoundOnce := by
  obtain ⟨hnodup, hdisjoint⟩ := List.nodup_flatMap.mp h
  refine ⟨hnodup, fun l hl l' hl' x hx hx' => ?_⟩
  by_contra hne
  have hsymm : Std.Symm (Function.onFun List.Disjoint binders) := ⟨fun _ _ h => List.disjoint_symm h⟩
  exact hdisjoint.forall hl hl' hne hx hx'

/-- Below a node that binds `x`, no node binds `x` again. -/
theorem BoundOnce.not_mem_binders {e c l : Expr} {x : Nat} (h : e.BoundOnce)
    (hx : x ∈ e.binders) (hc : c ∈ e.children) (hl : l ∈ c.subexprs) : x ∉ l.binders := by
  intro hxl
  have hmem : l ∈ e.subexprs := subexprs_trans (child_mem_subexprs hc) hl
  have heq := h.unique e e.self_mem_subexprs l hmem x hx hxl
  exact not_mem_subexprs_child hc (heq ▸ hl)

/-- No node below binds a variable of `scope` or one that a node above it binds. -/
inductive NoShadow : List Nat → Expr → Prop
  | intro {scope : List Nat} {e : Expr} (fresh : ∀ x ∈ e.binders, x ∉ scope)
    (children : ∀ c ∈ e.children, NoShadow (e.binders ++ scope) c) : NoShadow scope e

theorem BoundOnce.noShadow {e : Expr} {scope : List Nat} (h : e.BoundOnce)
    (hscope : ∀ l ∈ e.subexprs, ∀ x ∈ l.binders, x ∉ scope) : NoShadow scope e := by
  induction e using induction_children generalizing scope with
  | h e ih =>
    refine .intro (hscope e e.self_mem_subexprs) fun c hc => ?_
    refine ih c hc (h.mono (child_mem_subexprs hc)) fun l hl x hx hmem => ?_
    rcases List.mem_append.mp hmem with hbound | hmem
    · exact h.not_mem_binders hbound hc hl hx
    · exact hscope l (subexprs_trans (child_mem_subexprs hc) hl) x hx hmem

theorem NoShadow.child {scope : List Nat} {e c : Expr} (h : NoShadow scope e)
    (hc : c ∈ e.children) : NoShadow (e.binders ++ scope) c := by
  obtain ⟨-, hchildren⟩ := h
  exact hchildren c hc

/-- A variable in scope is bound nowhere below. -/
theorem NoShadow.not_mem_binders {scope : List Nat} {e : Expr} (h : NoShadow scope e) {x : Nat}
    (hx : x ∈ scope) : ∀ l ∈ e.subexprs, x ∉ l.binders := by
  induction h with
  | intro fresh _ ih =>
    intro l hl hbound
    rcases mem_subexprs.mp hl with rfl | ⟨c, hc, hl⟩
    · exact fresh x hbound hx
    · exact ih c hc (List.mem_append_right _ hx) l hl hbound

theorem withChildren_binders (e : Expr) (i : Nat) (cs : List Expr) :
    (e.withChildren i cs).binders = e.binders := by
  cases e <;> rcases cs with _ | ⟨a, _ | ⟨b, _ | ⟨c, _ | ⟨d, cs⟩⟩⟩⟩ <;> rfl

theorem exists_mem_of_forall₂ {α β : Type} {R : α → β → Prop} {as : List α} {bs : List β}
    (h : List.Forall₂ R as bs) {b : β} (hb : b ∈ bs) : ∃ a ∈ as, R a b := by
  induction h with
  | nil => cases hb
  | cons hR _ ih =>
    rcases List.mem_cons.mp hb with rfl | hb
    · exact ⟨_, by simp, hR⟩
    · obtain ⟨a, ha, hR⟩ := ih hb
      exact ⟨a, by simp [ha], hR⟩

theorem NoShadow.withChildren {scope : List Nat} {e : Expr} {cs : List Expr} {i : Nat}
    (hleaf : e.isLeaf = false) (h : NoShadow scope e)
    (hcs : List.Forall₂ (fun c c' => ∀ scope, NoShadow scope c → NoShadow scope c')
      e.children cs) : NoShadow scope (e.withChildren i cs) := by
  obtain ⟨fresh, hchildren⟩ := h
  refine .intro (withChildren_binders e i cs ▸ fresh) ?_
  rw [withChildren_binders, (withChildren_spec hleaf hcs.length_eq.symm).2]
  exact fun c hc => by
    obtain ⟨c', hc', himp⟩ := exists_mem_of_forall₂ hcs hc
    exact himp _ (hchildren c' hc')

end Expr

/-- A function whose variables are all in scope and bound once, by a parameter or one `Let`. -/
structure Function.WellScoped (func : Function) : Prop where
  closed : func.toExpr.ClosedIn []
  bound_once : func.toExpr.BoundOnce

end Kxc.Relay
