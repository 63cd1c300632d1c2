import Kxc.Relay.Denote

/-! What Relay expressions do when they run: the value that they return and the calls with side
effects that they make, one after another. -/

namespace Kxc.Relay

open pass_utils

/-- A value is an operator or one of `V`. -/
inductive Value (V : Type) where
  | op (name : String)
  | data (v : V)

/-- Calling it has a side effect: it is a `device.*` operator, or no operator. -/
def Value.isEffectful {V : Type} : Value V → Bool
  | op name => name == "" || "device.".toList.isPrefixOf name.toList
  | data _ => true

/-- A call with a side effect: what is called, on what, and with which attributes. -/
structure Event (V : Type) where
  callee : Value V
  args : List (Value V)
  attrs : Option Attrs

/-- A machine with the values `V`. A call with a side effect is answered after the calls made so far,
itself the last of them, and may make others before it returns. -/
structure Machine (V : Type) where
  undef : V
  constant : Option NDArray → V
  call : Value V → List (Value V) → Option Attrs → Value V
  function : (n : Nat) → ((Fin n → Value V) → List (Event V) → Value V × List (Event V)) → V
  truth : Value V → Bool
  tuple : List (Value V) → V
  tupleGetItem : Value V → Int32 → Value V
  answer : Event V → List (Event V) → Value V × List (Event V)

variable {V : Type}

mutual

/-- Runs an expression after the calls `history`: its value, and all calls made then. -/
def run (S : Machine V) : Expr → Env (Value V) → List (Event V) → Value V × List (Event V)
  | .undef, _, history => (.data S.undef, history)
  | .constant _ data, _, history => (.data (S.constant data), history)
  | .var v, ρ, history => (ρ v.id, history)
  | .op _ name, _, history => (.op name, history)
  | .call _ op args attrs _, ρ, history =>
    let callee := run S op ρ history
    let values := runList S args ρ callee.2
    if callee.1.isEffectful then
      let event : Event V := { callee := callee.1, args := values.1, attrs }
      let answer := S.answer event (values.2 ++ [event])
      (answer.1, values.2 ++ [event] ++ answer.2)
    else (S.call callee.1 values.1 attrs, values.2)
  | .function _ params body, ρ, history =>
    (.data (S.function params.length fun vs => run S body (bindParams ρ params vs)), history)
  | .ifE _ cond true_branch false_branch, ρ, history =>
    let c := run S cond ρ history
    if S.truth c.1 then run S true_branch ρ c.2 else run S false_branch ρ c.2
  | .letE _ var value body, ρ, history =>
    let v := run S value ρ history
    run S body (Function.update ρ var.id v.1) v.2
  | .tuple _ fields, ρ, history =>
    let values := runList S fields ρ history
    (.data (S.tuple values.1), values.2)
  | .tupleGetItem _ tuple index, ρ, history =>
    let t := run S tuple ρ history
    (S.tupleGetItem t.1 index, t.2)

/-- Runs the expressions of a list, from the first to the last. -/
def runList (S : Machine V) :
    List Expr → Env (Value V) → List (Event V) → List (Value V) × List (Event V)
  | [], _, history => ([], history)
  | e :: es, ρ, history =>
    let v := run S e ρ history
    let vs := runList S es ρ v.2
    (v.1 :: vs.1, vs.2)

end

variable {S : Machine V} {ρ ρ' : Env (Value V)}

theorem runList_congr {es es' : List Expr}
    (h : List.Forall₂ (fun e e' => ∀ history, run S e' ρ' history = run S e ρ history) es es')
    (history : List (Event V)) : runList S es' ρ' history = runList S es ρ history := by
  induction h generalizing history with
  | nil => rfl
  | cons he _ ih => simp only [runList, he, ih]

/-- A node that binds no variable runs as one of its kind whose children run as its children do. -/
theorem run_withChildren {e : Expr} {cs : List Expr} (i : Nat) (hleaf : e.isLeaf = false)
    (hbinder : e.isBinder = false)
    (h : List.Forall₂ (fun c c' => ∀ history, run S c' ρ' history = run S c ρ history)
      e.children cs) (history : List (Event V)) :
    run S (e.withChildren i cs) ρ' history = run S e ρ history := by
  cases e with
  | undef | constant | var | op => cases hleaf
  | function | letE => cases hbinder
  | call id op args attrs origin =>
    obtain _ | ⟨hop, hargs⟩ := h
    simp only [Expr.withChildren, run, hop, runList_congr hargs]
  | ifE id c t f =>
    obtain _ | ⟨hc, _ | ⟨ht, _ | ⟨hf, _ | _⟩⟩⟩ := h
    simp only [Expr.withChildren, run, hc, ht, hf]
  | tuple id fields =>
    have hfields : runList S cs ρ' history = runList S fields ρ history := runList_congr h history
    simp only [Expr.withChildren, run, hfields]
  | tupleGetItem id t index =>
    obtain _ | ⟨ht, _ | _⟩ := h
    simp only [Expr.withChildren, run, ht]

/-- A node that binds no variable runs alike in environments in which its children do. -/
theorem run_congr {e : Expr} (hleaf : e.isLeaf = false) (hbinder : e.isBinder = false)
    (h : ∀ c ∈ e.children, ∀ history, run S c ρ' history = run S c ρ history)
    (history : List (Event V)) : run S e ρ' history = run S e ρ history := by
  have hsame := run_withChildren e.ptr hleaf hbinder (List.forall₂_same.mpr h) history
  rwa [Expr.withChildren_self hleaf] at hsame

theorem anySideEffect_iff {es : List Expr} :
    AnySideEffect es = false ↔ ∀ e ∈ es, HasSideEffect e = false := by
  induction es with
  | nil => simp [AnySideEffect]
  | cons e es ih => simp [AnySideEffect, ih]

theorem runList_history {es : List Expr}
    (h : ∀ e ∈ es, ∀ ρ history, (run S e ρ history).2 = history) (history : List (Event V)) :
    (runList S es ρ history).2 = history := by
  induction es generalizing history with
  | nil => rfl
  | cons e es ih =>
    simp only [runList, ih fun a ha => h a (by simp [ha]), h e (by simp)]

/-- An expression without a side effect makes no call that has one. -/
theorem run_history {e : Expr} (h : HasSideEffect e = false) (ρ : Env (Value V))
    (history : List (Event V)) : (run S e ρ history).2 = history := by
  induction e using Expr.induction generalizing ρ history with
  | undef | constant | var | op | function => rfl
  | call id op args attrs origin _ iha =>
    simp only [HasSideEffect] at h
    split at h
    · cases h
    · next hop =>
      cases op with
      | op opId name =>
        have heffectful : (Value.op name : Value V).isEffectful = false := Bool.eq_false_iff.mpr hop
        simp only [run, heffectful, Bool.false_eq_true, if_false]
        exact runList_history (fun a ha => iha a ha (anySideEffect_iff.mp h a ha)) history
      | _ => exact absurd rfl hop
  | ifE id c t f ihc iht ihf =>
    obtain ⟨⟨hc, ht⟩, hf⟩ := by simpa [HasSideEffect] using h
    simp only [run, ihc hc]
    split
    · exact iht ht ρ history
    · exact ihf hf ρ history
  | letE id var value body ihv ihb =>
    obtain ⟨hv, hb⟩ := by simpa [HasSideEffect] using h
    simp only [run, ihv hv]
    exact ihb hb _ history
  | tuple id fields ih =>
    exact runList_history (fun a ha => ih a ha (anySideEffect_iff.mp h a ha)) history
  | tupleGetItem id t index ih => exact ih h ρ history

theorem countVarUsesList_eq_zero {var : Var} {es : List Expr} :
    CountVarUsesList var es = 0 ↔ ∀ e ∈ es, CountVarUses var e = 0 := by
  induction es with
  | nil => simp [CountVarUsesList]
  | cons e es ih => simp [CountVarUsesList, ih]

/-- A variable that a node does not use is used by none of its children. -/
theorem countVarUses_child {var : Var} {e c : Expr} (h : CountVarUses var e = 0)
    (hc : c ∈ e.children) : CountVarUses var c = 0 := by
  cases e with
  | undef | constant | var | op => cases hc
  | call id op args attrs origin =>
    obtain ⟨hop, hargs⟩ := by simpa [CountVarUses] using h
    rcases List.mem_cons.mp hc with rfl | hc
    · exact hop
    · exact countVarUsesList_eq_zero.mp hargs c hc
  | tuple id fields => exact countVarUsesList_eq_zero.mp h c hc
  | _ =>
    simp only [CountVarUses, Nat.add_eq_zero_iff] at h
    simp only [Expr.children, List.mem_cons, List.not_mem_nil, or_false] at hc
    grind

theorem bindParams_congr {params : List Var} {vs : Fin params.length → Value V} {x : Nat}
    (h : ∀ y, y ≠ x → ρ' y = ρ y) (y : Nat) (hy : y ≠ x) :
    bindParams ρ' params vs y = bindParams ρ params vs y := by
  unfold bindParams
  split
  · rfl
  · exact h y hy

/-- An expression runs alike whatever a variable that it does not use is. -/
theorem run_unused {var : Var} {e : Expr} (h : CountVarUses var e = 0)
    (hρ : ∀ y, y ≠ var.id → ρ' y = ρ y) (history : List (Event V)) :
    run S e ρ' history = run S e ρ history := by
  induction e using Expr.induction_children generalizing ρ ρ' history with
  | h e ih =>
    cases e with
    | undef | constant | op => rfl
    | var v =>
      have hne : v.id ≠ var.id := fun heq => by simp [CountVarUses, heq] at h
      simp only [run, hρ v.id hne]
    | function id params body =>
      have hbody (vs : Fin params.length → Value V) :
          run S body (bindParams ρ' params vs) = run S body (bindParams ρ params vs) :=
        funext fun history => ih body (by simp [Expr.children]) h (bindParams_congr hρ) history
      simp only [run, hbody]
    | letE id v value body =>
      obtain ⟨hvalue, hbody⟩ := by simpa [CountVarUses] using h
      simp only [run, ih value (by simp [Expr.children]) hvalue hρ]
      refine ih body (by simp [Expr.children]) hbody (fun y hy => ?_) _
      by_cases hyv : y = v.id
      · rw [hyv, Function.update_self, Function.update_self]
      · rw [Function.update_of_ne hyv, Function.update_of_ne hyv, hρ y hy]
    | _ =>
      refine run_congr rfl rfl (fun c hc history => ?_) history
      exact ih c hc (countVarUses_child h hc) hρ history

end Kxc.Relay
