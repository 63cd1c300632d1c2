import Kxc.Lib.Bytes
import Kxc.Relay.Memory
import Kxc.Relay.PrintIr
import Kxc.Relay.Scope

/-! What the rewriters of `relay/transforms` share (`relay/pass_utils.cc`): the purity analysis, the
uses of a variable, scalar constants, the text key of an expression, and substitution. -/

namespace Kxc.Relay.pass_utils

open Lib

/-! ### Scalar constants -/

/-- `IsScalarShape`. -/
def IsScalarShape (array : NDArray) : Bool :=
  array.shape.all (fun dim => decide (0 ≤ dim)) && array.shape.foldl (· * ·) 1 == 1

/-- `TryGetScalarConstantValueWithDType`. -/
def TryGetScalarConstantValueWithDType : Expr → Option (Float × DLDataType)
  | .constant _ (some array) =>
    let dtype := array.dtype
    let raw := readBytes array.data
    if !IsScalarShape array || dtype.lanes != 1 then none
    else if dtype.code = kDLFloat then
      if dtype.bits = 32 then some ((Float32.ofBits (.ofNat (raw 4))).toFloat, dtype)
      else if dtype.bits = 64 then some (Float.ofBits (.ofNat (raw 8)), dtype)
      else none
    else if dtype.code = kDLInt ∨ dtype.code = kDLUint then
      if dtype.bits = 1 ∨ dtype.bits = 8 then some ((UInt8.ofNat (raw 1)).toFloat, dtype)
      else if dtype.bits = 16 then some ((Int16.ofNat (raw 2)).toFloat, dtype)
      else if dtype.bits = 32 then some ((Int32.ofNat (raw 4)).toFloat, dtype)
      else if dtype.bits = 64 then some ((Int64.ofNat (raw 8)).toFloat, dtype)
      else none
    else none
  | _ => none

/-- `TryGetScalarConstantValue`. -/
def TryGetScalarConstantValue (e : Expr) : Option Float :=
  (TryGetScalarConstantValueWithDType e).map (·.1)

/-- The type of the array that `MakeScalarConstant` allocates: `DTypeToString`, read back by
`ParseDType` of `base/ndarray.cc`. -/
def scalarDType (dtype : DLDataType) : DLDataType :=
  if dtype.lanes = 1 ∧
      (dtype.code = kDLFloat ∧ (dtype.bits = 32 ∨ dtype.bits = 64) ∨
        dtype.code = kDLInt ∧ (dtype.bits = 8 ∨ dtype.bits = 32 ∨ dtype.bits = 64) ∨
        dtype.code = kDLUint ∧ (dtype.bits = 1 ∨ dtype.bits = 8)) then dtype
  else { code := kDLFloat, bits := 64, lanes := 1 }

/-- `WriteScalarToArray`, for the types of `scalarDType`. -/
def scalarBytes (value : Float) (dtype : DLDataType) : List UInt8 :=
  if dtype.code = kDLFloat then
    if dtype.bits = 32 then writeBytes value.toFloat32.toBits.toNat 4
    else writeBytes value.toBits.toNat 8
  else if dtype.code = kDLInt then
    if dtype.bits = 8 then writeBytes value.toInt8.toUInt8.toNat 1
    else if dtype.bits = 32 then writeBytes value.toInt32.toUInt32.toNat 4
    else writeBytes value.toInt64.toUInt64.toNat 8
  else writeBytes value.toUInt8.toNat 1

/-- `MakeScalarConstant`: the array of the new constant. Every type of `scalarDType` can be
written, so the fallback is never taken. -/
def MakeScalarConstant (value : Float) (dtype : DLDataType) : NDArray :=
  let dtype := scalarDType dtype
  { shape := [], dtype := dtype, data := scalarBytes value dtype }

/-- `IsConstZero`. -/
def IsConstZero (e : Expr) : Bool :=
  match TryGetScalarConstantValue e with
  | some value => value == 0.0
  | none => false

/-- `IsConstOne`. -/
def IsConstOne (e : Expr) : Bool :=
  match TryGetScalarConstantValue e with
  | some value => value == 1.0
  | none => false

/-! ### Side effects and uses -/

/-- A call that has a side effect whatever its arguments are: `HasSideEffect` on its callee. -/
def isEffectfulCallee (op : Expr) : Bool :=
  let op_name := GetCallOpName op
  op_name == "" || "device.".toList.isPrefixOf op_name.toList

mutual

/-- `HasSideEffect`; its memo table holds what it would answer again. -/
def HasSideEffect : Expr → Bool
  | .undef => false
  | .constant .. => false
  | .var _ => false
  | .op .. => true
  | .call _ op args _ _ => if isEffectfulCallee op then true else AnySideEffect args
  | .function _ _ body => HasSideEffect body
  | .ifE _ cond true_branch false_branch =>
    HasSideEffect cond || HasSideEffect true_branch || HasSideEffect false_branch
  | .letE _ _ value body => HasSideEffect value || HasSideEffect body
  | .tuple _ fields => AnySideEffect fields
  | .tupleGetItem _ tuple _ => HasSideEffect tuple

/-- The loops of `HasSideEffect` over arguments and fields. -/
def AnySideEffect : List Expr → Bool
  | [] => false
  | e :: es => HasSideEffect e || AnySideEffect es

end

mutual

/-- `CountVarUses`. -/
def CountVarUses (var : Var) : Expr → Nat
  | .undef => 0
  | .constant .. => 0
  | .var v => if v.id = var.id then 1 else 0
  | .op .. => 0
  | .call _ op args _ _ => CountVarUses var op + CountVarUsesList var args
  | .function _ _ body => CountVarUses var body
  | .ifE _ cond true_branch false_branch =>
    CountVarUses var cond + CountVarUses var true_branch + CountVarUses var false_branch
  | .letE _ _ value body => CountVarUses var value + CountVarUses var body
  | .tuple _ fields => CountVarUsesList var fields
  | .tupleGetItem _ tuple _ => CountVarUses var tuple

/-- The loops of `CountVarUses` over arguments and fields. -/
def CountVarUsesList (var : Var) : List Expr → Nat
  | [] => 0
  | e :: es => CountVarUses var e + CountVarUsesList var es

end

/-- `ExprStructuralKey`. -/
def ExprStructuralKey (σ : Heap) (e : Expr) : String := ToText σ e

/-! ### Substitution -/

namespace VarSubstituter

mutual

/-- `VarSubstituter::Mutate`. A function that binds the target is left as it is, and so is the
body of a `Let` that binds it; every other node is visited by `RelayPass`. -/
def mutate (target : Var) (replacement : Expr) (e : Expr) (σ : Heap) : Expr × Heap :=
  match e with
  | .var v => if v.id = target.id then (replacement, σ) else (.var v, σ)
  | .function id params body =>
    let ref := Expr.function id params body
    if params.any (·.id == target.id) then (ref, σ)
    else
      let new_body := mutate target replacement body σ
      RelayPass.rebuild ref (new_body.1.ptr != body.ptr) (fun i => .function i params new_body.1)
        new_body.2
  | .letE id var value body =>
    let ref := Expr.letE id var value body
    let new_value := mutate target replacement value σ
    if var.id = target.id then
      RelayPass.rebuild ref (new_value.1.ptr != value.ptr) (fun i => .letE i var new_value.1 body)
        new_value.2
    else
      let new_body := mutate target replacement body new_value.2
      let changed := new_value.1.ptr != value.ptr || new_body.1.ptr != body.ptr
      RelayPass.rebuild ref changed (fun i => .letE i var new_value.1 new_body.1) new_body.2
  | e =>
    let new := mutateList target replacement e.children σ
    RelayPass.rebuild e (new.1.map Expr.ptr != e.children.map Expr.ptr)
      (fun i => e.withChildren i new.1) new.2
termination_by (e.subexprs.length, 0)
decreasing_by
  all_goals refine Prod.Lex.left _ _ ?_
  · exact Expr.length_child_lt (by simp [Expr.children])
  · exact Expr.length_child_lt (by simp [Expr.children])
  · exact Expr.length_child_lt (by simp [Expr.children])
  · exact e.length_children_lt

def mutateList (target : Var) (replacement : Expr) (es : List Expr) (σ : Heap) :
    List Expr × Heap :=
  match es with
  | [] => ([], σ)
  | e :: es =>
    let new_e := mutate target replacement e σ
    let new_es := mutateList target replacement es new_e.2
    (new_e.1 :: new_es.1, new_es.2)
termination_by ((Expr.subexprsList es).length, 1)
decreasing_by
  · simp only [Expr.subexprsList, List.length_append]
    exact (Nat.le_add_right _ _).eq_or_lt.elim (fun h => h ▸ Prod.Lex.right _ Nat.one_pos)
      (Prod.Lex.left _ _)
  · simp only [Expr.subexprsList, List.length_append]
    exact Prod.Lex.left _ _ (Nat.lt_add_of_pos_left (Expr.length_subexprs_pos e))

end

theorem mutateList_eq_visitList (target : Var) (replacement : Expr) (es : List Expr) (σ : Heap) :
    mutateList target replacement es σ =
      RelayPass.visitList (mutate target replacement) es σ := by
  induction es generalizing σ with
  | nil => rw [mutateList, RelayPass.visitList]
  | cons e es ih => rw [mutateList, RelayPass.visitList, ih]

/-- A node that does not bind the target is visited by `RelayPass`. -/
theorem mutate_node {target : Var} {replacement e : Expr} (hleaf : e.isLeaf = false)
    (hbinds : target.id ∉ e.binders) (σ : Heap) :
    mutate target replacement e σ = RelayPass.visit (mutate target replacement) e σ := by
  cases e with
  | undef | constant | var | op => simp [Expr.isLeaf] at hleaf
  | function id params body =>
    have hany : params.any (·.id == target.id) = false := by
      simpa [Expr.binders] using hbinds
    rw [mutate]
    simp [hany, RelayPass.visit, RelayPass.visitList, Expr.children, Expr.withChildren,
      RelayPass.cons_bne_cons]
  | letE id var value body =>
    have hne : var.id ≠ target.id := fun h => hbinds (by simp [Expr.binders, h])
    rw [mutate]
    simp [hne, RelayPass.visit, RelayPass.visitList, Expr.children, Expr.withChildren,
      RelayPass.cons_bne_cons]
  | _ =>
    rw [mutate, mutateList_eq_visitList, RelayPass.visit] <;> simp

theorem mutate_var (target : Var) (replacement : Expr) (v : Var) (σ : Heap) :
    mutate target replacement (.var v) σ =
      (if v.id = target.id then replacement else .var v, σ) := by
  rw [mutate]
  split <;> rfl

theorem mutate_leaf {target : Var} {replacement e : Expr} (hleaf : e.isLeaf = true)
    (hvar : ∀ v, e = .var v → v.id ≠ target.id) (σ : Heap) :
    mutate target replacement e σ = (e, σ) := by
  cases e with
  | var v => rw [mutate_var, if_neg (hvar v rfl)]
  | undef | constant | op =>
    rw [mutate] <;> simp [Expr.children, mutateList, RelayPass.rebuild]
  | _ => simp [Expr.isLeaf] at hleaf

/-- A node that binds the target is left as it is, but for the value of a `Let`. -/
theorem mutate_binder {target : Var} {replacement e : Expr} (hbinds : target.id ∈ e.binders)
    (σ : Heap) :
    mutate target replacement e σ = (e, σ) ∨
      ∃ id var value body changed τ, e = .letE id var value body ∧
        let new_value := mutate target replacement value σ
        mutate target replacement e σ =
          RelayPass.rebuild e changed (fun i => e.withChildren i [new_value.1, body]) τ := by
  cases e with
  | function id params body =>
    have hany : params.any (·.id == target.id) = true := by
      simpa [Expr.binders] using hbinds
    rw [mutate]
    simp [hany]
  | letE id var value body =>
    have heq : var.id = target.id := (by simpa [Expr.binders] using hbinds : _ = _).symm
    refine Or.inr ⟨id, var, value, body, (mutate target replacement value σ).1.ptr != value.ptr,
      (mutate target replacement value σ).2, rfl, ?_⟩
    rw [mutate]
    simp only [heq, if_true]
    rfl
  | _ => simp [Expr.binders] at hbinds

/-- Putting a variable for a variable leaves the number of paths. -/
theorem mutate_length (target v : Var) (e : Expr) (σ : Heap) :
    (mutate target (.var v) e σ).1.subexprs.length = e.subexprs.length := by
  induction e using Expr.induction_children generalizing σ with
  | h e ih =>
    by_cases hbinds : target.id ∈ e.binders
    · rcases mutate_binder hbinds σ with heq | ⟨id, var, value, body, changed, τ, rfl, heq⟩
      · rw [heq]
      · rw [heq]
        refine RelayPass.rebuild_length rfl _ ?_ τ
        simp [Expr.children, ih value (by simp [Expr.children])]
    · cases hleaf : e.isLeaf with
      | false =>
        rw [mutate_node hleaf hbinds]
        exact RelayPass.rebuild_length hleaf _ (RelayPass.visitList_lengths ih σ) _
      | true =>
        by_cases hvar : ∃ w, e = .var w ∧ w.id = target.id
        · obtain ⟨w, rfl, hw⟩ := hvar
          rw [mutate_var, if_pos hw]
          rfl
        · rw [mutate_leaf hleaf fun w hw heq => hvar ⟨w, hw, heq⟩]

/-- What holds of a leaf, of the replacement, and of a node once it holds of the node's children,
holds of every expression that does not bind the target and what substitution makes of it. -/
theorem mutate_yields {target : Var} {replacement : Expr} {R : Expr → Expr → Prop}
    (hvar : ∀ v : Var, v.id = target.id → R (.var v) replacement)
    (hleaf : ∀ e, e.isLeaf = true → (∀ v, e = .var v → v.id ≠ target.id) → R e e)
    (hnode : ∀ e i cs, e.isLeaf = false → List.Forall₂ R e.children cs →
      R e (e.withChildren i cs))
    {e : Expr} {M : Memory} {σ : Heap} (hσ : M.next = σ.next) (he : M.Holds e)
    (hreplacement : M.Holds replacement) (hbinds : ∀ l ∈ e.subexprs, target.id ∉ l.binders) :
    ∃ N, M.Yields (mutate target replacement e σ) N ∧ R e (mutate target replacement e σ).1 := by
  induction e using Expr.induction_children generalizing M σ with
  | h e ih =>
    cases h : e.isLeaf with
    | true =>
      by_cases hw : ∃ w, e = .var w ∧ w.id = target.id
      · obtain ⟨w, rfl, hw⟩ := hw
        rw [mutate_var, if_pos hw]
        exact ⟨M, ⟨.refl M, hσ, hreplacement⟩, hvar w hw⟩
      · have hne : ∀ v, e = .var v → v.id ≠ target.id := fun v hv heq => hw ⟨v, hv, heq⟩
        rw [mutate_leaf h hne]
        exact ⟨M, ⟨.refl M, hσ, he⟩, hleaf e h hne⟩
    | false =>
      rw [mutate_node h (hbinds e e.self_mem_subexprs)]
      obtain ⟨N, i, cs, hyields, heq, hRs⟩ := RelayPass.visit_yields (R := R) h hσ he
        fun k c hc N hN hτ =>
          have hc := List.mem_of_getElem? hc
          ih c hc hτ ((he.child hc).mono hN) (hreplacement.mono hN)
            fun l hl => hbinds l (Expr.subexprs_trans (Expr.child_mem_subexprs hc) hl)
      rw [heq]
      exact ⟨N, hyields, hnode e i cs h hRs⟩

end VarSubstituter

/-- `SubstituteVar`. -/
def SubstituteVar (e : Expr) (target : Var) (replacement : Expr) (σ : Heap) : Expr × Heap :=
  VarSubstituter.mutate target replacement e σ

end Kxc.Relay.pass_utils
