import Kxc.Relay.Term
import Kxc.Relay.Transforms.EliminateCommonSubexpr

/-! When elimination of common subexpressions preserves what a function denotes: whenever the pass
puts an earlier variable for a variable, their values must spell out one term. The text that the
pass compares leaves out attributes, the data of constants and the identity of variables. -/

namespace Kxc.Relay

open RelayPass pass_utils EliminateCommonSubexprRewriter

variable {V : Type}

/-- At every `Let` of a run whose variable gives way to an earlier one, its value denotes what the
earlier variable denotes. The environment binds each enclosing `Let` to its value and each parameter
of an enclosing function to any value, so these are the environments that reach both `Let`s. -/
inductive PairsAgree (S : Semantics V) : Table → Env V → Expr → Heap → Prop
  | leaf {cse_table : Table} {ρ : Env V} {e : Expr} {σ : Heap} (hleaf : e.isLeaf = true) :
    PairsAgree S cse_table ρ e σ
  | function {cse_table : Table} {ρ : Env V} {id : Nat} {params : List Var} {body : Expr} {σ : Heap}
    (hbody : ∀ vs, PairsAgree S cse_table (bindParams ρ params vs) body σ) :
    PairsAgree S cse_table ρ (.function id params body) σ
  | node {cse_table : Table} {ρ : Env V} {e : Expr} {σ : Heap} (hleaf : e.isLeaf = false)
    (hbinder : e.isBinder = false)
    (hchildren : ∀ k c, e.children[k]? = some c →
      PairsAgree S cse_table ρ c (visitList (mutate cse_table) (e.children.take k) σ).2) :
    PairsAgree S cse_table ρ e σ
  | letE {cse_table : Table} {ρ : Env V} {id : Nat} {var : Var} {value body : Expr} {σ : Heap}
    (hfound : found cse_table (mutate cse_table value σ) = none)
    (hvalue : PairsAgree S cse_table ρ value σ)
    (hbody : PairsAgree S (enter cse_table var (mutate cse_table value σ))
      (Function.update ρ var.id (denote S value ρ)) body (mutate cse_table value σ).2) :
    PairsAgree S cse_table ρ (.letE id var value body) σ
  | replaced {cse_table : Table} {ρ : Env V} {id : Nat} {var earlier : Var} {value body : Expr}
    {σ : Heap} (hfound : found cse_table (mutate cse_table value σ) = some earlier)
    (hvalue : PairsAgree S cse_table ρ value σ) (hpair : denote S value ρ = ρ earlier.id)
    (hbody : PairsAgree S cse_table ρ
      (SubstituteVar body var (.var earlier) (mutate cse_table value σ).2).1
      (SubstituteVar body var (.var earlier) (mutate cse_table value σ).2).2) :
    PairsAgree S cse_table ρ (.letE id var value body) σ

/-- Pairs that agree in terms agree under every meaning. -/
theorem PairsAgree.of_terms {cse_table : Table} {τ : Env (Nat → Term)} {e : Expr} {σ : Heap}
    (h : PairsAgree Term.semantics cse_table τ e σ) {S : Semantics V} {φ : Nat → V} {k : Nat}
    {β : Nat → V} {ρ : Env V} (hρ : ∀ x, Term.Means S φ k β (ρ x) (τ x)) :
    PairsAgree S cse_table ρ e σ := by
  induction h generalizing k β ρ with
  | leaf hleaf => exact .leaf hleaf
  | function _ ih =>
    exact .function fun vs =>
      ih (fun i _ => .bound (k + i)) (Term.Means.bindParams hρ le_rfl (fun _ _ => rfl) _ vs)
  | node hleaf hbinder _ ih => exact .node hleaf hbinder fun j c hc => ih j c hc hρ
  | letE hfound _ _ ihv ihb =>
    exact .letE hfound (ihv hρ) (ihb (Term.Means.update hρ (Term.means_denote hρ _) _))
  | replaced hfound _ hpair _ ihv ihb =>
    refine .replaced hfound (ihv hρ) ?_ (ihb hρ)
    rw [← (Term.means_denote hρ _).eq, hpair, (hρ _).eq]

namespace EliminateCommonSubexprRewriter

/-- A run whose pairs agree preserves what the expression denotes. -/
theorem mutate_denote (S : Semantics V) {cse_table : Table} {e : Expr} {σ : Heap} {M : Memory}
    {scope : List Nat} (hσ : M.next = σ.next) (he : M.Holds e) (hscope : e.NoShadow scope)
    (htable : cse_table.InScope M scope) {ρ : Env V} (hpairs : PairsAgree S cse_table ρ e σ) :
    denote S (mutate cse_table e σ).1 ρ = denote S e ρ := by
  let P (cse_table : Table) (e : Expr) (σ : Heap) : Prop := ∀ ρ : Env V,
    PairsAgree S cse_table ρ e σ → denote S (mutate cse_table e σ).1 ρ = denote S e ρ
  refine (run_induction (P := P) ?_ ?_ ?_ ?_ hσ he hscope htable).1 ρ hpairs
  · intro cse_table e σ hleaf ρ _
    rw [mutate_leaf _ hleaf]
  · intro cse_table e σ i hleaf hlet f heq ih ρ hpairs
    rw [heq]
    cases hpairs with
    | leaf h => simp [h] at hleaf
    | function hbody =>
      exact congrArg (S.function _) <| funext fun vs => ih 0 _ rfl _ (hbody vs)
    | node _ hbinder hchildren =>
      exact denote_withChildren i hleaf hbinder
        (visitList_forall₂ fun k c hc => ih k c hc ρ (hchildren k c hc))
    | letE => exact (hlet _ _ _ _ rfl).elim
    | replaced => exact (hlet _ _ _ _ rfl).elim
  · intro cse_table id var value body σ i new_value new_body hfound heq ihv ihb ρ hpairs
    rw [heq]
    cases hpairs with
    | leaf h => simp [Expr.isLeaf] at h
    | node _ h => simp [Expr.isBinder] at h
    | letE _ hvalue hbody =>
      simp only [denote, new_value, new_body]
      rw [ihv ρ hvalue, ihb _ hbody]
    | replaced h => simp [new_value, h] at hfound
  · intro cse_table id var earlier value body σ new_value replaced_body hfound hbinds hM heq ihv ihb
      ρ hpairs
    rw [heq]
    obtain ⟨M, hM, hheld, hearlier⟩ := hM
    cases hpairs with
    | leaf h => simp [Expr.isLeaf] at h
    | node _ h => simp [Expr.isBinder] at h
    | letE h => simp [new_value, h] at hfound
    | replaced h hvalue hpair hbody =>
      obtain rfl : earlier = _ := Option.some.inj (hfound.symm.trans h)
      rw [ihb _ hbody, denote_substitute hM hheld hearlier hbinds, denote, hpair]

end EliminateCommonSubexprRewriter

/-- The pass preserves `func`: under every meaning of the operators and for all inputs, the values of
every pair of variables of which it puts the earlier for the later are equal, and the function
returns what it returned. -/
def PreservesDenotation (func : Function) (σ : Heap) : Prop :=
  ∀ (V : Type) (S : Semantics V) (ρ : Env V), PairsAgree S [] ρ func.body σ ∧
    denote S (EliminateCommonSubexprPass func σ).1.body ρ = denote S func.body ρ

/-- The values of every pair of variables of which the pass puts the earlier for the later spell out
one term: the same operators, attributes, data of constants and free variables. -/
def PairsSpellOneTerm (func : Function) (σ : Heap) : Prop :=
  PairsAgree Term.semantics [] (fun x _ => .free x) func.body σ

/-- A `float32` scalar with the bytes `data`. -/
def scalarConstant (id : Nat) (data : List UInt8) : Expr :=
  .constant id (some { shape := [], dtype := { code := kDLFloat, bits := 32, lanes := 1 }, data })

def varA : Var := { id := 1, name_hint := "a" }

def varB : Var := { id := 2, name_hint := "b" }

/-- `fn () { let a = first; let b = second; b }`, where the values are scalars. -/
def twoScalars (first second : List UInt8) : Function where
  id := 7
  params := []
  body := .letE 6 varA (scalarConstant 3 first)
    (.letE 5 varB (scalarConstant 4 second) (.var varB))

def twoScalarsHeap : Heap := { next := 8 }

theorem twoScalars_graph (first second : List UInt8) :
    NodeGraph twoScalarsHeap (twoScalars first second).toExpr where
  allocated := by
    simp [Expr.nodes, Expr.subexprs, Expr.boundVars, Function.toExpr, twoScalars, scalarConstant,
      twoScalarsHeap, varA, varB, Expr.ptr]
  coherent := by
    simp [Expr.nodes, Expr.subexprs, Expr.boundVars, Function.toExpr, twoScalars, scalarConstant,
      varA, varB, Expr.ptr]

theorem twoScalars_wellScoped (first second : List UInt8) :
    (twoScalars first second).WellScoped where
  closed := by simp [Function.toExpr, twoScalars, scalarConstant, Expr.ClosedIn]
  bound_once := Expr.boundOnce_of_nodup (by
    simp [Function.toExpr, twoScalars, scalarConstant, Expr.subexprs, Expr.binders, varA, varB])

/-- The text does not show the data of a constant, so the second variable is found. -/
theorem twoScalars_found (first second : List UInt8) :
    let new_value := mutate [] (scalarConstant 3 first) twoScalarsHeap
    let cse_table := enter [] varA new_value
    found [] new_value = none ∧
      found cse_table (mutate cse_table (scalarConstant 4 second) new_value.2) = some varA := by
  have htext : ExprStructuralKey twoScalarsHeap (scalarConstant 4 second) =
      ExprStructuralKey twoScalarsHeap (scalarConstant 3 first) := by
    simp [ExprStructuralKey, ToText, scalarConstant, RelayIRPrinter.Print,
      RelayIRPrinter.CheckedTypeSuffix, RelayIRPrinter.constantText, Heap.annOf, twoScalarsHeap]
  simp only [mutate_leaf (e := scalarConstant 3 first) [] rfl]
  refine ⟨rfl, ?_⟩
  rw [mutate_leaf _ rfl]
  simp only [found, htext]
  exact List.lookup_cons_self

/-- The pass answers with `let a = first; a`. -/
theorem twoScalars_body (first second : List UInt8) :
    (EliminateCommonSubexprPass (twoScalars first second) twoScalarsHeap).1.body =
      .letE 8 varA (scalarConstant 3 first) (.var varA) := by
  obtain ⟨hnone, hsome⟩ := twoScalars_found first second
  have hfirst := mutate_leaf (e := scalarConstant 3 first) [] rfl twoScalarsHeap
  have houter : mutate [] (twoScalars first second).body twoScalarsHeap = _ := mutate_let hnone
  have hinner (T : Table) (hfound : found T (mutate T (scalarConstant 4 second) twoScalarsHeap) =
      some varA) : mutate T (.letE 5 varB (scalarConstant 4 second) (.var varB)) twoScalarsHeap =
        (.var varA, CopyVirtualDevice
          (.letE 5 varB (scalarConstant 4 second) (.var varB)) (.var varA) twoScalarsHeap) := by
    rw [mutate_found hfound, mutate_leaf _ rfl, SubstituteVar, VarSubstituter.mutate_var,
      if_pos rfl]
    simp only [mutate_leaf (e := .var varA) T rfl]
  simp only [hfirst] at houter hsome
  rw [hinner _ hsome] at houter
  rw [EliminateCommonSubexprPass, houter]
  rfl

end Kxc.Relay
