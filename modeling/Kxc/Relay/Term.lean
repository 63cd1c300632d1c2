import Kxc.Relay.Denote

/-! The free meaning of Relay: an expression denotes the term that it spells out once its `Let`s are
inlined. Two expressions with one term denote the same under every meaning. -/

namespace Kxc.Relay

/-- Expressions without `Let`s. A parameter of a function in the term is given by its level, counted
from the outermost function; a free variable by its address. -/
inductive Term where
  | undef
  | constant (data : Option NDArray)
  | free (x : Nat)
  | bound (level : Nat)
  | op (name : String)
  | call (callee : Term) (args : List Term) (attrs : Option Attrs)
  | function (n : Nat) (body : Term)
  | ifE (cond true_branch false_branch : Term)
  | tuple (fields : List Term)
  | tupleGetItem (tuple : Term) (index : Int32)

namespace Term

/-- The meaning of Relay in terms; a term depends on the level at which it stands. -/
def semantics : Semantics (Nat → Term) where
  undef := fun _ => .undef
  constant data := fun _ => .constant data
  op name := fun _ => .op name
  call callee args attrs := fun k => .call (callee k) (args.map (· k)) attrs
  function n body := fun k => .function n (body (fun i _ => .bound (k + i)) (k + n))
  ifE c t f := fun k => .ifE (c k) (t k) (f k)
  tuple fields := fun k => .tuple (fields.map (· k))
  tupleGetItem t index := fun k => .tupleGetItem (t k) index

variable {V : Type}

/-- The levels from `k` on denote `vs`. -/
def bindLevels (β : Nat → V) (k : Nat) {n : Nat} (vs : Fin n → V) : Nat → V := fun j =>
  if h : k ≤ j ∧ j - k < n then vs ⟨j - k, h.2⟩ else β j

theorem bindLevels_lt {β : Nat → V} {k n j : Nat} {vs : Fin n → V} (h : j < k) :
    bindLevels β k vs j = β j := by
  simp only [bindLevels]
  rw [dif_neg (by omega)]

theorem bindLevels_add {β : Nat → V} {k n : Nat} {vs : Fin n → V} (i : Fin n) :
    bindLevels β k vs (k + i) = vs i := by
  simp [bindLevels]

mutual

/-- What a term that stands at level `k` denotes, where the free variables denote `φ` and the levels
below `k` denote `β`. -/
def eval (S : Semantics V) (φ : Nat → V) : Term → Nat → (Nat → V) → V
  | .undef, _, _ => S.undef
  | .constant data, _, _ => S.constant data
  | .free x, _, _ => φ x
  | .bound level, _, β => β level
  | .op name, _, _ => S.op name
  | .call callee args attrs, k, β => S.call (eval S φ callee k β) (evalList S φ args k β) attrs
  | .function n body, k, β => S.function n fun vs => eval S φ body (k + n) (bindLevels β k vs)
  | .ifE c t f, k, β => S.ifE (eval S φ c k β) (eval S φ t k β) (eval S φ f k β)
  | .tuple fields, k, β => S.tuple (evalList S φ fields k β)
  | .tupleGetItem t index, k, β => S.tupleGetItem (eval S φ t k β) index

/-- What each term of a list denotes. -/
def evalList (S : Semantics V) (φ : Nat → V) : List Term → Nat → (Nat → V) → List V
  | [], _, _ => []
  | t :: ts, k, β => eval S φ t k β :: evalList S φ ts k β

end

/-- `t` denotes `v` at level `k` and below any functions that stand there. -/
def Means (S : Semantics V) (φ : Nat → V) (k : Nat) (β : Nat → V) (v : V) (t : Nat → Term) : Prop :=
  ∀ k', k ≤ k' → ∀ β' : Nat → V, (∀ j < k, β' j = β j) → eval S φ (t k') k' β' = v

variable {S : Semantics V} {φ : Nat → V} {k : Nat} {β : Nat → V}

theorem Means.eq {v : V} {t : Nat → Term} (h : Means S φ k β v t) : eval S φ (t k) k β = v :=
  h k le_rfl β fun _ _ => rfl

theorem Means.mono {v : V} {t : Nat → Term} {k' : Nat} {β' : Nat → V} (h : Means S φ k β v t)
    (hk : k ≤ k') (hβ : ∀ j < k, β' j = β j) : Means S φ k' β' v t :=
  fun k'' hk' β'' hβ' => h k'' (hk.trans hk') β'' fun j hj =>
    (hβ' j (hj.trans_le hk)).trans (hβ j hj)

/-- Under a function, the parameters denote its arguments and the rest denotes what it did. -/
theorem Means.bindParams {ρ : Env V} {τ : Env (Nat → Term)} (h : ∀ x, Means S φ k β (ρ x) (τ x))
    {k' : Nat} {β' : Nat → V} (hk : k ≤ k') (hβ : ∀ j < k, β' j = β j) (params : List Var)
    (vs : Fin params.length → V) (x : Nat) :
    Means S φ (k' + params.length) (bindLevels β' k' vs) (bindParams ρ params vs x)
      (Relay.bindParams τ params (fun i _ => .bound (k' + i)) x) := by
  unfold Relay.bindParams
  split
  · next i _ =>
    intro k'' _ β'' hβ'
    rw [eval, hβ' _ (by omega), bindLevels_add]
  · exact (h x).mono (by omega) fun j hj => (bindLevels_lt (by omega)).trans (hβ j hj)

theorem Means.update {ρ : Env V} {τ : Env (Nat → Term)} (h : ∀ x, Means S φ k β (ρ x) (τ x))
    {v : V} {t : Nat → Term} (ht : Means S φ k β v t) (y x : Nat) :
    Means S φ k β (Function.update ρ y v x) (Function.update τ y t x) := by
  by_cases hx : x = y
  · subst hx
    simpa using ht
  · simpa [hx] using h x

theorem means_denoteList {ρ : Env V} {τ : Env (Nat → Term)} {es : List Expr}
    (h : ∀ e ∈ es, Means S φ k β (denote S e ρ) (denote semantics e τ)) {k' : Nat} {β' : Nat → V}
    (hk : k ≤ k') (hβ : ∀ j < k, β' j = β j) :
    evalList S φ ((denoteList semantics es τ).map (· k')) k' β' = denoteList S es ρ := by
  induction es with
  | nil => rfl
  | cons e es ih =>
    simp only [denoteList, List.map_cons, evalList]
    rw [h e (by simp) k' hk β' hβ, ih fun a ha => h a (by simp [ha])]

/-- The term of an expression denotes what the expression denotes. -/
theorem means_denote {ρ : Env V} {τ : Env (Nat → Term)} (h : ∀ x, Means S φ k β (ρ x) (τ x))
    (e : Expr) : Means S φ k β (denote S e ρ) (denote semantics e τ) := by
  induction e using Expr.induction generalizing k β ρ τ with
  | undef | constant | op => intro k' _ β' _; rfl
  | var v => exact h v.id
  | call id callee args attrs origin ihc iha =>
    intro k' hk β' hβ
    have hargs := means_denoteList (fun a ha => iha a ha h) hk hβ
    exact congrArg₂ (S.call · · attrs) (ihc h k' hk β' hβ) hargs
  | function id params body ih =>
    intro k' hk β' hβ
    exact congrArg (S.function params.length) <| funext fun vs =>
      (ih (Means.bindParams h hk hβ params vs)).eq
  | ifE id c t f ihc iht ihf =>
    intro k' hk β' hβ
    have hbranches :=
      congr (congrArg₂ S.ifE (ihc h k' hk β' hβ) (iht h k' hk β' hβ)) (ihf h k' hk β' hβ)
    exact hbranches
  | letE id v value body ihv ihb => exact ihb (Means.update h (ihv h) v.id)
  | tuple id fields ih =>
    intro k' hk β' hβ
    exact congrArg S.tuple (means_denoteList (fun a ha => ih a ha h) hk hβ)
  | tupleGetItem id t index ih =>
    intro k' hk β' hβ
    exact congrArg (S.tupleGetItem · index) (ih h k' hk β' hβ)

end Term

end Kxc.Relay
