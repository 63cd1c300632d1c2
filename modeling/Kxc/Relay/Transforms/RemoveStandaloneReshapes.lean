import Kxc.Relay.MergedReshape
import Kxc.Relay.Reshaping
import Kxc.Relay.Transforms.OptimizeEffects
import Kxc.Relay.Transforms.TypedRewriting

/-! `RemoveStandaloneReshapes`: when the call that takes the place of a reshape of a reshape has its
type and its elements. -/

namespace Kxc.Relay

open Lib Lib.MachineNumber Lib.IndexSpace Te

/-- A reshape of a reshape of `x`. -/
structure ReshapePair where
  x : Expr
  inner_id : Nat
  inner_op : Nat
  inner_legacy : List Expr
  inner_attrs : Option Attrs
  inner_origin : Nat
  id : Nat
  op : Nat
  legacy : List Expr
  attrs : Option Attrs
  origin : Nat

namespace ReshapePair

def inner (pair : ReshapePair) : Expr :=
  .call pair.inner_id (.op pair.inner_op "reshape") (pair.x :: pair.inner_legacy) pair.inner_attrs
    pair.inner_origin

def outer (pair : ReshapePair) : Expr :=
  .call pair.id (.op pair.op "reshape") (pair.inner :: pair.legacy) pair.attrs pair.origin

/-- The call that the rewriter makes of it, at an address. -/
def merged (pair : ReshapePair) (i : Nat) : Expr :=
  .call i (.op pair.op "reshape") (pair.x :: pair.legacy.take 1) pair.attrs pair.origin

theorem post_outer (pair : ReshapePair) (ref : Expr) (σ : Heap) :
    (RemoveStandaloneReshapesRewriter.post ref pair.outer σ).1 = pair.merged σ.next := rfl

/-- The types in a reshape of a reshape. -/
structure Typed (pair : ReshapePair) (Γ : TypeEnv) (shape mid out : List Int64) (dtype : String)
    (newshape : List Int64) (allowzero : Int32) : Prop where
  x : HasType Γ pair.x (.tensor shape dtype)
  inner : HasType Γ pair.inner (.tensor mid dtype)
  outer : HasType Γ pair.outer (.tensor out dtype)
  attrs : pair.attrs = some (.reshape newshape allowzero)

end ReshapePair

/-- What `ReshapeInferType` accepts. -/
theorem ReshapeInferType_inv {attrs : Option Attrs} {data type : RelayType}
    {legacy : List RelayType} (h : ReshapeInferType attrs (data :: legacy) = .ok type) :
    ∃ shape dtype newshape allowzero out, data = .tensor shape dtype ∧
      attrs = some (.reshape newshape allowzero) ∧ type = .tensor out dtype := by
  have hrun := h
  obtain ⟨_, -, hrun⟩ := except_bind_eq_ok.mp hrun
  obtain ⟨tensor, hdata, hrun⟩ := except_bind_eq_ok.mp hrun
  cases data with
  | tuple fields => cases hdata
  | tensor shape dtype =>
    split at hrun
    · obtain ⟨-, -, out, -, htype⟩ := ReshapeInferType_eq_ok.mp h
      exact ⟨shape, dtype, _, _, out, rfl, rfl, htype⟩
    · cases hrun

/-- A call of `reshape` that has a type. -/
theorem HasType.reshape_inv {Γ : TypeEnv} {id op origin : Nat} {x : Expr} {legacy : List Expr}
    {attrs : Option Attrs} {τ : RelayType}
    (h : HasType Γ (.call id (.op op "reshape") (x :: legacy) attrs origin) τ) :
    ∃ shape dtype newshape allowzero out legacy_types, HasType Γ x (.tensor shape dtype) ∧
      attrs = some (.reshape newshape allowzero) ∧ τ = .tensor out dtype ∧
        HasTypes Γ legacy legacy_types ∧
        ReshapeInferType attrs (.tensor shape dtype :: legacy_types) = .ok τ := by
  cases h with
  | call hrule hargs h =>
    obtain rfl := Option.some.inj (hrule.symm.trans (rfl : _ = some ReshapeInferType))
    cases hargs with
    | cons hx hlegacy =>
      obtain ⟨shape, dtype, newshape, allowzero, out, rfl, rfl, rfl⟩ := ReshapeInferType_inv h
      exact ⟨shape, dtype, newshape, allowzero, out, _, hx, rfl, rfl, hlegacy, h⟩

namespace ReshapePair

variable {pair : ReshapePair} {Γ : TypeEnv} {shape mid out newshape : List Int64} {dtype : String}
  {allowzero : Int32} {τ : RelayType}

theorem exists_typed (h : HasType Γ pair.outer τ) :
    ∃ shape mid out dtype newshape allowzero,
      pair.Typed Γ shape mid out dtype newshape allowzero ∧ τ = .tensor out dtype := by
  obtain ⟨mid, dtype, newshape, allowzero, out, -, hinner, hattrs, rfl, -⟩ := h.reshape_inv
  obtain ⟨shape, dtype', -, -, mid', -, hx, -, heq, -⟩ := hinner.reshape_inv
  obtain ⟨rfl, rfl⟩ := RelayType.tensor.inj heq
  exact ⟨shape, mid, out, dtype, newshape, allowzero, ⟨hx, hinner, h, hattrs⟩, rfl⟩

/-- The merged call has the type of the two exactly if the shapes agree on `newshape`. -/
theorem Typed.merged_iff (h : pair.Typed Γ shape mid out dtype newshape allowzero) (i : Nat) :
    HasType Γ (pair.merged i) (.tensor out dtype) ↔
      CopiesAgree shape mid newshape allowzero ∧ CountsAgree shape mid newshape allowzero := by
  obtain ⟨shape', dtype', _, _, mid', inner_types, hx, hinner_attrs, hmid, -, hinner⟩ :=
    h.inner.reshape_inv
  obtain ⟨mid'', dtype'', _, _, out', legacy_types, hmid', hattrs, hout, hlegacy, houter⟩ :=
    h.outer.reshape_inv
  obtain ⟨rfl, rfl⟩ := RelayType.tensor.inj (hx.unique h.x)
  obtain ⟨rfl, rfl⟩ := RelayType.tensor.inj (hmid'.unique h.inner)
  rw [hinner_attrs] at hinner
  rw [h.attrs] at houter
  rw [← Relay.merged_iff hinner houter]
  have htake : pair.legacy.take 1 = pair.legacy := by
    refine List.take_of_length_le ?_
    rw [(hasTypes_iff.mp hlegacy).length_eq]
    exact (ReshapeInferType_eq_ok.mp houter).1
  rw [merged, htake]
  constructor
  · intro hmerged
    obtain ⟨_, _, _, _, _, legacy_types', hx', -, -, hlegacy', hmerged⟩ := hmerged.reshape_inv
    rw [h.attrs, hx'.unique hx, hlegacy'.unique hlegacy fun _ _ => HasType.unique] at hmerged
    exact hmerged
  · intro hmerged
    exact .call rfl (.cons hx hlegacy) (h.attrs ▸ hmerged)

end ReshapePair

/-! ### The elements -/

/-- A shape whose elements are counted in 64 bits. -/
structure Sized (shape : List Int64) : Prop where
  static : ∀ d ∈ shape, 0 ≤ d
  fits : elements shape < 2 ^ 63

/-- The compute functions of two reshapes, one after the other, and of the second alone make tensors of
the same elements. -/
def SameElements (inner_attrs attrs : Option Attrs) (shape mid out : List Int64) (dtype : String) :
    Prop :=
  ∀ (F : Type) (ops : FloatOps F) (inputs : String → List Int → Scalar F) (data : Tensor),
    HasDims ops inputs data (shape.map Int64.toInt) → ∃ T T' T'',
      Op.ReshapeCompute inner_attrs [data] (some (.tensor mid dtype)) = .ok T ∧
        Op.ReshapeCompute attrs [T] (some (.tensor out dtype)) = .ok T' ∧
        Op.ReshapeCompute attrs [data] (some (.tensor out dtype)) = .ok T'' ∧
        ∀ idx, InBounds idx (out.map Int64.toInt) →
          T'.element ops inputs idx = T''.element ops inputs idx

section Elements

variable {shape mid out : List Int64}

theorem Sized.extents_nonneg (h : Sized shape) : ∀ n ∈ shape.map Int64.toInt, 0 ≤ n := by
  intro n hn
  obtain ⟨d, hd, rfl⟩ := List.mem_map.mp hn
  simpa using Int64.le_iff_toInt_le.mp (h.static d hd)

theorem Sized.knownProduct (h : Sized shape) :
    (KnownProduct shape 0 shape.length).toInt = elements shape := by
  have hnonneg := elements_nonneg h.static
  have hfits := h.fits
  rw [KnownProduct_eq h.static]
  exact Int64.toInt_ofInt_of_le (by omega) (by omega)

/-- Counted in 64 bits, the elements of the inferred shape are as many as before. -/
theorem elements_inferred {newshape : List Int64} {allowzero : Int32} {dtype dtype' : String}
    {legacy : List RelayType}
    (h : ReshapeInferType (some (.reshape newshape allowzero)) (.tensor shape dtype :: legacy) =
      .ok (.tensor out dtype')) (hshape : Sized shape) (hout : Sized out) :
    elements out = elements shape := by
  have hknown {ds : List Int64} (hds : Sized ds) : 0 ≤ KnownProduct ds 0 ds.length := by
    rw [Int64.le_iff_toInt_le, hds.knownProduct, Int64.toInt_zero]
    exact elements_nonneg hds.static
  rw [← hout.knownProduct, ← hshape.knownProduct, knownProduct_inferred h (hknown hshape)
    (hknown hout)]

theorem sameElements (hshape : Sized shape) (hmid : Sized mid) (hout : Sized out)
    (hinner : elements mid = elements shape) (houter : elements out = elements mid)
    (inner_attrs attrs : Option Attrs) (dtype : String) :
    SameElements inner_attrs attrs shape mid out dtype := by
  intro F ops inputs data hdims
  obtain ⟨T, hT, hkeeps⟩ := Op.ReshapeCompute_keepsOffsets hdims hshape.extents_nonneg
    hmid.static hinner inner_attrs dtype
  obtain ⟨T', hT', hkeeps'⟩ := Op.ReshapeCompute_keepsOffsets hkeeps.hasDims hmid.extents_nonneg
    hout.static houter attrs dtype
  obtain ⟨T'', hT'', hkeeps''⟩ := Op.ReshapeCompute_keepsOffsets hdims hshape.extents_nonneg
    hout.static (houter.trans hinner) attrs dtype
  exact ⟨T, T', T'', hT, hT', hT'', fun idx hidx =>
    hkeeps.elements_eq hkeeps' hkeeps'' hmid.extents_nonneg hidx⟩

end Elements

/-! ### The pass -/

/-- A call has the type and the elements of a reshape of a reshape. -/
structure ReshapePair.StandsFor (pair : ReshapePair) (Γ : TypeEnv) (merged : Expr) : Prop where
  type : ∀ τ, HasType Γ pair.outer τ → HasType Γ merged τ
  elements : ∀ shape mid out dtype newshape allowzero,
    pair.Typed Γ shape mid out dtype newshape allowzero → Sized shape → Sized mid → Sized out →
      SameElements pair.inner_attrs pair.attrs shape mid out dtype

/-- The shapes before and between the two reshapes agree on what the second one makes of them. -/
def ReshapePair.Agrees (pair : ReshapePair) (Γ : TypeEnv) : Prop :=
  ∀ shape mid out dtype newshape allowzero,
    pair.Typed Γ shape mid out dtype newshape allowzero →
      CopiesAgree shape mid newshape allowzero ∧ CountsAgree shape mid newshape allowzero

theorem ReshapePair.standsFor_iff {pair : ReshapePair} {Γ : TypeEnv} (i : Nat) :
    pair.StandsFor Γ (pair.merged i) ↔ pair.Agrees Γ := by
  constructor
  · intro hstands shape mid out dtype newshape allowzero htyped
    exact (htyped.merged_iff i).mp (hstands.type _ htyped.outer)
  · intro hagrees
    refine ⟨fun τ' h' => ?_, fun shape mid out dtype newshape allowzero htyped hshape hmid hout => ?_⟩
    · obtain ⟨shape, mid, out, dtype, newshape, allowzero, htyped, rfl⟩ := exists_typed h'
      exact (htyped.merged_iff i).mpr (hagrees _ _ _ _ _ _ htyped)
    · obtain ⟨_, _, _, _, _, _, hx, hinner_attrs, hmid', -, hinner⟩ := htyped.inner.reshape_inv
      obtain ⟨_, _, _, _, _, _, hinner', hattrs, hout', -, houter⟩ := htyped.outer.reshape_inv
      obtain ⟨rfl, rfl⟩ := RelayType.tensor.inj (hx.unique htyped.x)
      obtain ⟨rfl, rfl⟩ := RelayType.tensor.inj (hinner'.unique htyped.inner)
      rw [hinner_attrs] at hinner
      rw [hattrs] at houter
      exact sameElements hshape hmid hout (elements_inferred hinner hshape hmid)
        (elements_inferred houter hmid hout) _ _ _

/-- In the run of the pass on a function, a typed reshape of a reshape becomes `merged`. -/
def Collapses (func : Function) (σ : Heap) (Γ : TypeEnv) (pair : ReshapePair) (merged : Expr) :
    Prop :=
  ∃ ref υ τ, RelayPass.Acts RemoveStandaloneReshapesRewriter.post func.body σ ref pair.outer υ ∧
    HasType Γ pair.outer τ ∧
    merged = (RemoveStandaloneReshapesRewriter.post ref pair.outer υ).1

/-- A node that the rewriter is given is a reshape of a reshape, or stays. -/
theorem RemoveStandaloneReshapesRewriter.post_cases (ref e : Expr) (σ : Heap) :
    (∃ pair : ReshapePair, e = pair.outer) ∨
      (RemoveStandaloneReshapesRewriter.post ref e σ).1 = e := by
  cases e with
  | call id op args attrs origin =>
    cases args with
    | nil => exact .inr rfl
    | cons arg args =>
      rw [MergeRule.post]
      split
      · rename_i hop
        split
        · rename_i inner_arg inner_args hinner
          obtain ⟨op, rfl⟩ := op_of_name hop (by decide)
          cases arg with
          | call inner_id inner_op inner_args' inner_attrs inner_origin =>
            rw [MergeRule.innerArgs] at hinner
            split at hinner
            · rename_i hinner_op
              have hname : GetCallOpName inner_op = "reshape" :=
                of_decide_eq_true (Bool.and_eq_true_iff.mp hinner_op).1
              obtain ⟨inner_op, rfl⟩ := op_of_name hname (by decide)
              obtain rfl := Option.some.inj hinner
              exact .inl ⟨⟨inner_arg, inner_id, inner_op, inner_args, inner_attrs, inner_origin, id,
                op, args, attrs, origin⟩, rfl⟩
            · cases hinner
          | _ => cases hinner
        · exact .inr rfl
      · exact .inr rfl
  | _ => exact .inr rfl

/-- A tensor of 2 × 3 × 4 elements as 6 × 4, and then as `newshape`. -/
def reshapedTwice (newshape : List Int64) : ReshapePair where
  x := .var { id := 0, name_hint := "x", type_annotation := some (.tensor [2, 3, 4] "float32") }
  inner_id := 2
  inner_op := 1
  inner_legacy := []
  inner_attrs := some (.reshape [6, 4] 0)
  inner_origin := 2
  id := 3
  op := 1
  legacy := []
  attrs := some (.reshape newshape 0)
  origin := 3

def reshapedTwiceFunction (newshape : List Int64) : Function where
  id := 4
  params := [{ id := 0, name_hint := "x", type_annotation := some (.tensor [2, 3, 4] "float32") }]
  body := (reshapedTwice newshape).outer

theorem reshapedTwice_graph (newshape : List Int64) :
    NodeGraph { next := 5 } (reshapedTwiceFunction newshape).toExpr where
  allocated := by
    simp [Expr.nodes, Expr.subexprs, Expr.subexprsList, Expr.boundVars, Function.toExpr,
      reshapedTwiceFunction, reshapedTwice, ReshapePair.outer, ReshapePair.inner, Expr.ptr]
  coherent := by
    simp [Expr.nodes, Expr.subexprs, Expr.subexprsList, Expr.boundVars, Function.toExpr,
      reshapedTwiceFunction, reshapedTwice, ReshapePair.outer, ReshapePair.inner, Expr.ptr]

theorem reshapedTwice_inner (newshape : List Int64) :
    HasType (paramTypes (reshapedTwiceFunction newshape).params) (reshapedTwice newshape).inner
      (.tensor [6, 4] "float32") :=
  .call rfl (.cons (.var rfl) .nil) rfl

end Kxc.Relay
