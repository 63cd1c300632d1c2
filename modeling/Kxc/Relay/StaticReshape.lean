import Mathlib.Data.List.GetD
import Mathlib.Tactic.Ring
import Kxc.Lib.RowMajor
import Kxc.Lib.StateExcept
import Kxc.Relay.TypeInfer

/-! `ReshapeInferType`: which reshapes it accepts and, on known shapes, when the inferred shape has as
many elements. The products that the code compares are of 64 bits. -/

namespace Kxc.Relay

open Lib Lib.RowMajor

/-- The number of the elements of a shape. -/
def elements (shape : List Int64) : Int := count (shape.map Int64.toInt)

/-- A dimension of `newshape` at a place, a copied one resolved. -/
def resolvedDim (shape : List Int64) (allowzero : Int32) (dim : Int64 × Nat) : Int64 :=
  if dim.1 = 0 ∧ allowzero = 0 then shape.getD dim.2 0 else dim.1

def resolvedDims (shape newshape : List Int64) (allowzero : Int32) : List Int64 :=
  newshape.zipIdx.map (resolvedDim shape allowzero)

/-- The dimensions of `newshape` but the inferred one. -/
def otherDims (shape newshape : List Int64) (allowzero : Int32) : List Int64 :=
  (resolvedDims shape newshape allowzero).filter (· ≠ -1)

/-- A dimension of `newshape` that the code accepts at a place. -/
def Accepted (shape : List Int64) (allowzero : Int32) (dim : Int64 × Nat) : Prop :=
  -1 ≤ dim.1 ∧ (dim.1 = 0 → allowzero = 0 → dim.2 < shape.length)

section Loop

variable {shape newshape : List Int64} {allowzero : Int32} {s t : ReshapeState}
  {dim : Int64 × Nat} {dims : List (Int64 × Nat)}

theorem known_getD (hstatic : ∀ d ∈ shape, 0 ≤ d) (i : Nat) : 0 ≤ shape.getD i 0 := by
  by_cases hi : i < shape.length
  · rw [← List.getElem_eq_getD (h := hi)]
    exact hstatic _ (List.getElem_mem hi)
  · rw [List.getD_eq_default _ _ (by omega)]
    decide

/-- A product, and the next dimension of it. -/
def timesKnown (product dim : Int64) : Int64 := if IsKnown dim then product * dim else -1

theorem timesKnown_of_nonneg {product d : Int64} (h : 0 ≤ d) :
    timesKnown product d = product * d := if_pos (decide_eq_true h)

/-- What an iteration makes of the state. -/
theorem reshapeDim_eq_ok :
    reshapeDim shape allowzero s dim = .ok t ↔
      Accepted shape allowzero dim ∧ (dim.1 = -1 → s.infer_index = none) ∧
        t = if dim.1 = -1 then { s with out := s.out ++ [-1], infer_index := some s.out.length }
          else { s with
            out := s.out ++ [resolvedDim shape allowzero dim]
            known_product := timesKnown s.known_product (resolvedDim shape allowzero dim) } := by
  obtain ⟨d, i⟩ := dim
  simp only [reshapeDim, Accepted, resolvedDim]
  by_cases hpos : 0 < d
  · have hne : d ≠ -1 := by rintro rfl; exact absurd hpos (by decide)
    have hne0 : d ≠ 0 := by rintro rfl; exact absurd hpos (by decide)
    have hle : -1 ≤ d := Int64.le_trans (by decide) (Int64.le_of_lt hpos)
    rw [if_pos hpos, if_neg hne, if_neg (not_and_of_not_left _ hne0),
      timesKnown_of_nonneg (Int64.le_of_lt hpos)]
    exact ⟨fun h => ⟨⟨hle, fun h0 => absurd h0 hne0⟩, fun h1 => absurd h1 hne,
      (Except.ok.inj h).symm⟩, fun h => congrArg Except.ok h.2.2.symm⟩
  rw [if_neg hpos]
  by_cases hd0 : d = 0
  · have hne : d ≠ -1 := by rintro rfl; exact absurd hd0 (by decide)
    have hle : -1 ≤ d := by rw [hd0]; decide
    rw [if_pos hd0, if_neg hne]
    by_cases haz : allowzero = 0
    · have hresolved : (if d = 0 ∧ allowzero = 0 then shape.getD i 0 else d) = shape.getD i 0 :=
        if_pos ⟨hd0, haz⟩
      rw [if_neg (not_not.mpr haz), hresolved, except_bind_eq_ok]
      simp only [throwIf_eq_ok]
      constructor
      · rintro ⟨_, hi, h⟩
        exact ⟨⟨hle, fun _ _ => by omega⟩, fun h1 => absurd h1 hne, (Except.ok.inj h).symm⟩
      · rintro ⟨⟨-, hi⟩, -, rfl⟩
        exact ⟨(), by have := hi hd0 haz; omega, rfl⟩
    · rw [if_pos haz, if_neg (not_and_of_not_right _ haz), hd0, timesKnown_of_nonneg (by decide),
        Int64.mul_zero]
      exact ⟨fun h => ⟨⟨by decide, fun _ h1 => absurd h1 haz⟩, fun h1 => absurd h1 (by decide),
        (Except.ok.inj h).symm⟩, fun h => congrArg Except.ok h.2.2.symm⟩
  rw [if_neg hd0]
  by_cases hd1 : d = -1
  · rw [if_pos hd1, if_pos hd1, except_bind_eq_ok]
    simp only [throwIf_eq_ok, Option.isSome_iff_ne_none, not_not]
    constructor
    · rintro ⟨_, hnone, h⟩
      exact ⟨⟨by rw [hd1]; decide, fun h0 => absurd h0 hd0⟩, fun _ => hnone,
        (Except.ok.inj h).symm⟩
    · rintro ⟨-, hnone, rfl⟩
      exact ⟨(), hnone hd1, rfl⟩
  · rw [if_neg hd1]
    constructor
    · intro h
      cases h
    · rintro ⟨⟨hle, -⟩, -, -⟩
      have hle := Int64.le_iff_toInt_le.mp hle
      have hpos := mt Int64.lt_iff_toInt_lt.mpr hpos
      have hd0 := mt Int64.toInt_inj.mp hd0
      have hd1 := mt Int64.toInt_inj.mp hd1
      simp only [Int64.toInt_zero] at hpos hd0
      have hone : (-1 : Int64).toInt = -1 := by decide
      omega

/-- A newshape that the loop accepts: one dimension at most is inferred. -/
structure WellFormed (shape newshape : List Int64) (allowzero : Int32) : Prop where
  accepted : ∀ dim ∈ newshape.zipIdx, Accepted shape allowzero dim
  inferred : newshape.count (-1) ≤ 1

/-- The dimensions but the inferred one, resolved. -/
def knownDims (shape : List Int64) (allowzero : Int32) (dims : List (Int64 × Nat)) : List Int64 :=
  (dims.filter fun dim => dim.1 ≠ -1).map (resolvedDim shape allowzero)

/-- What the loop leaves of a state. -/
def afterDims (shape : List Int64) (allowzero : Int32) (s : ReshapeState)
    (dims : List (Int64 × Nat)) : ReshapeState where
  out := s.out ++ dims.map (resolvedDim shape allowzero)
  infer_index := s.infer_index.or
    ((dims.findIdx? fun dim => dim.1 = -1).map (s.out.length + ·))
  known_product := (knownDims shape allowzero dims).foldl timesKnown s.known_product

theorem resolvedDim_inferred (i : Nat) : resolvedDim shape allowzero (-1, i) = -1 :=
  if_neg fun h => absurd (show (-1 : Int64) = 0 from h.1) (by decide)

/-- The loop accepts dimensions of which one at most is inferred. -/
theorem foldlM_reshapeDim_eq_ok :
    dims.foldlM (reshapeDim shape allowzero) s = .ok t ↔
      (∀ dim ∈ dims, Accepted shape allowzero dim) ∧
        ((dims.map Prod.fst).count (-1) ≤ if s.infer_index = none then 1 else 0) ∧
          t = afterDims shape allowzero s dims := by
  induction dims generalizing s with
  | nil => simp [afterDims, knownDims, pure, Except.pure, eq_comm]
  | cons dim dims ih =>
    obtain ⟨d, i⟩ := dim
    rw [List.foldlM_cons, except_bind_eq_ok]
    simp only [reshapeDim_eq_ok, ih, List.forall_mem_cons, List.map_cons, List.count_cons]
    by_cases hinferred : d = -1
    · subst hinferred
      have hafter (hnone : s.infer_index = none) :
          afterDims shape allowzero { s with
              out := s.out ++ [-1], infer_index := some s.out.length } dims =
            afterDims shape allowzero s ((-1, i) :: dims) := by
        simp [afterDims, knownDims, hnone, resolvedDim_inferred, List.findIdx?_cons]
      simp only [if_true, forall_const]
      constructor
      · rintro ⟨_, ⟨haccepted, hnone, rfl⟩, hdims, hcount, rfl⟩
        exact ⟨⟨haccepted, hdims⟩, by simpa [hnone] using hcount, hafter hnone⟩
      · rintro ⟨⟨haccepted, hdims⟩, hcount, rfl⟩
        have hnone : s.infer_index = none := by
          by_contra hsome
          simp [hsome] at hcount
        exact ⟨_, ⟨haccepted, hnone, rfl⟩, hdims, by simpa [hnone] using hcount,
          (hafter hnone).symm⟩
    · have hafter : afterDims shape allowzero { s with
            out := s.out ++ [resolvedDim shape allowzero (d, i)]
            known_product := timesKnown s.known_product (resolvedDim shape allowzero (d, i)) }
              dims =
          afterDims shape allowzero s ((d, i) :: dims) := by
        simp [afterDims, knownDims, hinferred, List.findIdx?_cons, Nat.add_assoc, Nat.add_comm 1,
          Function.comp_def]
      simp only [hinferred, if_false, false_implies, true_and, beq_iff_eq, Nat.add_zero]
      constructor
      · rintro ⟨_, ⟨haccepted, rfl⟩, hdims, hcount, rfl⟩
        exact ⟨⟨haccepted, hdims⟩, hcount, hafter⟩
      · rintro ⟨⟨haccepted, hdims⟩, hcount, rfl⟩
        exact ⟨_, ⟨haccepted, rfl⟩, hdims, hcount, hafter.symm⟩

/-- Where the inferred dimension is in what the loop leaves. -/
theorem afterDims_cases (h : (dims.map Prod.fst).count (-1) ≤ 1) :
    if -1 ∈ dims.map Prod.fst then ∃ before after,
        knownDims shape allowzero dims = before ++ after ∧
          afterDims shape allowzero {} dims = {
            out := before ++ -1 :: after
            infer_index := some before.length
            known_product := (before ++ after).foldl timesKnown 1 }
      else afterDims shape allowzero {} dims = {
        out := knownDims shape allowzero dims
        known_product := (knownDims shape allowzero dims).foldl timesKnown 1 } := by
  have hkeep {ds : List (Int64 × Nat)} (hds : -1 ∉ ds.map Prod.fst) :
      (ds.filter fun dim => dim.1 ≠ -1) = ds ∧ ds.findIdx? (fun dim => dim.1 = -1) = none := by
    have hne : ∀ dim ∈ ds, dim.1 ≠ -1 := fun dim hdim heq => hds (heq ▸ List.mem_map_of_mem hdim)
    exact ⟨List.filter_eq_self.mpr fun dim hdim => decide_eq_true (hne dim hdim),
      List.findIdx?_eq_none_iff.mpr fun dim hdim => decide_eq_false (hne dim hdim)⟩
  split
  · rename_i hinferred
    obtain ⟨⟨d, i⟩, hdim, rfl : d = -1⟩ := List.mem_map.mp hinferred
    obtain ⟨first, last, rfl⟩ := List.append_of_mem hdim
    rw [List.map_append, List.map_cons, List.count_append, List.count_cons_self] at h
    obtain ⟨hfilter, hfind⟩ := hkeep (List.count_eq_zero.mp (by omega : (first.map _).count _ = 0))
    obtain ⟨hfilter', -⟩ := hkeep (List.count_eq_zero.mp (by omega : (last.map _).count _ = 0))
    have hknown : knownDims shape allowzero (first ++ (-1, i) :: last) =
        first.map (resolvedDim shape allowzero) ++ last.map (resolvedDim shape allowzero) := by
      rw [knownDims, List.filter_append, hfilter, List.filter_cons_of_neg (by simp), hfilter',
        List.map_append]
    refine ⟨_, _, hknown, ?_⟩
    rw [afterDims, hknown, List.map_append, List.map_cons, resolvedDim_inferred,
      List.findIdx?_append, hfind, List.findIdx?_cons]
    simp
  · rename_i hinferred
    obtain ⟨hfilter, hfind⟩ := hkeep hinferred
    rw [afterDims, knownDims, hfilter, hfind]
    rfl

theorem resolvedDim_nonneg (hstatic : ∀ d ∈ shape, 0 ≤ d) (h : Accepted shape allowzero dim)
    (hne : dim.1 ≠ -1) : 0 ≤ resolvedDim shape allowzero dim := by
  rw [resolvedDim]
  split
  · exact known_getD hstatic _
  · have hle := Int64.le_iff_toInt_le.mp h.1
    have hne := mt Int64.toInt_inj.mp hne
    have hone : (-1 : Int64).toInt = -1 := by decide
    rw [Int64.le_iff_toInt_le, Int64.toInt_zero]
    omega

theorem knownProductFrom_eq {n : Int64} {ds : List Int64} (h : ∀ d ∈ ds, 0 ≤ d) :
    knownProductFrom n ds = n * Int64.ofInt (elements ds) := by
  rw [elements, ← foldl_mul_int64]
  induction ds generalizing n with
  | nil => rfl
  | cons d ds ih =>
    obtain ⟨hd, hds⟩ := List.forall_mem_cons.mp h
    rw [knownProductFrom, if_pos (show IsKnown d = true from decide_eq_true hd), ih hds,
      List.foldl_cons]

theorem KnownProduct_eq (hstatic : ∀ d ∈ shape, 0 ≤ d) :
    KnownProduct shape 0 shape.length = Int64.ofInt (elements shape) := by
  rw [KnownProduct, List.take_length, List.drop_zero, knownProductFrom_eq hstatic, Int64.one_mul]

theorem knownDims_nonneg (hstatic : ∀ d ∈ shape, 0 ≤ d)
    (h : ∀ dim ∈ dims, Accepted shape allowzero dim) : ∀ d ∈ knownDims shape allowzero dims, 0 ≤ d := by
  intro d hd
  obtain ⟨dim, hdim, rfl⟩ := List.mem_map.mp hd
  obtain ⟨hdim, hne⟩ := List.mem_filter.mp hdim
  exact resolvedDim_nonneg hstatic (h dim hdim) (of_decide_eq_true hne)

theorem foldl_timesKnown {ds : List Int64} (h : ∀ d ∈ ds, 0 ≤ d) :
    ds.foldl timesKnown 1 = Int64.ofInt (elements ds) := by
  rw [elements, ← Int64.one_mul (Int64.ofInt _), ← foldl_mul_int64]
  exact List.foldl_ext _ _ _ fun k d hd => timesKnown_of_nonneg (h d hd)

/-- No other dimension is like the inferred one. -/
theorem otherDims_eq (hstatic : ∀ d ∈ shape, 0 ≤ d)
    (h : ∀ dim ∈ newshape.zipIdx, Accepted shape allowzero dim) :
    otherDims shape newshape allowzero = knownDims shape allowzero newshape.zipIdx := by
  rw [otherDims, resolvedDims, List.filter_map, knownDims]
  refine congrArg _ (List.filter_congr fun dim hdim => decide_eq_decide.mpr (not_congr ?_))
  constructor
  · intro heq
    by_contra hne
    have hnonneg := resolvedDim_nonneg hstatic (h dim hdim) hne
    rw [heq] at hnonneg
    exact absurd hnonneg (by decide)
  · obtain ⟨d, i⟩ := dim
    rintro rfl
    exact resolvedDim_inferred i

/-- What the loop makes of a newshape that it accepts. -/
theorem reshapeLoop (hstatic : ∀ d ∈ shape, 0 ≤ d) (h : WellFormed shape newshape allowzero) :
    ∃ s, newshape.zipIdx.foldlM (reshapeDim shape allowzero) {} = .ok s ∧
      s.known_product = Int64.ofInt (elements (otherDims shape newshape allowzero)) ∧
      (∀ d ∈ otherDims shape newshape allowzero, 0 ≤ d) ∧
      if -1 ∈ newshape then ∃ before after,
          otherDims shape newshape allowzero = before ++ after ∧
            s.out = before ++ -1 :: after ∧ s.infer_index = some before.length
        else s.infer_index = none ∧ s.out = otherDims shape newshape allowzero := by
  have hfst : newshape.zipIdx.map Prod.fst = newshape := List.zipIdx_map_fst _ _
  have hcount : (newshape.zipIdx.map Prod.fst).count (-1) ≤ 1 := hfst.symm ▸ h.inferred
  have hnonneg := knownDims_nonneg hstatic h.accepted
  have hcases := @afterDims_cases shape allowzero newshape.zipIdx hcount
  rw [otherDims_eq hstatic h.accepted]
  refine ⟨_, foldlM_reshapeDim_eq_ok.mpr ⟨h.accepted, hcount, rfl⟩, foldl_timesKnown hnonneg,
    hnonneg, ?_⟩
  rw [hfst] at hcases
  split at hcases
  · rename_i hinferred
    obtain ⟨before, after, hknown, heq⟩ := hcases
    rw [if_pos hinferred, heq]
    exact ⟨before, after, hknown, rfl, rfl⟩
  · rename_i hinferred
    rw [if_neg hinferred, hcases]
    exact ⟨rfl, rfl⟩

end Loop

/-! ### The inferred shape -/

section Infer

variable {shape newshape : List Int64} {allowzero : Int32}

/-- A known shape is inferred from the input's, with as many elements. -/
def KeepsElements (shape newshape : List Int64) (allowzero : Int32) : Prop :=
  ∀ (dtype : String) (legacy : List RelayType) (type : RelayType), legacy.length ≤ 1 →
    ReshapeInferType (some (.reshape newshape allowzero)) (.tensor shape dtype :: legacy) =
        .ok type →
      ∃ out, type = .tensor out dtype ∧ (∀ d ∈ out, 0 ≤ d) ∧ elements out = elements shape

/-- The numbers of elements, of the input and of the dimensions but the inferred one, are told apart
by what is left of them in 64 bits. -/
def ProductsDecide (shape newshape : List Int64) (allowzero : Int32) : Prop :=
  let others := elements (otherDims shape newshape allowzero)
  let p := Int64.ofInt (elements shape)
  let k := Int64.ofInt others
  if -1 ∈ newshape then
    0 ≤ p ∧ 0 < k ∧ (¬ k.toInt ∣ p.toInt ∨ elements shape * k.toInt = others * p.toInt)
  else elements shape = others ∨ 0 ≤ p ∧ 0 ≤ k ∧ p ≠ k

theorem ReshapeInferType_eq {legacy : List RelayType} (hlegacy : legacy.length ≤ 1)
    (dtype : String) :
    ReshapeInferType (some (.reshape newshape allowzero)) (.tensor shape dtype :: legacy) = (do
      let s ← newshape.zipIdx.foldlM (reshapeDim shape allowzero) {}
      let out ← reshapeResult (KnownProduct shape 0 shape.length) s
      return .tensor out dtype) := by
  have harity : ¬ ((RelayType.tensor shape dtype :: legacy).length ≠ 1 ∧
      (RelayType.tensor shape dtype :: legacy).length ≠ 2) := by
    rw [List.length_cons]
    omega
  simp only [ReshapeInferType]
  rw [throwIf_bind harity]
  rfl

theorem elements_append (ds ds' : List Int64) :
    elements (ds ++ ds') = elements ds * elements ds' := by
  rw [elements, List.map_append, count_append]
  rfl

theorem elements_cons (d : Int64) (ds : List Int64) :
    elements (d :: ds) = d.toInt * elements ds := rfl

/-- The result where no dimension is inferred. -/
theorem reshapeResult_none {s : ReshapeState} {p : Int64} {out : List Int64}
    (h : s.infer_index = none) : reshapeResult p s = .ok out ↔
      ¬ (0 ≤ p ∧ 0 ≤ s.known_product ∧ p ≠ s.known_product) ∧ s.out = out := by
  rw [reshapeResult, h]
  simp only [except_bind_eq_ok, throwIf_eq_ok]
  constructor
  · rintro ⟨_, hno, heq⟩
    exact ⟨hno, Except.ok.inj heq⟩
  · rintro ⟨hno, rfl⟩
    exact ⟨(), hno, rfl⟩

/-- The result where a dimension is inferred. -/
theorem reshapeResult_some {s : ReshapeState} {p : Int64} {i : Nat} {out : List Int64}
    (h : s.infer_index = some i) : reshapeResult p s = .ok out ↔
      if 0 ≤ p ∧ 0 < s.known_product then
        p % s.known_product = 0 ∧ s.out.set i (p / s.known_product) = out
      else s.out = out := by
  rw [reshapeResult, h]
  simp only
  split
  · simp only [except_bind_eq_ok, throwIf_eq_ok, not_not]
    constructor
    · rintro ⟨_, hmod, heq⟩
      exact ⟨hmod, Except.ok.inj heq⟩
    · rintro ⟨hmod, rfl⟩
      exact ⟨(), hmod, rfl⟩
  · exact ⟨fun h => Except.ok.inj h, fun h => congrArg Except.ok h⟩

/-- Division of numbers of 64 bits that are not negative. -/
theorem int64_division {p k : Int64} (hp : 0 ≤ p) (hk : 0 < k) :
    (p / k).toInt = p.toInt / k.toInt ∧ (p % k = 0 ↔ k.toInt ∣ p.toInt) ∧ 0 ≤ p / k := by
  have hp := Int64.le_iff_toInt_le.mp hp
  have hk := Int64.lt_iff_toInt_lt.mp hk
  rw [Int64.toInt_zero] at hp hk
  have hne : k ≠ -1 := by rintro rfl; exact absurd hk (by decide)
  have hdiv : (p / k).toInt = p.toInt / k.toInt := by
    rw [Int64.toInt_div_of_ne_right _ _ hne, Int.tdiv_eq_ediv_of_nonneg hp]
  refine ⟨hdiv, ?_, ?_⟩
  · rw [← Int64.toInt_inj, Int64.toInt_mod, Int64.toInt_zero, Int.tmod_eq_emod_of_nonneg hp]
    exact Int.dvd_iff_emod_eq_zero.symm
  · rw [Int64.le_iff_toInt_le, Int64.toInt_zero, hdiv]
    exact Int.ediv_nonneg hp (Int.le_of_lt hk)

/-- The inferred shape of a newshape that the loop accepts. -/
theorem reshapeResult_spec {s : ReshapeState}
    (hs : s.known_product = Int64.ofInt (elements (otherDims shape newshape allowzero)))
    (hothers : ∀ d ∈ otherDims shape newshape allowzero, 0 ≤ d)
    (hout : if -1 ∈ newshape then ∃ before after,
        otherDims shape newshape allowzero = before ++ after ∧
          s.out = before ++ -1 :: after ∧ s.infer_index = some before.length
      else s.infer_index = none ∧ s.out = otherDims shape newshape allowzero) :
    (∀ out, reshapeResult (Int64.ofInt (elements shape)) s = .ok out →
        (∀ d ∈ out, 0 ≤ d) ∧ elements out = elements shape) ↔
      ProductsDecide shape newshape allowzero := by
  simp only [ProductsDecide, ← hs]
  generalize Int64.ofInt (elements shape) = p
  split at hout
  · rename_i hinferred
    obtain ⟨before, after, heq, hsout, hinfer⟩ := hout
    simp only [reshapeResult_some hinfer, hinferred, if_true, hsout, List.set_append_right _ _
      (Nat.le_refl _), Nat.sub_self, List.set_cons_zero]
    by_cases hpk : 0 ≤ p ∧ 0 < s.known_product
    · obtain ⟨hdiv, hmod, hnonneg⟩ := int64_division hpk.1 hpk.2
      have hk : s.known_product.toInt ≠ 0 := by
        have hk := Int64.lt_iff_toInt_lt.mp hpk.2
        rw [Int64.toInt_zero] at hk
        omega
      have hset : elements (before ++ p / s.known_product :: after) =
          elements (otherDims shape newshape allowzero) * (p.toInt / s.known_product.toInt) := by
        rw [heq, elements_append, elements_append, elements_cons, hdiv]
        ring
      simp only [hpk, if_true, and_self, true_and, hmod]
      by_cases hdvd : s.known_product.toInt ∣ p.toInt
      · obtain ⟨q, hq⟩ := hdvd
        have hquotient : p.toInt / s.known_product.toInt = q := by
          rw [hq, Int.mul_ediv_cancel_left _ hk]
        rw [hquotient] at hset
        constructor
        · intro h
          obtain ⟨-, hsame⟩ := h _ ⟨⟨q, hq⟩, rfl⟩
          refine .inr ?_
          rw [← hsame, hset, hq]
          ring
        · rintro (hnot | hsame) out ⟨-, rfl⟩
          · exact absurd ⟨q, hq⟩ hnot
          · have hothers := List.forall_mem_append.mp (heq ▸ hothers)
            refine ⟨List.forall_mem_append.mpr ⟨hothers.1,
              List.forall_mem_cons.mpr ⟨hnonneg, hothers.2⟩⟩, ?_⟩
            refine Int.eq_of_mul_eq_mul_right hk ?_
            rw [hset, hsame, hq]
            ring
      · exact ⟨fun _ => .inl hdvd, fun _ out h => absurd h.1 hdvd⟩
    · simp only [if_neg hpk]
      constructor
      · intro h
        have hnonneg := (h _ rfl).1 (-1) (List.mem_append_right _ List.mem_cons_self)
        exact absurd hnonneg (by decide)
      · exact fun h => absurd ⟨h.1, h.2.1⟩ hpk
  · rename_i hinferred
    obtain ⟨hinfer, hsout⟩ := hout
    simp only [reshapeResult_none hinfer, hinferred, if_false, hsout]
    constructor
    · intro h
      by_cases hpk : 0 ≤ p ∧ 0 ≤ s.known_product ∧ p ≠ s.known_product
      · exact .inr hpk
      · exact .inl (h _ ⟨hpk, rfl⟩).2.symm
    · rintro h out ⟨hno, rfl⟩
      exact ⟨hothers, (h.resolve_right hno).symm⟩

/-- The inferred shape keeps the elements exactly if what is left of the numbers in 64 bits decides
about them; a newshape that is not well-formed is an error. -/
theorem keepsElements_iff (hstatic : ∀ d ∈ shape, 0 ≤ d) :
    KeepsElements shape newshape allowzero ↔
      (WellFormed shape newshape allowzero → ProductsDecide shape newshape allowzero) := by
  constructor
  · intro h hformed
    obtain ⟨s, hrun, hs, hothers, hout⟩ := reshapeLoop hstatic hformed
    refine (reshapeResult_spec hs hothers hout).mp fun out hresult => ?_
    obtain ⟨_, heq, hkeeps⟩ := h "" [] (.tensor out "") (Nat.zero_le _) (by
      rw [ReshapeInferType_eq (Nat.zero_le _), KnownProduct_eq hstatic]
      exact except_bind_eq_ok.mpr ⟨s, hrun, except_bind_eq_ok.mpr ⟨out, hresult, rfl⟩⟩)
    obtain ⟨rfl, -⟩ := RelayType.tensor.inj heq
    exact hkeeps
  · intro h dtype legacy type hlegacy hok
    rw [ReshapeInferType_eq hlegacy, KnownProduct_eq hstatic] at hok
    obtain ⟨s, hrun, hok⟩ := except_bind_eq_ok.mp hok
    obtain ⟨out, hresult, hok⟩ := except_bind_eq_ok.mp hok
    obtain ⟨haccepted, hcount, -⟩ := foldlM_reshapeDim_eq_ok.mp hrun
    have hformed : WellFormed shape newshape allowzero :=
      ⟨haccepted, by simpa [List.zipIdx_map_fst] using hcount⟩
    obtain ⟨s', hrun', hs, hothers, hout⟩ := reshapeLoop hstatic hformed
    obtain rfl : s = s' := Except.ok.inj (hrun.symm.trans hrun')
    exact ⟨out, (Except.ok.inj hok).symm,
      (reshapeResult_spec hs hothers hout).mpr (h hformed) out hresult⟩

theorem elements_nonneg {ds : List Int64} (h : ∀ d ∈ ds, 0 ≤ d) : 0 ≤ elements ds := by
  refine count_nonneg fun n hn => ?_
  obtain ⟨d, hd, rfl⟩ := List.mem_map.mp hn
  simpa using Int64.le_iff_toInt_le.mp (h d hd)

/-- The elements are kept where their numbers fit and nothing is inferred beside a zero. -/
theorem keepsElements_of_lt (hstatic : ∀ d ∈ shape, 0 ≤ d) (hfits : elements shape < 2 ^ 63)
    (hfits' : elements (otherDims shape newshape allowzero) < 2 ^ 63)
    (hnonzero : -1 ∈ newshape → elements (otherDims shape newshape allowzero) ≠ 0) :
    KeepsElements shape newshape allowzero := by
  refine (keepsElements_iff hstatic).mpr fun hformed => ?_
  obtain ⟨-, -, -, hothers, -⟩ := reshapeLoop hstatic hformed
  have hp := elements_nonneg hstatic
  have hk := elements_nonneg hothers
  have hp' : (Int64.ofInt (elements shape)).toInt = elements shape :=
    Int64.toInt_ofInt_of_le (by omega) (by omega)
  have hk' : (Int64.ofInt (elements (otherDims shape newshape allowzero))).toInt =
      elements (otherDims shape newshape allowzero) :=
    Int64.toInt_ofInt_of_le (by omega) (by omega)
  simp only [ProductsDecide, Int64.le_iff_toInt_le, Int64.lt_iff_toInt_lt, hp', hk',
    Int64.toInt_zero, ne_eq, ← Int64.toInt_inj]
  split
  · rename_i hinferred
    have := hnonzero hinferred
    exact ⟨hp, by omega, .inr (Int.mul_comm _ _)⟩
  · by_cases hsame : elements shape = elements (otherDims shape newshape allowzero)
    · exact .inl hsame
    · exact .inr ⟨hp, hk, hsame⟩

/-- No rows of three columns, as rows of no columns. -/
theorem reshape_leaves_inferred :
    ReshapeInferType (some (.reshape [0, -1] 0)) [.tensor [0, 3] "float32"] =
        .ok (.tensor [0, -1] "float32") ∧ ¬ KeepsElements [0, 3] [0, -1] 0 := by
  have hrun : ReshapeInferType (some (.reshape [0, -1] 0)) [.tensor [0, 3] "float32"] =
      .ok (.tensor [0, -1] "float32") := by rfl
  refine ⟨hrun, fun h => ?_⟩
  obtain ⟨_, heq, hnonneg, -⟩ := h "float32" [] _ (Nat.zero_le _) hrun
  obtain ⟨rfl, -⟩ := RelayType.tensor.inj heq
  exact absurd (hnonneg (-1) (by simp)) (by decide)

/-- Six elements in rows of three. -/
theorem reshape_of_six : KeepsElements [2, 3] [-1, 3] 0 ↔
    (WellFormed [2, 3] [-1, 3] 0 → ProductsDecide [2, 3] [-1, 3] 0) :=
  keepsElements_iff (List.forall_mem_cons.mpr ⟨by decide,
    List.forall_mem_singleton.mpr (by decide)⟩)

end Infer

end Kxc.Relay
