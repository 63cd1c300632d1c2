import Kxc.Relay.StaticReshape

/-! One reshape in the place of a reshape of a reshape: when `ReshapeInferType` infers the shape that
it infers for the two. -/

namespace Kxc.Relay

open Lib

section Merge

variable {shape mid out newshape inner_newshape : List Int64} {allowzero inner_allowzero : Int32}
  {dtype dtype' : String} {legacy inner_legacy : List RelayType} {s : ReshapeState} {p q : Int64}

theorem ReshapeInferType_eq_ok {type : RelayType} :
    ReshapeInferType (some (.reshape newshape allowzero)) (.tensor shape dtype :: legacy) =
        .ok type ↔
      legacy.length ≤ 1 ∧ WellFormed shape newshape allowzero ∧ ∃ out,
        reshapeResult (KnownProduct shape 0 shape.length)
            (afterDims shape allowzero {} newshape.zipIdx) = .ok out ∧
          type = .tensor out dtype := by
  have hfst : newshape.zipIdx.map Prod.fst = newshape := List.zipIdx_map_fst _ _
  by_cases hlegacy : legacy.length ≤ 1
  · rw [ReshapeInferType_eq hlegacy, except_bind_eq_ok]
    simp only [foldlM_reshapeDim_eq_ok, hfst, except_bind_eq_ok, hlegacy, true_and]
    constructor
    · rintro ⟨_, ⟨haccepted, hcount, rfl⟩, out, hout, htype⟩
      exact ⟨⟨haccepted, hcount⟩, out, hout, (Except.ok.inj htype).symm⟩
    · rintro ⟨⟨haccepted, hcount⟩, out, hout, rfl⟩
      exact ⟨_, ⟨haccepted, hcount, rfl⟩, out, hout, rfl⟩
  · refine iff_of_false (fun h => hlegacy ?_) fun h => hlegacy h.1
    obtain ⟨_, harity, -⟩ := except_bind_eq_ok.mp h
    have harity := throwIf_eq_ok.mp harity
    rw [List.length_cons] at harity
    omega

/-- Each dimension that `newshape` copies from `mid` is one of `shape`, at the same place. -/
def CopiesAgree (shape mid newshape : List Int64) (allowzero : Int32) : Prop :=
  allowzero = 0 → ∀ dim ∈ newshape.zipIdx, dim.1 = 0 →
    dim.2 < shape.length ∧ shape.getD dim.2 0 = mid.getD dim.2 0

/-- What is known of the number of the elements of `shape` and of `mid` makes no difference to
`newshape`: a dimension is inferred from both or from none, and where none is to be inferred the number
of the elements of `shape`, if only that is known, is the one of `newshape`. -/
def CountsAgree (shape mid newshape : List Int64) (allowzero : Int32) : Prop :=
  let p := KnownProduct shape 0 shape.length
  let q := KnownProduct mid 0 mid.length
  let k := (knownDims mid allowzero newshape.zipIdx).foldl timesKnown 1
  if -1 ∈ newshape then 0 < k → (0 ≤ p ↔ 0 ≤ q) else q < 0 → 0 ≤ k → 0 ≤ p → p = k

theorem known_of_knownProductFrom {k : Int64} (h : 0 ≤ knownProductFrom k shape) :
    ∀ d ∈ shape, 0 ≤ d := by
  induction shape generalizing k with
  | nil => simp
  | cons d ds ih =>
    rw [knownProductFrom] at h
    split at h
    · rename_i hd
      exact List.forall_mem_cons.mpr ⟨of_decide_eq_true hd, ih h⟩
    · exact absurd h (by decide)

/-- The place of the inferred dimension. -/
theorem afterDims_infer_index {i : Nat}
    (h : (afterDims shape allowzero {} newshape.zipIdx).infer_index = some i) :
    newshape[i]? = some (-1) ∧
      (afterDims shape allowzero {} newshape.zipIdx).out[i]? = some (-1) := by
  have hfind : newshape.zipIdx.findIdx? (fun dim => dim.1 = -1) = some i := by
    simpa [afterDims] using h
  obtain ⟨hi, hdim, -⟩ := List.findIdx?_eq_some_iff_getElem.mp hfind
  have hlen : i < newshape.length := by simpa using hi
  have hinferred : newshape[i] = -1 := by simpa using hdim
  refine ⟨by rw [List.getElem?_eq_getElem hlen, hinferred], ?_⟩
  simp only [afterDims, List.nil_append, List.getElem?_map, List.getElem?_zipIdx,
    List.getElem?_eq_getElem hlen, hinferred, Option.map_some, resolvedDim_inferred]

theorem afterDims_isSome :
    (afterDims shape allowzero {} newshape.zipIdx).infer_index.isSome = true ↔ -1 ∈ newshape := by
  simp only [afterDims, Option.none_or, Option.isSome_map, List.findIdx?_isSome, List.any_eq_true,
    decide_eq_true_eq]
  constructor
  · rintro ⟨dim, hdim, heq⟩
    exact heq ▸ List.fst_mem_of_mem_zipIdx hdim
  · intro hinferred
    obtain ⟨i, hi⟩ := List.mem_iff_getElem?.mp hinferred
    exact ⟨(-1, i), List.mem_zipIdx_iff_getElem?.mpr hi, rfl⟩

/-- A dimension that is not inferred is that of the loop. -/
theorem reshapeResult_getElem? (h : reshapeResult p s = .ok out) {i : Nat}
    (hi : s.infer_index ≠ some i) : out[i]? = s.out[i]? := by
  cases hinfer : s.infer_index with
  | none => rw [((reshapeResult_none hinfer).mp h).2]
  | some j =>
    have hne : j ≠ i := fun heq => hi (hinfer.trans (congrArg some heq))
    have h := (reshapeResult_some hinfer).mp h
    split at h
    · rw [← h.2, List.getElem?_set_ne hne]
    · rw [h]

/-- The two products that are known are equal. -/
theorem knownProduct_inferred
    (h : ReshapeInferType (some (.reshape newshape allowzero)) (.tensor shape dtype :: legacy) =
      .ok (.tensor out dtype'))
    (hp : 0 ≤ KnownProduct shape 0 shape.length) (hq : 0 ≤ KnownProduct out 0 out.length) :
    KnownProduct shape 0 shape.length = KnownProduct out 0 out.length := by
  obtain ⟨-, hformed, _, hresult, htype⟩ := ReshapeInferType_eq_ok.mp h
  obtain ⟨rfl, -⟩ := RelayType.tensor.inj htype
  have hknown : ∀ d ∈ out, 0 ≤ d :=
    known_of_knownProductFrom (by simpa [KnownProduct] using hq)
  rw [KnownProduct_eq hknown] at hq ⊢
  generalize KnownProduct shape 0 shape.length = p at hp hresult ⊢
  have hcases := @afterDims_cases shape allowzero newshape.zipIdx
    ((List.zipIdx_map_fst 0 newshape).symm ▸ hformed.inferred)
  split at hcases
  · obtain ⟨before, after, -, hstate⟩ := hcases
    rw [hstate, reshapeResult_some rfl] at hresult
    simp only [List.set_append_right _ _ (Nat.le_refl _), Nat.sub_self, List.set_cons_zero]
      at hresult
    split at hresult
    · rename_i hpk
      obtain ⟨hmod, rfl⟩ := hresult
      have hothers : ∀ d ∈ before ++ after, 0 ≤ d := fun d hd => hknown d (by
        rcases List.mem_append.mp hd with hd | hd
        · exact List.mem_append_left _ hd
        · exact List.mem_append_right _ (List.mem_cons_of_mem _ hd))
      rw [foldl_timesKnown hothers] at hpk hmod ⊢
      generalize hk : Int64.ofInt (elements (before ++ after)) = k at hpk hmod ⊢
      obtain ⟨hdiv, hdvd, -⟩ := int64_division hpk.1 hpk.2
      have hset : elements (before ++ p / k :: after) =
          elements (before ++ after) * (p / k).toInt := by
        rw [elements_append, elements_append, elements_cons]
        ring
      calc p = Int64.ofInt (k.toInt * (p / k).toInt) := by
            rw [hdiv, Int.mul_ediv_cancel' (hdvd.mp hmod), Int64.ofInt_toInt]
        _ = Int64.ofInt (elements (before ++ p / k :: after)) := by
            rw [hset, Int64.ofInt_mul, Int64.ofInt_mul, hk, Int64.ofInt_toInt]
    · subst hresult
      exact absurd (hknown (-1) (by simp)) (by decide)
  · rw [hcases, reshapeResult_none rfl] at hresult
    obtain ⟨hcheck, rfl⟩ := hresult
    rw [foldl_timesKnown hknown] at hcheck
    by_contra hne
    exact hcheck ⟨hp, hq, hne⟩

/-- What the end of `ReshapeInferType` makes of a product, if that of another one is known. -/
theorem reshapeResult_iff (h : reshapeResult q s = .ok out) (hsame : 0 ≤ p → 0 ≤ q → p = q)
    (hinfer : ∀ i, s.infer_index = some i → s.out[i]? = some (-1)) :
    reshapeResult p s = .ok out ↔
      if s.infer_index.isSome then 0 < s.known_product → (0 ≤ p ↔ 0 ≤ q)
      else q < 0 → 0 ≤ s.known_product → 0 ≤ p → p = s.known_product := by
  have hneg {n : Int64} : n < 0 ↔ ¬ 0 ≤ n := Int64.not_le.symm
  cases hindex : s.infer_index with
  | none =>
    rw [reshapeResult_none hindex] at h ⊢
    simp only [Option.isSome_none, Bool.false_eq_true, if_false, h.2, and_true, hneg]
    by_cases hq : 0 ≤ q
    · by_cases hp : 0 ≤ p
      · simpa [hsame hp hq, hq] using h.1
      · simp [hp, hq]
    · simp only [hq, not_false_eq_true, forall_const]
      constructor
      · intro hcheck hk hp
        by_contra hne
        exact hcheck ⟨hp, hk, hne⟩
      · rintro hk ⟨hp, hk', hne⟩
        exact hne (hk hk' hp)
  | some i =>
    rw [reshapeResult_some hindex] at h ⊢
    simp only [Option.isSome_some, if_true]
    by_cases hk : 0 < s.known_product
    · -- an inferred dimension is not the one that the loop leaves
      have hdiffer {n : Int64} (hn : 0 ≤ n) : s.out.set i (n / s.known_product) ≠ s.out := by
        intro heq
        have hi := hinfer i hindex
        rw [← heq, List.getElem?_set_self (by
          have := (List.getElem?_eq_some_iff.mp hi).1
          simpa using this)] at hi
        have hnonneg := (int64_division hn hk).2.2
        rw [Option.some.inj hi] at hnonneg
        exact absurd hnonneg (by decide)
      simp only [hk, and_true, forall_const] at h ⊢
      by_cases hq : 0 ≤ q
      · obtain ⟨hmod, rfl⟩ := (if_pos hq ▸ h : _ ∧ _)
        by_cases hp : 0 ≤ p
        · obtain rfl := hsame hp hq
          simp [hp, hmod]
        · simp [hp, hq, (hdiffer hq).symm]
      · obtain rfl := (if_neg hq ▸ h : _ = _)
        by_cases hp : 0 ≤ p
        · simp [hp, hq, hdiffer hp]
        · simp [hp, hq]
    · simp only [hk, and_false, if_false, false_implies, iff_true] at h ⊢
      exact h

/-- The merged reshape has the shape of the two exactly if the copied dimensions and the numbers of
elements agree. -/
theorem merged_iff
    (hinner : ReshapeInferType (some (.reshape inner_newshape inner_allowzero))
      (.tensor shape dtype :: inner_legacy) = .ok (.tensor mid dtype'))
    (houter : ReshapeInferType (some (.reshape newshape allowzero)) (.tensor mid dtype' :: legacy) =
      .ok (.tensor out dtype')) :
    ReshapeInferType (some (.reshape newshape allowzero)) (.tensor shape dtype :: legacy) =
        .ok (.tensor out dtype') ↔
      CopiesAgree shape mid newshape allowzero ∧ CountsAgree shape mid newshape allowzero := by
  obtain ⟨hlegacy, hformed, _, hresult, htype⟩ := ReshapeInferType_eq_ok.mp houter
  obtain ⟨rfl, -⟩ := RelayType.tensor.inj htype
  obtain rfl : dtype' = dtype := by
    obtain ⟨-, -, _, -, htype⟩ := ReshapeInferType_eq_ok.mp hinner
    exact (RelayType.tensor.inj htype).2
  -- the loop leaves the same state where the copied dimensions agree
  have hstate (hcopies : CopiesAgree shape mid newshape allowzero) :
      WellFormed shape newshape allowzero ∧ afterDims shape allowzero {} newshape.zipIdx =
        afterDims mid allowzero {} newshape.zipIdx := by
    have hresolved : ∀ dim ∈ newshape.zipIdx,
        resolvedDim shape allowzero dim = resolvedDim mid allowzero dim := fun dim hdim => by
      rw [resolvedDim, resolvedDim]
      split
      · rename_i hcopied
        exact (hcopies hcopied.2 dim hdim hcopied.1).2
      · rfl
    refine ⟨⟨fun dim hdim => ⟨(hformed.accepted dim hdim).1,
      fun h0 haz => (hcopies haz dim hdim h0).1⟩, hformed.inferred⟩, ?_⟩
    rw [afterDims, afterDims, knownDims, knownDims, List.map_congr_left hresolved,
      List.map_congr_left fun dim hdim => hresolved dim (List.mem_of_mem_filter hdim)]
  have hiff := @reshapeResult_iff out _ (KnownProduct shape 0 shape.length) _ hresult
    (knownProduct_inferred hinner) fun i hi => (afterDims_infer_index hi).2
  rw [ReshapeInferType_eq_ok]
  constructor
  · rintro ⟨-, hformed', _, hresult', htype⟩
    obtain ⟨rfl, -⟩ := RelayType.tensor.inj htype
    have hcopies : CopiesAgree shape mid newshape allowzero := by
      rintro haz ⟨d, i⟩ hdim (rfl : d = 0)
      refine ⟨(hformed'.accepted _ hdim).2 rfl haz, ?_⟩
      have hplace := List.mem_zipIdx_iff_getElem?.mp hdim
      have hread {ds : List Int64} {n : Int64}
          (h : reshapeResult n (afterDims ds allowzero {} newshape.zipIdx) = .ok out) :
          out[i]? = some (ds.getD i 0) := by
        rw [reshapeResult_getElem? h fun hi => ?_]
        · simp [afterDims, hplace, resolvedDim, haz]
        · have := (afterDims_infer_index hi).1
          rw [hplace] at this
          exact absurd (show (0 : Int64) = -1 from Option.some.inj this) (by decide)
      exact Option.some.inj ((hread hresult').symm.trans (hread hresult))
    rw [(hstate hcopies).2, hiff] at hresult'
    simp only [afterDims_isSome] at hresult'
    exact ⟨hcopies, hresult'⟩
  · rintro ⟨hcopies, hcounts⟩
    obtain ⟨hformed', hsame⟩ := hstate hcopies
    refine ⟨hlegacy, hformed', out, ?_, rfl⟩
    rw [hsame]
    refine hiff.mpr ?_
    simp only [afterDims_isSome]
    exact hcounts

end Merge

end Kxc.Relay
