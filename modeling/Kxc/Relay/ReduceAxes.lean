import Kxc.Lib.StateExcept
import Kxc.Relay.Op
import Kxc.Te.CommReduce
import Kxc.Te.Constants
import Mathlib.Algebra.BigOperators.Group.List.Basic

/-! The operators that reduce over axes: `comm_reduce`, and with it `reduce_mean` and `softmax`, reduce
over the axes they are given exactly if no axis of several elements follows a reduced one that is
kept. -/

namespace Kxc.Relay

open Lib Lib.MachineNumber Lib.IndexSpace Te Te.Topi
open Tir (DataType)

namespace Op

theorem NormalizeAxis_eq_ok {op_name : String} {axis : Int} {rank i : Nat} :
    NormalizeAxis op_name axis rank = .ok i ↔ i < rank ∧ (axis = i ∨ axis + rank = i) := by
  simp only [NormalizeAxis, except_bind_eq_ok, throwIf_eq_ok]
  constructor
  · rintro ⟨_, hrange, h⟩
    have h : (if axis < 0 then axis + rank else axis).toNat = i := Except.ok.inj h
    split at h <;> split at hrange <;> omega
  · rintro ⟨hi, h⟩
    refine ⟨(), ?_, congrArg Except.ok ?_⟩ <;> split <;> omega

theorem normalizeNext_spec {op_name : String} {rank : Nat} {axes : List Int64} {out out' : List Nat}
    (h : axes.foldlM (normalizeNext op_name rank) out = .ok out') (hnodup : out.Nodup) :
    out'.length = out.length + axes.length ∧ out'.Nodup ∧ ∀ i, i ∈ out' ↔ i ∈ out ∨
      i < rank ∧ ∃ a ∈ axes, a.toInt = i ∨ a.toInt + rank = i := by
  induction axes generalizing out with
  | nil =>
    obtain rfl : out = out' := Except.ok.inj h
    simp [hnodup]
  | cons a axes ih =>
    rw [List.foldlM_cons] at h
    obtain ⟨next, hnext, hrest⟩ := except_bind_eq_ok.mp h
    simp only [normalizeNext, except_bind_eq_ok, throwIf_eq_ok] at hnext
    obtain ⟨k, hk, _, hfresh, hout⟩ := hnext
    obtain rfl : out ++ [k] = next := Except.ok.inj hout
    obtain ⟨hlt, hak⟩ := NormalizeAxis_eq_ok.mp hk
    have hnodup' : (out ++ [k]).Nodup := by
      rw [List.nodup_append]
      refine ⟨hnodup, List.nodup_singleton k, fun j hj b hb => ?_⟩
      rintro rfl
      exact hfresh (List.mem_singleton.mp hb ▸ hj)
    obtain ⟨hlength, hnodup', hmem⟩ := ih hrest hnodup'
    have hlength' : out'.length = out.length + (a :: axes).length := by
      rw [hlength, List.length_append, List.length_singleton, List.length_cons, Nat.add_assoc,
        Nat.add_comm 1]
    refine ⟨hlength', hnodup', fun i => ?_⟩
    rw [hmem, List.mem_append, List.mem_singleton, or_assoc]
    refine or_congr_right ?_
    constructor
    · rintro (rfl | ⟨hi, b, hb, hbi⟩)
      · exact ⟨hlt, a, List.mem_cons_self, hak⟩
      · exact ⟨hi, b, List.mem_cons_of_mem _ hb, hbi⟩
    · rintro ⟨hi, b, hb, hbi⟩
      rcases List.mem_cons.mp hb with rfl | hb
      · left
        omega
      · exact .inr ⟨hi, b, hb, hbi⟩

/-- The axes of `reduce_mean` are the ones that it is given, each once. -/
theorem NormalizeAxes_spec {op_name : String} {rank : Nat} {axes : List Int64} {out : List Nat}
    (h : NormalizeAxes op_name axes rank = .ok out) :
    out.length = (if axes = [] then rank else axes.length) ∧ out.Nodup ∧
      ∀ i, i ∈ out ↔ i < rank ∧ namesAxis rank (axes.map Int64.toInt) i = true := by
  rw [NormalizeAxes] at h
  cases axes with
  | nil =>
    obtain rfl : List.range rank = out := Except.ok.inj h
    exact ⟨by simp, List.nodup_range, fun i => by simp [namesAxis]⟩
  | cons a axes =>
    obtain ⟨hlength, hnodup, hmem⟩ := normalizeNext_spec h List.nodup_nil
    refine ⟨by simpa using hlength, hnodup, fun i => (hmem i).trans ?_⟩
    simp [namesAxis]

theorem namesAxis_ToAxisArray {op_name : String} {rank i : Nat} {axes : List Int64} {out : List Nat}
    (h : NormalizeAxes op_name axes rank = .ok out) (hi : i < rank) :
    namesAxis rank (ToAxisArray out) i = namesAxis rank (axes.map Int64.toInt) i := by
  obtain ⟨hlength, -, hmem⟩ := NormalizeAxes_spec h
  have hne : out ≠ [] := by
    rintro rfl
    split at hlength
    · rw [List.length_nil] at hlength
      omega
    · exact absurd (List.length_eq_zero_iff.mp hlength.symm) ‹_›
  have hempty : (ToAxisArray out).isEmpty = false := by
    simpa [ToAxisArray] using hne
  have hnamed : namesAxis rank (ToAxisArray out) i = true ↔ i ∈ out := by
    rw [namesAxis, hempty, Bool.false_or, List.any_eq_true]
    simp only [ToAxisArray, List.mem_map, Bool.or_eq_true, beq_iff_eq]
    constructor
    · rintro ⟨_, ⟨k, hk, rfl⟩, hki⟩
      have hlt := ((hmem k).mp hk).1
      have : k = i := by
        simp only [Int.ofNat_eq_natCast] at hki
        omega
      exact this ▸ hk
    · exact fun hi => ⟨_, ⟨i, hi, rfl⟩, .inl rfl⟩
  rw [Bool.eq_iff_iff, hnamed, hmem]
  exact and_iff_right hi

/-- The number of elements that each mean is taken of. -/
def reducedCount (dims axis : List Int) : Int :=
  (((List.range dims.length).filter (namesAxis dims.length axis)).map fun i => dims.getD i 0).prod

section Compute

variable {F : Type} {ops : FloatOps F} {inputs : String → List Int → Scalar F}

theorem countNext_eq_ok {shape : List PrimExpr} {count count' : Int64} {i : Nat}
    (h : countNext shape count i = .ok count') :
    ∃ dim, GetConstInt (shape.getD i (.int 0)) = some dim ∧ count' = count * dim := by
  rw [countNext] at h
  cases hdim : GetConstInt (shape.getD i (.int 0)) with
  | none =>
    rw [hdim] at h
    cases h
  | some dim =>
    rw [hdim] at h
    refine ⟨dim, rfl, ?_⟩
    by_cases hneg : dim < 0
    · simp [hneg] at h
    · simpa [hneg] using h.symm

theorem countNext_foldlM {shape : List PrimExpr} {dims : List Int}
    (hdims : List.Forall₂ (HasExtent ops inputs) shape dims) {c : Int} {axes : List Nat}
    (haxes : ∀ i ∈ axes, i < dims.length) {count : Int64}
    (h : axes.foldlM (countNext shape) (Int64.ofInt c) = .ok count) :
    count = Int64.ofInt (c * (axes.map fun i => dims.getD i 0).prod) := by
  induction axes generalizing c with
  | nil =>
    obtain rfl : Int64.ofInt c = count := Except.ok.inj h
    simp
  | cons i axes ih =>
    rw [List.foldlM_cons] at h
    obtain ⟨next, hnext, hrest⟩ := except_bind_eq_ok.mp h
    have hi : i < dims.length := haxes i List.mem_cons_self
    have hextent := ((forall₂_iff_getD (.int 0) 0).mp hdims).2 i hi
    obtain ⟨dim, hdim, rfl⟩ := countNext_eq_ok hnext
    rw [← Int64.ofInt_toInt dim, GetConstInt_extent hextent hdim, ← Int64.ofInt_mul] at hrest
    rw [ih (fun j hj => haxes j (List.mem_cons_of_mem _ hj)) hrest, List.map_cons, List.prod_cons,
      Int.mul_assoc]

theorem ReductionElementCount_eq {op_name : String} {data : Tensor} {dims : List Int}
    (hdims : HasDims ops inputs data dims) {axes : List Int64} {out : List Nat}
    (haxes : NormalizeAxes op_name axes data.shape.length = .ok out) {count : Int64}
    (h : ReductionElementCount data.shape out = .ok count) :
    count = Int64.ofInt (reducedCount dims (axes.map Int64.toInt)) := by
  obtain ⟨-, hnodup, hmem⟩ := NormalizeAxes_spec haxes
  rw [hdims.length_eq] at hmem
  have hcount := countNext_foldlM hdims (c := 1) (fun i hi => ((hmem i).mp hi).1) h
  have hperm : out.Perm
      ((List.range dims.length).filter (namesAxis dims.length (axes.map Int64.toInt))) := by
    rw [List.perm_ext_iff_of_nodup hnodup (List.nodup_range.filter _)]
    intro i
    rw [hmem, List.mem_filter, List.mem_range]
  rw [hcount, Int.one_mul, (hperm.map _).prod_eq]
  rfl

/-! ### `reduce_mean` -/

variable {attrs : Option Attrs} {data T : Tensor} {out_type : Option RelayType}
  {dims idx : List Int}

theorem ReduceMeanCompute_eq_ok (h : ReduceMeanCompute attrs [data] out_type = .ok T) :
    ∃ axes count,
      NormalizeAxes "reduce_mean" (AsReduceMeanAttrs attrs).axes data.shape.length = .ok axes ∧
      ReductionElementCount data.shape axes = .ok count ∧
      let sum_out := Te.Topi.sum data (ToAxisArray axes)
        ((AsReduceMeanAttrs attrs).keepdims != 0) "T_reduce_mean_sum"
      T = Te.compute sum_out.shape
        (fun indices =>
          sum_out.at (indices.map .Var) / make_const sum_out.dtype count.toFloat)
        "T_reduce_mean" := by
  simp only [ReduceMeanCompute, except_bind_eq_ok] at h
  obtain ⟨_, -, _, -, data', hdata, axes, haxes, count, hcount, hT⟩ := h
  obtain rfl : data = data' := Except.ok.inj hdata
  exact ⟨axes, count, haxes, hcount, (Except.ok.inj hT).symm⟩

theorem reducedDims_ToAxisArray {op_name : String} {axes : List Int64} {out : List Nat}
    (h : NormalizeAxes op_name axes dims.length = .ok out) (keepdims : Bool) :
    reducedDims (namesAxis dims.length (ToAxisArray out)) keepdims 0 dims =
      reducedDims (namesAxis dims.length (axes.map Int64.toInt)) keepdims 0 dims := by
  refine reducedDims_congr fun i hi => ?_
  rw [Nat.zero_add, namesAxis_ToAxisArray h hi]

/-- Where the axes stay, `reduce_mean` is the mean over its axes. -/
theorem ReduceMeanCompute_means (hdims : HasDims ops inputs data dims)
    (h : ReduceMeanCompute attrs [data] out_type = .ok T) {axis : List Int} {keepdims : Bool}
    (haxis : (AsReduceMeanAttrs attrs).axes.map Int64.toInt = axis)
    (hkeepdims : ((AsReduceMeanAttrs attrs).keepdims != 0) = keepdims)
    (hstay : KeptStay dims axis keepdims) :
    HasDims ops inputs T (reducedDims (namesAxis dims.length axis) keepdims 0 dims) ∧
      ∀ idx, InBounds idx (reducedDims (namesAxis dims.length axis) keepdims 0 dims) →
        T.element ops inputs idx = applyBinary ops .Div data.dtype.floatFormat
          data.dtype.floatFormat
          (ReduceType.kSum.reduce ops data.dtype data.dtype.floatFormat
            ((reducedFrom dims axis keepdims idx).map (data.element ops inputs)))
          (constant ops data.dtype (Int64.ofInt (reducedCount dims axis)).toFloat) := by
  obtain ⟨axes, count, haxes, hcount, rfl⟩ := ReduceMeanCompute_eq_ok h
  have hcount := ReductionElementCount_eq hdims haxes hcount
  rw [hdims.length_eq] at haxes
  subst haxis hkeepdims hcount
  have hnames := fun i hi => namesAxis_ToAxisArray haxes (i := i) hi
  have hdims' := @comm_reduce_dims _ _ _ _ (ToAxisArray axes)
    ((AsReduceMeanAttrs attrs).keepdims != 0) .kSum "T_reduce_mean_sum" _ hdims
  rw [reducedDims_ToAxisArray haxes] at hdims'
  refine ⟨hdims', fun idx hidx => ?_⟩
  have hsum := @comm_reduce_reduces _ _ _ _ _ _ .kSum "T_reduce_mean_sum" _ _ hdims
    (hstay.congr hnames) (by rwa [reducedDims_ToAxisArray haxes])
  rw [reducedFrom_congr hnames] at hsum
  rw [← hsum]
  exact element_quotient (hidx.length_eq.trans hdims'.length_eq.symm)

/-! ### `softmax` -/

theorem SoftmaxCompute_eq_ok (h : SoftmaxCompute attrs [data] out_type = .ok T) :
    ∃ axis : Nat, NormalizeAxis "softmax" (softmaxAxis attrs) data.shape.length = .ok axis ∧
      let exp_out := Te.Topi.exp data "T_softmax_exp"
      let sum_out := Te.Topi.sum exp_out [(axis : Int)] true "T_softmax_sum"
      T = Te.compute data.shape
        (fun indices => exp_out.at (indices.map .Var) / sum_out.at (denomIndices indices axis))
        "T_softmax" := by
  simp only [SoftmaxCompute, except_bind_eq_ok] at h
  obtain ⟨_, -, _, -, data', hdata, _, -, axis, haxis, hT⟩ := h
  obtain rfl : data = data' := Except.ok.inj hdata
  exact ⟨axis, haxis, (Except.ok.inj hT).symm⟩

theorem namesAxis_normalized {op_name : String} {a : Int} {rank axis i : Nat}
    (h : NormalizeAxis op_name a rank = .ok axis) (hi : i < rank) :
    namesAxis rank [(axis : Int)] i = namesAxis rank [a] i := by
  obtain ⟨hlt, ha⟩ := NormalizeAxis_eq_ok.mp h
  rw [Bool.eq_iff_iff]
  simp only [namesAxis, List.isEmpty_cons, Bool.false_or, List.any_cons, List.any_nil,
    Bool.or_false, Bool.or_eq_true, beq_iff_eq]
  omega

theorem indices_denomIndices {n axis : Nat} {ρ : Tir.Var → Int} (hlen : idx.length = n) :
    PrimExpr.indices ops inputs (Te.bind (axisVars n) idx ρ) (denomIndices (axisVars n) axis) =
      idx.set axis 0 := by
  have hvars := indices_axisVars (ρ := ρ) ops inputs hlen
  rw [indices_vars] at hvars
  rw [indices_eq_map]
  refine List.ext_getElem ?_ fun i hi hi' => ?_
  · simp [denomIndices, axisVars, hlen]
  · have hin : i < idx.length := by simpa using hi'
    have hvar : i < ((axisVars n).map (Te.bind (axisVars n) idx ρ)).length := by rwa [hvars]
    have hvalue : ((axisVars n).map (Te.bind (axisVars n) idx ρ))[i] = idx[i] := by simp only [hvars]
    rw [List.getElem_map] at hvalue
    simp only [denomIndices, List.getElem_map, List.getElem_zipIdx, List.getElem_set, Nat.zero_add]
    by_cases hia : i = axis
    · rw [if_pos hia, if_pos hia.symm, value_int64]
      rfl
    · rw [if_neg hia, if_neg (Ne.symm hia)]
      exact hvalue

theorem getD_set_zero {axis i : Nat} (hi : i < idx.length) :
    (idx.set axis 0).getD i 0 = if axis = i then 0 else idx.getD i 0 := by
  rw [List.getD_eq_getElem?_getD, List.getElem?_set, List.getD_eq_getElem?_getD]
  split <;> simp [*]

theorem namesAxis_singleton {rank axis i : Nat} (hi : i < rank) :
    namesAxis rank [(axis : Int)] i = decide (axis = i) := by
  rw [Bool.eq_iff_iff]
  simp only [namesAxis, List.isEmpty_cons, Bool.false_or, List.any_cons, List.any_nil,
    Bool.or_false, Bool.or_eq_true, beq_iff_eq, decide_eq_true_iff]
  omega

theorem inBounds_set {axis : Nat} (h : InBounds idx dims) :
    InBounds (idx.set axis 0) (reducedDims (namesAxis dims.length [(axis : Int)]) true 0 dims) := by
  obtain ⟨hlen, hbounds⟩ := inBounds_iff.mp h
  rw [inBounds_iff, length_reducedDims, List.length_set]
  refine ⟨hlen, fun i hi => ?_⟩
  rw [getD_set_zero (hlen ▸ hi), getD_reducedDims hi, Nat.zero_add, namesAxis_singleton hi]
  by_cases hia : axis = i
  · simp [hia]
  · simpa [hia] using hbounds i hi

theorem reducedFrom_set {axis : Nat} (hlen : idx.length = dims.length) :
    reducedFrom dims [(axis : Int)] true (idx.set axis 0) =
      reducedFrom dims [(axis : Int)] true idx := by
  refine List.filter_congr fun j _ => ?_
  rw [decide_eq_decide]
  refine forall₂_congr fun i hi => forall_congr' fun hkept => ?_
  rw [namesAxis_singleton hi, decide_eq_false_iff_not] at hkept
  rw [outputAxis, if_pos rfl, getD_set_zero (hlen ▸ hi), if_neg hkept]

/-- The exponential of an element. -/
def exponential (ops : FloatOps F) (dtype : DataType) (x : Scalar F) : Scalar F :=
  applyCall ops dtype "exp" dtype.floatFormat x

theorem exp_element {name : String} {j : List Int} (hlen : j.length = data.shape.length) :
    (Te.Topi.exp data name).element ops inputs j =
      exponential ops data.dtype (data.element ops inputs j) := by
  show applyCall ops data.dtype "exp" data.dtype.floatFormat _ = _
  rw [value_at_axisVars ops inputs _ hlen]
  rfl

/-- Where the axes stay, `softmax` divides by the sum over its axis. -/
theorem SoftmaxCompute_normalizes (hdims : HasDims ops inputs data dims)
    (h : SoftmaxCompute attrs [data] out_type = .ok T)
    (hstay : KeptStay dims [softmaxAxis attrs] true) :
    HasDims ops inputs T dims ∧ ∀ idx, InBounds idx dims →
      T.element ops inputs idx = applyBinary ops .Div data.dtype.floatFormat data.dtype.floatFormat
        (exponential ops data.dtype (data.element ops inputs idx))
        (ReduceType.kSum.reduce ops data.dtype data.dtype.floatFormat
          ((reducedFrom dims [softmaxAxis attrs] true idx).map fun j =>
            exponential ops data.dtype (data.element ops inputs j))) := by
  obtain ⟨axis, haxis, rfl⟩ := SoftmaxCompute_eq_ok h
  refine ⟨hdims, fun idx hidx => ?_⟩
  have hlen : idx.length = data.shape.length := hidx.length_eq.trans hdims.length_eq.symm
  rw [hdims.length_eq] at haxis
  have hnames := fun i hi => namesAxis_normalized haxis (i := i) hi
  have hexp : HasDims ops inputs (Te.Topi.exp data "T_softmax_exp") dims := hdims
  have hsum := @comm_reduce_reduces _ _ _ _ _ _ .kSum "T_softmax_sum" _ _ hexp
    (hstay.congr hnames) (inBounds_set hidx)
  rw [reducedFrom_set hidx.length_eq, reducedFrom_congr hnames] at hsum
  have hmap : (reducedFrom dims [softmaxAxis attrs] true idx).map
      ((Te.Topi.exp data "T_softmax_exp").element ops inputs) =
      (reducedFrom dims [softmaxAxis attrs] true idx).map fun j =>
        exponential ops data.dtype (data.element ops inputs j) := by
    refine List.map_congr_left fun j hj => exp_element ?_
    rw [length_of_mem_indexSpace (List.mem_filter.mp hj).1, hdims.length_eq]
  have hdtype : (Te.Topi.exp data "T_softmax_exp").dtype = data.dtype := rfl
  rw [hmap, hdtype] at hsum
  rw [← hsum, ← @exp_element _ _ _ _ "T_softmax_exp" _ hlen]
  show applyBinary ops .Div _ _ _ (Tensor.element ops inputs _ (PrimExpr.indices ops inputs _ _)) = _
  rw [value_at_axisVars ops inputs _ hlen, indices_denomIndices hlen]
  rfl

end Compute

/-! ### All of them -/

variable {F : Type} (ops : FloatOps F)

/-- Tensors of some extents are reduced over the axes that are named: an element is the reduction of
those at its own coordinates along the other axes. `reduce_mean` divides a sum of this kind by the
number of its elements, and `softmax` by one of exponentials. -/
structure ReducesAxes (dims : List Int64) (axis : List Int) (keepdims : Bool) : Prop where
  reduce : ∀ (inputs : String → List Int → Scalar F) (data : Tensor) (type : ReduceType)
    (name : String), HasDims ops inputs data (dims.map Int64.toInt) →
    let T := comm_reduce data axis keepdims (combiner type) name
    let outputDims := reducedDims (namesAxis dims.length axis) keepdims 0 (dims.map Int64.toInt)
    HasDims ops inputs T outputDims ∧ ∀ idx, InBounds idx outputDims →
      T.element ops inputs idx = type.reduce ops data.dtype data.dtype.floatFormat
        ((reducedFrom (dims.map Int64.toInt) axis keepdims idx).map (data.element ops inputs))
  mean : ∀ (inputs : String → List Int → Scalar F) (data T : Tensor) (attrs : Option Attrs)
    (out_type : Option RelayType), HasDims ops inputs data (dims.map Int64.toInt) →
    (AsReduceMeanAttrs attrs).axes.map Int64.toInt = axis →
    ((AsReduceMeanAttrs attrs).keepdims != 0) = keepdims →
    ReduceMeanCompute attrs [data] out_type = .ok T →
    let outputDims := reducedDims (namesAxis dims.length axis) keepdims 0 (dims.map Int64.toInt)
    HasDims ops inputs T outputDims ∧ ∀ idx, InBounds idx outputDims →
      T.element ops inputs idx = applyBinary ops .Div data.dtype.floatFormat data.dtype.floatFormat
        (ReduceType.kSum.reduce ops data.dtype data.dtype.floatFormat
          ((reducedFrom (dims.map Int64.toInt) axis keepdims idx).map (data.element ops inputs)))
        (constant ops data.dtype (Int64.ofInt (reducedCount (dims.map Int64.toInt) axis)).toFloat)
  softmax : ∀ (inputs : String → List Int → Scalar F) (data T : Tensor) (attrs : Option Attrs)
    (out_type : Option RelayType), HasDims ops inputs data (dims.map Int64.toInt) →
    [softmaxAxis attrs] = axis → keepdims = true →
    SoftmaxCompute attrs [data] out_type = .ok T →
    HasDims ops inputs T (dims.map Int64.toInt) ∧ ∀ idx, InBounds idx (dims.map Int64.toInt) →
      T.element ops inputs idx = applyBinary ops .Div data.dtype.floatFormat data.dtype.floatFormat
        (exponential ops data.dtype (data.element ops inputs idx))
        (ReduceType.kSum.reduce ops data.dtype data.dtype.floatFormat
          ((reducedFrom (dims.map Int64.toInt) axis true idx).map fun j =>
            exponential ops data.dtype (data.element ops inputs j)))

/-- Axes are reduced so exactly if none of several elements follows a reduced one that is kept. -/
theorem reducesAxes_iff (dims : List Int64) (axis : List Int) (keepdims : Bool) :
    ReducesAxes ops dims axis keepdims ↔ KeptStay (dims.map Int64.toInt) axis keepdims := by
  constructor
  · intro h
    by_contra hstay
    obtain ⟨inputs, idx, hidx, hne⟩ := @comm_reduce_misreads _ .kSum ops _ _ _ hstay
    exact hne ((h.reduce inputs _ .kSum "reduce" (placeholder_hasDims _ _ _)).2 idx hidx)
  · intro hstay
    refine ⟨fun inputs data type name hdims => ?_, fun inputs data T attrs out_type hdims haxis
      hkeepdims h => ?_, fun inputs data T attrs out_type hdims haxis hkeepdims h => ?_⟩
    · have hlen : (dims.map Int64.toInt).length = dims.length := List.length_map _
      rw [← hlen]
      exact ⟨comm_reduce_dims hdims, fun idx => comm_reduce_reduces hdims hstay⟩
    · have hmeans := ReduceMeanCompute_means hdims h haxis hkeepdims hstay
      rwa [List.length_map] at hmeans
    · subst haxis hkeepdims
      exact SoftmaxCompute_normalizes hdims h hstay

/-- The sums over the first axis of two, which is kept. -/
theorem reducesAxes_first_of_two : ¬ ReducesAxes FloatOps.zero [2, 2] [0] true := by
  have hmoved : ¬ KeptStay ([2, 2] : List Int) [0] true := by
    rintro (h | ⟨n, hn, hle⟩ | hone)
    · cases h
    · simp only [List.mem_cons, List.not_mem_nil, or_false, or_self] at hn
      omega
    · exact absurd (hone 0 1 (by decide) (by decide) (by decide) (by decide)) (by decide)
  intro h
  obtain ⟨inputs, idx, hidx, hne⟩ := @comm_reduce_misreads _ .kSum FloatOps.zero [2, 2] _ _
    hmoved
  exact hne ((h.reduce inputs _ .kSum "reduce" (placeholder_hasDims _ _ _)).2 idx hidx)

end Op

end Kxc.Relay
