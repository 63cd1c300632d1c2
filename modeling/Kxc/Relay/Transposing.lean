import Mathlib.Data.List.GetD
import Kxc.Lib.Scatter
import Kxc.Lib.StateExcept
import Kxc.Relay.Lower
import Kxc.Relay.OpTransform

/-! `transpose` on the types that type inference accepts: the code permutes the axes as the inferred
shape does. -/

namespace Kxc.Relay.Op

open Lib Lib.MachineNumber Te

/-! ### `topi::transpose` -/

section Compute

variable {F : Type} {ops : FloatOps F} {inputs : String → List Int → Scalar F} {ρ : Tir.Var → Int}

theorem transposeIndices_eq (ndim : Nat) (axes : List Nat) (vars : List Tir.Var) :
    Topi.transposeIndices ndim axes vars =
      scatter (.int 0) ndim axes (vars.map PrimExpr.Var) := by
  rw [Topi.transposeIndices, scatter, scatterFrom, List.zip_map_right, List.foldl_map]
  rfl

theorem indices_transposeIndices {ndim : Nat} {axes : List Nat} {idx : List Int} {n : Nat}
    (hlen : idx.length = n) :
    PrimExpr.indices ops inputs (bind (axisVars n) idx ρ)
        (Topi.transposeIndices ndim axes (axisVars n)) = scatter 0 ndim axes idx := by
  have hvars := @indices_axisVars _ ρ _ _ ops inputs hlen
  rw [indices_eq_map] at hvars
  rw [indices_eq_map, transposeIndices_eq, map_scatter, hvars, value_int]
  rfl

theorem transpose_eq {x : Tensor} {axes : List Nat} (name : String)
    (haxes : axes ≠ [] ∨ x.shape = []) :
    Topi.transpose x axes name = compute (axes.map fun axis => x.shape.getD axis (.int 0))
      (fun indices => x.at (Topi.transposeIndices x.shape.length axes indices)) name := by
  have hdefault : (if axes.isEmpty then (List.range x.shape.length).reverse else axes) = axes := by
    rcases haxes with haxes | hshape
    · rw [if_neg (by simpa using haxes)]
    · rw [hshape]
      cases axes <;> rfl
  simp only [Topi.transpose, hdefault]

/-- The element of `topi::transpose` at an index. -/
theorem transpose_element {x : Tensor} {axes : List Nat} {name : String} {idx : List Int}
    (hlen : idx.length = axes.length) (haxes : axes ≠ [] ∨ x.shape = []) :
    (Topi.transpose x axes name).element ops inputs idx =
      x.element ops inputs (scatter 0 x.shape.length axes idx) := by
  have hdims : idx.length = (axes.map fun axis => x.shape.getD axis (.int 0)).length := by
    rw [List.length_map, hlen]
  rw [transpose_eq name haxes]
  exact congrArg (x.element ops inputs) (indices_transposeIndices hdims)

theorem transpose_dims {x : Tensor} {axes : List Nat} {name : String} {dims : List Int}
    (hdims : HasDims ops inputs x dims) (haxes : axes ≠ [] ∨ x.shape = [])
    (hlt : ∀ axis ∈ axes, axis < dims.length) :
    HasDims ops inputs (Topi.transpose x axes name) (axes.map fun axis => dims.getD axis 0) := by
  rw [transpose_eq name haxes]
  show List.Forall₂ _ (axes.map _) _
  rw [List.forall₂_map_left_iff, List.forall₂_map_right_iff, List.forall₂_same]
  exact fun axis haxis => Topi.dimOf_extent hdims (hlt axis haxis)

end Compute

/-! ### The axes that a `perm` names -/

section Axes

/-- The `perm` that the code reads. -/
def transposePerm : Option Attrs → List Int64
  | some (.transpose perm) => perm
  | _ => []

/-- A number names an axis, from the start or from the end. -/
def NamesAxis (rank : Nat) (raw_axis : Int64) (axis : Nat) : Prop :=
  axis < rank ∧ (raw_axis.toInt = axis ∨ raw_axis.toInt = axis - rank)

/-- `transpose` permutes the axes so: an empty `perm` reverses them. -/
structure TransposesBy (attrs : Option Attrs) (rank : Nat) (axes : List Nat) : Prop where
  nodup : axes.Nodup
  length_eq : axes.length = rank
  names : if transposePerm attrs = [] then axes = (List.range rank).reverse
    else List.Forall₂ (NamesAxis rank) (transposePerm attrs) axes

variable {rank axis : Nat} {raw_axis : Int64} {attrs : Option Attrs} {axes : List Nat}

theorem namesAxis_lt {perm : List Int64} (h : List.Forall₂ (NamesAxis rank) perm axes) :
    ∀ axis ∈ axes, axis < rank := by
  induction h with
  | nil => exact fun axis haxis => absurd haxis List.not_mem_nil
  | cons hnames _ ih => exact List.forall_mem_cons.mpr ⟨hnames.1, ih⟩

theorem TransposesBy.lt (h : TransposesBy attrs rank axes) : ∀ axis ∈ axes, axis < rank := by
  intro axis haxis
  have hnames := h.names
  split at hnames
  · rw [hnames] at haxis
    simpa using haxis
  · exact namesAxis_lt hnames axis haxis

theorem normalizeAxis_eq_ok {op_name : String} :
    Relay.NormalizeAxis op_name raw_axis.toInt rank false = .ok axis ↔
      NamesAxis rank raw_axis axis := by
  rw [Relay.NormalizeAxis, except_bind_eq_ok]
  simp only [throwIf_eq_ok, Bool.false_eq_true, if_false]
  constructor
  · rintro ⟨_, hin, heq⟩
    obtain rfl := Except.ok.inj heq
    rw [NamesAxis]
    omega
  · rintro ⟨hlt, haxis⟩
    refine ⟨(), by omega, congrArg Except.ok ?_⟩
    omega

theorem normalizeTransposeAxis_eq (hrank : rank < 2 ^ 31) (h : NamesAxis rank raw_axis axis) :
    normalizeTransposeAxis rank raw_axis = .ok axis := by
  obtain ⟨hlt, haxis⟩ := h
  have hcast : raw_axis.toInt32.toInt = raw_axis.toInt := by
    rw [Int64.toInt_toInt32]
    exact Int.bmod_eq_of_le (by omega) (by omega)
  rw [normalizeTransposeAxis, hcast]
  refine except_bind_eq_ok.mpr ⟨(), throwIf_eq_ok.mpr (by omega), congrArg Except.ok ?_⟩
  omega

theorem transposeDim_eq_ok {shape : List Int64} {s t : List Nat × List Int64} :
    transposeDim shape s raw_axis = .ok t ↔
      ∃ axis, NamesAxis shape.length raw_axis axis ∧ axis ∉ s.1 ∧
        t = (axis :: s.1, s.2 ++ [shape.getD axis 0]) := by
  simp only [transposeDim, except_bind_eq_ok, normalizeAxis_eq_ok, throwIf_eq_ok]
  constructor
  · rintro ⟨axis, hnames, _, hnot, heq⟩
    exact ⟨axis, hnames, hnot, (Except.ok.inj heq).symm⟩
  · rintro ⟨axis, hnames, hnot, rfl⟩
    exact ⟨axis, hnames, (), hnot, rfl⟩

/-- What the loop of `TransposeInferType` returns. -/
theorem foldlM_transposeDim {shape : List Int64} {perm : List Int64} {s t : List Nat × List Int64}
    (hs : s.1.Nodup) :
    perm.foldlM (transposeDim shape) s = .ok t ↔
      ∃ axes, List.Forall₂ (NamesAxis shape.length) perm axes ∧ (axes.reverse ++ s.1).Nodup ∧
        t = (axes.reverse ++ s.1, s.2 ++ axes.map (shape.getD · 0)) := by
  induction perm generalizing s with
  | nil =>
    constructor
    · intro h
      exact ⟨[], .nil, hs, by simpa using (Except.ok.inj h).symm⟩
    · rintro ⟨axes, hnames, -, rfl⟩
      cases hnames
      simp
      rfl
  | cons raw_axis perm ih =>
    rw [List.foldlM_cons, except_bind_eq_ok]
    simp only [transposeDim_eq_ok]
    constructor
    · rintro ⟨_, ⟨axis, haxis, hnot, rfl⟩, hrest⟩
      obtain ⟨axes, hnames, hnodup, rfl⟩ := (ih (List.nodup_cons.mpr ⟨hnot, hs⟩)).mp hrest
      exact ⟨axis :: axes, .cons haxis hnames, by simpa using hnodup, by simp⟩
    · rintro ⟨_, hnames, hnodup, rfl⟩
      cases hnames with
      | @cons _ axis _ axes haxis hnames =>
        have hnodup : (axes.reverse ++ axis :: s.1).Nodup := by simpa using hnodup
        have hnext := (List.nodup_append.mp hnodup).2.1
        exact ⟨_, ⟨axis, haxis, (List.nodup_cons.mp hnext).1, rfl⟩,
          (ih hnext).mpr ⟨axes, hnames, hnodup, by simp⟩⟩

/-- The axes from the last to the first, as the code writes them where there is no `perm`. -/
theorem namesAxis_ofNat {places : List Nat} (hrank : rank < 2 ^ 31) (hlt : ∀ i ∈ places, i < rank) :
    List.Forall₂ (NamesAxis rank) (places.map Int64.ofNat) axes ↔ axes = places := by
  induction places generalizing axes with
  | nil => simp
  | cons i places ih =>
    obtain ⟨hi, hplaces⟩ := List.forall_mem_cons.mp hlt
    have hint : (Int64.ofNat i).toInt = i := Int64.toInt_ofNat_of_lt (by omega)
    constructor
    · intro h
      cases h with
      | @cons _ axis _ axes haxis hnames =>
        have hsame : axis = i := by
          rw [NamesAxis, hint] at haxis
          omega
        rw [hsame, (ih hplaces).mp hnames]
    · rintro rfl
      exact .cons ⟨hi, .inl hint⟩ ((ih hplaces).mpr rfl)

/-- The `perm` of `TransposeInferType`, the default filled in. -/
def inferredPerm (attrs : Option Attrs) (rank : Nat) : List Int64 :=
  if (transposePerm attrs).isEmpty then (List.range rank).reverse.map Int64.ofNat
  else transposePerm attrs

theorem transposesBy_iff (hrank : rank < 2 ^ 31) : TransposesBy attrs rank axes ↔
    (inferredPerm attrs rank).length = rank ∧
      List.Forall₂ (NamesAxis rank) (inferredPerm attrs rank) axes ∧ axes.Nodup := by
  have hnames : List.Forall₂ (NamesAxis rank) (inferredPerm attrs rank) axes ↔
      if transposePerm attrs = [] then axes = (List.range rank).reverse
        else List.Forall₂ (NamesAxis rank) (transposePerm attrs) axes := by
    simp only [inferredPerm, List.isEmpty_iff]
    split
    · exact namesAxis_ofNat hrank fun i hi => by simpa using hi
    · rfl
  constructor
  · rintro ⟨hnodup, hlen, h⟩
    have h := hnames.mpr h
    exact ⟨h.length_eq.trans hlen, h, hnodup⟩
  · rintro ⟨hlen, h, hnodup⟩
    exact ⟨hnodup, h.length_eq.symm.trans hlen, hnames.mp h⟩

/-- Type inference accepts what permutes the axes. -/
theorem TransposeInferType_eq_ok {shape : List Int64} {dtype : String} {out_type : RelayType}
    (hrank : shape.length < 2 ^ 31) :
    TransposeInferType attrs [.tensor shape dtype] = .ok out_type ↔
      ∃ axes, TransposesBy attrs shape.length axes ∧
        out_type = .tensor (axes.map (shape.getD · 0)) dtype := by
  have hrun : TransposeInferType attrs [.tensor shape dtype] = do
      throwIf ((inferredPerm attrs shape.length).length ≠ shape.length)
        "transpose perm rank mismatch"
      let s ← (inferredPerm attrs shape.length).foldlM (transposeDim shape) ([], [])
      return .tensor s.2 dtype := rfl
  have hloop := @foldlM_transposeDim shape (inferredPerm attrs shape.length) ([], [])
  simp only [List.append_nil, List.nodup_reverse, List.nil_append] at hloop
  simp only [hrun, except_bind_eq_ok, throwIf_eq_ok, not_not, transposesBy_iff hrank,
    hloop List.nodup_nil]
  constructor
  · rintro ⟨_, hlen, _, ⟨axes, hnames, hnodup, rfl⟩, heq⟩
    exact ⟨axes, ⟨hlen, hnames, hnodup⟩, (Except.ok.inj heq).symm⟩
  · rintro ⟨axes, ⟨hlen, hnames, hnodup⟩, rfl⟩
    exact ⟨(), hlen, _, ⟨axes, hnames, hnodup, rfl⟩, rfl⟩

theorem mapM_normalizeTransposeAxis {perm : List Int64} (hrank : rank < 2 ^ 31)
    (h : List.Forall₂ (NamesAxis rank) perm axes) :
    perm.mapM (normalizeTransposeAxis rank) = .ok axes := by
  induction h with
  | nil => rfl
  | cons haxis _ ih =>
    rw [List.mapM_cons, normalizeTransposeAxis_eq hrank haxis, ih]
    rfl

theorem NormalizeTransposeAxes_eq {data : Tensor} (hrank : data.shape.length < 2 ^ 31)
    (h : TransposesBy attrs data.shape.length axes) :
    NormalizeTransposeAxes data attrs = .ok axes := by
  have hrun : NormalizeTransposeAxes data attrs = do
      let axes ← (transposePerm attrs).mapM (normalizeTransposeAxis data.shape.length)
      let axes := if axes.isEmpty then (List.range data.shape.length).reverse else axes
      throwIf (axes.length ≠ data.shape.length) "transpose perm rank mismatch"
      throwIf (¬ axes.Nodup) "transpose duplicate axis"
      return axes := rfl
  have hchecks : (do
      throwIf (axes.length ≠ data.shape.length) "transpose perm rank mismatch"
      throwIf (¬ axes.Nodup) "transpose duplicate axis"
      return axes : Except String (List Nat)) = .ok axes := by
    rw [throwIf_bind (not_not.mpr h.length_eq), throwIf_bind (not_not.mpr h.nodup)]
    rfl
  have hnames := h.names
  rw [hrun]
  split at hnames
  · rename_i hperm
    refine except_bind_eq_ok.mpr ⟨[], by rw [hperm]; rfl, ?_⟩
    rw [← hnames]
    exact hchecks
  · rename_i hperm
    refine except_bind_eq_ok.mpr ⟨axes, mapM_normalizeTransposeAxis hrank hnames, ?_⟩
    have hne : axes ≠ [] := fun heq => hperm (by
      rw [heq] at hnames
      exact List.length_eq_zero_iff.mp hnames.length_eq)
    simp only [List.isEmpty_iff, if_neg hne]
    exact hchecks

theorem TransposeCompute_eq {data : Tensor} {out_type : Option RelayType}
    (hrank : data.shape.length < 2 ^ 31) (h : TransposesBy attrs data.shape.length axes)
    (hout : (AsTensor out_type).isSome) :
    TransposeCompute attrs [data] out_type = .ok (Topi.transpose data axes "T_transpose") := by
  simp only [TransposeCompute, RequireInputCount, RequireTensorOutput]
  rw [throwIf_bind (by simp), throwIf_bind (by simpa using Option.isSome_iff_ne_none.mp hout)]
  exact except_bind_eq_ok.mpr ⟨data, rfl, except_bind_eq_ok.mpr
    ⟨axes, NormalizeTransposeAxes_eq hrank h, rfl⟩⟩

/-- Each axis has its place. -/
theorem TransposesBy.exists_place (h : TransposesBy attrs rank axes) (haxis : axis < rank) :
    ∃ k < rank, axes.getD k 0 = axis := by
  have hperm : axes.Perm (List.range rank) := by
    refine (List.subperm_of_subset h.nodup fun a ha => List.mem_range.mpr (h.lt a ha)).perm_of_length_le ?_
    rw [List.length_range, h.length_eq]
  obtain ⟨k, hk, heq⟩ := List.getElem_of_mem (hperm.mem_iff.mpr (List.mem_range.mpr haxis))
  exact ⟨k, h.length_eq ▸ hk, by rw [← List.getElem_eq_getD (h := hk), heq]⟩

theorem getD_scatter_place (h : TransposesBy attrs rank axes) {idx : List Int}
    (hlen : idx.length = rank) {k : Nat} (hk : k < rank) :
    (scatter 0 rank axes idx).getD (axes.getD k 0) 0 = idx.getD k 0 := by
  have hplace : axes[k]? = some (axes.getD k 0) := by
    rw [List.getD_eq_getElem?_getD, List.getElem?_eq_getElem (by rw [h.length_eq]; exact hk),
      Option.getD_some]
  have hread := getElem?_scatter (0 : Int) h.nodup h.lt (h.length_eq.trans hlen.symm) hplace
  rw [List.getD_eq_getElem?_getD, hread, List.getD_eq_getElem?_getD]

end Axes

/-! ### `transpose` -/

section Transpose

variable {F : Type} {ops : FloatOps F} {inputs : String → List Int → Scalar F} {data : Tensor}
  {shape : List Int64} {dtype : String} {attrs attrs' : Option Attrs} {axes axes' : List Nat}

/-- `T` has the extents of a shape, permuted, and its element at an index is the one of `data` at the
index that has the coordinates along the permuted axes. -/
structure Permutes (ops : FloatOps F) (inputs : String → List Int → Scalar F) (data T : Tensor)
    (axes : List Nat) (out : List Int64) : Prop where
  hasDims : HasDims ops inputs T (out.map Int64.toInt)
  element : ∀ idx, idx.length = axes.length → ∃ place, place.length = axes.length ∧
    (∀ k < axes.length, place.getD (axes.getD k 0) 0 = idx.getD k 0) ∧
    T.element ops inputs idx = data.element ops inputs place

theorem TransposesBy.ne_nil (hdims : HasDims ops inputs data (shape.map Int64.toInt))
    (h : TransposesBy attrs shape.length axes) : axes ≠ [] ∨ data.shape = [] := by
  by_cases haxes : axes = []
  · have hlen := h.length_eq
    have hrank := hdims.length_eq
    rw [haxes, List.length_nil] at hlen
    rw [List.length_map, ← hlen] at hrank
    exact .inr (List.length_eq_zero_iff.mp hrank)
  · exact .inl haxes

theorem TransposesBy.element (hdims : HasDims ops inputs data (shape.map Int64.toInt))
    (h : TransposesBy attrs shape.length axes) {idx : List Int} (hlen : idx.length = shape.length) :
    (Topi.transpose data axes "T_transpose").element ops inputs idx =
      data.element ops inputs (scatter 0 shape.length axes idx) := by
  rw [transpose_element (hlen.trans h.length_eq.symm) (h.ne_nil hdims), hdims.length_eq,
    List.length_map]

theorem TransposesBy.permutes (hdims : HasDims ops inputs data (shape.map Int64.toInt))
    (h : TransposesBy attrs shape.length axes) :
    Permutes ops inputs data (Topi.transpose data axes "T_transpose") axes
      (axes.map (shape.getD · 0)) where
  hasDims := by
    have hpermuted := @transpose_dims _ _ _ _ _ "T_transpose" _ hdims (h.ne_nil hdims)
      (by simpa using h.lt)
    have hmap : (axes.map fun axis => (shape.map Int64.toInt).getD axis 0) =
        (axes.map (shape.getD · 0)).map Int64.toInt := by
      rw [List.map_map]
      exact List.map_congr_left fun axis _ => List.getD_map shape 0 Int64.toInt
    rwa [hmap] at hpermuted
  element idx hlen := by
    have hlen := hlen.trans h.length_eq
    refine ⟨scatter 0 shape.length axes idx, (length_scatter 0).trans h.length_eq.symm,
      fun k hk => getD_scatter_place h hlen (h.length_eq ▸ hk), h.element hdims hlen⟩

/-- Axes that are permuted back have the extents that they had. -/
theorem TransposesBy.shape_back (h : TransposesBy attrs shape.length axes)
    (h' : TransposesBy attrs' shape.length axes')
    (hinverse : ∀ k < shape.length, axes'.getD (axes.getD k 0) 0 = k) :
    axes'.map ((axes.map (shape.getD · 0)).getD · 0) = shape := by
  refine List.ext_getElem (by rw [List.length_map, h'.length_eq]) fun p hp hp' => ?_
  obtain ⟨k, hk, rfl⟩ := h.exists_place hp'
  have hplace := hinverse k hk
  have hlen : axes.getD k 0 < axes'.length := by rwa [h'.length_eq]
  rw [List.getElem_map, List.getElem_eq_getD (h := hlen) 0, hplace,
    ← List.getElem_eq_getD (l := axes.map _) (h := by rwa [List.length_map, h.length_eq]) 0,
    List.getElem_map, List.getElem_eq_getD (l := axes) 0, ← List.getElem_eq_getD (h := hp') 0]

theorem TransposesBy.scatter_back (h : TransposesBy attrs shape.length axes)
    (h' : TransposesBy attrs' shape.length axes')
    (hinverse : ∀ k < shape.length, axes'.getD (axes.getD k 0) 0 = k) {idx : List Int}
    (hlen : idx.length = shape.length) :
    scatter 0 shape.length axes (scatter 0 shape.length axes' idx) = idx := by
  refine List.ext_getElem (by rw [length_scatter, hlen]) fun p hp hp' => ?_
  have hp : p < shape.length := hlen ▸ hp'
  obtain ⟨k, hk, rfl⟩ := h.exists_place hp
  have hread := getD_scatter_place h (@length_scatter _ axes' idx shape.length (0 : Int)) hk
  have hread' := getD_scatter_place h' hlen hp
  rw [hinverse k hk] at hread'
  rw [List.getElem_eq_getD 0, hread, hread', List.getElem_eq_getD 0]

/-- A transpose that type inference accepts permutes the axes as the inferred shape does, and one by
the inverse permutation after it gives the tensor back. -/
theorem transpose_permutes {out_type : RelayType} (hrank : shape.length < 2 ^ 31)
    (hdims : HasDims ops inputs data (shape.map Int64.toInt))
    (h : TransposeInferType attrs [.tensor shape dtype] = .ok out_type) :
    ∃ axes out T, TransposesBy attrs shape.length axes ∧ out_type = .tensor out dtype ∧
      TransposeCompute attrs [data] (some out_type) = .ok T ∧
      Permutes ops inputs data T axes out ∧
      ∀ attrs' axes', TransposesBy attrs' shape.length axes' →
        (∀ k < shape.length, axes'.getD (axes.getD k 0) 0 = k) →
          ∃ U, TransposeInferType attrs' [out_type] = .ok (.tensor shape dtype) ∧
            TransposeCompute attrs' [T] (some (.tensor shape dtype)) = .ok U ∧
            HasDims ops inputs U (shape.map Int64.toInt) ∧ U.dtype = data.dtype ∧
            ∀ idx, idx.length = shape.length →
              U.element ops inputs idx = data.element ops inputs idx := by
  obtain ⟨axes, haxes, rfl⟩ := (TransposeInferType_eq_ok hrank).mp h
  have hlen : data.shape.length = shape.length := hdims.length_eq.trans (List.length_map _)
  have hpermutes := haxes.permutes hdims
  refine ⟨axes, _, _, haxes, rfl, TransposeCompute_eq (hlen ▸ hrank) (hlen ▸ haxes) rfl, hpermutes,
    fun attrs' axes' haxes' hinverse => ?_⟩
  have hout : (axes.map (shape.getD · 0)).length = shape.length := by
    rw [List.length_map, haxes.length_eq]
  have hback := haxes.shape_back haxes' hinverse
  have hlen' : (Topi.transpose data axes "T_transpose").shape.length = shape.length := by
    rw [hpermutes.hasDims.length_eq, List.length_map, hout]
  have hback' := (hout ▸ haxes' : TransposesBy attrs' _ axes').permutes hpermutes.hasDims
  rw [hback] at hback'
  refine ⟨Topi.transpose (Topi.transpose data axes "T_transpose") axes' "T_transpose", ?_,
    TransposeCompute_eq (hlen'.symm ▸ hrank) (hlen'.symm ▸ haxes') rfl, hback'.hasDims, rfl,
    fun idx hidx => ?_⟩
  · exact (TransposeInferType_eq_ok (hout.symm ▸ hrank)).mpr
      ⟨axes', hout.symm ▸ haxes', by rw [hback]⟩
  · rw [(hout.symm ▸ haxes' : TransposesBy attrs' _ axes').element hpermutes.hasDims
      (hidx.trans hout.symm), hout, haxes.element hdims (length_scatter 0),
      haxes.scatter_back haxes' hinverse hidx]

/-- Three axes in a cycle. -/
theorem transpose_of_three_axes :
    ∃ T, TransposeCompute (some (.transpose [1, -1, 0]))
        [.placeholder "data" (ShapeFromTensorType [2, 3, 4]) (.Float 32)]
        (some (.tensor [3, 4, 2] "float32")) = .ok T ∧
      HasDims FloatOps.zero (fun _ _ => .int 0) T [3, 4, 2] := by
  have hinferred : TransposeInferType (some (.transpose [1, -1, 0]))
      [.tensor [2, 3, 4] "float32"] = .ok (.tensor [3, 4, 2] "float32") := by rfl
  obtain ⟨_, out, T, -, hout, hrun, hpermutes, -⟩ := transpose_permutes (by decide)
    (@placeholder_hasDims _ FloatOps.zero (fun _ _ => .int 0) "data" [2, 3, 4] (.Float 32))
    hinferred
  obtain ⟨rfl, -⟩ := RelayType.tensor.inj hout
  exact ⟨T, hrun, hpermutes.hasDims⟩

end Transpose

end Kxc.Relay.Op
