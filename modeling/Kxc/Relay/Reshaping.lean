import Kxc.Lib.RowMajor
import Kxc.Lib.StateExcept
import Kxc.Relay.Lower
import Kxc.Relay.OpTransform

/-! `reshape` and `nn_flatten` keep the offsets of the elements: what is stored at an offset of the
output is read at the same offset of the input. -/

namespace Kxc.Relay.Op

open Lib Lib.MachineNumber Lib.IndexSpace Lib.RowMajor Te

section Indices

variable {F : Type} {ops : FloatOps F} {inputs : String → List Int → Scalar F} {ρ : Tir.Var → Int}
  {indices dims : List PrimExpr} {idx ns : List Int} {flat zero : PrimExpr} {k : Int}

theorem hasIndex_foldl (hflat : HasIndex ops inputs ρ flat k)
    (hidx : List.Forall₂ (HasIndex ops inputs ρ) indices idx)
    (hdims : List.Forall₂ (HasExtent ops inputs) dims ns) :
    HasIndex ops inputs ρ ((dims.zip indices).foldl
      (fun linear (dim, index) => linear * dim + index) flat) (offsetFrom k ns idx) := by
  induction hdims generalizing indices idx flat k with
  | nil => cases hidx <;> exact hflat
  | cons hdim _ ih =>
    cases hidx with
    | nil => exact hflat
    | cons hindex hidx =>
      exact ih ((hflat.binary (hdim.hasIndex ρ) .Mul rfl).binary hindex .Add rfl) hidx

/-- The index of an element in a buffer is its offset. -/
theorem linearIndex_value (hzero : HasIndex ops inputs ρ zero 0) (what : String)
    (hidx : List.Forall₂ (HasIndex ops inputs ρ) indices idx)
    (hdims : List.Forall₂ (HasExtent ops inputs) dims ns) (hlen : idx.length = ns.length) :
    ∃ e, linearIndex zero what indices dims = .ok e ∧
      HasIndex ops inputs ρ e (offset ns idx) := by
  cases hdims with
  | nil => exact ⟨zero, rfl, hzero⟩
  | @cons dim n dims ns hdim hdims =>
    cases hidx with
    | nil => cases hlen
    | @cons index i indices idx hindex hidx =>
      have hsame : indices.length = dims.length := by
        rw [hidx.length_eq, hdims.length_eq]
        exact Nat.succ.inj hlen
      refine ⟨_, by rw [linearIndex, if_neg (by simpa using hsame)], ?_⟩
      have hstart : 0 * n + i = i := by rw [Int.zero_mul, Int.zero_add]
      rw [offset, offsetFrom, hstart]
      exact hasIndex_foldl hindex hidx hdims

/-- The indices of `UnflattenIndex` are the digits of the offset. -/
theorem unflattenFrom_value (hflat : HasIndex ops inputs ρ flat k) (hk : 0 ≤ k)
    (hdims : List.Forall₂ (HasExtent ops inputs) dims ns) (hpos : ∀ n ∈ ns, 0 < n) :
    HasIndex ops inputs ρ (unflattenFrom flat dims).1 (digits ns k).1 ∧
      List.Forall₂ (HasIndex ops inputs ρ) (unflattenFrom flat dims).2 (digits ns k).2 := by
  induction hdims with
  | nil => exact ⟨hflat, .nil⟩
  | @cons dim n dims ns hdim hdims ih =>
    obtain ⟨hn, hns⟩ := List.forall_mem_cons.mp hpos
    obtain ⟨hcur, hout⟩ := ih hns
    have hcur0 : 0 ≤ (digits ns k).1 := by
      rw [digits_fst hns]
      exact Int.ediv_nonneg hk (Int.le_of_lt (count_pos hns))
    have hdiv := hcur.binary (hdim.hasIndex ρ) .Div rfl
    have hmod := hcur.binary (hdim.hasIndex ρ) .Mod rfl
    rw [Tir.BinaryOp.int, Int.tdiv_eq_ediv_of_nonneg hcur0] at hdiv
    rw [Tir.BinaryOp.int, Int.tmod_eq_emod_of_nonneg hcur0] at hmod
    exact ⟨hdiv, .cons hmod hout⟩

theorem UnflattenIndex_value (hflat : HasIndex ops inputs ρ flat k) (hk : 0 ≤ k)
    (hdims : List.Forall₂ (HasExtent ops inputs) dims ns) (hpos : ∀ n ∈ ns, 0 < n) :
    List.Forall₂ (HasIndex ops inputs ρ) (UnflattenIndex flat dims) (unravel ns k) :=
  (unflattenFrom_value hflat hk hdims hpos).2

theorem indices_values (h : List.Forall₂ (HasIndex ops inputs ρ) indices idx) :
    PrimExpr.indices ops inputs ρ indices = idx := by
  induction h with
  | nil => rfl
  | cons hindex _ ih =>
    rw [PrimExpr.indices, hindex.value, ih]
    rfl

theorem hasIndex_axisVars {n : Nat} (hlen : idx.length = n) :
    List.Forall₂ (HasIndex ops inputs (bind (axisVars n) idx fun _ => 0))
      ((axisVars n).map .Var) idx := by
  rw [axisVars, List.map_map, List.forall₂_map_left_iff, List.forall₂_iff_get]
  refine ⟨by simpa using hlen.symm, fun i hi hi' => ?_⟩
  have hin : i < n := by simpa using hi
  have hbind := @bind_axisVars idx (fun _ => 0) n i hlen hin
  rw [List.get_eq_getElem, List.get_eq_getElem, List.getElem_range, List.getElem_eq_getD 0,
    ← hbind]
  exact hasIndex_var _

end Indices

/-! ### Copies -/

section Copies

variable {F : Type} {ops : FloatOps F} {inputs : String → List Int → Scalar F}

/-- At an index, `T` stores at the offset `k` what it reads at the offset `k` of `data`, and each index
of that element is below its extent. -/
def CopiesOffset (ops : FloatOps F) (inputs : String → List Int → Scalar F) (data T : Tensor)
    (dims idx : List Int) (k : Int) : Prop :=
  ∃ name axis indices shape stored loaded,
    T = .compute name axis (data.at indices) shape ∧
    FlattenIndex (axis.map .Var) shape = .ok stored ∧
    FlattenIndex indices data.shape = .ok loaded ∧
    InBounds (PrimExpr.indices ops inputs (bind axis idx fun _ => 0) indices) dims ∧
    stored.value ops inputs (bind axis idx fun _ => 0) = .int k ∧
    loaded.value ops inputs (bind axis idx fun _ => 0) = .int k

/-- The elements of `T`, of the extents `out`, are those of `data`, of the extents `dims`, at the same
offsets. -/
structure KeepsOffsets (ops : FloatOps F) (inputs : String → List Int → Scalar F) (data T : Tensor)
    (dims out : List Int) : Prop where
  hasDims : HasDims ops inputs T out
  count_eq : count out = count dims
  copies : ∀ k, 0 ≤ k → k < count dims →
    ∃ idx, InBounds idx out ∧ (∀ idx', InBounds idx' out → offset out idx' = k → idx' = idx) ∧
      CopiesOffset ops inputs data T dims idx k ∧
      T.element ops inputs idx = data.element ops inputs (unravel dims k)

/-- A tensor that reads the digits of the offset of its index keeps the offsets. -/
theorem keepsOffsets_of_indices {data : Tensor} {dims out : List Int} {name : String}
    {shape : List PrimExpr} {indices : List Tir.Var → List PrimExpr}
    (hdims : HasDims ops inputs data dims) (hpos : ∀ n ∈ dims, 0 ≤ n)
    (hshape : List.Forall₂ (HasExtent ops inputs) shape out) (hout : ∀ n ∈ out, 0 ≤ n)
    (hcount : count out = count dims)
    (hindices : ∀ idx, InBounds idx out → (∀ n ∈ dims, 0 < n) →
      List.Forall₂ (HasIndex ops inputs (bind (axisVars shape.length) idx fun _ => 0))
        (indices (axisVars shape.length)) (unravel dims (offset out idx))) :
    KeepsOffsets ops inputs data (compute shape (fun vars => data.at (indices vars)) name) dims
      out := by
  refine ⟨hshape, hcount, fun k h0 hk => ?_⟩
  have hpos := extents_pos hpos (by omega)
  have hout := extents_pos hout (by omega)
  obtain ⟨idx, ⟨hidx, rfl⟩, hunique⟩ := exists_unique_offset hout h0 (hcount ▸ hk)
  have hlen : idx.length = shape.length := hidx.length_eq.trans hshape.length_eq.symm
  have hread := hindices idx hidx hpos
  obtain ⟨stored, hstored, hvalue⟩ := linearIndex_value (hasIndex_int 0)
    "Index rank mismatch during flattening" (@hasIndex_axisVars _ ops inputs _ _ hlen)
    hshape hidx.length_eq
  obtain ⟨loaded, hloaded, hvalue'⟩ := linearIndex_value (hasIndex_int 0)
    "Index rank mismatch during flattening" hread hdims length_unravel
  rw [offset_unravel hpos h0 hk] at hvalue'
  refine ⟨idx, hidx, fun idx' hidx' heq => hunique idx' ⟨hidx', heq⟩, ?_, ?_⟩
  · refine ⟨name, _, _, shape, stored, loaded, rfl, hstored, hloaded, ?_, hvalue.value, hvalue'.value⟩
    rw [indices_values hread]
    exact inBounds_unravel hpos
  · show data.element ops inputs (PrimExpr.indices ops inputs _ _) = _
    rw [indices_values hread]

/-- An element is the one of the input at the same offset. -/
theorem KeepsOffsets.element {data T : Tensor} {dims out idx : List Int}
    (h : KeepsOffsets ops inputs data T dims out) (hidx : InBounds idx out) :
    T.element ops inputs idx = data.element ops inputs (unravel dims (offset out idx)) := by
  obtain ⟨h0, hlt⟩ := offset_bounds hidx
  obtain ⟨idx', -, hunique, -, hread⟩ := h.copies _ h0 (h.count_eq ▸ hlt)
  obtain rfl := hunique idx hidx rfl
  exact hread

/-- What keeps the offsets of a tensor that keeps those of `data` has the elements of what keeps those
of `data` in one step. -/
theorem KeepsOffsets.elements_eq {data T T' T'' : Tensor} {dims mid out idx : List Int}
    (h : KeepsOffsets ops inputs data T dims mid) (h' : KeepsOffsets ops inputs T T' mid out)
    (h'' : KeepsOffsets ops inputs data T'' dims out) (hpos : ∀ n ∈ mid, 0 ≤ n)
    (hidx : InBounds idx out) : T'.element ops inputs idx = T''.element ops inputs idx := by
  obtain ⟨h0, hlt⟩ := offset_bounds hidx
  rw [h'.count_eq] at hlt
  have hmid := extents_pos hpos (by omega)
  rw [h'.element hidx, h''.element hidx, h.element (inBounds_unravel hmid),
    offset_unravel hmid h0 hlt]

/-! ### `reshape` -/

theorem StaticShapeFromTensorType_eq {out : List Int64} (h : ∀ n ∈ out, 0 ≤ n) (op_name : String) :
    StaticShapeFromTensorType out op_name = .ok (ShapeFromTensorType out) := by
  induction out with
  | nil => rfl
  | cons n out ih =>
    obtain ⟨hn, hout⟩ := List.forall_mem_cons.mp h
    have hcheck : ¬ n < 0 := Int64.not_lt.mpr hn
    have hrest := ih hout
    rw [StaticShapeFromTensorType] at hrest ⊢
    rw [List.mapM_cons, throwIf_bind hcheck, hrest]
    rfl

theorem linearIndex_ok {zero : PrimExpr} {indices dims : List PrimExpr}
    (h : indices.length = dims.length) (what : String) :
    ∃ e, linearIndex zero what indices dims = .ok e := by
  cases dims with
  | nil => exact ⟨zero, rfl⟩
  | cons dim dims =>
    obtain ⟨index, indices, rfl⟩ := List.exists_cons_of_length_eq_add_one h
    exact ⟨_, by rw [linearIndex, if_neg (by simpa using h)]⟩

theorem ReshapeCompute_keepsOffsets {data : Tensor} {dims : List Int} {out : List Int64}
    (hdims : HasDims ops inputs data dims) (hpos : ∀ n ∈ dims, 0 ≤ n) (hout : ∀ n ∈ out, 0 ≤ n)
    (hcount : count (out.map Int64.toInt) = count dims) (attrs : Option Attrs) (dtype : String) :
    ∃ T, ReshapeCompute attrs [data] (some (.tensor out dtype)) = .ok T ∧
      KeepsOffsets ops inputs data T dims (out.map Int64.toInt) := by
  have hlen : (axisVars out.length).length = out.length := by simp [axisVars]
  have hshape : List.Forall₂ (HasExtent ops inputs) (ShapeFromTensorType out)
      (out.map Int64.toInt) := placeholder_hasDims "" out (.Int 64)
  have hrank : (ShapeFromTensorType out).length = out.length := by simp [ShapeFromTensorType]
  obtain ⟨flat, hflat⟩ : ∃ flat, LinearIndex ((axisVars out.length).map .Var)
      (ShapeFromTensorType out) = .ok flat :=
    linearIndex_ok (by simp [ShapeFromTensorType, axisVars]) _
  refine ⟨compute (ShapeFromTensorType out) (fun _ => data.at (UnflattenIndex flat data.shape))
    "T_reshape", ?_, ?_⟩
  · simp only [ReshapeCompute, RequireInputCount, RequireTensorOutput]
    rw [throwIf_bind (by simp), throwIf_bind (by simp [AsTensor])]
    refine except_bind_eq_ok.mpr ⟨data, rfl, except_bind_eq_ok.mpr
      ⟨_, StaticShapeFromTensorType_eq hout _, ?_⟩⟩
    rw [computeM, hrank, hflat, compute, hrank]
    rfl
  · have hout' : ∀ n ∈ out.map Int64.toInt, 0 ≤ n := by
      intro n hn
      obtain ⟨d, hd, rfl⟩ := List.mem_map.mp hn
      simpa using Int64.le_iff_toInt_le.mp (hout d hd)
    refine keepsOffsets_of_indices hdims hpos hshape hout' hcount fun idx hidx hdims0 => ?_
    have hidxlen : idx.length = out.length := by simpa using hidx.length_eq
    obtain ⟨e, he, hvalue⟩ := linearIndex_value
      ⟨rfl, @value_int64 _ ops inputs _ 0⟩ "reshape index rank mismatch"
      (@hasIndex_axisVars _ ops inputs _ _ hidxlen) hshape hidx.length_eq
    obtain rfl : flat = e := Except.ok.inj (hflat.symm.trans he)
    rw [hrank]
    exact UnflattenIndex_value hvalue (offset_bounds hidx).1 hdims hdims0

/-! ### `nn_flatten` -/

theorem hasExtent_foldl {dims : List PrimExpr} {ns : List Int} {e : PrimExpr} {k : Int}
    (he : HasExtent ops inputs e k) (hdims : List.Forall₂ (HasExtent ops inputs) dims ns) :
    HasExtent ops inputs (dims.foldl (· * ·) e) (k * count ns) := by
  induction hdims generalizing e k with
  | nil => simpa [count] using he
  | cons hdim _ ih =>
    rw [List.foldl_cons, count, ← Int.mul_assoc]
    exact ih (he.binary hdim .Mul rfl)

theorem hasExtent_product {dims : List PrimExpr} {ns : List Int}
    (hdims : List.Forall₂ (HasExtent ops inputs) dims ns) :
    HasExtent ops inputs (dims.foldl (· * ·) (.int 1)) (count ns) := by
  have hproduct := hasExtent_foldl (hasExtent_int 1) hdims
  rwa [show (1 : Int32).toInt * count ns = count ns from Int.one_mul _] at hproduct

theorem FlattenCompute_keepsOffsets {data : Tensor} {dims : List Int} {attrs : Option Attrs}
    {out_type : Option RelayType} {axis : Nat} (hdims : HasDims ops inputs data dims)
    (hpos : ∀ n ∈ dims, 0 ≤ n) (hrank : dims ≠ []) (haxis : axis ≤ dims.length)
    (hattrs : flattenAxis attrs = axis ∨ axis < dims.length ∧
      flattenAxis attrs = axis - dims.length)
    (hout : (AsTensor out_type).isSome) :
    ∃ T, FlattenCompute attrs [data] out_type = .ok T ∧
      KeepsOffsets ops inputs data T dims [count (dims.take axis), count (dims.drop axis)] := by
  have hlen := hdims.length_eq
  have hndim : data.shape.length ≠ 0 := hlen ▸ fun h => hrank (List.length_eq_zero_iff.mp h)
  have hnormal : (if flattenAxis attrs < 0 then flattenAxis attrs + (data.shape.length : Int)
      else flattenAxis attrs) = axis := by
    rw [hlen]
    split <;> omega
  have houter := List.forall₂_take axis hdims
  have hinner := List.forall₂_drop axis hdims
  refine ⟨compute [(data.shape.take axis).foldl (· * ·) (.int 1),
    (data.shape.drop axis).foldl (· * ·) (.int 1)] (fun indices => data.at
      (UnflattenIndex (Topi.indexOf indices 0) (data.shape.take axis) ++
        UnflattenIndex (Topi.indexOf indices 1) (data.shape.drop axis))) "T_flatten", ?_, ?_⟩
  · have hcheck : ¬ ((axis : Int) < 0 ∨ (data.shape.length : Int) < axis) := by omega
    simp only [FlattenCompute, RequireInputCount, RequireTensorOutput]
    rw [throwIf_bind (by simp), throwIf_bind (by simpa using Option.isSome_iff_ne_none.mp hout)]
    show throwIf (data.shape.length = 0) _ >>= _ = _
    rw [throwIf_bind hndim, hnormal, throwIf_bind hcheck]
    rfl
  · have htake : ∀ n ∈ dims.take axis, 0 ≤ n := fun n hn => hpos n (List.mem_of_mem_take hn)
    have hdrop : ∀ n ∈ dims.drop axis, 0 ≤ n := fun n hn => hpos n (List.mem_of_mem_drop hn)
    have hcount : count [count (dims.take axis), count (dims.drop axis)] = count dims := by
      conv_rhs => rw [← List.take_append_drop axis dims, count_append]
      simp [count]
    refine keepsOffsets_of_indices hdims hpos
      (.cons (hasExtent_product houter) (.cons (hasExtent_product hinner) .nil))
      (List.forall_mem_cons.mpr ⟨count_nonneg htake,
        List.forall_mem_singleton.mpr (count_nonneg hdrop)⟩) hcount fun idx hidx hdims0 => ?_
    cases hidx with
    | @cons i _ idx _ hi hidx =>
      cases hidx with
      | @cons j _ idx _ hj hidx =>
        cases hidx
        have htake0 : ∀ n ∈ dims.take axis, 0 < n :=
          fun n hn => hdims0 n (List.mem_of_mem_take hn)
        have hdrop0 : ∀ n ∈ dims.drop axis, 0 < n :=
          fun n hn => hdims0 n (List.mem_of_mem_drop hn)
        have hvars : List.Forall₂ (HasIndex ops inputs (bind (axisVars 2) [i, j] fun _ => 0))
            [Topi.indexOf (axisVars 2) 0, Topi.indexOf (axisVars 2) 1] [i, j] :=
          hasIndex_axisVars rfl
        obtain ⟨hrow, hvars⟩ := List.forall₂_cons.mp hvars
        obtain ⟨hcolumn, -⟩ := List.forall₂_cons.mp hvars
        have hoffset : offset [count (dims.take axis), count (dims.drop axis)] [i, j] =
            i * count (dims.drop axis) + j := by
          simp [offset, offsetFrom]
        have hread := unravel_append htake0 hdrop0 hi hj
        rw [List.take_append_drop] at hread
        rw [hoffset, hread]
        exact List.rel_append (UnflattenIndex_value hrow hi.1 houter htake0)
          (UnflattenIndex_value hcolumn hj.1 hinner hdrop0)

/-- A reshape to a shape of as many elements, and the flattening before any axis, store at each offset
the element of the input that is at that offset. -/
theorem reshapes_keep_offsets {data : Tensor} {dims : List Int}
    (hdims : HasDims ops inputs data dims) (hpos : ∀ n ∈ dims, 0 ≤ n) (attrs : Option Attrs) :
    (∀ (out : List Int64) (dtype : String), (∀ n ∈ out, 0 ≤ n) →
      count (out.map Int64.toInt) = count dims →
        ∃ T, ReshapeCompute attrs [data] (some (.tensor out dtype)) = .ok T ∧
          KeepsOffsets ops inputs data T dims (out.map Int64.toInt)) ∧
    ∀ (out_type : Option RelayType) (axis : Nat), (AsTensor out_type).isSome → dims ≠ [] →
      axis ≤ dims.length →
        (flattenAxis attrs = axis ∨ axis < dims.length ∧
          flattenAxis attrs = axis - dims.length) →
        ∃ T, FlattenCompute attrs [data] out_type = .ok T ∧
          KeepsOffsets ops inputs data T dims
            [count (dims.take axis), count (dims.drop axis)] :=
  ⟨fun _ dtype hout hcount => ReshapeCompute_keepsOffsets hdims hpos hout hcount attrs dtype,
    fun _ _ hout hrank haxis hattrs =>
      FlattenCompute_keepsOffsets hdims hpos hrank haxis hattrs hout⟩

/-- A matrix of two rows and three columns as one of three rows and two columns, and as a row. -/
theorem matrix_keeps_offsets :
    let data := Tensor.placeholder "data" (ShapeFromTensorType [2, 3]) (.Int 32)
    (∃ T, ReshapeCompute none [data] (some (.tensor [3, 2] "int32")) = .ok T ∧
      KeepsOffsets FloatOps.zero (fun _ _ => .int 0) data T [2, 3] [3, 2]) ∧
    ∃ T, FlattenCompute (some (.flatten 0)) [data] (some (.tensor [1, 6] "int32")) = .ok T ∧
      KeepsOffsets FloatOps.zero (fun _ _ => .int 0) data T [2, 3] [1, 6] := by
  have hdims : HasDims FloatOps.zero (fun _ _ => .int 0)
      (.placeholder "data" (ShapeFromTensorType [2, 3]) (.Int 32)) [2, 3] :=
    placeholder_hasDims "data" [2, 3] (.Int 32)
  have hpos : ∀ n ∈ [(2 : Int), 3], 0 ≤ n := by simp
  exact ⟨(reshapes_keep_offsets hdims hpos none).1 [3, 2] "int32" (by simp) rfl,
    (reshapes_keep_offsets hdims hpos (some (.flatten 0))).2 _ 0 rfl (List.cons_ne_nil _ _)
      (Nat.zero_le _) (.inl rfl)⟩

end Copies

end Kxc.Relay.Op
