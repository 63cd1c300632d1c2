import Kxc.Te.Window

/-! `topi::concatenate` (`te/topi/transform.h`). The shape of a tensor is an array that other tensors
can share (`base/container.h`): the shape of the output is written into the one of the first input. -/

namespace Kxc.Te

open Lib.MachineNumber Lib.IndexSpace
open Tir (Var joinKind toKind)

/-- What the `Array<PrimExpr>` objects hold. -/
abbrev Shapes := Nat → List PrimExpr

/-- `TensorNode`, with the array of its shape. The shape of `op` is not read. -/
structure TensorNode where
  shape : Nat
  op : Tensor

def Tensor.withShape (shape : List PrimExpr) : Tensor → Tensor
  | .placeholder name _ dtype => .placeholder name shape dtype
  | .compute name axis body _ => .compute name axis body shape

/-- The tensor with the shape that its array holds. -/
def TensorNode.read (t : TensorNode) (σ : Shapes) : Tensor := t.op.withShape (σ t.shape)

namespace Topi

/-- The indices of an input that begins at an offset of the output. -/
def partIndices (indices : List Var) (axis : Nat) (offset : PrimExpr) : List PrimExpr :=
  (indices.map .Var).set axis (indexOf indices axis - offset)

/-- The body of `concatenate`, from an input on that begins at an offset. -/
def concatenateBody (σ : Shapes) (indices : List Var) (axis : Nat) (offset : PrimExpr) :
    List TensorNode → PrimExpr
  | [] => .int 0
  | [input] => (input.read σ).at (partIndices indices axis offset)
  | input :: inputs =>
    let next := offset + (σ input.shape).getD axis (.int 0)
    .Select (lt (indexOf indices axis) next) ((input.read σ).at (partIndices indices axis offset))
      (concatenateBody σ indices axis next inputs)

/-- The sum of the extents along the axis, after `len`. -/
def axis_len (σ : Shapes) (axis : Nat) (len : PrimExpr) (inputs : List TensorNode) : PrimExpr :=
  inputs.foldl (fun axis_len t => axis_len + (σ t.shape).getD axis (.int 0)) len

def concatenate (σ : Shapes) (inputs : List TensorNode) (axis : Int) (name : String) :
    Except String (TensorNode × Shapes) :=
  match inputs with
  | [] => .error "topi::concatenate expects at least one input tensor"
  | first :: _ =>
    let ndim := (σ first.shape).length
    let axis := (if axis < 0 then axis + ndim else axis).toNat
    -- `output_shape` is the array of the first input, not a copy of it.
    let output_shape := first.shape
    let σ := Function.update σ output_shape
      ((σ output_shape).set axis (axis_len σ axis (.int 0) inputs))
    .ok ({ shape := output_shape
           op := compute (σ output_shape)
            (fun indices => concatenateBody σ indices axis (.int 0) inputs) name }, σ)

end Topi

/-! ### The inputs -/

section Inputs

variable {F : Type} {ops : FloatOps F} {inputs : String → List Int → Scalar F} {ρ : Var → Int}
  {σ : Shapes} {ts : List TensorNode} {ds ns idx : List Int} {axis : Nat}

theorem withShape_element (t : Tensor) (shape : List PrimExpr) :
    (t.withShape shape).element ops inputs = t.element ops inputs := by
  cases t <;> rfl

theorem withShape_dtype (t : Tensor) (shape : List PrimExpr) :
    (t.withShape shape).dtype = t.dtype := by
  cases t <;> rfl

/-- The sum of extents. -/
def total : List Int → Int
  | [] => 0
  | n :: ns => n + total ns

theorem total_cons (n : Int) (ns : List Int) : total (n :: ns) = n + total ns := rfl

theorem total_nonneg (h : ∀ n ∈ ns, 0 ≤ n) : 0 ≤ total ns := by
  induction ns with
  | nil => decide
  | cons n ns ih =>
    obtain ⟨hn, hns⟩ := List.forall_mem_cons.mp h
    have := ih hns
    rw [total_cons]
    omega

theorem total_eq_zero (h : ∀ n ∈ ns, 0 ≤ n) : total ns = 0 ↔ ∀ n ∈ ns, n = 0 := by
  induction ns with
  | nil => simp [total]
  | cons n ns ih =>
    obtain ⟨hn, hns⟩ := List.forall_mem_cons.mp h
    have := total_nonneg hns
    rw [total_cons, List.forall_mem_cons, ← ih hns]
    omega

/-- The shapes of the inputs hold the extents `ds`, but along the axis those of `ns`. -/
def HasParts (ops : FloatOps F) (inputs : String → List Int → Scalar F) (σ : Shapes) (axis : Nat)
    (ds : List Int) : List TensorNode → List Int → Prop :=
  List.Forall₂ fun t n => List.Forall₂ (HasExtent ops inputs) (σ t.shape) (ds.set axis n)

/-- The kind of the numbers of some tensors together. -/
def jointKind (ts : List TensorNode) : Option FloatFormat :=
  (ts.map fun t => t.op.dtype.floatFormat).foldr joinKind none

/-- `T` is the concatenation of tensors, as numbers of one kind, whose shapes are what they were. -/
structure Concatenates (ops : FloatOps F) (inputs : String → List Int → Scalar F) (σ : Shapes)
    (ts : List TensorNode) (axis : Nat) (ds ns : List Int) (T : TensorNode) : Prop where
  hasDims : List.Forall₂ (HasExtent ops inputs) (σ T.shape) (ds.set axis (total ns))
  element : ∀ idx, InBounds idx (ds.set axis (total ns)) → ∀ (j : Nat) (t : TensorNode) (n : Int),
    ts[j]? = some t → ns[j]? = some n → total (ns.take j) ≤ idx.getD axis 0 →
      idx.getD axis 0 < total (ns.take j) + n →
        toKind ops (jointKind ts) (jointKind ts) (T.op.element ops inputs idx) =
          toKind ops t.op.dtype.floatFormat (jointKind ts) (t.op.element ops inputs
            (idx.set axis (idx.getD axis 0 - total (ns.take j))))
  unchanged : HasParts ops inputs σ axis ds ts ns

theorem forall₂_set {α β : Type} {R : α → β → Prop} {xs : List α} {ys : List β} {x : α} {y : β}
    (h : List.Forall₂ R xs ys) (hxy : R x y) (i : Nat) :
    List.Forall₂ R (xs.set i x) (ys.set i y) := by
  induction h generalizing i with
  | nil => exact .nil
  | cons hab _ ih =>
    cases i with
    | zero => exact .cons hxy ‹_›
    | succ i => exact .cons hab (ih i)

theorem extent_getD {shape : List PrimExpr} {dims : List Int}
    (h : List.Forall₂ (HasExtent ops inputs) shape dims) (haxis : axis < dims.length) :
    HasExtent ops inputs (shape.getD axis (.int 0)) (dims.getD axis 0) :=
  ((forall₂_iff_getD (PrimExpr.int 0) 0).mp h).2 axis haxis

theorem getD_set_self (haxis : axis < ds.length) (n : Int) : (ds.set axis n).getD axis 0 = n := by
  rw [← List.getElem_eq_getD (h := by rwa [List.length_set]), List.getElem_set_self]

theorem HasParts.axis_len (h : HasParts ops inputs σ axis ds ts ns) (haxis : axis < ds.length)
    {e : PrimExpr} {k : Int} (he : HasExtent ops inputs e k) :
    HasExtent ops inputs (Topi.axis_len σ axis e ts) (k + total ns) := by
  induction h generalizing e k with
  | nil => simpa [total, Topi.axis_len] using he
  | @cons t n ts ns hfirst _ ih =>
    have hextent := extent_getD hfirst (by rwa [List.length_set])
    rw [getD_set_self haxis] at hextent
    rw [total_cons, ← Int.add_assoc]
    exact ih (he.binary hextent .Add rfl)

theorem indexOf_value {n : Nat} (hlen : idx.length = n) (haxis : axis < n) :
    HasIndex ops inputs (bind (axisVars n) idx ρ) (Topi.indexOf (axisVars n) axis)
      (idx.getD axis 0) := by
  have hvar : Topi.indexOf (axisVars n) axis = .Var (intVar s!"ax{axis}") := by
    simp [Topi.indexOf, axisVars, haxis]
  rw [hvar, ← @bind_axisVars idx ρ n axis hlen haxis]
  exact hasIndex_var _

theorem partIndices_value {offset : PrimExpr} {k : Int} {n : Nat} (hlen : idx.length = n)
    (haxis : axis < n)
    (hoffset : HasIndex ops inputs (bind (axisVars n) idx ρ) offset k) :
    PrimExpr.indices ops inputs (bind (axisVars n) idx ρ)
        (Topi.partIndices (axisVars n) axis offset) =
      idx.set axis (idx.getD axis 0 - k) := by
  have hvars := @indices_axisVars idx ρ n _ ops inputs hlen
  have hvalue := ((indexOf_value hlen haxis).binary hoffset .Sub rfl).value
  rw [indices_eq_map] at hvars
  rw [indices_eq_map, Topi.partIndices, List.map_set, hvars]
  exact congrArg (idx.set axis) (congrArg toIndex hvalue)

theorem joinKind_none (k : Option FloatFormat) : joinKind k none = k := by
  cases k <;> rfl

theorem jointKind_cons (t : TensorNode) (ts : List TensorNode) :
    jointKind (t :: ts) = joinKind t.op.dtype.floatFormat (jointKind ts) := rfl

theorem jointKind_singleton (t : TensorNode) : jointKind [t] = t.op.dtype.floatFormat :=
  joinKind_none _

/-- The kind of the body of `concatenate`. -/
theorem concatenateBody_kind (indices : List Var) (offset : PrimExpr) (hne : ts ≠ []) :
    (Topi.concatenateBody σ indices axis offset ts).kind = jointKind ts := by
  induction ts generalizing offset with
  | nil => exact absurd rfl hne
  | cons t ts ih =>
    cases ts with
    | nil =>
      show (t.op.withShape _).dtype.floatFormat = _
      rw [withShape_dtype, jointKind_singleton]
    | cons t' ts =>
      show joinKind (t.op.withShape _).dtype.floatFormat _ = _
      rw [withShape_dtype, ih _ (List.cons_ne_nil _ _)]
      rfl

theorem toKind_toKind (own k : Option FloatFormat) (x : Scalar F) :
    toKind ops k k (toKind ops own k x) = toKind ops own k x := by
  cases k with
  | none => rfl
  | some f => simp [toKind, Scalar.toFloat]

/-- Below the end of the first input, the body reads the first input. -/
theorem concatenateBody_first {t : TensorNode} {n : Nat} {m : Int} (hlen : idx.length = n)
    (haxis : axis < n)
    (hextent : HasExtent ops inputs ((σ t.shape).getD axis (.int 0)) m)
    (hlt : idx.getD axis 0 < m) :
    toKind ops (jointKind (t :: ts)) (jointKind (t :: ts))
        ((Topi.concatenateBody σ (axisVars n) axis (.int 0) (t :: ts)).value ops inputs
          (bind (axisVars n) idx ρ)) =
      toKind ops t.op.dtype.floatFormat (jointKind (t :: ts))
        (t.op.element ops inputs (idx.set axis (idx.getD axis 0))) := by
  have hzero : HasIndex ops inputs (bind (axisVars n) idx ρ) (.int 0) 0 := hasIndex_int 0
  have hread : ((t.read σ).at (Topi.partIndices (axisVars n) axis (.int 0))).value ops inputs
      (bind (axisVars n) idx ρ) = t.op.element ops inputs (idx.set axis (idx.getD axis 0)) := by
    rw [Tensor.at, PrimExpr.value, partIndices_value hlen haxis hzero, Int.sub_zero,
      TensorNode.read, withShape_element]
  cases ts with
  | nil =>
    rw [jointKind_singleton]
    exact congrArg _ hread
  | cons t' ts =>
    have hnext : HasIndex ops inputs (bind (axisVars n) idx ρ)
        (.int 0 + (σ t.shape).getD axis (.int 0)) m := by
      have hsum := hzero.binary (hextent.hasIndex (bind (axisVars n) idx ρ)) .Add rfl
      rwa [show Tir.BinaryOp.Add.int 0 m = m from Int.zero_add m] at hsum
    have hcond := Topi.value_lt (@indexOf_value _ ops inputs ρ idx axis n hlen haxis) hnext
    rw [decide_eq_true hlt] at hcond
    have hkind := @concatenateBody_kind σ (t' :: ts) axis (axisVars n)
      (.int 0 + (σ t.shape).getD axis (.int 0)) (List.cons_ne_nil _ _)
    show toKind ops _ _ (if _ then toKind ops (t.op.withShape _).dtype.floatFormat
      (joinKind (t.op.withShape _).dtype.floatFormat _) _ else _) = _
    rw [hcond, Topi.truth_ofBool, if_pos rfl, withShape_dtype, hkind, ← jointKind_cons, hread,
      toKind_toKind]

theorem sizeOf_axis_len (e : PrimExpr) : sizeOf e ≤ sizeOf (Topi.axis_len σ axis e ts) := by
  induction ts generalizing e with
  | nil => exact Nat.le_refl _
  | cons t ts ih =>
    refine Nat.le_trans ?_ (ih (e + (σ t.shape).getD axis (.int 0)))
    show sizeOf e ≤ sizeOf (PrimExpr.Binary .Add e _)
    rw [PrimExpr.Binary.sizeOf_spec]
    omega

/-- The dimension along the axis is another expression than that of the first input. -/
theorem axis_len_ne (t : TensorNode) :
    Topi.axis_len σ axis (.int 0) (t :: ts) ≠ (σ t.shape).getD axis (.int 0) := by
  intro heq
  have hle := @sizeOf_axis_len σ ts axis (.int 0 + (σ t.shape).getD axis (.int 0))
  rw [show Topi.axis_len σ axis _ ts = _ from heq] at hle
  have hlt : sizeOf ((σ t.shape).getD axis (.int 0)) <
      sizeOf (PrimExpr.Binary .Add (.int 0) ((σ t.shape).getD axis (.int 0))) := by
    rw [PrimExpr.Binary.sizeOf_spec]
    omega
  exact absurd hle (Nat.not_le.mpr hlt)

/-- With a total for the extent of the first input, what `concatenate` leaves behind is right if and
only if the inputs after the first are empty. -/
theorem concatenates_iff {T : TensorNode} {t : TensorNode} {n : Int} {len : PrimExpr}
    {name : String} (h : HasParts ops inputs σ axis ds (t :: ts) (n :: ns))
    (haxis : axis < ds.length) (hnonneg : ∀ m ∈ n :: ns, 0 ≤ m)
    (hlen : HasExtent ops inputs len (total (n :: ns))) {σ' : Shapes}
    (hσ' : σ' = Function.update σ t.shape ((σ t.shape).set axis len))
    (hT : T = ⟨t.shape, compute (σ' t.shape)
      (fun indices => Topi.concatenateBody σ' indices axis (.int 0) (t :: ts)) name⟩) :
    Concatenates ops inputs σ' (t :: ts) axis ds (n :: ns) T ↔ ∀ m ∈ ns, m = 0 := by
  obtain ⟨hn, hns⟩ := List.forall_mem_cons.mp hnonneg
  obtain ⟨hfirst, hrest⟩ := List.forall₂_cons.mp h
  have hshape : σ' t.shape = (σ t.shape).set axis len := by rw [hσ', Function.update_self]
  have hrank : (σ t.shape).length = ds.length := by rw [hfirst.length_eq, List.length_set]
  have hdims : List.Forall₂ (HasExtent ops inputs) (σ' t.shape)
      (ds.set axis (total (n :: ns))) := by
    have := forall₂_set hfirst hlen axis
    rwa [List.set_set, ← hshape] at this
  constructor
  · intro hT'
    have hfirst' := (List.forall₂_cons.mp hT'.unchanged).1
    have hold := extent_getD hfirst' (by rwa [List.length_set])
    have hnew := extent_getD hdims (by rwa [List.length_set])
    rw [getD_set_self haxis] at hold hnew
    have := hnew.unique hold
    rw [total_cons] at this
    exact (total_eq_zero hns).mp (by omega)
  · intro hzero
    have htotal : total (n :: ns) = n := by
      rw [total_cons, (total_eq_zero hns).mpr hzero, Int.add_zero]
    have hextent : HasExtent ops inputs ((σ' t.shape).getD axis (.int 0)) n := by
      have := extent_getD hdims (by rwa [List.length_set])
      rwa [getD_set_self haxis, htotal] at this
    subst hT
    refine ⟨hdims, fun idx hidx j t' n' ht' hn' hle hlt => ?_, ?_⟩
    · -- of the other inputs, none has an element
      cases j with
      | succ j =>
        have := hzero n' (List.mem_of_getElem? hn')
        omega
      | zero =>
        obtain rfl : t = t' := Option.some.inj ht'
        obtain rfl : n = n' := Option.some.inj hn'
        have hrank' : idx.length = (σ' t.shape).length := by
          rw [hidx.length_eq, List.length_set, hshape, List.length_set, hrank]
        rw [List.take_zero, show total [] = 0 from rfl, Int.zero_add] at hlt
        rw [List.take_zero, show total [] = 0 from rfl, Int.sub_zero]
        exact concatenateBody_first hrank' (by rwa [hshape, List.length_set, hrank]) hextent hlt
    · rw [htotal] at hdims
      refine h.imp fun t' n' ht' => ?_
      by_cases hshared : t'.shape = t.shape
      · -- an input that shares the array has the same extent
        rw [hshared] at ht' ⊢
        have hself := extent_getD hfirst (by rwa [List.length_set])
        have hother := extent_getD ht' (by rwa [List.length_set])
        rw [getD_set_self haxis] at hself hother
        rwa [hother.unique hself]
      · rwa [hσ', Function.update_of_ne hshared]

/-- What `concatenate` leaves behind is right if and only if the inputs after the first are empty. -/
theorem concatenate_exact {raw : Int} {name : String} (h : HasParts ops inputs σ axis ds ts ns)
    (hne : ts ≠ []) (haxis : axis < ds.length) (hraw : raw = axis ∨ raw = axis - ds.length)
    (hnonneg : ∀ n ∈ ns, 0 ≤ n) :
    ∃ T σ', Topi.concatenate σ ts raw name = .ok (T, σ') ∧
      (∀ t ∈ ts.head?, σ' t.shape ≠ σ t.shape) ∧
      (Concatenates ops inputs σ' ts axis ds ns T ↔ ∀ n ∈ ns.tail, n = 0) := by
  cases h with
  | nil => exact absurd rfl hne
  | @cons t n ts ns hfirst hrest =>
    have hparts : HasParts ops inputs σ axis ds (t :: ts) (n :: ns) := .cons hfirst hrest
    have hrank : (σ t.shape).length = ds.length := by rw [hfirst.length_eq, List.length_set]
    have haxis' : (if raw < 0 then raw + (σ t.shape).length else raw).toNat = axis := by
      rw [hrank]
      split <;> omega
    have hlen : HasExtent ops inputs (Topi.axis_len σ axis (.int 0) (t :: ts))
        (total (n :: ns)) := by
      have := hparts.axis_len haxis (hasExtent_int 0)
      rwa [show (0 : Int32).toInt = 0 from rfl, Int.zero_add] at this
    rw [Topi.concatenate]
    simp only [haxis']
    refine ⟨_, _, rfl, fun t' ht' => ?_, concatenates_iff hparts haxis hnonneg hlen rfl rfl⟩
    obtain rfl : t = t' := Option.some.inj ht'
    rw [Function.update_self]
    intro heq
    refine @axis_len_ne σ ts axis t ?_
    rw [← heq, ← List.getElem_eq_getD (h := by rwa [List.length_set, hrank]),
      List.getElem_set_self]

end Inputs

/-- Two vectors of the extents 2 and 3. -/
def vectors : List TensorNode :=
  [⟨0, .placeholder "a" [.int 2] (.Int 32)⟩, ⟨1, .placeholder "b" [.int 3] (.Int 32)⟩]

def vectorShapes : Shapes := fun a => if a = 0 then [.int 2] else [.int 3]

/-- The elements of the second vector are 10, 11 and 12. -/
def vectorElements {F : Type} : String → List Int → Scalar F := fun name idx =>
  .int (idx.getD 0 0 + if name = "a" then 0 else 10)

theorem vectors_hasParts {F : Type} {ops : FloatOps F} :
    HasParts ops vectorElements vectorShapes 0 [2] vectors [2, 3] :=
  .cons (.cons (hasExtent_int 2) .nil) (.cons (.cons (hasExtent_int 3) .nil) .nil)

theorem concatenate_vectors_exact : ∃ T σ',
    Topi.concatenate vectorShapes vectors 0 "c" = .ok (T, σ') ∧
      (∀ t ∈ vectors.head?, σ' t.shape ≠ vectorShapes t.shape) ∧
      (Concatenates FloatOps.zero vectorElements σ' vectors 0 [2] [2, 3] T ↔
        ∀ n ∈ [3], n = (0 : Int)) :=
  concatenate_exact vectors_hasParts (List.cons_ne_nil _ _) (by decide) (.inl rfl) (by decide)

/-- The element 2 of the output is outside the first vector, and is read from it. -/
theorem concatenate_vectors : ∃ T σ',
    Topi.concatenate vectorShapes vectors 0 "c" = .ok (T, σ') ∧
      ¬ Concatenates FloatOps.zero vectorElements σ' vectors 0 [2] [2, 3] T ∧
      T.op.element FloatOps.zero vectorElements [2] = .int 2 ∧
      ∀ t ∈ vectors[1]?, t.op.element FloatOps.zero vectorElements [0] = .int 10 := by
  have hextent : HasExtent FloatOps.zero vectorElements
      (Topi.axis_len vectorShapes 0 (.int 0) vectors) 5 :=
    vectors_hasParts.axis_len (by decide) (hasExtent_int 0)
  refine ⟨_, _, rfl, fun h => ?_, ?_, fun t ht => ?_⟩
  · have hempty := (concatenates_iff vectors_hasParts (by decide) (by decide) hextent rfl rfl).mp h
    exact absurd (hempty 3 (List.mem_singleton.mpr rfl)) (by decide)
  · have hfirst : ([2] : List Int).getD 0 0 < 5 := by decide
    exact @concatenateBody_first _ _ _ (fun _ => 0)
      (Function.update vectorShapes 0 [Topi.axis_len vectorShapes 0 (.int 0) vectors])
      vectors.tail [2] 0 ⟨0, .placeholder "a" [.int 2] (.Int 32)⟩ 1 5 rfl Nat.zero_lt_one hextent
      hfirst
  · obtain rfl := Option.some.inj ht
    rfl

end Kxc.Te
