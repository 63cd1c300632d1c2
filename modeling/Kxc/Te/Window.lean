import Kxc.Te.Contraction

/-! Windows that move over a padded tensor: what `conv2d_nchw` and `pool2d` read. -/

namespace Kxc.Te.Topi

open Lib.MachineNumber Lib.IndexSpace
open Tir (DataType BinaryOp Var joinKind toKind)

/-- How windows move along an axis. -/
structure Sweep where
  stride : Int
  dilation : Int
  pad : Int

/-- The place of a tap of a window. -/
def Sweep.position (s : Sweep) (window tap : Int) : Int :=
  window * s.stride + tap * s.dilation - s.pad

/-- A place is in a plane. -/
def Inside (H W h w : Int) : Prop := 0 ≤ h ∧ h < H ∧ 0 ≤ w ∧ w < W

instance (H W h w : Int) : Decidable (Inside H W h w) := inferInstanceAs (Decidable (_ ∧ _))

section Values

variable {F : Type} {ops : FloatOps F} {inputs : String → List Int → Scalar F} {ρ : Var → Int}

variable {a b : PrimExpr} {m n : Int}

theorem value_lt (ha : HasIndex ops inputs ρ a m) (hb : HasIndex ops inputs ρ b n) :
    (lt a b).value ops inputs ρ = .ofBool (decide (m < n)) := by
  rw [lt, PrimExpr.value, ha.kind, hb.kind, ha.value, hb.value]
  rfl

theorem truth_ofBool (f : FloatFormat) (p : Bool) : (Scalar.ofBool p).truth ops f = p := by
  cases p <;> rfl

theorem value_ge (ha : HasIndex ops inputs ρ a m) (hb : HasIndex ops inputs ρ b n) :
    (ge a b).value ops inputs ρ = .ofBool (decide (n ≤ m)) := by
  rw [ge, PrimExpr.value]
  show Scalar.ofBool (!Scalar.truth ops _ ((lt a b).value ops inputs ρ)) = _
  rw [value_lt ha hb, truth_ofBool, ← decide_not, decide_eq_decide.mpr Int.not_lt]

theorem value_and {p q : Bool} (ha : a.value ops inputs ρ = .ofBool p)
    (hb : b.value ops inputs ρ = .ofBool q) : (and a b).value ops inputs ρ = .ofBool (p && q) := by
  rw [and, PrimExpr.value, ha, hb, applyBinary, truth_ofBool, truth_ofBool]

theorem value_inBounds {h w H W : PrimExpr} {i j M N : Int} (hh : HasIndex ops inputs ρ h i)
    (hw : HasIndex ops inputs ρ w j) (hH : HasIndex ops inputs ρ H M)
    (hW : HasIndex ops inputs ρ W N) :
    (inBounds h w H W).value ops inputs ρ = .ofBool (decide (Inside M N i j)) := by
  have hzero : HasIndex ops inputs ρ (.int 0) 0 := hasIndex_int 0
  rw [inBounds, value_and (value_and (value_and (value_ge hh hzero) (value_lt hh hH))
    (value_ge hw hzero)) (value_lt hw hW)]
  congr 1
  rw [Bool.eq_iff_iff]
  simp only [Bool.and_eq_true, decide_eq_true_eq, and_assoc]
  rfl

/-- An element that is read within a plane, and another one beyond it. -/
theorem value_guarded {h w H W x outside : PrimExpr} {i j M N : Int} {k : Option FloatFormat}
    (hh : HasIndex ops inputs ρ h i) (hw : HasIndex ops inputs ρ w j)
    (hH : HasIndex ops inputs ρ H M) (hW : HasIndex ops inputs ρ W N) (hx : x.kind = k)
    (houtside : outside.kind = k) :
    (PrimExpr.Select (inBounds h w H W) x outside).value ops inputs ρ =
      toKind ops k k (if Inside M N i j then x.value ops inputs ρ else outside.value ops inputs ρ) := by
  rw [PrimExpr.value, value_inBounds hh hw hH hW, hx, houtside, joinKind_self]
  simp only [truth_ofBool, decide_eq_true_eq]
  split <;> rfl

/-- An operand is brought to its kind once. -/
theorem applyBinary_toKind {op : BinaryOp} (hop : op.isLogic = false) (k : Option FloatFormat)
    (x y : Scalar F) : applyBinary ops op k k (toKind ops k k x) y = applyBinary ops op k k x y := by
  have htwice : toKind ops k k (toKind ops k k x) = toKind ops k k x := by
    cases k with
    | none => rfl
    | some f => simp [toKind, Scalar.toFloat]
  cases op with
  | And => cases hop
  | Or => cases hop
  | _ => simp only [applyBinary, joinKind_self, htwice]

end Values

/-! ### Convolution -/

section Convolution

variable {F : Type} {ops : FloatOps F} {inputs : String → List Int → Scalar F}
  {data kernel : Tensor} {name : String} {N C H W O I KH KW : Int}
  {stride_h stride_w pad_h pad_w dilation_h dilation_w : Int32}

/-- The number of windows of a kernel along an axis in `conv2d_nchw`. -/
def convExtent (H KH : Int) (stride pad dilation : Int32) : Int :=
  (H + (2 * pad).toInt - ((KH - 1) * dilation.toInt + 1)).tdiv stride.toInt + 1

theorem conv2d_dims (hdata : HasDims ops inputs data [N, C, H, W])
    (hkernel : HasDims ops inputs kernel [O, I, KH, KW]) :
    HasDims ops inputs (conv2d_nchw data kernel stride_h stride_w pad_h pad_w dilation_h dilation_w
      name) [N, O, convExtent H KH stride_h pad_h dilation_h,
        convExtent W KW stride_w pad_w dilation_w] := by
  have hextent {e e' : PrimExpr} {n k : Int} (h : HasExtent ops inputs e n)
      (h' : HasExtent ops inputs e' k) (stride pad dilation : Int32) :
      HasExtent ops inputs ((e + .int (2 * pad) - ((e' - .int 1) * .int dilation + .int 1)) /
        .int stride + .int 1) (convExtent n k stride pad dilation) := by
    have hkernel := ((h'.binary (hasExtent_int 1) .Sub rfl).binary (hasExtent_int dilation)
      .Mul rfl).binary (hasExtent_int 1) .Add rfl
    exact ((((h.binary (hasExtent_int (2 * pad)) .Add rfl).binary hkernel .Sub rfl).binary
      (hasExtent_int stride) .Div rfl).binary (hasExtent_int 1) .Add rfl)
  have hd {i : Nat} := @dimOf_extent _ ops inputs data _ hdata i
  have hk {i : Nat} := @dimOf_extent _ ops inputs kernel _ hkernel i
  exact .cons (hd (i := 0) (by simp)) (.cons (hk (i := 0) (by simp))
    (.cons (hextent (hd (i := 2) (by simp)) (hk (i := 2) (by simp)) _ _ _)
      (.cons (hextent (hd (i := 3) (by simp)) (hk (i := 3) (by simp)) _ _ _) .nil)))

/-- A sum of products over the taps of `I` channels, those of the first operand from `first` on.
Beyond the plane it is zero. -/
def convolution (ops : FloatOps F) (dtype : DataType) (x y : List Int → Scalar F) (H W : Int)
    (rows columns : Sweep) (I KH KW first n o h w : Int) : Scalar F :=
  ReduceType.kSum.reduce ops dtype dtype.floatFormat ((indexSpace [I, KH, KW]).map fun tap =>
    let i := rows.position h (tap.getD 1 0)
    let j := columns.position w (tap.getD 2 0)
    applyBinary ops .Mul dtype.floatFormat dtype.floatFormat
      (if Inside H W i j then x [n, first + tap.getD 0 0, i, j] else constant ops dtype 0)
      (y (o :: tap)))

end Convolution

end Kxc.Te.Topi
