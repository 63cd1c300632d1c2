import Kxc.Lib.IndexSpace
import Kxc.Te.Expr
import Kxc.Tir.Meaning
import Mathlib.Logic.Function.Basic
import Std.Data.String.ToNat

/-! What tensor expressions say: the elements of a tensor as functions of those of the placeholders,
with integers of any size and the indices of a reduction in row-major order. -/

namespace Kxc.Te

open Lib.MachineNumber Lib.IndexSpace
open Tir (DataType BinaryOp Var joinKind toKind)

namespace PrimExpr

/-- The format of a floating-point expression. -/
def kind : PrimExpr → Option FloatFormat
  | IntImm _ _ | Not _ => none
  | FloatImm _ dtype | Call dtype _ _ => dtype.floatFormat
  | Var var => var.dtype.floatFormat
  | Binary op a b => if op.isLogic then none else joinKind a.kind b.kind
  | Select _ true_value false_value => joinKind true_value.kind false_value.kind
  | ProducerLoad tensor _ => tensor.dtype.floatFormat
  | Reduce _ source _ => source.kind

end PrimExpr

/-- The values of some variables, and of the others. -/
def bind (vars : List Var) (idx : List Int) (ρ : Var → Int) (v : Var) : Int :=
  ((vars.zip idx).lookup v).getD (ρ v)

/-- An index, if it is an integer. -/
def toIndex {F : Type} : Scalar F → Int
  | .int i => i
  | .float _ => 0

section Operations

variable {F : Type} (ops : FloatOps F)

/-- A binary operation on operands of the kinds `k` and `l`. -/
def applyBinary (op : BinaryOp) (k l : Option FloatFormat) (x y : Scalar F) : Scalar F :=
  match op with
  | .And => .ofBool (x.truth ops (k.getD .double) && y.truth ops (l.getD .double))
  | .Or => .ofBool (x.truth ops (k.getD .double) || y.truth ops (l.getD .double))
  | op => op.apply ops (joinKind k l) (toKind ops k (joinKind k l) x) (toKind ops l (joinKind k l) y)

/-- A call with an argument of the kind `k`. -/
def applyCall (dtype : DataType) (name : String) (k : Option FloatFormat) (x : Scalar F) :
    Scalar F :=
  match name == "cast", dtype.floatFormat, x with
  | true, none, .int v => .int (dtype.intFormat.wrap v)
  | true, none, .float x => .int (ops.toInt x)
  | true, some g, x => toKind ops k (some g) x
  | false, g, x =>
    .float (ops.intrinsic (g.getD .double) (Tir.PrimExpr.functionName name)
      (x.toFloat ops (k.getD .double) (g.getD .double)))

namespace ReduceType

/-- The operation that a reduction repeats. -/
def op : ReduceType → BinaryOp
  | kSum => .Add
  | kMax => .Max
  | kMin => .Min

/-- The value of a reduction over nothing. -/
def neutral (dtype : DataType) (type : ReduceType) : Scalar F :=
  match dtype.floatFormat with
  | some f => .float (ops.round f (match type with
    | kSum => 0
    | kMax => -(1.0 / 0.0)
    | kMin => 1.0 / 0.0))
  | none => .int (match type with
    | kSum => 0
    | kMax => Int64.minValue.toInt
    | kMin => Int64.maxValue.toInt)

/-- The reduction of some values of a kind, from left to right. -/
def reduce (type : ReduceType) (dtype : DataType) (k : Option FloatFormat) :
    List (Scalar F) → Scalar F
  | [] => type.neutral ops dtype
  | x :: xs => xs.foldl (applyBinary ops type.op k k) x

end ReduceType

end Operations

section Values

variable {F : Type} (ops : FloatOps F) (inputs : String → List Int → Scalar F)

mutual

/-- The value of an expression. A literal is a number of its type. -/
def PrimExpr.value (ρ : Var → Int) : PrimExpr → Scalar F
  | .IntImm v dtype => .int (dtype.intFormat.wrap v.toInt)
  | .FloatImm v dtype => .float (ops.round (dtype.floatFormat.getD .double) v)
  | .Var v => .int (ρ v)
  | .Binary op a b => applyBinary ops op a.kind b.kind (a.value ρ) (b.value ρ)
  | .Not a => .ofBool (!(a.value ρ).truth ops (a.kind.getD .double))
  | .Call dtype name arg => applyCall ops dtype name arg.kind (arg.value ρ)
  | .Select condition true_value false_value =>
    let k := joinKind true_value.kind false_value.kind
    if (condition.value ρ).truth ops (condition.kind.getD .double) then
      toKind ops true_value.kind k (true_value.value ρ)
    else toKind ops false_value.kind k (false_value.value ρ)
  | .ProducerLoad tensor indices => tensor.element (PrimExpr.indices ρ indices)
  | .Reduce axis source type =>
    type.reduce ops source.dtype source.kind
      (((indexSpace (IterVar.extents ρ axis)).map (List.zipWith (· + ·) (IterVar.mins ρ axis))).map
        fun is => source.value (bind (axis.map IterVar.var) is ρ))

/-- The values of some indices. -/
def PrimExpr.indices (ρ : Var → Int) : List PrimExpr → List Int
  | [] => []
  | e :: es => toIndex (e.value ρ) :: PrimExpr.indices ρ es

def IterVar.mins (ρ : Var → Int) : List IterVar → List Int
  | [] => []
  | iter_var :: axis => iter_var.min ρ :: IterVar.mins ρ axis

def IterVar.extents (ρ : Var → Int) : List IterVar → List Int
  | [] => []
  | iter_var :: axis => iter_var.extent ρ :: IterVar.extents ρ axis

def IterVar.min (ρ : Var → Int) : IterVar → Int
  | .mk _ dom_min _ => toIndex (dom_min.value ρ)

def IterVar.extent (ρ : Var → Int) : IterVar → Int
  | .mk _ _ dom_extent => toIndex (dom_extent.value ρ)

/-- The element of a tensor at an index. -/
def Tensor.element : Tensor → List Int → Scalar F
  | .placeholder name _ _, idx => inputs name idx
  | .compute _ axis body _, idx => body.value (bind axis idx fun _ => 0)

end

end Values

/-! ### Literals -/

section Literals

variable {F : Type} {ops : FloatOps F} {inputs : String → List Int → Scalar F} {ρ : Var → Int}

theorem int32_fits (n : Int32) : IntFormat.Fits ⟨true, 32⟩ n.toInt :=
  IntFormat.fits_signed.mpr ⟨n.le_toInt, n.toInt_lt⟩

theorem int64_fits (n : Int64) : IntFormat.Fits ⟨true, 64⟩ n.toInt :=
  IntFormat.fits_signed.mpr ⟨n.le_toInt, n.toInt_lt⟩

@[simp] theorem value_int (n : Int32) : (PrimExpr.int n).value ops inputs ρ = .int n.toInt := by
  have hfits := int32_fits n
  show Scalar.int (IntFormat.wrap ⟨true, 32⟩ n.toInt64.toInt) = _
  rw [Int32.toInt_toInt64, hfits]

@[simp] theorem value_int64 (n : Int64) :
    (PrimExpr.IntImm n (.Int 64)).value ops inputs ρ = .int n.toInt :=
  congrArg Scalar.int (int64_fits n)

end Literals

/-! ### Shapes -/

section Shapes

variable {F : Type} (ops : FloatOps F) (inputs : String → List Int → Scalar F)

/-- An expression is an integer at some values of the variables. -/
structure HasIndex (ρ : Var → Int) (e : PrimExpr) (n : Int) : Prop where
  kind : e.kind = none
  value : e.value ops inputs ρ = .int n

/-- A dimension of a shape is an integer, whatever the variables are. A literal fits its type. -/
structure HasExtent (e : PrimExpr) (n : Int) : Prop where
  kind : e.kind = none
  value : ∀ ρ, e.value ops inputs ρ = .int n
  literal : ∀ v dtype, e = PrimExpr.IntImm v dtype → v.toInt = n

/-- The extents of a tensor. -/
def HasDims (t : Tensor) (dims : List Int) : Prop :=
  List.Forall₂ (HasExtent ops inputs) t.shape dims

/-- `ShapeFromTensorType`. -/
def ShapeFromTensorType (dims : List Int64) : List PrimExpr := dims.map (.IntImm · (.Int 64))

variable {ops inputs}

theorem indices_extents {es : List PrimExpr} {dims : List Int}
    (h : List.Forall₂ (HasExtent ops inputs) es dims) (ρ : Var → Int) :
    PrimExpr.indices ops inputs ρ es = dims := by
  induction h with
  | nil => rfl
  | cons he _ ih =>
    rw [PrimExpr.indices, he.value, ih]
    rfl

theorem HasDims.length_eq {t : Tensor} {dims : List Int} (h : HasDims ops inputs t dims) :
    t.shape.length = dims.length := List.Forall₂.length_eq h

theorem HasExtent.unique {e : PrimExpr} {n n' : Int} (h : HasExtent ops inputs e n)
    (h' : HasExtent ops inputs e n') : n = n' :=
  Scalar.int.inj ((h.value fun _ => 0).symm.trans (h'.value fun _ => 0))

theorem hasExtent_int (n : Int32) : HasExtent ops inputs (.int n) n.toInt where
  kind := rfl
  value ρ := value_int n
  literal v dtype h := by
    obtain ⟨rfl, -⟩ := PrimExpr.IntImm.inj h
    exact Int32.toInt_toInt64 n

theorem hasExtent_int64 (n : Int64) : HasExtent ops inputs (.IntImm n (.Int 64)) n.toInt where
  kind := rfl
  value ρ := value_int64 n
  literal v dtype h := by
    obtain ⟨rfl, -⟩ := PrimExpr.IntImm.inj h
    rfl

theorem HasExtent.hasIndex {e : PrimExpr} {n : Int} (h : HasExtent ops inputs e n) (ρ : Var → Int) :
    HasIndex ops inputs ρ e n := ⟨h.kind, h.value ρ⟩

theorem HasIndex.binary {ρ : Var → Int} {a b : PrimExpr} {m n : Int}
    (ha : HasIndex ops inputs ρ a m) (hb : HasIndex ops inputs ρ b n) (op : BinaryOp)
    (hop : op.isLogic = false) : HasIndex ops inputs ρ (.Binary op a b) (op.int m n) where
  kind := by rw [PrimExpr.kind, hop, ha.kind, hb.kind]; rfl
  value := by
    rw [PrimExpr.value, ha.kind, hb.kind, ha.value, hb.value]
    cases op with
    | And => cases hop
    | Or => cases hop
    | _ => rfl

theorem hasIndex_int {ρ : Var → Int} (n : Int32) : HasIndex ops inputs ρ (.int n) n.toInt :=
  ⟨rfl, value_int n⟩

theorem hasIndex_var {ρ : Var → Int} (s : String) :
    HasIndex ops inputs ρ (.Var (intVar s)) (ρ (intVar s)) := ⟨rfl, rfl⟩

/-- Extents are computed with. -/
theorem HasExtent.binary {a b : PrimExpr} {m n : Int} (ha : HasExtent ops inputs a m)
    (hb : HasExtent ops inputs b n) (op : BinaryOp) (hop : op.isLogic = false) :
    HasExtent ops inputs (.Binary op a b) (op.int m n) where
  kind := ((ha.hasIndex fun _ => 0).binary (hb.hasIndex _) op hop).kind
  value ρ := ((ha.hasIndex ρ).binary (hb.hasIndex ρ) op hop).value
  literal v dtype h := by cases h

theorem placeholder_hasDims (name : String) (dims : List Int64) (dtype : DataType) :
    HasDims ops inputs (.placeholder name (ShapeFromTensorType dims) dtype)
      (dims.map Int64.toInt) := by
  show List.Forall₂ _ (dims.map _) (dims.map _)
  rw [List.forall₂_map_left_iff, List.forall₂_map_right_iff]
  exact List.forall₂_same.mpr fun n _ => hasExtent_int64 n

end Shapes

/-! ### Variables -/

section Variables

variable {vars : List Var} {idx : List Int} {ρ : Var → Int} {v : Var} {n i : Nat}

theorem bind_of_notMem (h : v ∉ vars) : bind vars idx ρ v = ρ v := by
  have hnone : (vars.zip idx).lookup v = none := by
    refine List.lookup_eq_none_iff.mpr fun p hp => ?_
    rw [bne_iff_ne]
    rintro rfl
    exact h (List.of_mem_zip hp).1
  rw [bind, hnone, Option.getD_none]

theorem bind_cons_self {x : Int} : bind (v :: vars) (x :: idx) ρ v = x := by
  simp [bind]

theorem bind_cons_ne {w : Var} {x : Int} (h : v ≠ w) :
    bind (w :: vars) (x :: idx) ρ v = bind vars idx ρ v := by
  have hne : (v == w) = false := beq_false_of_ne h
  simp [bind, List.lookup_cons, hne]

/-- Of distinct variables, each has its value. -/
theorem bind_map_range {f : Nat → Var} (hf : Function.Injective f) (hlen : idx.length = n)
    (hi : i < n) : bind ((List.range n).map f) idx ρ (f i) = idx.getD i 0 := by
  induction n generalizing f idx i with
  | zero => omega
  | succ n ih =>
    obtain ⟨x, idx, rfl⟩ := List.exists_cons_of_length_eq_add_one hlen
    rw [List.range_succ_eq_map, List.map_cons, List.map_map]
    cases i with
    | zero => exact bind_cons_self
    | succ i =>
      rw [bind_cons_ne (hf.ne (Nat.succ_ne_zero i))]
      exact ih (hf.comp (Nat.succ_injective)) (Nat.succ.inj hlen) (Nat.lt_of_succ_lt_succ hi)

theorem intVar_injective : Function.Injective intVar := fun _ _ h => (Var.mk.inj h).1

theorem axisVar_injective : Function.Injective fun i : Nat => intVar s!"ax{i}" :=
  intVar_injective.comp fun _ _ h => Nat.repr_injective (String.append_right_inj _ |>.mp h)

/-- A numbered name differs from the names that start otherwise. -/
theorem numbered_ne {p s : String} {c : Char} (hp : p.toList.head? = some c)
    (hs : s.toList.head? ≠ some c) (i : Nat) : intVar (p ++ toString i) ≠ intVar s := by
  intro heq
  rw [← intVar_injective heq] at hs
  exact hs (by simp [hp])

theorem axisVar_ne {s : String} (h : s.toList.head? ≠ some 'a') (i : Nat) :
    intVar s!"ax{i}" ≠ intVar s :=
  numbered_ne (by simp : "ax".toList.head? = _) h i

theorem bind_axisVars (hlen : idx.length = n) (hi : i < n) :
    bind (axisVars n) idx ρ (intVar s!"ax{i}") = idx.getD i 0 :=
  bind_map_range axisVar_injective hlen hi

variable {F : Type} (ops : FloatOps F) (inputs : String → List Int → Scalar F)

theorem indices_eq_map (es : List PrimExpr) :
    PrimExpr.indices ops inputs ρ es = es.map fun e => toIndex (e.value ops inputs ρ) := by
  induction es with
  | nil => rfl
  | cons e es ih => rw [PrimExpr.indices, ih, List.map_cons]

theorem indices_vars (vars : List Var) :
    PrimExpr.indices ops inputs ρ (vars.map .Var) = vars.map ρ := by
  rw [indices_eq_map, List.map_map]
  rfl

/-- The axes of a `compute` stand for the index. -/
theorem indices_axisVars (hlen : idx.length = n) :
    PrimExpr.indices ops inputs (bind (axisVars n) idx ρ) ((axisVars n).map .Var) = idx := by
  rw [indices_vars, axisVars, List.map_map]
  refine List.ext_getElem (by simpa using hlen.symm) fun i hi hi' => ?_
  rw [List.getElem_map, List.getElem_range]
  have hin : i < n := by simpa using hi
  exact (bind_axisVars hlen hin).trans (List.getElem_eq_getD 0).symm

/-- A tensor at the index of a `compute`. -/
theorem value_at_axisVars (tensor : Tensor) (hlen : idx.length = n) :
    (tensor.at ((axisVars n).map .Var)).value ops inputs (bind (axisVars n) idx ρ) =
      tensor.element ops inputs idx := by
  rw [Tensor.at, PrimExpr.value, indices_axisVars ops inputs hlen]

end Variables

end Kxc.Te
