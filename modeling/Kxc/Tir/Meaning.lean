import Kxc.Tir.Expr

/-! What a primitive expression says: its value with integers of any size, the elements of buffers
that it reads, and those in the operands that it skips. -/

namespace Kxc.Tir

open Lib.MachineNumber

/-- Is a value of a type. -/
def DataType.Holds {F : Type} (dtype : DataType) : Scalar F → Prop
  | .int v => dtype.code ≠ 2 ∧ dtype.intFormat.Fits v
  | .float _ => dtype.code = 2

/-- What the variables and buffers hold, each a value of its type. -/
structure Env (F : Type) extends Store Var F where
  vars_holds : ∀ v : Var, v.dtype.Holds (vars v)
  buffers_holds : ∀ (v : Var) i, v.dtype.Holds (buffers v i)

/-- `n` as a value of a type. -/
def typedConstant (n : Int) (dtype : DataType) : Scalar Unit :=
  if dtype.code = 2 then .float () else .int (dtype.intFormat.wrap n)

theorem typedConstant_holds (n : Int) (dtype : DataType) : dtype.Holds (typedConstant n dtype) := by
  rw [typedConstant]
  split
  · assumption
  · exact ⟨‹_›, IntFormat.wrap_fits _ _⟩

/-- Everything holds `n`. -/
def Env.constant (n : Int) : Env Unit where
  vars v := typedConstant n v.dtype
  buffers v _ := typedConstant n v.dtype
  vars_holds v := typedConstant_holds n v.dtype
  buffers_holds v _ := typedConstant_holds n v.dtype

/-- The format that two operands meet in, if one of them is a floating-point number. -/
def joinKind : Option FloatFormat → Option FloatFormat → Option FloatFormat
  | none, k => k
  | some f, none => some f
  | some f, some g => some (f.max g)

/-- `x` in the format `k`, if there is one; `own` is its own. -/
def toKind {F : Type} (ops : FloatOps F) (own k : Option FloatFormat) (x : Scalar F) : Scalar F :=
  match k with
  | none => x
  | some g => .float (x.toFloat ops (own.getD .double) g)

namespace BinaryOp

/-- Of integers. -/
def int (u v : Int) : BinaryOp → Int
  | Add => u + v
  | Sub => u - v
  | Mul => u * v
  | Div => u.tdiv v
  | Mod => u.tmod v
  | Min => if u < v then u else v
  | Max => if v < u then u else v
  | EQ => (decide (u = v)).toInt
  | LT => (decide (u < v)).toInt
  | And => (u != 0 && v != 0).toInt
  | Or => (u != 0 || v != 0).toInt

/-- Of numbers of a format. -/
def float {F : Type} (ops : FloatOps F) (f : FloatFormat) (x y : F) : BinaryOp → Scalar F
  | Add => .float (ops.add f x y)
  | Sub => .float (ops.sub f x y)
  | Mul => .float (ops.mul f x y)
  | Div => .float (ops.div f x y)
  | Mod => .float (ops.rem f x y)
  | Min => .float (if ops.lt x y then x else y)
  | Max => .float (if ops.lt y x then x else y)
  | EQ => .ofBool (ops.eq x y)
  | LT => .ofBool (ops.lt x y)
  | And => .ofBool ((!ops.eq x (ops.ofInt f 0)) && !ops.eq y (ops.ofInt f 0))
  | Or => .ofBool ((!ops.eq x (ops.ofInt f 0)) || !ops.eq y (ops.ofInt f 0))

/-- Of numbers in the format `k`, if there is one. -/
def apply {F : Type} (ops : FloatOps F) (op : BinaryOp) (k : Option FloatFormat)
    (x y : Scalar F) : Scalar F :=
  match x, y with
  | .int u, .int v => .int (op.int u v)
  | .float x, .float y => op.float ops (k.getD .double) x y
  | x, _ => x

end BinaryOp

namespace PrimExpr

/-- The format of a floating-point expression. -/
def kind : PrimExpr → Option FloatFormat
  | IntImm _ _ | Not _ => none
  | FloatImm _ dtype | Call dtype _ _ => dtype.floatFormat
  | Var var | Load var _ | PredicatedLoad var _ _ => var.dtype.floatFormat
  | Binary op a b => if op.isLogic then none else joinKind a.kind b.kind
  | Select _ true_value false_value => joinKind true_value.kind false_value.kind

/-- The bits that an integer expression is computed in when operands are extended to the wider
one. -/
def bits : PrimExpr → Nat
  | IntImm _ dtype | FloatImm _ dtype | Call dtype _ _ => dtype.bits.toNat
  | Var var | Load var _ | PredicatedLoad var _ _ => var.dtype.bits.toNat
  | Binary op a b => if op.isLogic then 1 else max a.bits b.bits
  | Not _ => 1
  | Select _ true_value false_value => max true_value.bits false_value.bits

/-- The name of a function without the prefix of the intermediate representation. -/
def functionName (name : String) : String :=
  if name = "tir.exp" then "exp"
  else if name = "tir.log" then "log"
  else if name = "tir.sqrt" then "sqrt"
  else if name = "tir.floor" then "floor"
  else if name = "tir.ceil" then "ceil"
  else if name = "tir.fabs" then "fabs"
  else name

variable {F : Type} (ops : FloatOps F) (σ : Store Tir.Var F)

/-- The value of an expression whose integers never overflow. -/
def value : PrimExpr → Scalar F
  | IntImm v _ => .int v.toInt
  | FloatImm v dtype => .float (ops.round (dtype.floatFormat.getD .double) v)
  | Var var => σ.vars var
  | Binary op a b =>
    let x := a.value
    let y := b.value
    match op with
    | .And => .ofBool
      (x.truth ops (a.kind.getD .double) && y.truth ops (b.kind.getD .double))
    | .Or => .ofBool
      (x.truth ops (a.kind.getD .double) || y.truth ops (b.kind.getD .double))
    | op =>
      let k := joinKind a.kind b.kind
      op.apply ops k (toKind ops a.kind k x) (toKind ops b.kind k y)
  | Not a => .ofBool (!a.value.truth ops (a.kind.getD .double))
  | Load var index =>
    match index.value with
    | .int i => σ.buffers var i
    | .float _ => .int 0
  | PredicatedLoad var index predicate =>
    if predicate.value.truth ops (predicate.kind.getD .double) then
      match index.value with
      | .int i => σ.buffers var i
      | .float _ => .int 0
    else toKind ops none var.dtype.floatFormat (.int 0)
  | Call dtype name arg =>
    match name == "cast", dtype.floatFormat, arg.value with
    | true, none, .int v => .int (dtype.intFormat.wrap v)
    | true, none, .float x => .int (ops.toInt x)
    | true, some g, x => toKind ops arg.kind (some g) x
    | false, k, x =>
      .float (ops.intrinsic (k.getD .double) (functionName name)
        (x.toFloat ops (arg.kind.getD .double) (k.getD .double)))
  | Select condition true_value false_value =>
    let k := joinKind true_value.kind false_value.kind
    if condition.value.truth ops (condition.kind.getD .double) then
      toKind ops true_value.kind k true_value.value
    else toKind ops false_value.kind k false_value.value

/-- Differs from zero. -/
def truth (e : PrimExpr) : Bool := (e.value ops σ).truth ops (e.kind.getD .double)

example (var : Tir.Var) : (Var var).value ops σ = σ.vars var := by rw [value]

section Branches

variable {ops σ} {var : Tir.Var} {a b index condition true_value false_value : PrimExpr}

theorem value_and_of_true (h : a.truth ops σ = true) :
    (Binary .And a b).value ops σ = .ofBool (b.truth ops σ) := by
  have h : (a.value ops σ).truth ops (a.kind.getD .double) = true := h
  show Scalar.ofBool (_ && _) = _
  rw [h, Bool.true_and]
  rfl

theorem value_and_of_false (h : a.truth ops σ = false) :
    (Binary .And a b).value ops σ = .ofBool false := by
  have h : (a.value ops σ).truth ops (a.kind.getD .double) = false := h
  show Scalar.ofBool (_ && _) = _
  rw [h, Bool.false_and]

theorem value_or_of_true (h : a.truth ops σ = true) :
    (Binary .Or a b).value ops σ = .ofBool true := by
  have h : (a.value ops σ).truth ops (a.kind.getD .double) = true := h
  show Scalar.ofBool (_ || _) = _
  rw [h, Bool.true_or]

theorem value_or_of_false (h : a.truth ops σ = false) :
    (Binary .Or a b).value ops σ = .ofBool (b.truth ops σ) := by
  have h : (a.value ops σ).truth ops (a.kind.getD .double) = false := h
  show Scalar.ofBool (_ || _) = _
  rw [h, Bool.false_or]
  rfl

theorem value_load_of_true (h : condition.truth ops σ = true) {i : Int}
    (hi : index.value ops σ = .int i) :
    (PredicatedLoad var index condition).value ops σ = σ.buffers var i := by
  have h : (condition.value ops σ).truth ops (condition.kind.getD .double) = true := h
  rw [value, if_pos h, hi]

theorem value_load_of_false (h : condition.truth ops σ = false) :
    (PredicatedLoad var index condition).value ops σ =
      toKind ops none var.dtype.floatFormat (.int 0) := by
  have h : (condition.value ops σ).truth ops (condition.kind.getD .double) = false := h
  rw [value, h, if_neg Bool.false_ne_true]

theorem value_select_of_true (h : condition.truth ops σ = true) :
    (Select condition true_value false_value).value ops σ =
      toKind ops true_value.kind (joinKind true_value.kind false_value.kind)
        (true_value.value ops σ) := by
  have h : (condition.value ops σ).truth ops (condition.kind.getD .double) = true := h
  rw [value, if_pos h]

theorem value_select_of_false (h : condition.truth ops σ = false) :
    (Select condition true_value false_value).value ops σ =
      toKind ops false_value.kind (joinKind true_value.kind false_value.kind)
        (false_value.value ops σ) := by
  have h : (condition.value ops σ).truth ops (condition.kind.getD .double) = false := h
  rw [value, h, if_neg Bool.false_ne_true]

end Branches

/-- The element that a load reads. -/
def element (var : Tir.Var) (index : PrimExpr) : List (Tir.Var × Int) :=
  match index.value ops σ with
  | .int i => [(var, i)]
  | .float _ => []

/-- The elements of buffers that are read when no operand is skipped. -/
def eagerReads : PrimExpr → List (Tir.Var × Int)
  | IntImm _ _ | FloatImm _ _ | Var _ => []
  | Binary _ a b => a.eagerReads ++ b.eagerReads
  | Not a | Call _ _ a => a.eagerReads
  | Load var index => index.eagerReads ++ element ops σ var index
  | PredicatedLoad var index predicate =>
    predicate.eagerReads ++ (index.eagerReads ++ element ops σ var index)
  | Select condition true_value false_value =>
    condition.eagerReads ++
      if condition.truth ops σ then true_value.eagerReads else false_value.eagerReads

/-- The elements that are read when the right operand of an `And` or `Or` that the left one decides
is skipped, and the element of a `Load` whose predicate is false. -/
def reads : PrimExpr → List (Tir.Var × Int)
  | IntImm _ _ | FloatImm _ _ | Var _ => []
  | Binary .And a b => a.reads ++ if a.truth ops σ then b.reads else []
  | Binary .Or a b => a.reads ++ if a.truth ops σ then [] else b.reads
  | Binary _ a b => a.reads ++ b.reads
  | Not a | Call _ _ a => a.reads
  | Load var index => index.reads ++ element ops σ var index
  | PredicatedLoad var index predicate =>
    predicate.reads ++
      if predicate.truth ops σ then index.reads ++ element ops σ var index else []
  | Select condition true_value false_value =>
    condition.reads ++ if condition.truth ops σ then true_value.reads else false_value.reads

/-- The elements in the operands that are skipped. -/
def skippedReads : PrimExpr → List (Tir.Var × Int)
  | IntImm _ _ | FloatImm _ _ | Var _ => []
  | Binary .And a b =>
    a.skippedReads ++ if a.truth ops σ then b.skippedReads else b.eagerReads ops σ
  | Binary .Or a b =>
    a.skippedReads ++ if a.truth ops σ then b.eagerReads ops σ else b.skippedReads
  | Binary _ a b => a.skippedReads ++ b.skippedReads
  | Not a | Call _ _ a => a.skippedReads
  | Load _ index => index.skippedReads
  | PredicatedLoad var index predicate =>
    predicate.skippedReads ++
      if predicate.truth ops σ then index.skippedReads
      else index.eagerReads ops σ ++ element ops σ var index
  | Select condition true_value false_value =>
    condition.skippedReads ++
      if condition.truth ops σ then true_value.skippedReads else false_value.skippedReads

/-- An element is read when no operand is skipped exactly if it is read otherwise, or skipped. -/
theorem mem_eagerReads (e : PrimExpr) (x : Tir.Var × Int) :
    x ∈ e.eagerReads ops σ ↔ x ∈ e.reads ops σ ∨ x ∈ e.skippedReads ops σ := by
  have hbinary {p q r s t u : Prop} (hp : p ↔ q ∨ r) (hs : s ↔ t ∨ u) :
      p ∨ s ↔ (q ∨ t) ∨ (r ∨ u) := by rw [hp, hs, or_or_or_comm]
  have hskip {p q r s : Prop} (hp : p ↔ q ∨ r) : p ∨ s ↔ (q ∨ x ∈ []) ∨ (r ∨ s) := by
    rw [hp, List.mem_nil_iff, or_false, or_assoc]
  induction e with
  | IntImm | FloatImm | Var => simp only [eagerReads, reads, skippedReads, List.mem_nil_iff, or_self]
  | Binary op a b iha ihb =>
    cases op
    case And =>
      cases h : a.truth ops σ <;> simp only [eagerReads, reads, skippedReads, h, List.mem_append]
      · exact hskip iha
      · exact hbinary iha ihb
    case Or =>
      cases h : a.truth ops σ <;> simp only [eagerReads, reads, skippedReads, h, List.mem_append]
      · exact hbinary iha ihb
      · exact hskip iha
    all_goals
      simp only [eagerReads, reads, skippedReads, List.mem_append]
      exact hbinary iha ihb
  | Not a ih | Call dtype name a ih => exact ih
  | Load var index ih =>
    simp only [eagerReads, reads, skippedReads, List.mem_append, ih, or_right_comm]
  | PredicatedLoad var index predicate ihi ihp =>
    have hload : x ∈ index.eagerReads ops σ ∨ x ∈ element ops σ var index ↔
        (x ∈ index.reads ops σ ∨ x ∈ element ops σ var index) ∨ x ∈ index.skippedReads ops σ :=
      (or_congr_left ihi).trans or_right_comm
    cases h : predicate.truth ops σ <;>
      simp only [eagerReads, reads, skippedReads, h, Bool.false_eq_true, if_true, if_false,
        List.mem_append]
    · exact hskip ihp
    · exact hbinary ihp hload
  | Select condition true_value false_value ihc iht ihf =>
    cases h : condition.truth ops σ <;>
      simp only [eagerReads, reads, skippedReads, h, List.mem_append]
    · exact hbinary ihc ihf
    · exact hbinary ihc iht

end PrimExpr

end Kxc.Tir
