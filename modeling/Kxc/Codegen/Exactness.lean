import Kxc.Codegen.CodeGenC
import Kxc.Codegen.CodeGenLLVM
import Kxc.Lib.StateExcept
import Kxc.Tir.Meaning

/-! When the C expression and the LLVM value of a primitive expression keep what the expression
says, and what types they have. -/

namespace Kxc.Codegen

open Lib Lib.MachineNumber Lib.CLanguage Lib.Llvm Tir

/-! ### What matters of a value -/

/-- All of a value matters, or its low bits. -/
inductive Demand where
  | exact
  | low (k : Nat)

namespace Demand

/-- What matters of an operand that has `bits` bits: one that is extended must be exact. -/
def operand (d : Demand) (bits : Nat) : Demand :=
  match d with
  | exact => exact
  | low k => if k ≤ bits then low k else exact

/-- There are as many bits as matter. -/
def Within (d : Demand) (bits : Nat) : Prop :=
  match d with
  | exact => True
  | low k => k ≤ bits

/-- `u` is `v`, as far as it matters. -/
def Meets (d : Demand) (u v : Int) : Prop :=
  match d with
  | exact => u = v
  | low k => u ≡ v [ZMOD 2 ^ k]

theorem Meets.refl (d : Demand) (v : Int) : d.Meets v v :=
  match d with
  | exact => rfl
  | low _ => Int.ModEq.refl v

theorem operand_within (d : Demand) (bits : Nat) : (d.operand bits).Within bits := by
  cases d with
  | exact => exact trivial
  | low k =>
    simp only [operand]
    split
    · assumption
    · exact trivial

/-- An operand that is as it must be is so for the whole. -/
theorem Meets.of_operand {d : Demand} {bits : Nat} {u v : Int} (h : (d.operand bits).Meets u v) :
    d.Meets u v := by
  cases d with
  | exact => exact h
  | low k =>
    simp only [operand] at h
    split at h
    · exact h
    · obtain rfl : u = v := h
      exact Meets.refl _ u

end Demand

/-! ### The conditions on a node -/

/-- The types of two operands in C meet in these integers. -/
def cCommon (a b : PrimExpr) : IntFormat :=
  match ((CodeGenC.GenExpr a).typed CodeGenC.typing).common
    ((CodeGenC.GenExpr b).typed CodeGenC.typing) with
  | .int f => f
  | .float _ => ⟨true, 32⟩

/-- Has a sign. -/
def signed (e : PrimExpr) : Bool := e.dtype.code == 0

/-- What matters of the operands of an operator. -/
def operandDemand (op : BinaryOp) (d : Demand) : Demand :=
  match op with
  | .Add | .Sub | .Mul => d
  | _ => .exact

/-- Integers `u` and `v` have the same result under an operator in both languages, as far as it
matters: in C in the integers `f`, and with `bits` bits that are read with the sign `signed` where
the operator depends on one. The result is read with the sign `first`. -/
def OpKeeps (op : BinaryOp) (d : Demand) (f : IntFormat) (bits : Nat) (first signed : Bool)
    (u v : Int) : Prop :=
  match op with
  | .Add | .Sub | .Mul =>
    match d with
    | .exact => f.Fits u ∧ f.Fits v ∧ f.Fits (op.int u v) ∧
      IntFormat.Fits ⟨first, bits⟩ (op.int u v)
    | .low k => k ≤ f.bits
  | .Div | .Mod => v ≠ 0 ∧ f.Fits u ∧ f.Fits v ∧ f.Fits (u.tdiv v) ∧
    IntFormat.Fits ⟨signed, bits⟩ u ∧ IntFormat.Fits ⟨signed, bits⟩ v ∧
    IntFormat.Fits ⟨signed, bits⟩ (u.tdiv v) ∧
    (d = .exact → IntFormat.Fits ⟨first, bits⟩ (op.int u v))
  | .Min | .Max => f.Fits u ∧ f.Fits v ∧
    IntFormat.Fits ⟨signed, bits⟩ u ∧ IntFormat.Fits ⟨signed, bits⟩ v ∧
    (d = .exact → IntFormat.Fits ⟨first, bits⟩ (op.int u v))
  | .EQ => f.Fits u ∧ f.Fits v ∧ (u ≡ v [ZMOD 2 ^ bits] → u = v)
  | .LT => f.Fits u ∧ f.Fits v ∧
    IntFormat.Fits ⟨signed, bits⟩ u ∧ IntFormat.Fits ⟨signed, bits⟩ v
  | .And | .Or => True

/-- The branch with value `v` that a `Select` takes is converted to the type of both. -/
def BranchKeeps (d : Demand) (f : IntFormat) (bits : Nat) (first : Bool) (v : Int) : Prop :=
  match d with
  | .exact => f.Fits v ∧ IntFormat.Fits ⟨first, bits⟩ v
  | .low k => k ≤ f.bits

/-- Has no division, which is undefined by zero. -/
def NoDivision : PrimExpr → Prop
  | .IntImm _ _ | .FloatImm _ _ | .Var _ => True
  | .Binary op a b => op ≠ .Div ∧ op ≠ .Mod ∧ NoDivision a ∧ NoDivision b
  | .Not a | .Call _ _ a | .Load _ a => NoDivision a
  | .PredicatedLoad _ index predicate => NoDivision index ∧ NoDivision predicate
  | .Select condition true_value false_value =>
    NoDivision condition ∧ NoDivision true_value ∧ NoDivision false_value

/-- Floating-point literals and calls have the same format in both languages. -/
def SameFormats : PrimExpr → Prop
  | .IntImm _ _ | .Var _ => True
  | .FloatImm value dtype => (CodeGenC.GenExpr (.FloatImm value dtype)).type CodeGenC.typing =
    dtype.floatFormat.map .float
  | .Call dtype name a => SameFormats a ∧
    libraryFormat (CodeGenC.functionName name) = dtype.floatFormat
  | .Binary _ a b => SameFormats a ∧ SameFormats b
  | .Not a | .Load _ a => SameFormats a
  | .PredicatedLoad _ index predicate => SameFormats index ∧ SameFormats predicate
  | .Select condition true_value false_value =>
    SameFormats condition ∧ SameFormats true_value ∧ SameFormats false_value

section

variable {F : Type} (ops : FloatOps F) (σ : Store Var F)

/-- As a truth value, a floating-point number is not the one that differs from itself. -/
def Ordered (e : PrimExpr) : Prop := ∀ x, e.value ops σ = .float x → ops.eq x x = true

/-- An index is not read as a negative one. -/
def IndexFits (index : PrimExpr) : Prop :=
  ∀ i, index.value ops σ = .int i → IntFormat.Fits ⟨true, index.bits⟩ i

/-- Both languages keep what matters of the value of an expression. -/
def Keeps : PrimExpr → Demand → Prop
  | .IntImm value dtype, _ => dtype.intFormat.Fits value.toInt
  | .FloatImm value dtype, _ =>
    ∀ f, dtype.floatFormat = some f → value.isInf = false → ops.decimal f value = ops.round f value
  | .Var _, _ => True
  | .Binary .And a b, _ => Keeps a .exact ∧ Ordered ops σ a ∧
    if a.truth ops σ then Keeps b .exact ∧ Ordered ops σ b else Keeps b .exact ∨ NoDivision b
  | .Binary .Or a b, _ => Keeps a .exact ∧ Ordered ops σ a ∧
    if a.truth ops σ then Keeps b .exact ∨ NoDivision b else Keeps b .exact ∧ Ordered ops σ b
  | .Binary op a b, d =>
    Keeps a ((operandDemand op d).operand a.bits) ∧
    Keeps b ((operandDemand op d).operand b.bits) ∧
    ∀ u v, a.value ops σ = .int u → b.value ops σ = .int v →
      OpKeeps op d (cCommon a b) (max a.bits b.bits) (signed a) (signed a || signed b) u v
  | .Not a, _ => Keeps a .exact ∧ Ordered ops σ a
  | .Load _ index, _ => Keeps index .exact ∧ IndexFits ops σ index
  | .PredicatedLoad _ index predicate, _ => Keeps predicate .exact ∧ Ordered ops σ predicate ∧
    if predicate.truth ops σ then Keeps index .exact ∧ IndexFits ops σ index
    else Keeps index .exact ∨ NoDivision index
  | .Call dtype name a, _ => Keeps a .exact ∧
    ∀ f, dtype.floatFormat = some f → ∀ x, x = (a.value ops σ).toFloat ops (a.kind.getD .double) f →
      ops.library (CodeGenC.functionName name) x =
        ops.intrinsic f (PrimExpr.functionName name) x
  | .Select condition true_value false_value, d =>
    Keeps condition .exact ∧ Ordered ops σ condition ∧
    if condition.truth ops σ then
      Keeps true_value (d.operand true_value.bits) ∧
      ∀ v, true_value.value ops σ = .int v → BranchKeeps d (cCommon true_value false_value)
        (max true_value.bits false_value.bits) (signed true_value) v
    else
      Keeps false_value (d.operand false_value.bits) ∧
      ∀ v, false_value.value ops σ = .int v → BranchKeeps d (cCommon true_value false_value)
        (max true_value.bits false_value.bits) (signed true_value) v

end

/-! ### The types of an expression -/

/-- The format of a floating-point type. -/
def cKind : CType → Option FloatFormat
  | .int _ => none
  | .float f => some f

/-- The LLVM type of an expression. -/
def llvmType (kind : Option FloatFormat) (bits : Nat) : LLVMType :=
  match kind with
  | none => .int bits
  | some f => .float f

theorem cKind_common (s t : CType) : cKind (s.common t) = joinKind (cKind s) (cKind t) := by
  cases s <;> cases t <;> rfl

/-- The type of a variable or an element of a buffer. -/
theorem cKind_promote {dtype : DataType} {t : CType}
    (h : (CodeGenC.DTypeToCType dtype).promote = some t) : cKind t = dtype.floatFormat := by
  by_cases hcode : dtype.code = 2
  · simp only [CodeGenC.DTypeToCType, if_pos hcode] at h
    simp only [DataType.floatFormat, hcode, ne_eq, not_true_eq_false, if_false]
    split at h
    · obtain rfl := Option.some.inj h
      rw [if_pos ‹_›]
      rfl
    · rw [if_neg ‹_›]
      split at h
      · obtain rfl := Option.some.inj h
        rw [if_pos ‹_›]
        rfl
      · rw [if_neg ‹_›]
        split at h
        · obtain rfl := Option.some.inj h
          rw [if_pos ‹_›]
          rfl
        · cases h
  · have hint {f : IntFormat} (h : (CTypeName.int f).promote = some t) : cKind t = none := by
      obtain rfl := Option.some.inj h
      split <;> rfl
    simp only [CodeGenC.DTypeToCType, if_neg hcode] at h
    rw [DataType.floatFormat, if_pos hcode]
    repeat' split at h
    all_goals first
      | exact hint h
      | cases h
        rfl
      | cases h

theorem GetLLVMType_eq {dtype : DataType} {t : LLVMType} (h : CodeGenLLVM.GetLLVMType dtype = .ok t)
    (hc : (CodeGenC.DTypeToCType dtype).promote ≠ none) :
    t = llvmType dtype.floatFormat dtype.bits.toNat := by
  by_cases hcode : dtype.code = 2
  · simp only [CodeGenLLVM.GetLLVMType, hcode, true_and] at h
    simp only [DataType.floatFormat, hcode, ne_eq, not_true_eq_false, if_false]
    repeat' split at h
    all_goals simp_all [llvmType]
  · simp only [CodeGenLLVM.GetLLVMType, hcode, false_and, if_false] at h
    rw [DataType.floatFormat, if_pos hcode]
    split at h
    · cases h
      rfl
    · simp_all [CodeGenC.DTypeToCType, CTypeName.promote]

theorem GetLLVMType_int {dtype : DataType} {bits : Nat}
    (h : CodeGenLLVM.GetLLVMType dtype = .ok (.int bits)) :
    dtype.floatFormat = none ∧ dtype.bits.toNat = bits := by
  simp only [CodeGenLLVM.GetLLVMType] at h
  split at h
  · cases h
  · split at h
    · cases h
    · split at h
      · cases h
      · split at h
        · rename_i hcode
          cases h
          refine ⟨if_pos fun h2 => ?_, rfl⟩
          rw [h2] at hcode
          exact absurd hcode (by decide)
        · split at h <;> cases h

theorem GetLLVMType_float {dtype : DataType} {f : FloatFormat}
    (h : CodeGenLLVM.GetLLVMType dtype = .ok (.float f)) : dtype.floatFormat = some f := by
  simp only [CodeGenLLVM.GetLLVMType] at h
  simp only [DataType.floatFormat]
  repeat' split at h
  all_goals cases h
  all_goals simp_all

theorem CastValue_type {V V' : CodeGenLLVM.Value} {t : LLVMType} {is_signed : Bool}
    (h : CodeGenLLVM.CastValue V t is_signed = .ok V') : V'.type = t := by
  simp only [CodeGenLLVM.CastValue] at h
  split at h
  · cases h
    assumption
  · split at h <;> cases h <;> rfl

theorem CastToBool_type {V V' : CodeGenLLVM.Value} (h : CodeGenLLVM.CastToBool V = .ok V') :
    V'.type = .int 1 := by
  rw [CodeGenLLVM.CastToBool] at h
  split at h
  · cases h
    split
    · rename_i bits htype hbits
      rw [htype, hbits]
    · rfl
  · cases h
    rfl
  · cases h

theorem CommonNumericType_eq {A B : CodeGenLLVM.Value} {k k' : Option FloatFormat} {m n : Nat}
    {t : LLVMType} (hA : A.type = llvmType k m) (hB : B.type = llvmType k' n)
    (h : CodeGenLLVM.CommonNumericType A B = .ok t) : t = llvmType (joinKind k k') (max m n) := by
  simp only [CodeGenLLVM.CommonNumericType, CodeGenLLVM.CommonIntegerType, hA, hB] at h
  cases k with
  | none =>
    cases k' with
    | none =>
      simp only [llvmType, CodeGenLLVM.isFloatingPointTy, LLVMType.int.injEq] at h
      split at h
      · rename_i hmn
        cases h
        rw [hmn, joinKind, llvmType, Nat.max_self]
      · cases h
        rfl
    | some g =>
      cases g <;> simp [llvmType, CodeGenLLVM.isFloatingPointTy] at h <;> exact h.symm
  | some f =>
    cases k' with
    | none => cases f <;> simp [llvmType, CodeGenLLVM.isFloatingPointTy] at h <;> exact h.symm
    | some g =>
      cases f <;> cases g <;> simp [llvmType, CodeGenLLVM.isFloatingPointTy] at h <;> exact h.symm

theorem type_lit {n : Nat} {ll : Bool} {t : CType}
    (h : (CExpr.lit n ll : CExpr Var).type CodeGenC.typing = some t) : cKind t = none := by
  rw [CExpr.type] at h
  repeat' split at h
  all_goals cases h
  all_goals rfl

/-- The operands of a C expression that has a type have types. -/
theorem type_binary {op : BinaryOp} {a b : PrimExpr} {t : CType}
    (h : (CodeGenC.GenExpr (.Binary op a b)).type CodeGenC.typing = some t) :
    ∃ s s', (CodeGenC.GenExpr a).type CodeGenC.typing = some s ∧
      (CodeGenC.GenExpr b).type CodeGenC.typing = some s' := by
  cases op
  case Add | Sub | Mul | Div | Mod =>
    obtain ⟨s, s', ha, hb, -⟩ := CExpr.type_arith h
    exact ⟨s, s', ha, hb⟩
  case Min | Max =>
    obtain ⟨r, s, s', -, ha, hb, -⟩ := CExpr.type_cond h
    exact ⟨s, s', ha, hb⟩
  case EQ | LT =>
    obtain ⟨s, s', ha, hb, -⟩ := CExpr.type_rel h
    exact ⟨s, s', ha, hb⟩
  case And | Or =>
    obtain ⟨s, s', ha, hb, -⟩ := CExpr.type_land h
    exact ⟨s, s', ha, hb⟩

/-- The type of the C expression of `e` is of its kind. -/
theorem GenExpr_cKind (e : PrimExpr) (hF : SameFormats e) {t : CType}
    (h : (CodeGenC.GenExpr e).type CodeGenC.typing = some t) : cKind t = e.kind := by
  have hcommon {a b : PrimExpr} {s s' t : CType} (ht : t = s.common s') (ha : cKind s = a.kind)
      (hb : cKind s' = b.kind) : cKind t = joinKind a.kind b.kind := by
    rw [ht, cKind_common, ha, hb]
  induction e generalizing t with
  | IntImm value dtype =>
    simp only [CodeGenC.GenExpr, CodeGenC.toLiteral] at h
    split at h
    · exact type_lit h
    · exact type_lit h
  | FloatImm value dtype =>
    rw [hF] at h
    obtain ⟨f, hf, rfl⟩ := Option.map_eq_some_iff.mp h
    exact hf.symm
  | Var var => exact cKind_promote h
  | Binary op a b iha ihb =>
    cases op
    case Add | Sub | Mul | Div | Mod =>
      obtain ⟨s, s', ha, hb, ht⟩ := CExpr.type_arith h
      exact hcommon ht (iha hF.1 ha) (ihb hF.2 hb)
    case Min | Max =>
      obtain ⟨r, s, s', -, ha, hb, ht⟩ := CExpr.type_cond h
      exact hcommon ht (iha hF.1 ha) (ihb hF.2 hb)
    case EQ | LT =>
      obtain ⟨s, s', -, -, rfl⟩ := CExpr.type_rel h
      rfl
    case And =>
      obtain ⟨s, s', -, -, rfl⟩ := CExpr.type_land h
      rfl
    case Or =>
      obtain ⟨s, s', -, -, rfl⟩ := CExpr.type_lor h
      rfl
  | Not a ih =>
    obtain ⟨s, -, rfl⟩ := CExpr.type_not h
    rfl
  | Load var index ih =>
    obtain ⟨f, -, ht⟩ := CExpr.type_index h
    exact cKind_promote ht
  | PredicatedLoad var index predicate ihi ihp =>
    obtain ⟨r, s, s', -, hindex, hzero, rfl⟩ := CExpr.type_cond h
    obtain ⟨f, -, ht⟩ := CExpr.type_index hindex
    rw [cKind_common, cKind_promote ht, type_lit hzero]
    show joinKind var.dtype.floatFormat none = var.dtype.floatFormat
    cases var.dtype.floatFormat <;> rfl
  | Call dtype name a ih =>
    obtain ⟨s, f, -, hf, rfl⟩ := CExpr.type_call h
    exact hf.symm.trans hF.2
  | Select condition true_value false_value ihc iht ihf =>
    obtain ⟨r, s, s', -, ht, hf, hs⟩ := CExpr.type_cond h
    exact hcommon hs (iht hF.2.1 ht) (ihf hF.2.2 hf)

/-- What `PromoteBinaryOperands` returns, on operands with their types. -/
theorem PromoteBinaryOperands_ok {A B A' B' : CodeGenLLVM.Value} {k k' : Option FloatFormat}
    {m n : Nat} {a_dtype b_dtype : DataType} (hA : A.type = llvmType k m)
    (hB : B.type = llvmType k' n)
    (h : CodeGenLLVM.PromoteBinaryOperands A B a_dtype b_dtype = .ok (A', B')) :
    CodeGenLLVM.CastValue A (llvmType (joinKind k k') (max m n)) (a_dtype.code == 0) = .ok A' ∧
    CodeGenLLVM.CastValue B (llvmType (joinKind k k') (max m n)) (b_dtype.code == 0) = .ok B' := by
  obtain ⟨t, ht, h⟩ := except_bind_eq_ok.mp h
  obtain ⟨A'', hA', h⟩ := except_bind_eq_ok.mp h
  obtain ⟨B'', hB', h⟩ := except_bind_eq_ok.mp h
  cases h
  rw [← CommonNumericType_eq hA hB ht]
  exact ⟨hA', hB'⟩

theorem promotedOp_type {op : BinaryOp} {is_signed : Bool} {A B V : CodeGenLLVM.Value}
    (h : CodeGenLLVM.promotedOp op is_signed A B = .ok V) :
    V.type = if op.isLogic then .int 1 else A.type := by
  cases op <;> simp only [CodeGenLLVM.promotedOp, Except.ok.injEq, reduceCtorEq] at h
  all_goals
    subst h
    cases CodeGenLLVM.isFloatingPointTy A.type <;> rfl

/-- The type of the LLVM value of `e` is of its kind, and has its bits. -/
theorem GenExpr_type (e : PrimExpr) {V : CodeGenLLVM.Value}
    (hV : CodeGenLLVM.GenExpr e = .ok V) {t : CType}
    (hC : (CodeGenC.GenExpr e).type CodeGenC.typing = some t) :
    V.type = llvmType e.kind e.bits := by
  induction e generalizing V t with
  | IntImm value dtype =>
    obtain ⟨s, hs, h⟩ := except_bind_eq_ok.mp hV
    split at h
    · obtain ⟨-, hbits⟩ := GetLLVMType_int hs
      cases h
      exact congrArg LLVMType.int hbits.symm
    · cases h
  | FloatImm value dtype =>
    obtain ⟨s, hs, h⟩ := except_bind_eq_ok.mp hV
    split at h
    · cases h
      rw [PrimExpr.kind, GetLLVMType_float hs]
      rfl
    · cases h
  | Var var =>
    obtain ⟨s, hs, h⟩ := except_bind_eq_ok.mp hV
    cases h
    exact GetLLVMType_eq hs fun hnone => by cases hnone.symm.trans hC
  | Binary op a b iha ihb =>
    obtain ⟨A, hA, h⟩ := except_bind_eq_ok.mp hV
    obtain ⟨B, hB, h⟩ := except_bind_eq_ok.mp h
    cases op
    case And =>
      obtain ⟨A', hA', h⟩ := except_bind_eq_ok.mp h
      obtain ⟨B', hB', h⟩ := except_bind_eq_ok.mp h
      cases h
      exact (CastToBool_type hA' : A'.type = _)
    case Or =>
      obtain ⟨A', hA', h⟩ := except_bind_eq_ok.mp h
      obtain ⟨B', hB', h⟩ := except_bind_eq_ok.mp h
      cases h
      exact (CastToBool_type hA' : A'.type = _)
    all_goals
      obtain ⟨⟨A', B'⟩, hpromote, h⟩ := except_bind_eq_ok.mp h
      obtain ⟨s, s', ha, hb⟩ := type_binary hC
      obtain ⟨hA', -⟩ := PromoteBinaryOperands_ok (iha hA ha) (ihb hB hb) hpromote
      have htype := promotedOp_type h
      rw [CastValue_type hA'] at htype
      exact htype
  | Not a ih =>
    obtain ⟨A, hA, h⟩ := except_bind_eq_ok.mp hV
    obtain ⟨A', hA', h⟩ := except_bind_eq_ok.mp h
    cases h
    exact (CastToBool_type hA' : A'.type = _)
  | Load var index ih =>
    obtain ⟨I, hI, h⟩ := except_bind_eq_ok.mp hV
    obtain ⟨s, hs, h⟩ := except_bind_eq_ok.mp h
    cases h
    obtain ⟨f, -, ht⟩ := CExpr.type_index hC
    exact GetLLVMType_eq hs fun hnone => by cases hnone.symm.trans ht
  | PredicatedLoad var index predicate ihi ihp =>
    obtain ⟨I, hI, h⟩ := except_bind_eq_ok.mp hV
    obtain ⟨s, hs, h⟩ := except_bind_eq_ok.mp h
    obtain ⟨P, hP, h⟩ := except_bind_eq_ok.mp h
    obtain ⟨P', hP', h⟩ := except_bind_eq_ok.mp h
    cases h
    obtain ⟨r, s', s'', -, hload, -⟩ := CExpr.type_cond hC
    obtain ⟨f, -, ht⟩ := CExpr.type_index hload
    exact GetLLVMType_eq hs fun hnone => by cases hnone.symm.trans ht
  | Call dtype name a ih =>
    obtain ⟨A, hA, h⟩ := except_bind_eq_ok.mp hV
    obtain ⟨s, hs, h⟩ := except_bind_eq_ok.mp h
    obtain ⟨r, f, -, hf, -⟩ := CExpr.type_call hC
    split at h
    · rename_i hcast
      rw [hcast] at hf
      have hnone : libraryFormat (CodeGenC.functionName "cast") = none := by decide
      cases hnone.symm.trans hf
    · obtain ⟨A', hA', h⟩ := except_bind_eq_ok.mp h
      obtain ⟨i, hi, h⟩ := except_bind_eq_ok.mp h
      cases h
      cases s with
      | float g =>
        rw [PrimExpr.kind, GetLLVMType_float hs]
        rfl
      | int | ptr | void => cases hi
  | Select condition true_value false_value ihc iht ihf =>
    obtain ⟨C, hC', h⟩ := except_bind_eq_ok.mp hV
    obtain ⟨C', hC'', h⟩ := except_bind_eq_ok.mp h
    obtain ⟨A, hA, h⟩ := except_bind_eq_ok.mp h
    obtain ⟨B, hB, h⟩ := except_bind_eq_ok.mp h
    obtain ⟨s, hs, h⟩ := except_bind_eq_ok.mp h
    obtain ⟨A', hA', h⟩ := except_bind_eq_ok.mp h
    obtain ⟨B', hB', h⟩ := except_bind_eq_ok.mp h
    cases h
    obtain ⟨r, s', s'', -, ha, hb, -⟩ := CExpr.type_cond hC
    exact CommonNumericType_eq (iht hA ha) (ihf hB hb) hs

end Kxc.Codegen
