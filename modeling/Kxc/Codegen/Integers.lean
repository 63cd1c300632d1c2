import Kxc.Codegen.Exactness

/-! The LLVM code of expressions of integers and truth values. -/

namespace Kxc.Codegen

open Lib Lib.MachineNumber Lib.Llvm Tir
open Lib.Llvm.LLVMValue (IsInt)

/-- Expressions all whose parts are integers or truth values. The code generator has no call of an
integer type but `cast`. -/
def IsInteger : PrimExpr → Prop
  | .IntImm _ dtype => dtype.code = 0 ∨ dtype.code = 1
  | .FloatImm _ _ => False
  | .Var var => var.dtype.code = 0 ∨ var.dtype.code = 1
  | .Binary _ a b => IsInteger a ∧ IsInteger b
  | .Not a => IsInteger a
  | .Load buffer_var index => (buffer_var.dtype.code = 0 ∨ buffer_var.dtype.code = 1) ∧ IsInteger index
  | .PredicatedLoad buffer_var index predicate =>
    (buffer_var.dtype.code = 0 ∨ buffer_var.dtype.code = 1) ∧ IsInteger index ∧ IsInteger predicate
  | .Call dtype name arg => (dtype.code = 0 ∨ dtype.code = 1) ∧ name = "cast" ∧ IsInteger arg
  | .Select condition true_value false_value =>
    IsInteger condition ∧ IsInteger true_value ∧ IsInteger false_value

theorem GetLLVMType_integral {dtype : DataType} (h : dtype.code = 0 ∨ dtype.code = 1) :
    CodeGenLLVM.GetLLVMType dtype = .ok (.int dtype.bits.toNat) := by
  have hcode : dtype.code ≠ 2 := by
    rintro h2
    rw [h2] at h
    exact absurd h (by decide)
  simp only [CodeGenLLVM.GetLLVMType, hcode, false_and, if_false, if_pos h]

theorem GenExpr_literal {dtype : DataType} (h : dtype.code = 0 ∨ dtype.code = 1) (value : Int64) :
    CodeGenLLVM.GenExpr (.IntImm value dtype) =
      .ok (.const dtype.bits.toNat (BitVec.ofInt dtype.bits.toNat value.toInt)) :=
  except_bind_eq_ok.mpr ⟨_, GetLLVMType_integral h, rfl⟩

variable {F : Type} {ops : FloatOps F}

theorem CastValue_isInt {A : CodeGenLLVM.Value} {m : Nat} (h : IsInt ops m A) (n : Nat)
    (is_signed : Bool) :
    ∃ A', CodeGenLLVM.CastValue A (.int n) is_signed = .ok A' ∧ IsInt ops n A' := by
  by_cases hmn : A.type = .int n
  · refine ⟨A, if_pos hmn, ?_⟩
    obtain rfl : m = n := LLVMType.int.inj (h.type_eq.symm.trans hmn)
    exact h
  · refine ⟨.cast (if is_signed then .sextOrTrunc else .zextOrTrunc) (.int n) A, ?_,
      h.cast n is_signed⟩
    rw [CodeGenLLVM.CastValue, if_neg hmn]
    exacts [m, h.type_eq]

/-- A word that is extended, or truncated. -/
theorem CastValue_int (ops : FloatOps F) {A : CodeGenLLVM.Value} {m : Nat} (htype : A.type = .int m)
    (n : Nat) (s : Bool) :
    ∃ A', CodeGenLLVM.CastValue A (.int n) s = .ok A' ∧ A'.type = .int n ∧
      ∀ σ x, A.eval ops σ = some (.int m x) →
        A'.eval ops σ = some (.int n (BitVec.ofInt n (readWord s x))) := by
  by_cases hmn : m = n
  · subst hmn
    refine ⟨A, if_pos htype, htype, fun σ x hx => ?_⟩
    rw [hx, ofInt_read]
  · refine ⟨.cast (if s then .sextOrTrunc else .zextOrTrunc) (.int n) A, ?_, rfl, fun σ x hx => ?_⟩
    · unfold CodeGenLLVM.CastValue
      rw [htype, if_neg fun h => hmn (LLVMType.int.inj h)]
    · rw [← extend_eq, LLVMValue.eval, hx]
      cases s <;> rfl

/-- A literal that is extended, or truncated. -/
theorem CastValue_literal {m : Nat} (n : Nat) (s : Bool) (u : Int) :
    ∃ L : CodeGenLLVM.Value, CodeGenLLVM.CastValue (.const m (BitVec.ofInt m u)) (.int n) s = .ok L ∧
      L.type = .int n ∧
      ∀ σ : Store Var F, L.eval ops σ = some (.int n (BitVec.ofInt n (IntFormat.wrap ⟨s, m⟩ u))) := by
  obtain ⟨L, hL, htype, heval⟩ :=
    CastValue_int ops (A := .const m (BitVec.ofInt m u)) rfl n s
  exact ⟨L, hL, htype, fun σ => read_ofInt s m u ▸ heval σ _ rfl⟩

theorem CastToBool_isInt {A : CodeGenLLVM.Value} {m : Nat} (h : IsInt ops m A) :
    ∃ A', CodeGenLLVM.CastToBool A = .ok A' ∧ IsInt ops 1 A' := by
  refine ⟨if m = 1 then A else .icmp .ne A (.const m 0), ?_, ?_⟩
  · rw [CodeGenLLVM.CastToBool, h.type_eq]
  · split
    · rename_i hm
      subst hm
      exact h
    · exact h.icmp (.const 0) .ne

theorem CommonNumericType_integral {A B : CodeGenLLVM.Value} {m n : Nat} (hA : A.type = .int m)
    (hB : B.type = .int n) : CodeGenLLVM.CommonNumericType A B = .ok (.int (max m n)) := by
  rw [CodeGenLLVM.CommonNumericType, hA, hB]
  by_cases hmn : m = n
  · rw [hmn, if_pos rfl, Nat.max_self]
  · rw [if_neg fun h => hmn (LLVMType.int.inj h)]
    show CodeGenLLVM.CommonIntegerType A B = _
    rw [CodeGenLLVM.CommonIntegerType, hA, hB]

theorem promotedOp_isInt {op : BinaryOp} {is_signed : Bool} {A B V : CodeGenLLVM.Value} {n : Nat}
    (hA : IsInt ops n A) (hB : IsInt ops n B)
    (hV : CodeGenLLVM.promotedOp op is_signed A B = .ok V) :
    IsInt ops (if op.isLogic then 1 else n) V := by
  cases op <;>
    simp only [CodeGenLLVM.promotedOp, hA.type_eq, CodeGenLLVM.isFloatingPointTy,
      Bool.false_eq_true, if_false, Except.ok.injEq, reduceCtorEq] at hV
  all_goals subst hV
  case Min | Max => exact .select _ hA hB
  case EQ | LT => exact hA.icmp hB _
  all_goals exact hA.int hB _

theorem GenBinaryOp_isInt {A B : CodeGenLLVM.Value} {m n : Nat} (hA : IsInt ops m A)
    (hB : IsInt ops n B) (op : BinaryOp) (a_dtype b_dtype : DataType) :
    ∃ V, CodeGenLLVM.GenBinaryOp op A B a_dtype b_dtype = .ok V ∧
      IsInt ops (if op.isLogic then 1 else max m n) V := by
  obtain ⟨A', hA', hintA⟩ := CastValue_isInt hA (max m n) (a_dtype.code == 0)
  obtain ⟨B', hB', hintB⟩ := CastValue_isInt hB (max m n) (b_dtype.code == 0)
  have hpromote : CodeGenLLVM.PromoteBinaryOperands A B a_dtype b_dtype = .ok (A', B') := by
    exact except_bind_eq_ok.mpr ⟨_, CommonNumericType_integral hA.type_eq hB.type_eq,
      except_bind_eq_ok.mpr ⟨A', hA', except_bind_eq_ok.mpr ⟨B', hB', rfl⟩⟩⟩
  obtain ⟨C, hC, hboolC⟩ := CastToBool_isInt hA
  obtain ⟨D, hD, hboolD⟩ := CastToBool_isInt hB
  have hpromoted {op : BinaryOp} {V : CodeGenLLVM.Value} (h : CodeGenLLVM.promotedOp op
      (a_dtype.code == 0 || b_dtype.code == 0) A' B' = .ok V) :
      IsInt ops (if op.isLogic then 1 else max m n) V := promotedOp_isInt hintA hintB h
  cases op
  case And | Or =>
    exact ⟨_, except_bind_eq_ok.mpr ⟨C, hC, except_bind_eq_ok.mpr ⟨D, hD, rfl⟩⟩,
      hboolC.int hboolD _⟩
  all_goals exact ⟨_, except_bind_eq_ok.mpr ⟨(A', B'), hpromote, rfl⟩, hpromoted rfl⟩

/-- The instruction of an arithmetic operator on integers. -/
def intOp (is_signed : Bool) : BinaryOp → IntOp
  | .Sub => .sub
  | .Mul => .mul
  | .Div => if is_signed then .sdiv else .udiv
  | _ => .add

theorem promotedOp_arithmetic {op : BinaryOp} (hop : op ∈ [BinaryOp.Add, .Sub, .Mul, .Div]) {n : Nat} {s : Bool}
    {A B : CodeGenLLVM.Value} (htype : A.type = .int n) :
    CodeGenLLVM.promotedOp op s A B = .ok (.int (intOp s op) A B) := by
  cases op
  case Add | Sub | Mul | Div =>
    rw [CodeGenLLVM.promotedOp, htype]
    rfl
  all_goals exact absurd hop (by decide)

theorem GenBinaryOp_arithmetic {op : BinaryOp} (hop : op ∈ [BinaryOp.Add, .Sub, .Mul, .Div])
    {A B A' B' : CodeGenLLVM.Value} {da db : DataType} {n : Nat}
    (hcommon : CodeGenLLVM.CommonNumericType A B = .ok (.int n))
    (hA : CodeGenLLVM.CastValue A (.int n) (da.code == 0) = .ok A')
    (hB : CodeGenLLVM.CastValue B (.int n) (db.code == 0) = .ok B') :
    CodeGenLLVM.GenBinaryOp op A B da db =
      .ok (.int (intOp (da.code == 0 || db.code == 0) op) A' B') := by
  have hpromote : CodeGenLLVM.PromoteBinaryOperands A B da db = .ok (A', B') :=
    except_bind_eq_ok.mpr ⟨_, hcommon, except_bind_eq_ok.mpr ⟨A', hA,
      except_bind_eq_ok.mpr ⟨B', hB, rfl⟩⟩⟩
  have hop' := promotedOp_arithmetic hop (s := da.code == 0 || db.code == 0) (B := B')
    (CastValue_type hA)
  cases op
  case Add | Sub | Mul | Div => exact except_bind_eq_ok.mpr ⟨_, hpromote, hop'⟩
  all_goals exact absurd hop (by decide)

/-- `CodeGenLLVM` builds a value of integer type. -/
theorem IsInteger.genExpr (ops : FloatOps F) {e : PrimExpr} (h : IsInteger e) :
    ∃ V, CodeGenLLVM.GenExpr e = .ok V ∧ IsInt ops e.bits V := by
  induction e with
  | IntImm value dtype =>
    exact ⟨_, except_bind_eq_ok.mpr ⟨_, GetLLVMType_integral h, rfl⟩, .const _⟩
  | FloatImm => cases h
  | Var var => exact ⟨_, except_bind_eq_ok.mpr ⟨_, GetLLVMType_integral h, rfl⟩, .arg var⟩
  | Binary op a b iha ihb =>
    obtain ⟨A, hA, hintA⟩ := iha h.1
    obtain ⟨B, hB, hintB⟩ := ihb h.2
    obtain ⟨V, hV, hint⟩ := GenBinaryOp_isInt hintA hintB op a.dtype b.dtype
    exact ⟨V, except_bind_eq_ok.mpr ⟨A, hA, except_bind_eq_ok.mpr ⟨B, hB, hV⟩⟩, hint⟩
  | Not a ih =>
    obtain ⟨A, hA, hintA⟩ := ih h
    obtain ⟨C, hC, hbool⟩ := CastToBool_isInt hintA
    exact ⟨_, except_bind_eq_ok.mpr ⟨A, hA, except_bind_eq_ok.mpr ⟨C, hC, rfl⟩⟩, hbool.not⟩
  | Load var index ih =>
    obtain ⟨I, hI, -⟩ := ih h.2
    exact ⟨_, except_bind_eq_ok.mpr ⟨I, hI, except_bind_eq_ok.mpr
      ⟨_, GetLLVMType_integral h.1, rfl⟩⟩, .load I var⟩
  | PredicatedLoad var index predicate ihi ihp =>
    obtain ⟨I, hI, -⟩ := ihi h.2.1
    obtain ⟨P, hP, hintP⟩ := ihp h.2.2
    obtain ⟨C, hC, -⟩ := CastToBool_isInt hintP
    exact ⟨_, except_bind_eq_ok.mpr ⟨I, hI, except_bind_eq_ok.mpr ⟨_, GetLLVMType_integral h.1,
      except_bind_eq_ok.mpr ⟨P, hP, except_bind_eq_ok.mpr ⟨C, hC, rfl⟩⟩⟩⟩,
      .select C (.load I var) (.const 0)⟩
  | Call dtype name arg ih =>
    obtain ⟨hdtype, rfl, harg⟩ := h
    obtain ⟨A, hA, hintA⟩ := ih harg
    obtain ⟨V, hV, hint⟩ := CastValue_isInt hintA dtype.bits.toNat
      (if arg.dtype.code == 2 && dtype.code != 2 then dtype.code == 0 else arg.dtype.code == 0)
    exact ⟨V, except_bind_eq_ok.mpr ⟨A, hA, except_bind_eq_ok.mpr
      ⟨_, GetLLVMType_integral hdtype, hV⟩⟩, hint⟩
  | Select c t f ihc iht ihf =>
    obtain ⟨C, hC, hintC⟩ := ihc h.1
    obtain ⟨D, hD, -⟩ := CastToBool_isInt hintC
    obtain ⟨A, hA, hintA⟩ := iht h.2.1
    obtain ⟨B, hB, hintB⟩ := ihf h.2.2
    obtain ⟨X, hX, hintX⟩ := CastValue_isInt hintA (max t.bits f.bits) (t.dtype.code == 0)
    obtain ⟨Y, hY, hintY⟩ := CastValue_isInt hintB (max t.bits f.bits) (f.dtype.code == 0)
    exact ⟨_, except_bind_eq_ok.mpr ⟨C, hC, except_bind_eq_ok.mpr ⟨D, hD,
      except_bind_eq_ok.mpr ⟨A, hA, except_bind_eq_ok.mpr ⟨B, hB, except_bind_eq_ok.mpr
        ⟨_, CommonNumericType_integral hintA.type_eq hintB.type_eq, except_bind_eq_ok.mpr ⟨X, hX,
          except_bind_eq_ok.mpr ⟨Y, hY, rfl⟩⟩⟩⟩⟩⟩⟩, .phi D hintX hintY⟩

theorem IsInteger.dtype_code {e : PrimExpr} (h : IsInteger e) :
    e.dtype.code = 0 ∨ e.dtype.code = 1 := by
  induction e with
  | IntImm | Var => exact h
  | FloatImm => cases h
  | Binary op a b iha ihb =>
    rw [PrimExpr.dtype]
    split
    · exact .inr rfl
    · exact iha h.1
  | Not => exact .inr rfl
  | Load | PredicatedLoad | Call => exact h.1
  | Select c t f ihc iht ihf => exact iht h.2.1

end Kxc.Codegen
