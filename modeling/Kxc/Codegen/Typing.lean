import Kxc.Codegen.CodeGenLLVM
import Kxc.Lib.StateExcept

/-! The values that `CodeGenLLVM` builds for expressions have the words of their types, and read the
variables and buffers of the expressions. -/

namespace Kxc.Codegen

open Lib Lib.MachineNumber Lib.Llvm Lib.Llvm.LLVMValue Tir

/-- A type of `CodeGenLLVM` is one of numbers, which zero has, or the one of nothing. -/
theorem GetLLVMType_ne_ptr {dtype : DataType} {t : LLVMType}
    (h : CodeGenLLVM.GetLLVMType dtype = .ok t) :
    t = (CodeGenLLVM.getNullValue t : CodeGenLLVM.Value).type ∨ t = .void := by
  unfold CodeGenLLVM.GetLLVMType at h
  split_ifs at h <;> cases h
  all_goals first | exact .inl rfl | exact .inr rfl

section Closed

variable {R : CodeGenLLVM.Value → Prop} (hR : Closed R) {A B V : CodeGenLLVM.Value}
include hR

theorem CastValue_closed {t : LLVMType} {is_signed : Bool} (hA : R A)
    (hV : CodeGenLLVM.CastValue A t is_signed = .ok V) : R V ∧ V.type = t := by
  unfold CodeGenLLVM.CastValue at hV
  split at hV
  · cases hV
    exact ⟨hA, ‹_›⟩
  · split at hV <;> cases hV <;> exact ⟨hR.cast _ _ _ hA, rfl⟩

theorem CastToBool_closed (hA : R A) (hV : CodeGenLLVM.CastToBool A = .ok V) : R V := by
  rw [CodeGenLLVM.CastToBool] at hV
  split at hV
  · cases hV
    split
    · exact hA
    · exact hR.icmp _ _ _ hA (hR.const _ _)
  · cases hV
    exact hR.fcmp _ _ _ hA (hR.fconst _ _)
  · cases hV

theorem promotedOp_closed {op : BinaryOp} {is_signed : Bool} (hA : R A) (hB : R B)
    (htype : A.type = B.type) (hV : CodeGenLLVM.promotedOp op is_signed A B = .ok V) : R V := by
  have hselect (float : FloatPred) (int : IntPred) :
      R (.select (if CodeGenLLVM.isFloatingPointTy A.type then .fcmp float A B else .icmp int A B)
        A B) := by
    refine hR.select _ _ _ ?_ hA hB (.inl htype)
    split
    · exact hR.fcmp _ _ _ hA hB
    · exact hR.icmp _ _ _ hA hB
  cases op <;> cases hV
  case Min | Max => exact hselect _ _
  case EQ | LT =>
    split
    · exact hR.fcmp _ _ _ hA hB
    · exact hR.icmp _ _ _ hA hB
  all_goals
    split
    · exact hR.float _ _ _ hA hB
    · exact hR.int _ _ _ hA hB

theorem GenBinaryOp_closed {op : BinaryOp} {a_dtype b_dtype : DataType} (hA : R A) (hB : R B)
    (hV : CodeGenLLVM.GenBinaryOp op A B a_dtype b_dtype = .ok V) : R V := by
  unfold CodeGenLLVM.GenBinaryOp at hV
  split at hV
  case h_3 =>
    obtain ⟨⟨A', B'⟩, hpromote, hV⟩ := except_bind_eq_ok.mp hV
    obtain ⟨t, -, hpromote⟩ := except_bind_eq_ok.mp hpromote
    obtain ⟨X, hX, hpromote⟩ := except_bind_eq_ok.mp hpromote
    obtain ⟨Y, hY, hpromote⟩ := except_bind_eq_ok.mp hpromote
    cases hpromote
    obtain ⟨hRX, hXt⟩ := CastValue_closed hR hA hX
    obtain ⟨hRY, hYt⟩ := CastValue_closed hR hB hY
    exact promotedOp_closed hR hRX hRY (hXt.trans hYt.symm) hV
  all_goals
    obtain ⟨X, hX, hV⟩ := except_bind_eq_ok.mp hV
    obtain ⟨Y, hY, hV⟩ := except_bind_eq_ok.mp hV
    cases hV
    exact hR.int _ _ _ (CastToBool_closed hR hA hX) (CastToBool_closed hR hB hY)

theorem getNullValue_closed (t : LLVMType) : R (CodeGenLLVM.getNullValue t) := by
  cases t
  case float => exact hR.fconst _ _
  all_goals exact hR.const _ _

/-- What `CodeGenLLVM` builds has a property that instructions are closed under, when the variables
and the elements of the buffers have it. -/
theorem GenExpr_closed (e : PrimExpr)
    (he : e.ReadsOnly (fun v => ∀ t, R (.arg v t)) (fun v => ∀ t A, R A → R (.load t v A)))
    (hV : CodeGenLLVM.GenExpr e = .ok V) : R V := by
  induction e generalizing V with
  | IntImm value dtype =>
    obtain ⟨t, -, hV⟩ := except_bind_eq_ok.mp hV
    cases t <;> cases hV
    exact hR.const _ _
  | FloatImm value dtype =>
    obtain ⟨t, -, hV⟩ := except_bind_eq_ok.mp hV
    cases t <;> cases hV
    exact hR.fconst _ _
  | Var var =>
    obtain ⟨t, -, hV⟩ := except_bind_eq_ok.mp hV
    cases hV
    exact he t
  | Binary op a b iha ihb =>
    obtain ⟨A, hA, hV⟩ := except_bind_eq_ok.mp hV
    obtain ⟨B, hB, hV⟩ := except_bind_eq_ok.mp hV
    exact GenBinaryOp_closed hR (iha he.1 hA) (ihb he.2 hB) hV
  | Not a ih =>
    obtain ⟨A, hA, hV⟩ := except_bind_eq_ok.mp hV
    obtain ⟨B, hB, hV⟩ := except_bind_eq_ok.mp hV
    cases hV
    exact hR.not _ (CastToBool_closed hR (ih he hA) hB)
  | Load var index ih =>
    obtain ⟨I, hI, hV⟩ := except_bind_eq_ok.mp hV
    obtain ⟨t, -, hV⟩ := except_bind_eq_ok.mp hV
    cases hV
    exact he.1 t I (ih he.2 hI)
  | PredicatedLoad var index predicate ihi ihp =>
    obtain ⟨I, hI, hV⟩ := except_bind_eq_ok.mp hV
    obtain ⟨t, ht, hV⟩ := except_bind_eq_ok.mp hV
    obtain ⟨P, hP, hV⟩ := except_bind_eq_ok.mp hV
    obtain ⟨C, hC, hV⟩ := except_bind_eq_ok.mp hV
    cases hV
    exact hR.select _ _ _ (CastToBool_closed hR (ihp he.2.2 hP) hC) (he.1 t I (ihi he.2.1 hI))
      (getNullValue_closed hR t) (GetLLVMType_ne_ptr ht)
  | Call dtype name arg ih =>
    obtain ⟨A, hA, hV⟩ := except_bind_eq_ok.mp hV
    obtain ⟨t, -, hV⟩ := except_bind_eq_ok.mp hV
    dsimp only at hV
    split at hV
    · exact (CastValue_closed hR (ih he hA) hV).1
    · obtain ⟨B, hB, hV⟩ := except_bind_eq_ok.mp hV
      obtain ⟨i, -, hV⟩ := except_bind_eq_ok.mp hV
      cases hV
      exact hR.call _ _ _ (CastValue_closed hR (ih he hA) hB).1
  | Select c t f ihc iht ihf =>
    obtain ⟨A, hA, hV⟩ := except_bind_eq_ok.mp hV
    obtain ⟨C, hC, hV⟩ := except_bind_eq_ok.mp hV
    obtain ⟨T, hT, hV⟩ := except_bind_eq_ok.mp hV
    obtain ⟨E, hE, hV⟩ := except_bind_eq_ok.mp hV
    obtain ⟨type, -, hV⟩ := except_bind_eq_ok.mp hV
    obtain ⟨X, hX, hV⟩ := except_bind_eq_ok.mp hV
    obtain ⟨Y, hY, hV⟩ := except_bind_eq_ok.mp hV
    cases hV
    obtain ⟨hRX, hXt⟩ := CastValue_closed hR (iht he.2.1 hT) hX
    obtain ⟨hRY, hYt⟩ := CastValue_closed hR (ihf he.2.2 hE) hY
    exact hR.phi _ _ _ _ (CastToBool_closed hR (ihc he.1 hA) hC) hRX hRY hXt hYt

end Closed

variable {F : Type} {ops : FloatOps F} {e : PrimExpr} {V : CodeGenLLVM.Value}

theorem GenExpr_typed (ops : FloatOps F) (hV : CodeGenLLVM.GenExpr e = .ok V) : Typed ops V :=
  GenExpr_closed (typed_closed ops) e
    (PrimExpr.readsOnly_of_forall (typed_arg ops) (fun v t A _ => typed_load ops v t A) e) hV

theorem GenExpr_readsOnly {P Q : Var → Prop} (he : e.ReadsOnly P Q)
    (hV : CodeGenLLVM.GenExpr e = .ok V) : V.ReadsOnly P Q :=
  GenExpr_closed (readsOnly_closed P Q) e (he.mono (fun _ h _ => h) (fun _ h _ _ hA => ⟨h, hA⟩)) hV

end Kxc.Codegen
