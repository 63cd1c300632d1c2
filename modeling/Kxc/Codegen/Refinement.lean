import Kxc.Codegen.Agreement

/-! Expressions whose code refines the code of others: replacing an operand by one whose code refines
the operand's, and is read with its sign, refines the code of the whole. -/

namespace Kxc.Codegen

open Lib Lib.MachineNumber Lib.Llvm Lib.Llvm.LLVMValue Tir

variable {F : Type} {ops : FloatOps F}

section Operands

variable {A A' B B' V : CodeGenLLVM.Value}

theorem CastValue_refines {t : LLVMType} {is_signed : Bool} (h : Refines ops A A')
    (hV : CodeGenLLVM.CastValue A t is_signed = .ok V) :
    ∃ V', CodeGenLLVM.CastValue A' t is_signed = .ok V' ∧ Refines ops V V' := by
  unfold CodeGenLLVM.CastValue at hV ⊢
  rw [h.type_eq]
  by_cases ht : A.type = t
  · rw [if_pos ht] at hV ⊢
    cases hV
    exact ⟨A', rfl, h⟩
  · rw [if_neg ht] at hV ⊢
    generalize A.type = s at hV
    cases s <;> cases t <;> cases hV <;> exact ⟨_, rfl, h.cast _ _⟩

theorem CastToBool_refines (h : Refines ops A A') (hV : CodeGenLLVM.CastToBool A = .ok V) :
    ∃ V', CodeGenLLVM.CastToBool A' = .ok V' ∧ Refines ops V V' := by
  unfold CodeGenLLVM.CastToBool at hV ⊢
  rw [h.type_eq]
  cases ht : A.type with
  | int bits =>
    rw [ht] at hV
    cases hV
    refine ⟨_, rfl, ?_⟩
    split
    · exact h
    · exact h.icmp (.refl _) _
  | float f =>
    rw [ht] at hV
    cases hV
    exact ⟨_, rfl, h.fcmp (.refl _) _⟩
  | ptr | void =>
    rw [ht] at hV
    cases hV

theorem CommonNumericType_refines (h : Refines ops A A') (h' : Refines ops B B') :
    CodeGenLLVM.CommonNumericType A' B' = CodeGenLLVM.CommonNumericType A B := by
  simp only [CodeGenLLVM.CommonNumericType, CodeGenLLVM.CommonIntegerType, h.type_eq, h'.type_eq]

theorem promotedOp_refines {op : BinaryOp} {is_signed : Bool} (h : Refines ops A A')
    (h' : Refines ops B B') (hV : CodeGenLLVM.promotedOp op is_signed A B = .ok V) :
    ∃ V', CodeGenLLVM.promotedOp op is_signed A' B' = .ok V' ∧ Refines ops V V' := by
  have hselect (float : FloatPred) (int : IntPred) : Refines ops
      (.select (if CodeGenLLVM.isFloatingPointTy A.type then .fcmp float A B else .icmp int A B) A B)
      (.select (if CodeGenLLVM.isFloatingPointTy A.type then .fcmp float A' B'
        else .icmp int A' B') A' B') := by
    refine .select ?_ h h'
    split
    · exact h.fcmp h' _
    · exact h.icmp h' _
  have hop (float : FloatOp) (int : IntOp) : Refines ops
      (if CodeGenLLVM.isFloatingPointTy A.type then .float float A B else .int int A B)
      (if CodeGenLLVM.isFloatingPointTy A.type then .float float A' B' else .int int A' B') := by
    split
    · exact h.float h' _
    · exact h.int h' _
  have hcmp (float : FloatPred) (int : IntPred) : Refines ops
      (if CodeGenLLVM.isFloatingPointTy A.type then .fcmp float A B else .icmp int A B)
      (if CodeGenLLVM.isFloatingPointTy A.type then .fcmp float A' B' else .icmp int A' B') := by
    split
    · exact h.fcmp h' _
    · exact h.icmp h' _
  cases op <;> simp only [CodeGenLLVM.promotedOp, h.type_eq] at hV ⊢ <;> cases hV
  case Add | Sub | Mul | Div | Mod => exact ⟨_, rfl, hop _ _⟩
  case Min | Max => exact ⟨_, rfl, hselect _ _⟩
  case EQ | LT => exact ⟨_, rfl, hcmp _ _⟩

theorem GenBinaryOp_refines {op : BinaryOp} {a_dtype a_dtype' b_dtype b_dtype' : DataType}
    (h : Refines ops A A') (h' : Refines ops B B') (ha : a_dtype'.code = a_dtype.code)
    (hb : b_dtype'.code = b_dtype.code)
    (hV : CodeGenLLVM.GenBinaryOp op A B a_dtype b_dtype = .ok V) :
    ∃ V', CodeGenLLVM.GenBinaryOp op A' B' a_dtype' b_dtype' = .ok V' ∧ Refines ops V V' := by
  have hlogic (int : IntOp) (hV : (do
      return .int int (← CodeGenLLVM.CastToBool A) (← CodeGenLLVM.CastToBool B)) = Except.ok V) :
      ∃ V', (do return .int int (← CodeGenLLVM.CastToBool A') (← CodeGenLLVM.CastToBool B')) =
        Except.ok V' ∧ Refines ops V V' := by
    obtain ⟨X, hX, hV⟩ := except_bind_eq_ok.mp hV
    obtain ⟨Y, hY, hV⟩ := except_bind_eq_ok.mp hV
    cases hV
    obtain ⟨X', hX', hrX⟩ := CastToBool_refines h hX
    obtain ⟨Y', hY', hrY⟩ := CastToBool_refines h' hY
    exact ⟨_, except_bind_eq_ok.mpr ⟨X', hX', except_bind_eq_ok.mpr ⟨Y', hY', rfl⟩⟩, hrX.int hrY _⟩
  have hpromoted {is_signed : Bool} (hV : (do
      let t ← CodeGenLLVM.CommonNumericType A B
      let X ← CodeGenLLVM.CastValue A t (a_dtype.code == 0)
      let Y ← CodeGenLLVM.CastValue B t (b_dtype.code == 0)
      CodeGenLLVM.promotedOp op is_signed X Y) = Except.ok V) :
      ∃ V', (do
        let t ← CodeGenLLVM.CommonNumericType A' B'
        let X ← CodeGenLLVM.CastValue A' t (a_dtype.code == 0)
        let Y ← CodeGenLLVM.CastValue B' t (b_dtype.code == 0)
        CodeGenLLVM.promotedOp op is_signed X Y) = Except.ok V' ∧ Refines ops V V' := by
    obtain ⟨t, ht, hV⟩ := except_bind_eq_ok.mp hV
    obtain ⟨X, hX, hV⟩ := except_bind_eq_ok.mp hV
    obtain ⟨Y, hY, hV⟩ := except_bind_eq_ok.mp hV
    obtain ⟨X', hX', hrX⟩ := CastValue_refines h hX
    obtain ⟨Y', hY', hrY⟩ := CastValue_refines h' hY
    obtain ⟨V', hV', hrV⟩ := promotedOp_refines hrX hrY hV
    exact ⟨V', except_bind_eq_ok.mpr ⟨t, (CommonNumericType_refines h h').trans ht,
      except_bind_eq_ok.mpr ⟨X', hX', except_bind_eq_ok.mpr ⟨Y', hY', hV'⟩⟩⟩, hrV⟩
  unfold CodeGenLLVM.GenBinaryOp at hV ⊢
  cases op
  case And => exact hlogic .and hV
  case Or => exact hlogic .or hV
  all_goals
    simp only [CodeGenLLVM.PromoteBinaryOperands, bind_assoc, pure_bind, ha, hb] at hV ⊢
    exact hpromoted hV

theorem GenCall_refines {dtype arg_dtype arg_dtype' : DataType} {name : String}
    (h : Refines ops A A') (harg : arg_dtype'.code = arg_dtype.code)
    (hV : CodeGenLLVM.GenCall dtype name A arg_dtype = .ok V) :
    ∃ V', CodeGenLLVM.GenCall dtype name A' arg_dtype' = .ok V' ∧ Refines ops V V' := by
  obtain ⟨t, ht, hV⟩ := except_bind_eq_ok.mp hV
  suffices hcast : ∃ V', (if name = "cast" then
      CodeGenLLVM.CastValue A' t (if arg_dtype.code == 2 && dtype.code != 2 then dtype.code == 0
        else arg_dtype.code == 0)
      else do
        let arg ← CodeGenLLVM.CastValue A' t (arg_dtype.code == 0)
        return .call (← CodeGenLLVM.GetOrDeclareIntrinsic name t) t arg) = .ok V' ∧
      Refines ops V V' by
    obtain ⟨V', hV', hrV⟩ := hcast
    refine ⟨V', except_bind_eq_ok.mpr ⟨t, ht, ?_⟩, hrV⟩
    rw [harg]
    exact hV'
  by_cases hname : name = "cast"
  · rw [if_pos hname] at hV ⊢
    exact CastValue_refines h hV
  · rw [if_neg hname] at hV ⊢
    obtain ⟨X, hX, hV⟩ := except_bind_eq_ok.mp hV
    obtain ⟨intrinsic, hintrinsic, hV⟩ := except_bind_eq_ok.mp hV
    cases hV
    obtain ⟨X', hX', hrX⟩ := CastValue_refines h hX
    exact ⟨_, except_bind_eq_ok.mpr ⟨X', hX', except_bind_eq_ok.mpr ⟨intrinsic, hintrinsic, rfl⟩⟩,
      hrX.call _ _⟩

end Operands

/-- `e'` is read with the sign of `e`, and its code refines the code of `e`. -/
structure GenRefines (ops : FloatOps F) (e e' : PrimExpr) : Prop where
  code_eq : e'.dtype.code = e.dtype.code
  code_refines : ∀ V, CodeGenLLVM.GenExpr e = .ok V →
    ∃ V', CodeGenLLVM.GenExpr e' = .ok V' ∧ Refines ops V V'

namespace GenRefines

variable {a a' b b' c c' : PrimExpr}

theorem refl (a : PrimExpr) : GenRefines ops a a := ⟨rfl, fun V hV => ⟨V, hV, .refl V⟩⟩

theorem trans (h : GenRefines ops a b) (h' : GenRefines ops b c) : GenRefines ops a c := by
  refine ⟨h'.code_eq.trans h.code_eq, fun V hV => ?_⟩
  obtain ⟨W, hW, hr⟩ := h.code_refines V hV
  obtain ⟨X, hX, hr'⟩ := h'.code_refines W hW
  exact ⟨X, hX, hr.trans hr'⟩

theorem binary (h : GenRefines ops a a') (h' : GenRefines ops b b') (op : BinaryOp) :
    GenRefines ops (.Binary op a b) (.Binary op a' b') := by
  refine ⟨?_, fun V hV => ?_⟩
  · rw [PrimExpr.dtype, PrimExpr.dtype]
    split
    · rfl
    · exact h.code_eq
  · obtain ⟨A, hA, hV⟩ := except_bind_eq_ok.mp hV
    obtain ⟨B, hB, hV⟩ := except_bind_eq_ok.mp hV
    obtain ⟨A', hA', hrA⟩ := h.code_refines A hA
    obtain ⟨B', hB', hrB⟩ := h'.code_refines B hB
    obtain ⟨V', hV', hrV⟩ := GenBinaryOp_refines hrA hrB h.code_eq h'.code_eq hV
    exact ⟨V', except_bind_eq_ok.mpr ⟨A', hA', except_bind_eq_ok.mpr ⟨B', hB', hV'⟩⟩, hrV⟩

theorem not (h : GenRefines ops a a') : GenRefines ops (.Not a) (.Not a') := by
  refine ⟨rfl, fun V hV => ?_⟩
  obtain ⟨A, hA, hV⟩ := except_bind_eq_ok.mp hV
  obtain ⟨C, hC, hV⟩ := except_bind_eq_ok.mp hV
  cases hV
  obtain ⟨A', hA', hrA⟩ := h.code_refines A hA
  obtain ⟨C', hC', hrC⟩ := CastToBool_refines hrA hC
  exact ⟨_, except_bind_eq_ok.mpr ⟨A', hA', except_bind_eq_ok.mpr ⟨C', hC', rfl⟩⟩, hrC.not⟩

theorem load (h : GenRefines ops a a') (var : Tir.Var) :
    GenRefines ops (.Load var a) (.Load var a') := by
  refine ⟨rfl, fun V hV => ?_⟩
  obtain ⟨A, hA, hV⟩ := except_bind_eq_ok.mp hV
  obtain ⟨t, ht, hV⟩ := except_bind_eq_ok.mp hV
  cases hV
  obtain ⟨A', hA', hrA⟩ := h.code_refines A hA
  exact ⟨_, except_bind_eq_ok.mpr ⟨A', hA', except_bind_eq_ok.mpr ⟨t, ht, rfl⟩⟩, hrA.load _ _⟩

theorem predicatedLoad (h : GenRefines ops a a') (h' : GenRefines ops b b') (var : Tir.Var) :
    GenRefines ops (.PredicatedLoad var a b) (.PredicatedLoad var a' b') := by
  refine ⟨rfl, fun V hV => ?_⟩
  obtain ⟨A, hA, hV⟩ := except_bind_eq_ok.mp hV
  obtain ⟨t, ht, hV⟩ := except_bind_eq_ok.mp hV
  obtain ⟨B, hB, hV⟩ := except_bind_eq_ok.mp hV
  obtain ⟨C, hC, hV⟩ := except_bind_eq_ok.mp hV
  cases hV
  obtain ⟨A', hA', hrA⟩ := h.code_refines A hA
  obtain ⟨B', hB', hrB⟩ := h'.code_refines B hB
  obtain ⟨C', hC', hrC⟩ := CastToBool_refines hrB hC
  exact ⟨_, except_bind_eq_ok.mpr ⟨A', hA', except_bind_eq_ok.mpr ⟨t, ht,
    except_bind_eq_ok.mpr ⟨B', hB', except_bind_eq_ok.mpr ⟨C', hC', rfl⟩⟩⟩⟩,
    hrC.select (hrA.load _ _) (.refl _)⟩

theorem call (h : GenRefines ops a a') (dtype : DataType) (name : String) :
    GenRefines ops (.Call dtype name a) (.Call dtype name a') := by
  refine ⟨rfl, fun V hV => ?_⟩
  obtain ⟨A, hA, hV⟩ := except_bind_eq_ok.mp hV
  obtain ⟨A', hA', hrA⟩ := h.code_refines A hA
  obtain ⟨V', hV', hrV⟩ := GenCall_refines hrA h.code_eq hV
  exact ⟨V', except_bind_eq_ok.mpr ⟨A', hA', hV'⟩, hrV⟩

theorem select (h : GenRefines ops c c') (h' : GenRefines ops a a') (h'' : GenRefines ops b b') :
    GenRefines ops (.Select c a b) (.Select c' a' b') := by
  refine ⟨h'.code_eq, fun V hV => ?_⟩
  obtain ⟨C, hC, hV⟩ := except_bind_eq_ok.mp hV
  obtain ⟨D, hD, hV⟩ := except_bind_eq_ok.mp hV
  obtain ⟨A, hA, hV⟩ := except_bind_eq_ok.mp hV
  obtain ⟨B, hB, hV⟩ := except_bind_eq_ok.mp hV
  obtain ⟨t, ht, hV⟩ := except_bind_eq_ok.mp hV
  obtain ⟨X, hX, hV⟩ := except_bind_eq_ok.mp hV
  obtain ⟨Y, hY, hV⟩ := except_bind_eq_ok.mp hV
  cases hV
  obtain ⟨C', hC', hrC⟩ := h.code_refines C hC
  obtain ⟨D', hD', hrD⟩ := CastToBool_refines hrC hD
  obtain ⟨A', hA', hrA⟩ := h'.code_refines A hA
  obtain ⟨B', hB', hrB⟩ := h''.code_refines B hB
  obtain ⟨X', hX', hrX⟩ := CastValue_refines hrA hX
  obtain ⟨Y', hY', hrY⟩ := CastValue_refines hrB hY
  rw [← h'.code_eq] at hX'
  rw [← h''.code_eq] at hY'
  exact ⟨_, except_bind_eq_ok.mpr ⟨C', hC', except_bind_eq_ok.mpr ⟨D', hD',
    except_bind_eq_ok.mpr ⟨A', hA', except_bind_eq_ok.mpr ⟨B', hB', except_bind_eq_ok.mpr
      ⟨t, (CommonNumericType_refines hrA hrB).trans ht, except_bind_eq_ok.mpr ⟨X', hX',
        except_bind_eq_ok.mpr ⟨Y', hY', rfl⟩⟩⟩⟩⟩⟩⟩, hrD.phi hrX hrY t⟩

end GenRefines

end Kxc.Codegen
