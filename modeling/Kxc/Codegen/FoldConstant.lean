import Kxc.Codegen.Integers
import Kxc.Codegen.KeepsLLVM
import Kxc.Codegen.Refinement
import Kxc.Tir.Transforms.FoldConstant

/-! The code of an expression in which the operators on literals are computed. -/

namespace Kxc.Codegen

open Lib Lib.MachineNumber Lib.Llvm Lib.Rounding Tir Tir.FoldConstant

variable {F : Type} {ops : FloatOps F}

/-- Binary operands and the two values of a `Select` have one type, and literals are in its range. -/
def WellTyped : PrimExpr → Prop
  | .IntImm value dtype => dtype.intFormat.Fits value.toInt
  | .FloatImm _ _ | .Var _ => True
  | .Binary _ a b => a.dtype = b.dtype ∧ WellTyped a ∧ WellTyped b
  | .Not a | .Load _ a | .Call _ _ a => WellTyped a
  | .PredicatedLoad _ index predicate => WellTyped index ∧ WellTyped predicate
  | .Select condition true_value false_value =>
    true_value.dtype = false_value.dtype ∧ WellTyped condition ∧ WellTyped true_value ∧
      WellTyped false_value

/-- The code has the bits of the type. -/
theorem WellTyped.bits_eq {e : PrimExpr} (h : WellTyped e) : e.bits = e.dtype.bits.toNat := by
  induction e with
  | IntImm | FloatImm | Var | Not | Load | PredicatedLoad | Call => rfl
  | Binary op a b iha ihb =>
    rw [PrimExpr.bits, PrimExpr.dtype]
    split
    · rfl
    · rw [iha h.2.1, ihb h.2.2, ← h.1, Nat.max_self]
  | Select c t f _ iht ihf =>
    rw [PrimExpr.bits, PrimExpr.dtype, iht h.2.2.1, ihf h.2.2.2, ← h.1, Nat.max_self]

/-! ### Operators of the host -/

theorem TryFoldIntDiv_toInt {a b r : Int64} (h : TryFoldIntDiv a b = some r) :
    r.toInt = a.toInt.tdiv b.toInt := by
  rw [TryFoldIntDiv] at h
  split at h
  · cases h
  split at h
  · cases h
  cases h
  rename_i hoverflow
  by_cases ha : a = Int64.minValue
  · exact Int64.toInt_div_of_ne_right a b fun hb => hoverflow ⟨ha, hb⟩
  · exact Int64.toInt_div_of_ne_left a b ha

theorem TryFoldIntMod_toInt {a b r : Int64} (h : TryFoldIntMod a b = some r) :
    r.toInt = a.toInt.tmod b.toInt := by
  rw [TryFoldIntMod] at h
  split at h
  · cases h
  split at h
  · cases h
  cases h
  exact Int64.toInt_mod a b

theorem toInt_bne_zero (u : Int64) : (u.toInt != 0) = (u != 0) := by
  rw [Bool.eq_iff_iff, bne_iff_ne, bne_iff_ne, ne_eq, ne_eq, ← Int64.toInt_inj]
  rfl

/-- `int_fold` computes `op` on integers. -/
def FoldsInt (op : BinaryOp) (int_fold : Int64 → Int64 → Option Int64) : Prop :=
  ∀ u v r, int_fold u v = some r → r.toInt = op.int u.toInt v.toInt

theorem FitsInDType_fits {value : Int64} {dtype : DataType} (h : FitsInDType value dtype = true) :
    dtype.intFormat.Fits value.toInt := by
  have hlow := value.le_toInt
  have hhigh := value.toInt_lt
  have hpow {k : Nat} (hk : 63 ≤ k) : (2 : Int) ^ 63 ≤ 2 ^ k := pow_le_pow_right₀ (by decide) hk
  rw [FitsInDType] at h
  split at h
  · cases h
  split at h
  · rename_i hcode
    split at h
    · cases h
    rename_i hbits
    have hpos : 0 < dtype.bits.toNat := Nat.pos_of_ne_zero fun h0 => hbits (UInt8.toNat_inj.mp h0)
    have hformat : dtype.intFormat = ⟨true, (dtype.bits.toNat - 1) + 1⟩ := by
      rw [Nat.sub_add_cancel hpos, DataType.intFormat, hcode]
      rfl
    rw [hformat, IntFormat.fits_signed]
    split at h
    · rename_i hwide
      have := hpow (Nat.le_sub_one_of_lt (UInt8.le_iff_toNat_le.mp hwide))
      omega
    · rw [Bool.and_eq_true, decide_eq_true_eq, decide_eq_true_eq] at h
      exact ⟨h.1, Int.lt_of_le_sub_one h.2⟩
  split at h
  · rename_i hcode
    split at h
    · cases h
    split at h
    · cases h
    rename_i hneg
    have hnonneg : 0 ≤ value.toInt := by
      rw [Int64.lt_iff_toInt_lt] at hneg
      exact not_lt.mp hneg
    have hformat : dtype.intFormat = ⟨false, dtype.bits.toNat⟩ := by
      rw [DataType.intFormat, hcode]
      rfl
    rw [hformat, IntFormat.fits_unsigned]
    split at h
    · rename_i hwide
      have := hpow (UInt8.le_iff_toNat_le.mp hwide)
      omega
    · rw [decide_eq_true_eq] at h
      exact ⟨hnonneg, Int.lt_of_le_sub_one h⟩
  · cases h

/-! ### Literals -/

/-- An operator on words that read as `u` and `v` has the word of the result, if it has one. -/
theorem promotedOp_of_fits {op : BinaryOp} {σ : Store Var F} {s : Bool} {n : Nat}
    {A B V : CodeGenLLVM.Value} {u v : Int} {w : Word F} (htype : A.type = .int n)
    (hA : A.eval ops σ = some (.int n (BitVec.ofInt n u)))
    (hB : B.eval ops σ = some (.int n (BitVec.ofInt n v))) (hu : IntFormat.Fits ⟨s, n⟩ u)
    (hv : IntFormat.Fits ⟨s, n⟩ v) (hV : CodeGenLLVM.promotedOp op s A B = .ok V)
    (hw : V.eval ops σ = some w) :
    w = .int (if op.isLogic then 1 else n)
      (BitVec.ofInt (if op.isLogic then 1 else n) (op.int u v)) := by
  cases op <;>
    simp only [CodeGenLLVM.promotedOp, htype, CodeGenLLVM.isFloatingPointTy, Bool.false_eq_true,
      if_false, Except.ok.injEq, reduceCtorEq] at hV
  all_goals subst hV
  case Add =>
    rw [LLVMValue.eval_int hA hB, IntOp.apply, ← BitVec.ofInt_add] at hw
    exact (Option.some.inj hw).symm
  case Sub =>
    rw [LLVMValue.eval_int hA hB, IntOp.apply, ← ofInt_sub] at hw
    exact (Option.some.inj hw).symm
  case Mul =>
    rw [LLVMValue.eval_int hA hB, IntOp.apply, ← BitVec.ofInt_mul] at hw
    exact (Option.some.inj hw).symm
  case Div =>
    have hquot := div_of_fits hu hv
    rw [LLVMValue.eval_int hA hB] at hw
    cases s <;> simp only [Bool.false_eq_true, if_true, if_false, IntOp.apply] at hw hquot <;>
      split at hw <;> cases hw
    all_goals exact congrArg (Word.int n) hquot
  case Mod =>
    have hrem := rem_of_fits hu hv
    rw [LLVMValue.eval_int hA hB] at hw
    cases s <;> simp only [Bool.false_eq_true, if_true, if_false, IntOp.apply] at hw hrem <;>
      split at hw <;> cases hw
    all_goals exact congrArg (Word.int n) hrem
  case Min =>
    rw [select_int hA hB (slt_or_ult hu hv)] at hw
    simp only [decide_eq_true_eq] at hw
    exact (Option.some.inj hw).symm
  case Max =>
    rw [select_int hA hB (sgt_or_ugt hu hv)] at hw
    simp only [decide_eq_true_eq] at hw
    exact (Option.some.inj hw).symm
  case EQ =>
    have hwords : (BitVec.ofInt n u == BitVec.ofInt n v) = decide (u = v) := by
      rw [Bool.eq_iff_iff, beq_iff_eq, decide_eq_true_eq]
      refine ⟨fun h => ?_, fun h => h ▸ rfl⟩
      rw [← read_of_fits hu, ← read_of_fits hv, h]
    rw [LLVMValue.eval_icmp hA hB, IntPred.apply, hwords, Word.ofBool, ofBool_eq_ofInt] at hw
    exact (Option.some.inj hw).symm
  case LT =>
    rw [LLVMValue.eval_icmp hA hB, slt_or_ult hu hv, Word.ofBool, ofBool_eq_ofInt] at hw
    exact (Option.some.inj hw).symm

/-- A literal that is cast to a truth value. -/
theorem CastToBool_literal {σ : Store Var F} {f : IntFormat} {u : Int} {A : CodeGenLLVM.Value}
    (hu : f.Fits u) (h : CodeGenLLVM.CastToBool (.const f.bits (BitVec.ofInt f.bits u)) = .ok A) :
    A.eval ops σ = some (.ofBool (u != 0)) := by
  refine CastToBool_eval (k := none) (m := f.bits) (s := f.signed) (x := .int u) rfl rfl
    (.int rfl) ?_ nofun h
  rintro v hv
  cases hv
  exact ⟨trivial, fun _ => hu⟩

/-- An expression that is a literal wherever it is defined. -/
theorem literal_refines {e : PrimExpr} {dtype : DataType} {value : Int64} (hI : IsInteger e)
    (hdtype : e.dtype = dtype) (hcode : dtype.code = 0 ∨ dtype.code = 1)
    (hbits : e.bits = dtype.bits.toNat)
    (heval : ∀ V σ w, CodeGenLLVM.GenExpr e = .ok V → V.eval ops σ = some w →
      w = .int dtype.bits.toNat (BitVec.ofInt dtype.bits.toNat value.toInt)) :
    GenRefines ops e (.IntImm value dtype) := by
  refine ⟨congrArg DataType.code hdtype.symm, fun V hV => ⟨_, GenExpr_literal hcode value, ?_, ?_⟩⟩
  · obtain ⟨V', hV', hint⟩ := hI.genExpr ops
    cases hV.symm.trans hV'
    rw [hint.type_eq, hbits]
    rfl
  · intro σ w hw
    rw [heval V σ w hV hw]
    rfl

theorem PromoteBinaryOperands_same {dtype : DataType} {A B : CodeGenLLVM.Value}
    (htype : A.type = B.type) :
    CodeGenLLVM.PromoteBinaryOperands A B dtype dtype = .ok (A, B) := by
  have hcommon : CodeGenLLVM.CommonNumericType A B = .ok A.type := if_pos htype
  exact except_bind_eq_ok.mpr ⟨_, hcommon, except_bind_eq_ok.mpr ⟨A, if_pos rfl,
    except_bind_eq_ok.mpr ⟨B, if_pos htype.symm, rfl⟩⟩⟩

/-- The code of an operator on literals `A` and `B` has the word of the result, if it has one. -/
theorem GenBinaryOp_literals {op : BinaryOp} {dtype : DataType} {u v : Int}
    {A B V : CodeGenLLVM.Value} {σ : Store Var F} {w : Word F} {n : Nat}
    (hn : dtype.bits.toNat = n) (hA : A = .const n (BitVec.ofInt n u))
    (hB : B = .const n (BitVec.ofInt n v)) (hu : dtype.intFormat.Fits u)
    (hv : dtype.intFormat.Fits v) (hV : CodeGenLLVM.GenBinaryOp op A B dtype dtype = .ok V)
    (hw : V.eval ops σ = some w) :
    w = .int (if op.isLogic then 1 else n)
      (BitVec.ofInt (if op.isLogic then 1 else n) (op.int u v)) := by
  have hformat : dtype.intFormat = ⟨dtype.code == 0, n⟩ := by rw [← hn]; rfl
  rw [hformat] at hu hv
  have hpromoted (hV : (CodeGenLLVM.PromoteBinaryOperands A B dtype dtype >>= fun p =>
      CodeGenLLVM.promotedOp op (dtype.code == 0 || dtype.code == 0) p.1 p.2) = Except.ok V) :
      w = .int (if op.isLogic then 1 else n)
        (BitVec.ofInt (if op.isLogic then 1 else n) (op.int u v)) := by
    have htype : A.type = B.type := by rw [hA, hB]; rfl
    obtain ⟨p, hp, hV⟩ := except_bind_eq_ok.mp hV
    cases hp.symm.trans (PromoteBinaryOperands_same htype)
    rw [Bool.or_self] at hV
    exact promotedOp_of_fits (hA ▸ rfl) (hA ▸ rfl) (hB ▸ rfl) hu hv hV hw
  have hlogic (int : IntOp) (b : Bool → Bool → Bool)
      (hint : ∀ (X Y : CodeGenLLVM.Value) (x y : Bool), X.eval ops σ = some (.ofBool x) →
        Y.eval ops σ = some (.ofBool y) →
          (LLVMValue.int int X Y).eval ops σ = some (.ofBool (b x y)))
      (hV : (do return .int int (← CodeGenLLVM.CastToBool A) (← CodeGenLLVM.CastToBool B)) =
        Except.ok V) :
      w = .int 1 (BitVec.ofInt 1 (b (u != 0) (v != 0)).toInt) := by
    obtain ⟨X, hX, hV⟩ := except_bind_eq_ok.mp hV
    obtain ⟨Y, hY, hV⟩ := except_bind_eq_ok.mp hV
    cases hV
    rw [hA] at hX
    rw [hB] at hY
    rw [hint X Y _ _ (CastToBool_literal hu hX) (CastToBool_literal hv hY)] at hw
    rw [← ofBool_eq_ofInt]
    exact (Option.some.inj hw).symm
  cases op
  case And => exact hlogic .and and (fun _ _ _ _ hX hY => LLVMValue.eval_and hX hY) hV
  case Or => exact hlogic .or or (fun _ _ _ _ hX hY => LLVMValue.eval_or hX hY) hV
  all_goals exact hpromoted hV

theorem GenExpr_literals {op : BinaryOp} {dtype : DataType} {u v : Int64} {V : CodeGenLLVM.Value}
    {σ : Store Var F} {w : Word F} (hcode : dtype.code = 0 ∨ dtype.code = 1)
    (hu : dtype.intFormat.Fits u.toInt) (hv : dtype.intFormat.Fits v.toInt)
    (hV : CodeGenLLVM.GenExpr (.Binary op (.IntImm u dtype) (.IntImm v dtype)) = .ok V)
    (hw : V.eval ops σ = some w) :
    w = .int (if op.isLogic then 1 else dtype.bits.toNat)
      (BitVec.ofInt (if op.isLogic then 1 else dtype.bits.toNat) (op.int u.toInt v.toInt)) := by
  obtain ⟨A, hA, hV⟩ := except_bind_eq_ok.mp hV
  obtain ⟨B, hB, hV⟩ := except_bind_eq_ok.mp hV
  exact GenBinaryOp_literals rfl (Except.ok.inj (hA.symm.trans (GenExpr_literal hcode u)))
    (Except.ok.inj (hB.symm.trans (GenExpr_literal hcode v))) hu hv hV hw

/-! ### The rewriter -/

/-- What the pass makes of an expression. -/
structure FoldsTo (ops : FloatOps F) (e e' : PrimExpr) : Prop where
  isInteger : IsInteger e'
  wellTyped : WellTyped e'
  dtype_eq : e'.dtype = e.dtype
  refines : GenRefines ops e e'

theorem foldsTo_refl {e : PrimExpr} (hI : IsInteger e) (hW : WellTyped e) : FoldsTo ops e e :=
  ⟨hI, hW, rfl, .refl e⟩

theorem FoldsTo.trans {a b c : PrimExpr} (h : FoldsTo ops a b) (h' : FoldsTo ops b c) :
    FoldsTo ops a c :=
  ⟨h'.isInteger, h'.wellTyped, h'.dtype_eq.trans h.dtype_eq, h.refines.trans h'.refines⟩

section Rewriter

variable {op : BinaryOp} {a b e' : PrimExpr} {u v r : Int64}

/-- An operator on two literals becomes the literal of the result. -/
theorem binary_folds {da db rdtype : DataType}
    (hI : IsInteger (.Binary op (.IntImm u da) (.IntImm v db)))
    (hW : WellTyped (.Binary op (.IntImm u da) (.IntImm v db)))
    (hr : r.toInt = op.int u.toInt v.toInt) (hdtype : rdtype = if op.isLogic then .Bool else da)
    (hfits : rdtype.intFormat.Fits r.toInt) :
    FoldsTo ops (.Binary op (.IntImm u da) (.IntImm v db)) (.IntImm r rdtype) := by
  have hwidth := hW.bits_eq
  obtain ⟨rfl, hu, hv⟩ : da = db ∧ _ ∧ _ := hW
  have hcode : rdtype.code = 0 ∨ rdtype.code = 1 := by
    rw [hdtype]
    split
    · exact .inr rfl
    · exact hI.1
  have hbits : (if op.isLogic then 1 else da.bits.toNat) = rdtype.bits.toNat := by
    rw [hdtype]
    split <;> rfl
  refine ⟨hcode, hfits, hdtype, literal_refines hI hdtype.symm hcode ?_ fun V σ w hV hw => ?_⟩
  · rw [hwidth, hdtype]
    rfl
  · rw [GenExpr_literals hI.1 hu hv hV hw, hbits, hr]

theorem TryGetIntImm_eq_some {e : PrimExpr} (h : TryGetIntImm e = some u) :
    ∃ dtype, e = .IntImm u dtype := by
  cases e <;> cases h
  exact ⟨_, rfl⟩

theorem TryMakeIntImm_eq_some {dtype : DataType} (h : TryMakeIntImm r dtype = some e') :
    e' = .IntImm r dtype ∧ dtype.intFormat.Fits r.toInt := by
  rw [TryMakeIntImm] at h
  split at h
  · cases h
  split at h
  · cases h
  rename_i hfits
  cases h
  rw [Bool.not_eq_true, Bool.not_eq_false'] at hfits
  exact ⟨rfl, FitsInDType_fits hfits⟩

theorem IsInteger.isIntDType {e : PrimExpr} (h : IsInteger e) : IsIntDType e.dtype = true := by
  rw [IsIntDType]
  rcases h.dtype_code with h | h <;> rw [h] <;> rfl

/-- The only literals of integers are those of `IntImm`. -/
theorem IsInteger.intImm_of_numeric {e : PrimExpr} {x : Float} (h : IsInteger e)
    (hx : TryGetNumericConst e = some x) : ∃ u, TryGetIntImm e = some u := by
  cases e <;> cases hx
  · exact ⟨_, rfl⟩
  · cases h

variable (hI : IsInteger (.Binary op a b)) (hW : WellTyped (.Binary op a b))
include hI hW

theorem TryFoldArithmetic_folds {int_fold : Int64 → Int64 → Option Int64} {float_op : Char}
    (hfold : FoldsInt op int_fold) :
    FoldsTo ops (.Binary op a b) ((TryFoldArithmetic a b (PrimExpr.Binary op a b).dtype int_fold
      float_op).getD (.Binary op a b)) := by
  cases h : TryFoldArithmetic a b (PrimExpr.Binary op a b).dtype int_fold float_op with
  | none => exact foldsTo_refl hI hW
  | some e' =>
    rw [TryFoldArithmetic, if_pos hI.isIntDType] at h
    obtain ⟨u, hu, h⟩ := Option.bind_eq_some_iff.mp h
    obtain ⟨v, hv, h⟩ := Option.bind_eq_some_iff.mp h
    obtain ⟨r, hr, h⟩ := Option.bind_eq_some_iff.mp h
    obtain ⟨da, rfl⟩ := TryGetIntImm_eq_some hu
    obtain ⟨db, rfl⟩ := TryGetIntImm_eq_some hv
    obtain ⟨rfl, hfits⟩ := TryMakeIntImm_eq_some h
    exact binary_folds hI hW (hfold u v r hr) rfl hfits

theorem TryFoldMinMax_folds {is_min : Bool} (hop : op = if is_min then .Min else .Max) :
    FoldsTo ops (.Binary op a b) ((TryFoldMinMax a b (PrimExpr.Binary op a b).dtype
      is_min).getD (.Binary op a b)) := by
  cases h : TryFoldMinMax a b (PrimExpr.Binary op a b).dtype is_min with
  | none => exact foldsTo_refl hI hW
  | some e' =>
    rw [TryFoldMinMax, if_pos hI.isIntDType] at h
    obtain ⟨u, hu, h⟩ := Option.bind_eq_some_iff.mp h
    obtain ⟨v, hv, h⟩ := Option.bind_eq_some_iff.mp h
    obtain ⟨da, rfl⟩ := TryGetIntImm_eq_some hu
    obtain ⟨db, rfl⟩ := TryGetIntImm_eq_some hv
    obtain ⟨rfl, hfits⟩ := TryMakeIntImm_eq_some h
    refine binary_folds hI hW ?_ rfl hfits
    subst hop
    cases is_min <;>
      simp only [Bool.false_eq_true, if_true, if_false, gt_iff_lt, Int64.lt_iff_toInt_lt] <;>
      exact apply_ite Int64.toInt _ _ _

/-- A truth value that is computed from two literals. -/
theorem boolImm_folds {b' : Bool} (hu : TryGetIntImm a = some u) (hv : TryGetIntImm b = some v)
    (hlogic : op.isLogic = true) (hb : op.int u.toInt v.toInt = b'.toInt) :
    FoldsTo ops (.Binary op a b) (boolImm b') := by
  obtain ⟨da, rfl⟩ := TryGetIntImm_eq_some hu
  obtain ⟨db, rfl⟩ := TryGetIntImm_eq_some hv
  have hr : (if b' then 1 else 0 : Int64).toInt = b'.toInt := by cases b' <;> rfl
  refine binary_folds hI hW (hr.trans hb.symm) (if_pos hlogic).symm ?_
  rw [hr]
  cases b' <;> decide

theorem TryFoldCompare_folds {is_lt : Bool} (hop : op = if is_lt then .LT else .EQ) :
    FoldsTo ops (.Binary op a b) ((TryFoldCompare a b is_lt).getD (.Binary op a b)) := by
  cases h : TryFoldCompare a b is_lt with
  | none => exact foldsTo_refl hI hW
  | some e' =>
    rw [TryFoldCompare] at h
    split at h
    · rename_i u v hu hv
      cases h
      refine boolImm_folds hI hW hu hv (by rw [hop]; cases is_lt <;> rfl) ?_
      subst hop
      cases is_lt
      · have heq : (u == v) = decide (u.toInt = v.toInt) := by
          rw [Bool.eq_iff_iff, beq_iff_eq, decide_eq_true_eq, Int64.toInt_inj]
        rw [if_neg Bool.false_ne_true, if_neg Bool.false_ne_true, heq]
        rfl
      · rw [if_pos rfl, if_pos rfl, decide_eq_decide.mpr Int64.lt_iff_toInt_lt]
        rfl
    · rename_i hnot
      split at h
      · rename_i x y hx hy
        obtain ⟨u, hu⟩ := hI.1.intImm_of_numeric hx
        obtain ⟨v, hv⟩ := hI.2.intImm_of_numeric hy
        exact absurd hv (hnot u v hu)
      · cases h

theorem logic_folds {f : Bool → Bool → Bool} (hlogic : op.isLogic = true)
    (hf : ∀ u v, op.int u v = (f (u != 0) (v != 0)).toInt) :
    FoldsTo ops (.Binary op a b) (match TryGetIntImm a, TryGetIntImm b with
      | some lhs, some rhs => boolImm (f (lhs != 0) (rhs != 0))
      | _, _ => .Binary op a b) := by
  split
  · rename_i u v hu hv
    exact boolImm_folds hI hW hu hv hlogic (by rw [hf, toInt_bne_zero, toInt_bne_zero])
  · exact foldsTo_refl hI hW

end Rewriter

theorem not_folds {a : PrimExpr} (hI : IsInteger (.Not a)) (hW : WellTyped (.Not a)) :
    FoldsTo ops (.Not a) (match TryGetIntImm a with
      | some value => boolImm (value == 0)
      | none => .Not a) := by
  split
  · rename_i u hu
    obtain ⟨da, rfl⟩ := TryGetIntImm_eq_some hu
    have hr (b : Bool) : (if b then 1 else 0 : Int64).toInt = b.toInt := by cases b <;> rfl
    have hfits (b : Bool) : DataType.Bool.intFormat.Fits (if b then 1 else 0 : Int64).toInt := by
      rw [hr]
      cases b <;> decide
    refine ⟨.inr rfl, hfits _, rfl, literal_refines hI rfl (.inr rfl) rfl fun V σ w hV hw => ?_⟩
    obtain ⟨A, hA, hV⟩ := except_bind_eq_ok.mp hV
    obtain ⟨C, hC, hV⟩ := except_bind_eq_ok.mp hV
    cases hV
    cases Except.ok.inj (hA.symm.trans (GenExpr_literal hI u))
    have hzero : (!(u.toInt != 0)) = (u == 0) := by rw [toInt_bne_zero, bne, Bool.not_not]
    rw [LLVMValue.eval_not (CastToBool_literal hW hC), hzero] at hw
    rw [hr, ← Option.some.inj hw, Word.ofBool, ofBool_eq_ofInt]
    rfl
  · exact foldsTo_refl hI hW

/-- The code that a literal chooses. -/
theorem select_literal_refines (ops : FloatOps F) {u : Int64} {dc : DataType} {t f : PrimExpr}
    (hI : IsInteger (.Select (.IntImm u dc) t f)) (hW : WellTyped (.Select (.IntImm u dc) t f)) :
    GenRefines ops (.Select (.IntImm u dc) t f) (if u != 0 then t else f) := by
  refine ⟨?_, fun V hV => ?_⟩
  · split
    · rfl
    · exact congrArg DataType.code hW.1.symm
  obtain ⟨C, hC, hV⟩ := except_bind_eq_ok.mp hV
  obtain ⟨D, hD, hV⟩ := except_bind_eq_ok.mp hV
  obtain ⟨A, hA, hV⟩ := except_bind_eq_ok.mp hV
  obtain ⟨B, hB, hV⟩ := except_bind_eq_ok.mp hV
  obtain ⟨type, htype, hV⟩ := except_bind_eq_ok.mp hV
  obtain ⟨X, hX, hV⟩ := except_bind_eq_ok.mp hV
  obtain ⟨Y, hY, hV⟩ := except_bind_eq_ok.mp hV
  cases hV
  obtain ⟨A', hA', hintA⟩ := hI.2.1.genExpr ops
  obtain ⟨B', hB', hintB⟩ := hI.2.2.genExpr ops
  cases hA.symm.trans hA'
  cases hB.symm.trans hB'
  have hsame : A.type = B.type := by
    rw [hintA.type_eq, hintB.type_eq, hW.2.2.1.bits_eq, hW.2.2.2.bits_eq, hW.1]
  have hcommon : CodeGenLLVM.CommonNumericType A B = .ok A.type := if_pos hsame
  cases htype.symm.trans hcommon
  cases hX.symm.trans (if_pos rfl)
  cases hY.symm.trans (if_pos hsame.symm)
  cases Except.ok.inj (hC.symm.trans (GenExpr_literal hI.1 u))
  have hcond (σ : Store Var F) : D.eval ops σ = some (.ofBool (u.toInt != 0)) :=
    CastToBool_literal hW.2.1 hD
  have hzero : (u.toInt != 0) = (u != 0) := toInt_bne_zero u
  split
  · rename_i hu
    refine ⟨A, hA, rfl, fun σ w hw => ?_⟩
    rwa [LLVMValue.eval_phi (hcond σ), hzero, hu, if_pos rfl] at hw
  · rename_i hu
    refine ⟨B, hB, hsame.symm, fun σ w hw => ?_⟩
    rwa [LLVMValue.eval_phi (hcond σ), hzero, if_neg hu] at hw

theorem select_folds {c t f : PrimExpr} (hI : IsInteger (.Select c t f))
    (hW : WellTyped (.Select c t f)) :
    FoldsTo ops (.Select c t f) (match TryGetIntImm c with
      | some cond => if cond != 0 then t else f
      | none => .Select c t f) := by
  split
  · rename_i u hu
    obtain ⟨dc, rfl⟩ := TryGetIntImm_eq_some hu
    have hrefines := select_literal_refines ops hI hW
    split
    · rw [if_pos ‹_›] at hrefines
      exact ⟨hI.2.1, hW.2.2.1, rfl, hrefines⟩
    · rw [if_neg ‹_›] at hrefines
      exact ⟨hI.2.2, hW.2.2.2, hW.1.symm, hrefines⟩
  · exact foldsTo_refl hI hW

theorem FoldConstantRewriter_folds {e : PrimExpr} (hI : IsInteger e) (hW : WellTyped e) :
    FoldsTo ops e (FoldConstantRewriter e) := by
  cases e with
  | IntImm | FloatImm | Var | Load | PredicatedLoad | Call => exact foldsTo_refl hI hW
  | Not a => exact not_folds hI hW
  | Select c t f => exact select_folds hI hW
  | Binary op a b =>
    cases op
    case Add => exact TryFoldArithmetic_folds hI hW fun u v r h => (toInt64_exact _).2 r h
    case Sub => exact TryFoldArithmetic_folds hI hW fun u v r h => (toInt64_exact _).2 r h
    case Mul => exact TryFoldArithmetic_folds hI hW fun u v r h => (toInt64_exact _).2 r h
    case Div => exact TryFoldArithmetic_folds hI hW fun u v r h => TryFoldIntDiv_toInt h
    case Mod => exact TryFoldArithmetic_folds hI hW fun u v r h => TryFoldIntMod_toInt h
    case Min => exact TryFoldMinMax_folds hI hW rfl
    case Max => exact TryFoldMinMax_folds hI hW rfl
    case EQ => exact TryFoldCompare_folds hI hW rfl
    case LT => exact TryFoldCompare_folds hI hW rfl
    case And => exact logic_folds hI hW rfl fun u v => rfl
    case Or => exact logic_folds hI hW rfl fun u v => rfl

/-- The pass keeps the type of an expression and the value of its code. -/
theorem FoldConstantPass_folds (ops : FloatOps F) {e : PrimExpr} (hI : IsInteger e) (hW : WellTyped e) :
    FoldsTo ops e (FoldConstantPass e) := by
  induction e with
  | IntImm | Var => exact foldsTo_refl hI hW
  | FloatImm => cases hI
  | Binary op a b iha ihb =>
    have ha := iha hI.1 hW.2.1
    have hb := ihb hI.2 hW.2.2
    have hchildren : FoldsTo ops (.Binary op a b)
        (.Binary op (FoldConstantPass a) (FoldConstantPass b)) := by
      refine ⟨⟨ha.isInteger, hb.isInteger⟩, ⟨?_, ha.wellTyped, hb.wellTyped⟩, ?_,
        ha.refines.binary hb.refines op⟩
      · rw [ha.dtype_eq, hb.dtype_eq, hW.1]
      · rw [PrimExpr.dtype, PrimExpr.dtype, ha.dtype_eq]
    exact hchildren.trans (FoldConstantRewriter_folds hchildren.isInteger hchildren.wellTyped)
  | Not a ih =>
    have ha := ih hI hW
    have hchildren : FoldsTo ops (.Not a) (.Not (FoldConstantPass a)) :=
      ⟨ha.isInteger, ha.wellTyped, rfl, ha.refines.not⟩
    exact hchildren.trans (FoldConstantRewriter_folds hchildren.isInteger hchildren.wellTyped)
  | Load var index ih =>
    have hi := ih hI.2 hW
    exact ⟨⟨hI.1, hi.isInteger⟩, hi.wellTyped, rfl, hi.refines.load var⟩
  | PredicatedLoad var index predicate ihi ihp =>
    have hi := ihi hI.2.1 hW.1
    have hp := ihp hI.2.2 hW.2
    exact ⟨⟨hI.1, hi.isInteger, hp.isInteger⟩, ⟨hi.wellTyped, hp.wellTyped⟩, rfl,
      hi.refines.predicatedLoad hp.refines var⟩
  | Call dtype name arg ih =>
    have ha := ih hI.2.2 hW
    exact ⟨⟨hI.1, hI.2.1, ha.isInteger⟩, ha.wellTyped, rfl, ha.refines.call dtype name⟩
  | Select c t f ihc iht ihf =>
    have hc := ihc hI.1 hW.2.1
    have ht := iht hI.2.1 hW.2.2.1
    have hf := ihf hI.2.2 hW.2.2.2
    have hchildren : FoldsTo ops (.Select c t f)
        (.Select (FoldConstantPass c) (FoldConstantPass t) (FoldConstantPass f)) := by
      refine ⟨⟨hc.isInteger, ht.isInteger, hf.isInteger⟩,
        ⟨?_, hc.wellTyped, ht.wellTyped, hf.wellTyped⟩, ht.dtype_eq,
        hc.refines.select ht.refines hf.refines⟩
      rw [ht.dtype_eq, hf.dtype_eq, hW.1]
    exact hchildren.trans (FoldConstantRewriter_folds hchildren.isInteger hchildren.wellTyped)

/-- `CodeGenLLVM` builds a value for an expression and one for what the pass makes of it. They have
one type, and where the first is defined the second is the same. -/
theorem FoldConstantPass_value (ops : FloatOps F) {e : PrimExpr} (hI : IsInteger e)
    (hW : WellTyped e) :
    (FoldConstantPass e).dtype = e.dtype ∧
      ∃ V V', CodeGenLLVM.GenExpr e = .ok V ∧ CodeGenLLVM.GenExpr (FoldConstantPass e) = .ok V' ∧
        V'.type = V.type ∧ ∀ σ w, V.eval ops σ = some w → V'.eval ops σ = some w := by
  have hfolds := FoldConstantPass_folds ops hI hW
  obtain ⟨V, hV, -⟩ := hI.genExpr ops
  obtain ⟨V', hV', hrefines⟩ := hfolds.refines.code_refines V hV
  exact ⟨hfolds.dtype_eq, V, V', hV, hV', hrefines.type_eq, hrefines.eval_eq⟩

/-- `3 < 5 ? x + 2 * 3 : 0`. -/
def constantChoice : PrimExpr :=
  .Select (.Binary .LT (.IntImm 3 (.Int 32)) (.IntImm 5 (.Int 32)))
    (.Binary .Add (.Var ⟨"x", .Int 32, 0⟩)
      (.Binary .Mul (.IntImm 2 (.Int 32)) (.IntImm 3 (.Int 32))))
    (.IntImm 0 (.Int 32))

example : FoldConstantPass constantChoice =
    .Binary .Add (.Var ⟨"x", .Int 32, 0⟩) (.IntImm 6 (.Int 32)) := by rfl

theorem constantChoice_value : (FoldConstantPass constantChoice).dtype = .Int 32 ∧
    ∃ V V', CodeGenLLVM.GenExpr constantChoice = .ok V ∧
      CodeGenLLVM.GenExpr (FoldConstantPass constantChoice) = .ok V' ∧ V'.type = V.type ∧
      ∀ σ w, V.eval FloatOps.zero σ = some w → V'.eval FloatOps.zero σ = some w :=
  FoldConstantPass_value .zero
    ⟨⟨.inl rfl, .inl rfl⟩, ⟨.inl rfl, .inl rfl, .inl rfl⟩, .inl rfl⟩
    ⟨rfl, ⟨rfl, rfl, rfl⟩, ⟨rfl, trivial, rfl, rfl, rfl⟩, rfl⟩

end Kxc.Codegen
