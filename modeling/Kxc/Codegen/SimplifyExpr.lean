import Kxc.Codegen.Integers
import Kxc.Codegen.Refinement
import Kxc.Tir.Transforms.SimplifyExpr

/-! The code of an expression from which zeros and ones are dropped. -/

namespace Kxc.Codegen

open Lib Lib.MachineNumber Lib.Binary64 Lib.Llvm Tir Tir.SimplifyExpr Tir.pass_utils

variable {F : Type} {ops : FloatOps F}

/-- `e'` is read with the sign of `e`, and its code has the type of the code of `e` and the same
value everywhere. -/
def Kept (ops : FloatOps F) (e e' : PrimExpr) : Prop :=
  e'.dtype.code = e.dtype.code ∧ ∃ V V', CodeGenLLVM.GenExpr e = .ok V ∧
    CodeGenLLVM.GenExpr e' = .ok V' ∧ V'.type = V.type ∧ ∀ σ, V'.eval ops σ = V.eval ops σ

/-! ### The rules -/

/-- Every word of `x` is kept by an operator whose other operand is the word of `c`. -/
def Neutral (ops : FloatOps F) (op : BinaryOp) (is_signed : Bool) (x : PrimExpr) (c : Int) : Prop :=
  ∀ V σ y, CodeGenLLVM.GenExpr x = .ok V → V.eval ops σ = some (.int x.bits y) →
    (intOp is_signed op).apply y (BitVec.ofInt x.bits c) = some y

/-- The literal `l` of one reads as 1, and not as -1 in the division of one bit; or the operand `x`
has only words that are kept. -/
def OneKeeps (ops : FloatOps F) (op : BinaryOp) (x l : PrimExpr) : Prop :=
  (l.dtype.intFormat.Fits 1 ∧
    ¬(op = .Div ∧ (x.dtype.code == 0 || l.dtype.code == 0) ∧ x.bits = 1)) ∨
  Neutral ops op (x.dtype.code == 0 || l.dtype.code == 0) x (l.dtype.intFormat.wrap 1)

/-- The literal that the rewriter drops is not wider than the other operand; one on the left has
its sign. -/
def RuleSafe (ops : FloatOps F) : PrimExpr → Prop
  | .Binary .Add a b =>
    if IsConstZero b then b.bits ≤ a.bits
    else if IsConstZero a then a.bits ≤ b.bits ∧ b.dtype.code = a.dtype.code else True
  | .Binary .Sub a b => if IsConstZero b then b.bits ≤ a.bits else True
  | .Binary .Mul a b =>
    if IsConstOne b then b.bits ≤ a.bits ∧ OneKeeps ops .Mul a b
    else if IsConstOne a then a.bits ≤ b.bits ∧ b.dtype.code = a.dtype.code ∧ OneKeeps ops .Mul b a
    else True
  | .Binary .Div a b => if IsConstOne b then b.bits ≤ a.bits ∧ OneKeeps ops .Div a b else True
  | _ => True

theorem isConst_intImm {e : PrimExpr} {k : Int} {y : Float} (hI : IsInteger e) (hk : |k| < 2 ^ 53)
    (hy : Holds y k) (h : (TryGetConstValue e).any (· == y) = true) :
    ∃ v dtype, e = .IntImm v dtype ∧ v.toInt = k := by
  cases e with
  | IntImm v dtype => exact ⟨v, dtype, rfl, (TryGetConstValue_beq_iff hk hy).mp h⟩
  | FloatImm => cases hI
  | _ => cases h

theorem IsConstZero_intImm {e : PrimExpr} (hI : IsInteger e) (h : IsConstZero e = true) :
    ∃ v dtype, e = .IntImm v dtype ∧ v.toInt = 0 :=
  isConst_intImm hI (by decide) holds_zero h

theorem IsConstOne_intImm {e : PrimExpr} (hI : IsInteger e) (h : IsConstOne e = true) :
    ∃ v dtype, e = .IntImm v dtype ∧ v.toInt = 1 :=
  isConst_intImm hI (by decide) holds_one h

/-! ### Kept expressions -/

theorem kept_iff {e e' : PrimExpr} (hI : IsInteger e) :
    Kept ops e e' ↔ GenRefines ops e e' ∧ GenRefines ops e' e := by
  constructor
  · rintro ⟨hcode, V, V', hV, hV', htype, heval⟩
    refine ⟨⟨hcode, fun W hW => ?_⟩, ⟨hcode.symm, fun W hW => ?_⟩⟩
    · cases hV.symm.trans hW
      exact ⟨V', hV', htype, fun σ w hw => (heval σ).trans hw⟩
    · cases hV'.symm.trans hW
      exact ⟨V, hV, htype.symm, fun σ w hw => (heval σ).symm.trans hw⟩
  · rintro ⟨h, h'⟩
    obtain ⟨V, hV, -⟩ := hI.genExpr ops
    obtain ⟨V', hV', hr⟩ := h.code_refines V hV
    obtain ⟨W, hW, hr'⟩ := h'.code_refines V' hV'
    cases hV.symm.trans hW
    refine ⟨h.code_eq, V, V', hV, hV', hr.type_eq, fun σ => ?_⟩
    rcases hr.none_or_eq σ with hnone | heq
    · rcases hr'.none_or_eq σ with hnone' | heq'
      · rw [hnone, hnone']
      · exact heq'.symm
    · exact heq

/-! ### A literal that is dropped -/

section Drop

variable {op : BinaryOp} {x : PrimExpr} {v : Int64} {dtype : DataType}

/-- `V` is the result of `f` on the words of `X`. -/
theorem same_eval_iff {n : Nat} {X V : CodeGenLLVM.Value} {f : BitVec n → Option (BitVec n)}
    (hX : X.IsInt ops n) (hnone : ∀ σ, X.eval ops σ = none → V.eval ops σ = none)
    (hsome : ∀ σ y, X.eval ops σ = some (.int n y) → V.eval ops σ = (f y).map (.int n)) :
    (∀ σ, X.eval ops σ = V.eval ops σ) ↔
      ∀ σ y, X.eval ops σ = some (.int n y) → f y = some y := by
  constructor
  · intro h σ y hy
    have heq := (h σ).symm.trans hy
    rw [hsome σ y hy] at heq
    obtain ⟨z, hz, hword⟩ := Option.map_eq_some_iff.mp heq
    cases hword
    exact hz
  · intro h σ
    cases hx : X.eval ops σ with
    | none => exact (hnone σ hx).symm
    | some w =>
      obtain ⟨y, rfl⟩ := hX.word σ w hx
      rw [hsome σ y hx, h σ y hx]
      rfl

/-- The code of the operation is that of `x` exactly if it is not wider, and has its words. -/
theorem drop_kept_iff {e l : PrimExpr} {f : BitVec x.bits → Option (BitVec x.bits)}
    {X V : CodeGenLLVM.Value} {code : Prop} (hX : CodeGenLLVM.GenExpr x = .ok X)
    (hintX : X.IsInt ops x.bits) (hV : CodeGenLLVM.GenExpr e = .ok V)
    (hintV : V.IsInt ops (max x.bits l.bits)) (hcode : x.dtype.code = e.dtype.code ↔ code)
    (hnone : l.bits ≤ x.bits → ∀ σ, X.eval ops σ = none → V.eval ops σ = none)
    (hsome : l.bits ≤ x.bits → ∀ σ y, X.eval ops σ = some (.int x.bits y) →
      V.eval ops σ = (f y).map (.int x.bits)) :
    Kept ops e x ↔ l.bits ≤ x.bits ∧ code ∧
      ∀ W σ y, CodeGenLLVM.GenExpr x = .ok W → W.eval ops σ = some (.int x.bits y) →
        f y = some y := by
  constructor
  · rintro ⟨hkcode, V', X', hV', hX', htype, heval⟩
    cases hV.symm.trans hV'
    cases hX.symm.trans hX'
    have hle : l.bits ≤ x.bits := by
      rw [hintX.type_eq, hintV.type_eq, LLVMType.int.injEq] at htype
      omega
    refine ⟨hle, hcode.mp hkcode, fun W σ y hW => ?_⟩
    cases hX.symm.trans hW
    exact (same_eval_iff hintX (hnone hle) (hsome hle)).mp heval σ y
  · rintro ⟨hle, hkcode, hwords⟩
    refine ⟨hcode.mpr hkcode, V, X, hV, hX, ?_, ?_⟩
    · rw [hintX.type_eq, hintV.type_eq, Nat.max_eq_left hle]
    · exact (same_eval_iff hintX (hnone hle) (hsome hle)).mpr fun σ y => hwords X σ y hX

variable (hop : op ∈ [BinaryOp.Add, .Sub, .Mul, .Div]) (hx : IsInteger x)
  (hdtype : dtype.code = 0 ∨ dtype.code = 1)
include hop hx hdtype

/-- The literal is on the right. -/
theorem drop_right_kept_iff :
    Kept ops (.Binary op x (.IntImm v dtype)) x ↔ dtype.bits.toNat ≤ x.bits ∧
      Neutral ops op (x.dtype.code == 0 || dtype.code == 0) x (dtype.intFormat.wrap v.toInt) := by
  have hlogic : op.isLogic = false := by
    revert hop
    cases op <;> decide
  obtain ⟨X, hX, hintX⟩ := hx.genExpr ops
  obtain ⟨X', hX', hintX'⟩ := CastValue_isInt hintX (max x.bits dtype.bits.toNat) (x.dtype.code == 0)
  obtain ⟨L', hL', htypeL, hevalL⟩ := CastValue_literal (F := F) (m := dtype.bits.toNat)
    (max x.bits dtype.bits.toNat) (dtype.code == 0) v.toInt
  have hV : CodeGenLLVM.GenExpr (.Binary op x (.IntImm v dtype)) =
      .ok (.int (intOp (x.dtype.code == 0 || dtype.code == 0) op) X' L') :=
    except_bind_eq_ok.mpr ⟨X, hX, except_bind_eq_ok.mpr ⟨_, GenExpr_literal hdtype v,
      GenBinaryOp_arithmetic hop (CommonNumericType_integral hintX.type_eq rfl) hX' hL'⟩⟩
  have hsame (hle : dtype.bits.toNat ≤ x.bits) : X' = X := by
    rw [Nat.max_eq_left hle] at hX'
    exact Except.ok.inj (hX'.symm.trans (if_pos hintX.type_eq))
  have hcode : x.dtype.code = (PrimExpr.Binary op x (.IntImm v dtype)).dtype.code ↔ True := by
    rw [PrimExpr.dtype, hlogic]
    exact iff_true_intro rfl
  refine (drop_kept_iff (l := .IntImm v dtype) hX hintX hV
    (hintX'.int ⟨htypeL, fun σ w hw => ⟨_, Option.some.inj (hw.symm.trans (hevalL σ))⟩⟩ _) hcode
    (fun hle σ hnone => ?_) fun hle σ y hy => ?_).trans (and_congr_right' (iff_of_eq (true_and _)))
  · rw [hsame hle, LLVMValue.eval, hnone]
  · rw [hsame hle]
    have hle : dtype.bits.toNat ≤ x.bits := hle
    have hword := hevalL σ
    rw [Nat.max_eq_left hle] at hword
    exact LLVMValue.eval_int hy hword _

omit hop in
/-- The literal is on the left. -/
theorem drop_left_kept_iff (hcomm : op = .Add ∨ op = .Mul) :
    Kept ops (.Binary op (.IntImm v dtype) x) x ↔ dtype.bits.toNat ≤ x.bits ∧
      x.dtype.code = dtype.code ∧
      Neutral ops op (x.dtype.code == 0 || dtype.code == 0) x (dtype.intFormat.wrap v.toInt) := by
  have hop : op ∈ [BinaryOp.Add, .Sub, .Mul, .Div] := by
    rcases hcomm with rfl | rfl <;> decide
  obtain ⟨X, hX, hintX⟩ := hx.genExpr ops
  obtain ⟨X', hX', hintX'⟩ := CastValue_isInt hintX (max dtype.bits.toNat x.bits) (x.dtype.code == 0)
  obtain ⟨L', hL', htypeL, hevalL⟩ := CastValue_literal (F := F) (m := dtype.bits.toNat)
    (max dtype.bits.toNat x.bits) (dtype.code == 0) v.toInt
  have hintL : L'.IsInt ops (max dtype.bits.toNat x.bits) :=
    ⟨htypeL, fun σ w hw => ⟨_, Option.some.inj (hw.symm.trans (hevalL σ))⟩⟩
  have hV : CodeGenLLVM.GenExpr (.Binary op (.IntImm v dtype) x) =
      .ok (.int (intOp (dtype.code == 0 || x.dtype.code == 0) op) L' X') :=
    except_bind_eq_ok.mpr ⟨_, GenExpr_literal hdtype v, except_bind_eq_ok.mpr ⟨X, hX,
      GenBinaryOp_arithmetic hop (CommonNumericType_integral rfl hintX.type_eq) hL' hX'⟩⟩
  have hsame (hle : dtype.bits.toNat ≤ x.bits) : X' = X := by
    rw [Nat.max_eq_right hle] at hX'
    exact Except.ok.inj (hX'.symm.trans (if_pos hintX.type_eq))
  have hcode : x.dtype.code = (PrimExpr.Binary op (.IntImm v dtype) x).dtype.code ↔
      x.dtype.code = dtype.code := by
    rcases hcomm with rfl | rfl <;> exact Iff.rfl
  have hintV := hintL.int hintX' (intOp (dtype.code == 0 || x.dtype.code == 0) op)
  rw [Nat.max_comm] at hintV
  refine drop_kept_iff (l := .IntImm v dtype) hX hintX hV hintV hcode (fun hle σ hnone => ?_)
    fun hle σ y hy => ?_
  · rw [hsame hle, LLVMValue.eval, hevalL, hnone]
  · rw [hsame hle]
    have hle : dtype.bits.toNat ≤ x.bits := hle
    have hword := hevalL σ
    rw [Nat.max_eq_right hle] at hword
    rw [LLVMValue.eval_int hword hy]
    rcases hcomm with rfl | rfl
    · exact congrArg (fun z => some (Word.int x.bits z)) (BitVec.add_comm _ _)
    · exact congrArg (fun z => some (Word.int x.bits z)) (BitVec.mul_comm _ _)

end Drop

theorem wrap_zero (f : IntFormat) : f.wrap 0 = 0 := by
  rw [IntFormat.wrap]
  split
  · exact Int.zero_bmod
  · exact Int.zero_emod _

theorem neutral_zero {op : BinaryOp} (hop : op = .Add ∨ op = .Sub) (s : Bool) (x : PrimExpr)
    (f : IntFormat) : Neutral ops op s x (f.wrap 0) := by
  intro V σ y _ _
  rw [wrap_zero]
  rcases hop with rfl | rfl
  · exact congrArg some (BitVec.add_zero y)
  · exact congrArg some (BitVec.sub_zero y)

theorem toInt_fits {n : Nat} (y : BitVec n) : IntFormat.Fits ⟨true, n⟩ y.toInt := by
  have h := read_ofInt true n y.toInt
  rw [BitVec.ofInt_toInt] at h
  exact h.symm

/-- A literal that reads as 1 is neutral, but for the division of one bit with a sign. -/
theorem oneKeeps_iff {op : BinaryOp} {x l : PrimExpr} (hop : op = .Mul ∨ op = .Div)
    (hle : l.dtype.bits.toNat ≤ x.bits) :
    OneKeeps ops op x l ↔
      Neutral ops op (x.dtype.code == 0 || l.dtype.code == 0) x (l.dtype.intFormat.wrap 1) := by
  refine ⟨fun h => h.elim (fun ⟨hone, hbit⟩ V σ y _ _ => ?_) id, .inr⟩
  rw [show l.dtype.intFormat.wrap 1 = 1 from hone]
  have hpos : 0 < x.bits := by
    by_contra h0
    have hzero : l.dtype.bits.toNat = 0 := by omega
    have hformat : l.dtype.intFormat = ⟨l.dtype.code == 0, 0⟩ := by rw [← hzero]; rfl
    rw [hformat] at hone
    revert hone
    cases l.dtype.code == 0 <;> decide
  rcases hop with rfl | rfl
  · exact congrArg some (BitVec.mul_one y)
  have hone : (BitVec.ofInt x.bits 1) = 1#x.bits := rfl
  have hne : 1#x.bits ≠ 0 := fun h => by
    have h : 1 % 2 ^ x.bits = 0 := congrArg BitVec.toNat h
    rw [Nat.mod_eq_of_lt (Nat.one_lt_two_pow hpos.ne')] at h
    cases h
  rw [hone]
  cases hs : (x.dtype.code == 0 || l.dtype.code == 0)
  · show (if 1#x.bits = 0 then none else some (y / 1#x.bits)) = some y
    rw [if_neg hne, BitVec.udiv_one]
  · have hbits : 1 < x.bits := by
      by_contra h1
      exact hbit ⟨rfl, hs, by omega⟩
    have hdefined : ¬sdivUndefined y 1#x.bits := by
      rintro (h0 | hoverflow)
      · exact hne h0
      · rw [BitVec.toInt_one hbits, Int.tdiv_one] at hoverflow
        exact hoverflow (toInt_fits y)
    show (if sdivUndefined y 1#x.bits then none else some (y.sdiv 1#x.bits)) = some y
    rw [if_neg hdefined, BitVec.sdiv_one]

/-! ### The rewriter -/

theorem kept_refl {e : PrimExpr} (hI : IsInteger e) : Kept ops e e := by
  obtain ⟨V, hV, -⟩ := hI.genExpr ops
  exact ⟨rfl, V, V, hV, hV, rfl, fun _ => rfl⟩

/-- The rewriter keeps a node exactly if the rule that it applies is safe there. -/
theorem SimplifyExprRewriter_kept_iff {e : PrimExpr} (hI : IsInteger e) :
    Kept ops e (SimplifyExprRewriter e) ↔ RuleSafe ops e := by
  cases e with
  | IntImm | FloatImm | Var | Not | Load | PredicatedLoad | Call | Select =>
    exact iff_of_true (kept_refl hI) trivial
  | Binary op a b =>
    cases op
    case Add =>
      simp only [SimplifyExprRewriter, RuleSafe]
      split
      · obtain ⟨v, dtype, rfl, hv⟩ := IsConstZero_intImm hI.2 ‹_›
        rw [drop_right_kept_iff (by decide) hI.1 hI.2, hv]
        exact and_iff_left (neutral_zero (.inl rfl) _ _ _)
      split
      · obtain ⟨v, dtype, rfl, hv⟩ := IsConstZero_intImm hI.1 ‹_›
        rw [drop_left_kept_iff hI.2 hI.1 (.inl rfl), hv]
        exact and_congr_right' (and_iff_left (neutral_zero (.inl rfl) _ _ _))
      · exact iff_of_true (kept_refl hI) trivial
    case Sub =>
      simp only [SimplifyExprRewriter, RuleSafe]
      split
      · obtain ⟨v, dtype, rfl, hv⟩ := IsConstZero_intImm hI.2 ‹_›
        rw [drop_right_kept_iff (by decide) hI.1 hI.2, hv]
        exact and_iff_left (neutral_zero (.inr rfl) _ _ _)
      · exact iff_of_true (kept_refl hI) trivial
    case Mul =>
      simp only [SimplifyExprRewriter, RuleSafe]
      split
      · obtain ⟨v, dtype, rfl, hv⟩ := IsConstOne_intImm hI.2 ‹_›
        rw [drop_right_kept_iff (by decide) hI.1 hI.2, hv]
        exact and_congr_right fun hle => (oneKeeps_iff (l := .IntImm v dtype) (.inl rfl) hle).symm
      split
      · obtain ⟨v, dtype, rfl, hv⟩ := IsConstOne_intImm hI.1 ‹_›
        rw [drop_left_kept_iff hI.2 hI.1 (.inr rfl), hv]
        exact and_congr_right fun hle => and_congr_right' (oneKeeps_iff (l := .IntImm v dtype) (.inl rfl) hle).symm
      · exact iff_of_true (kept_refl hI) trivial
    case Div =>
      simp only [SimplifyExprRewriter, RuleSafe]
      split
      · obtain ⟨v, dtype, rfl, hv⟩ := IsConstOne_intImm hI.2 ‹_›
        rw [drop_right_kept_iff (by decide) hI.1 hI.2, hv]
        exact and_congr_right fun hle => (oneKeeps_iff (l := .IntImm v dtype) (.inr rfl) hle).symm
      · exact iff_of_true (kept_refl hI) trivial
    all_goals exact iff_of_true (kept_refl hI) trivial

theorem SimplifyExprRewriter_isInteger {e : PrimExpr} (hI : IsInteger e) :
    IsInteger (SimplifyExprRewriter e) := by
  cases e with
  | IntImm | FloatImm | Var | Not | Load | PredicatedLoad | Call | Select => exact hI
  | Binary op a b =>
    cases op
    case Add | Sub | Mul | Div =>
      simp only [SimplifyExprRewriter]
      repeat' split
      all_goals first | exact hI.1 | exact hI.2 | exact hI
    all_goals exact hI

theorem SimplifyExprPass_isInteger {e : PrimExpr} (hI : IsInteger e) :
    IsInteger (SimplifyExprPass e) := by
  induction e with
  | IntImm | Var => exact hI
  | FloatImm => cases hI
  | Binary op a b iha ihb => exact SimplifyExprRewriter_isInteger ⟨iha hI.1, ihb hI.2⟩
  | Not a ih => exact SimplifyExprRewriter_isInteger (e := .Not _) (ih hI)
  | Load var index ih => exact ⟨hI.1, ih hI.2⟩
  | PredicatedLoad var index predicate ihi ihp => exact ⟨hI.1, ihi hI.2.1, ihp hI.2.2⟩
  | Call dtype name arg ih => exact ⟨hI.1, hI.2.1, ih hI.2.2⟩
  | Select c t f ihc iht ihf => exact ⟨ihc hI.1, iht hI.2.1, ihf hI.2.2⟩

theorem Kept.iff_of_kept {e e' x : PrimExpr} (h : Kept ops e e') : Kept ops e x ↔ Kept ops e' x := by
  obtain ⟨hcode, V, V', hV, hV', htype, heval⟩ := h
  constructor
  · rintro ⟨hxcode, W, X, hW, hX, hxtype, hxeval⟩
    cases hV.symm.trans hW
    exact ⟨hxcode.trans hcode.symm, V', X, hV', hX, hxtype.trans htype.symm,
      fun σ => (hxeval σ).trans (heval σ).symm⟩
  · rintro ⟨hxcode, W, X, hW, hX, hxtype, hxeval⟩
    cases hV'.symm.trans hW
    exact ⟨hxcode.trans hcode, V, X, hV, hX, hxtype.trans htype,
      fun σ => (hxeval σ).trans (heval σ)⟩

/-- A node whose visited form is kept is kept by the pass exactly if the rule is safe. -/
theorem node_kept_iff {e : PrimExpr} (hI : IsInteger e)
    (hI' : IsInteger (TIRPass.visitExpr SimplifyExprRewriter e))
    (h : GenRefines ops e (TIRPass.visitExpr SimplifyExprRewriter e))
    (h' : GenRefines ops (TIRPass.visitExpr SimplifyExprRewriter e) e) :
    Kept ops e (SimplifyExprPass e) ↔
      RuleSafe ops (TIRPass.visitExpr SimplifyExprRewriter e) := by
  rw [SimplifyExprPass, TIRPass.mutateExpr_eq, ((kept_iff hI).mpr ⟨h, h'⟩).iff_of_kept]
  exact SimplifyExprRewriter_kept_iff hI'

/-- The pass keeps an expression and all its parts exactly if every rule that it applies in them is
safe. -/
theorem SimplifyExprPass_keeps_iff (ops : FloatOps F) {e : PrimExpr} (hI : IsInteger e) :
    (∀ s ∈ e.parts, Kept ops s (SimplifyExprPass s)) ↔
      ∀ s ∈ e.parts, RuleSafe ops (TIRPass.visitExpr SimplifyExprRewriter s) := by
  have hself (s : PrimExpr) : s ∈ s.parts := by cases s <;> exact List.mem_cons_self
  have hrefines {s : PrimExpr} (hs : IsInteger s)
      (h : ∀ t ∈ s.parts, Kept ops t (SimplifyExprPass t)) :
      GenRefines ops s (SimplifyExprPass s) ∧ GenRefines ops (SimplifyExprPass s) s :=
    (kept_iff hs).mp (h s (hself s))
  have hnode {p q r s : Prop} (h : r ↔ s) (h' : r → (p ↔ q)) : p ∧ r ↔ q ∧ s :=
    (and_congr_left h').trans (and_congr_right' h)
  have hpass {s : PrimExpr} (hs : IsInteger s) := SimplifyExprPass_isInteger hs
  induction e with
  | FloatImm => cases hI
  | IntImm | Var =>
    simp only [PrimExpr.parts, List.forall_mem_singleton]
    exact node_kept_iff hI hI (.refl _) (.refl _)
  | Binary op a b iha ihb =>
    simp only [PrimExpr.parts, List.forall_mem_cons, List.forall_mem_append]
    refine hnode (and_congr (iha hI.1) (ihb hI.2)) fun ⟨ha, hb⟩ => ?_
    obtain ⟨ha, ha'⟩ := hrefines hI.1 ha
    obtain ⟨hb, hb'⟩ := hrefines hI.2 hb
    exact node_kept_iff hI ⟨hpass hI.1, hpass hI.2⟩ (ha.binary hb op) (ha'.binary hb' op)
  | Not a ih =>
    simp only [PrimExpr.parts, List.forall_mem_cons]
    refine hnode (ih hI) fun ha => ?_
    obtain ⟨ha, ha'⟩ := hrefines (s := a) hI ha
    exact node_kept_iff hI (hpass (s := a) hI) ha.not ha'.not
  | Load var index ih =>
    simp only [PrimExpr.parts, List.forall_mem_cons]
    refine hnode (ih hI.2) fun hi => ?_
    obtain ⟨hi, hi'⟩ := hrefines hI.2 hi
    exact node_kept_iff hI ⟨hI.1, hpass hI.2⟩ (hi.load var) (hi'.load var)
  | PredicatedLoad var index predicate ihi ihp =>
    simp only [PrimExpr.parts, List.forall_mem_cons, List.forall_mem_append]
    refine hnode (and_congr (ihi hI.2.1) (ihp hI.2.2)) fun ⟨hi, hp⟩ => ?_
    obtain ⟨hi, hi'⟩ := hrefines hI.2.1 hi
    obtain ⟨hp, hp'⟩ := hrefines hI.2.2 hp
    exact node_kept_iff hI ⟨hI.1, hpass hI.2.1, hpass hI.2.2⟩ (hi.predicatedLoad hp var)
      (hi'.predicatedLoad hp' var)
  | Call dtype name arg ih =>
    simp only [PrimExpr.parts, List.forall_mem_cons]
    refine hnode (ih hI.2.2) fun ha => ?_
    obtain ⟨ha, ha'⟩ := hrefines hI.2.2 ha
    exact node_kept_iff hI ⟨hI.1, hI.2.1, hpass hI.2.2⟩ (ha.call dtype name) (ha'.call dtype name)
  | Select c t f ihc iht ihf =>
    simp only [PrimExpr.parts, List.forall_mem_cons, List.forall_mem_append]
    refine hnode (and_congr (ihc hI.1) (and_congr (iht hI.2.1) (ihf hI.2.2)))
      fun ⟨hc, ht, hf⟩ => ?_
    obtain ⟨hc, hc'⟩ := hrefines hI.1 hc
    obtain ⟨ht, ht'⟩ := hrefines hI.2.1 ht
    obtain ⟨hf, hf'⟩ := hrefines hI.2.2 hf
    exact node_kept_iff hI ⟨hpass hI.1, hpass hI.2.1, hpass hI.2.2⟩ (hc.select ht hf)
      (hc'.select ht' hf')

/-- The sum of a variable of 32 bits and a zero of 64. -/
def wideZero : PrimExpr := .Binary .Add (.Var ⟨"i", .Int 32, 0⟩) (.IntImm 0 (.Int 64))

/-- The sum is of 64 bits, and the pass makes it the variable, which is of 32. -/
theorem wideZero_not_kept : IsInteger wideZero ∧
    ¬ Kept FloatOps.zero wideZero (SimplifyExprPass wideZero) := by
  refine ⟨⟨.inl rfl, .inl rfl⟩, ?_⟩
  rintro ⟨-, V, V', hV, hV', htype, -⟩
  cases hV
  cases hV'
  exact absurd htype (by decide)

/-- The sum of a variable of 64 bits and a zero of 32. -/
def narrowZero : PrimExpr := .Binary .Add (.Var ⟨"i", .Int 64, 0⟩) (.IntImm 0 (.Int 32))

theorem narrowZero_kept : Kept FloatOps.zero narrowZero (SimplifyExprPass narrowZero) := by
  have hI : IsInteger narrowZero := ⟨.inl rfl, .inl rfl⟩
  have hzero : IsConstZero (.IntImm 0 (.Int 32)) = true := rfl
  have hrule : RuleSafe FloatOps.zero narrowZero := by
    rw [narrowZero, RuleSafe, if_pos hzero]
    exact (by decide : 32 ≤ 64)
  refine (SimplifyExprPass_keeps_iff .zero hI).mpr (fun s hs => ?_) narrowZero List.mem_cons_self
  rcases List.mem_cons.mp hs with rfl | hs
  · exact hrule
  rcases List.mem_cons.mp hs with rfl | hs
  · trivial
  rcases List.mem_cons.mp hs with rfl | hs
  · trivial
  · cases hs

end Kxc.Codegen
