import Kxc.Codegen.Exactness

/-! The LLVM value of an expression keeps what matters of the expression's value. -/

namespace Kxc.Codegen

open Lib Lib.MachineNumber Lib.CLanguage Lib.Llvm Tir

variable {F : Type} {ops : FloatOps F}

/-- The word `w` of `bits` bits stands for the number `x` of a kind, as far as it matters. -/
inductive IsWord (d : Demand) (bits : Nat) : Option FloatFormat → Scalar F → Word F → Prop
  | int {u v : Int} (h : d.Meets u v) :
    IsWord d bits none (.int v) (.int bits (BitVec.ofInt bits u))
  | float {g : FloatFormat} {x : F} : IsWord d bits (some g) (.float x) (.float x)

/-- A word of the format stands for an integer `x` as far as it matters. -/
def Suits (d : Demand) (f : IntFormat) (x : Scalar F) : Prop :=
  ∀ v, x = .int v → d.Within f.bits ∧ (d = .exact → f.Fits v)

theorem joinKind_eq_none {k k' : Option FloatFormat} : joinKind k k' = none ↔ k = none ∧ k' = none := by
  cases k <;> cases k' <;> simp [joinKind]

theorem Demand.Meets.add {d : Demand} {u v u' v' : Int} (h : d.Meets u v) (h' : d.Meets u' v') :
    d.Meets (u + u') (v + v') := by
  cases d with
  | exact =>
    obtain rfl : u = v := h
    obtain rfl : u' = v' := h'
    rfl
  | low k => exact Int.ModEq.add h h'

theorem Demand.Meets.sub {d : Demand} {u v u' v' : Int} (h : d.Meets u v) (h' : d.Meets u' v') :
    d.Meets (u - u') (v - v') := by
  cases d with
  | exact =>
    obtain rfl : u = v := h
    obtain rfl : u' = v' := h'
    rfl
  | low k => exact Int.ModEq.sub h h'

theorem Demand.Meets.mul {d : Demand} {u v u' v' : Int} (h : d.Meets u v) (h' : d.Meets u' v') :
    d.Meets (u * u') (v * v') := by
  cases d with
  | exact =>
    obtain rfl : u = v := h
    obtain rfl : u' = v' := h'
    rfl
  | low k => exact Int.ModEq.mul h h'

/-- Integers that agree in `n` bits meet where no more bits matter. -/
theorem Demand.Meets.of_modEq {d : Demand} {n : Nat} {u v w : Int} (hd : d.Within n)
    (huv : u ≡ v [ZMOD 2 ^ n]) (hexact : d = .exact → u = w) (h : d.Meets v w) : d.Meets u w := by
  cases d with
  | exact => exact hexact rfl
  | low k => exact (huv.of_dvd (pow_dvd_pow 2 hd)).trans h

/-! ### Casts -/

/-- An operand that is cast to the type that it meets the other one in. -/
theorem CastValue_isWord {σ : Store Var F} {A A' : CodeGenLLVM.Value} {k k' : Option FloatFormat}
    {m n : Nat} {s : Bool} {d : Demand} {x : Scalar F} {w : Word F}
    (htype : A.type = llvmType k m) (hA : A.eval ops σ = some w)
    (hw : IsWord (d.operand m) m k x w) (hx : Suits (d.operand m) ⟨s, m⟩ x)
    (hk : k' = none → k = none) (hd : k' ≠ none → d = .exact)
    (hcast : CodeGenLLVM.CastValue A (llvmType k' n) s = .ok A') :
    ∃ w', A'.eval ops σ = some w' ∧ IsWord d n k' (toKind ops k k' x) w' := by
  simp only [CodeGenLLVM.CastValue, htype] at hcast
  cases hw with
  | @int u v h =>
    obtain ⟨hwithin, hfits⟩ := hx v rfl
    have hread : (d.operand m).Meets (readWord s (BitVec.ofInt m u)) v := by
      rw [read_ofInt]
      refine h.of_modEq hwithin (IntFormat.wrap_modEq ⟨s, m⟩ u) fun hexact => ?_
      rw [hexact] at h
      obtain rfl : u = v := h
      exact hfits hexact
    cases k' with
    | none =>
      split at hcast
      · rename_i hmn
        obtain rfl : m = n := by injection hmn
        cases hcast
        exact ⟨_, hA, .int h.of_operand⟩
      · cases hcast
        refine ⟨_, ?_, .int hread.of_operand⟩
        rw [← extend_eq, LLVMValue.eval, hA]
        cases s <;> rfl
    | some g =>
      obtain rfl := hd (by simp)
      have hread : readWord s (BitVec.ofInt m u) = v := hread
      split at hcast
      · rename_i hmn
        cases hmn
      · cases hcast
        refine ⟨.float (ops.ofInt g v), ?_, .float⟩
        rw [← hread, LLVMValue.eval, hA]
        cases s <;> rfl
  | @float f x =>
    cases k' with
    | none => cases hk rfl
    | some g =>
      split at hcast
      · rename_i hfg
        obtain rfl : f = g := by injection hfg
        cases hcast
        refine ⟨_, hA, ?_⟩
        rw [toKind, Scalar.toFloat, Option.getD_some, FloatOps.to_self]
        exact .float
      · cases hcast
        refine ⟨.float (ops.to f g x), ?_, .float⟩
        simp only [LLVMValue.eval, hA, htype, llvmType, Option.bind_some]
        split <;> rfl

theorem ofBool_ne_zero (x : BitVec 1) : BitVec.ofBool (x != 0) = x := by
  revert x
  decide

/-- A condition that is an exact number is one as a truth value. -/
theorem CastToBool_eval {σ : Store Var F} {A A' : CodeGenLLVM.Value} {k : Option FloatFormat}
    {m : Nat} {s : Bool} {x : Scalar F} {w : Word F} (htype : A.type = llvmType k m)
    (hA : A.eval ops σ = some w) (hw : IsWord .exact m k x w) (hx : Suits .exact ⟨s, m⟩ x)
    (hordered : ∀ y, x = .float y → ops.eq y y = true)
    (hcast : CodeGenLLVM.CastToBool A = .ok A') :
    A'.eval ops σ = some (.ofBool (x.truth ops (k.getD .double))) := by
  simp only [CodeGenLLVM.CastToBool, htype] at hcast
  cases hw with
  | @int u v h =>
    obtain rfl : u = v := h
    have hfits := (hx u rfl).2 rfl
    have hzero : (BitVec.ofInt m u != 0) = (u != 0) := by
      rw [Bool.eq_iff_iff, bne_iff_ne, bne_iff_ne, ne_eq, ← read_eq_zero, read_of_fits hfits]
    cases hcast
    show _ = some (Word.ofBool (u != 0))
    split
    · rename_i hm
      subst hm
      rw [hA, ← hzero, Word.ofBool, ofBool_ne_zero]
    · simp only [LLVMValue.eval, hA, IntPred.apply, BitVec.setWidth_eq, hzero]
  | @float f x =>
    cases hcast
    have hzero : (LLVMValue.fconst f 0.0 : CodeGenLLVM.Value).eval ops σ =
        some (.float (ops.ofInt f 0)) := by
      rw [LLVMValue.eval, ops.round_zero]
    rw [LLVMValue.eval_fcmp hA hzero, FloatPred.apply, ops.compare_zero f x (hordered x rfl)]
    rfl

/-! ### Operators -/

theorem ofInt_ne_zero {n : Nat} {s : Bool} {v : Int} (hfits : IntFormat.Fits ⟨s, n⟩ v)
    (hv : v ≠ 0) : BitVec.ofInt n v ≠ 0 := by
  rw [ne_eq, ← read_eq_zero, read_of_fits hfits]
  exact hv

/-- The words of numbers that a division is defined for. -/
theorem not_sdivUndefined {n : Nat} {u v : Int} (hv : v ≠ 0) (hu : IntFormat.Fits ⟨true, n⟩ u)
    (hvf : IntFormat.Fits ⟨true, n⟩ v) (hdiv : IntFormat.Fits ⟨true, n⟩ (u.tdiv v)) :
    ¬sdivUndefined (BitVec.ofInt n u) (BitVec.ofInt n v) := by
  rintro (hzero | hoverflow)
  · exact ofInt_ne_zero hvf hv hzero
  · have hu : (BitVec.ofInt n u).toInt = u := read_of_fits hu
    have hvf : (BitVec.ofInt n v).toInt = v := read_of_fits hvf
    rw [hu, hvf] at hoverflow
    exact hoverflow hdiv

section Operators

variable {σ : Store Var F} {d : Demand} {f : IntFormat} {n : Nat} {first s : Bool}
  {A B V : CodeGenLLVM.Value} {u v : Int}

/-- Minimum and maximum of words that read as `u` and `v`. -/
theorem select_int {p : IntPred} {b : Bool}
    (hA : A.eval ops σ = some (.int n (BitVec.ofInt n u)))
    (hB : B.eval ops σ = some (.int n (BitVec.ofInt n v)))
    (hp : p.apply (BitVec.ofInt n u) (BitVec.ofInt n v) = b) :
    (LLVMValue.select (.icmp p A B) A B).eval ops σ =
      some (.int n (BitVec.ofInt n (if b then u else v))) := by
  have hcond : (LLVMValue.icmp p A B).eval ops σ = some (.ofBool b) := by
    rw [LLVMValue.eval_icmp hA hB, hp]
  rw [LLVMValue.eval_select hcond hA hB]
  cases b <;> rfl

theorem slt_or_ult {u v : Int} (hu : IntFormat.Fits ⟨s, n⟩ u) (hv : IntFormat.Fits ⟨s, n⟩ v) :
    (if s then IntPred.slt else IntPred.ult).apply (BitVec.ofInt n u) (BitVec.ofInt n v) =
      decide (u < v) := by
  rw [← lt_of_fits hu hv]
  cases s <;> rfl

theorem sgt_or_ugt {u v : Int} (hu : IntFormat.Fits ⟨s, n⟩ u) (hv : IntFormat.Fits ⟨s, n⟩ v) :
    (if s then IntPred.sgt else IntPred.ugt).apply (BitVec.ofInt n u) (BitVec.ofInt n v) =
      decide (v < u) := by
  rw [← lt_of_fits hv hu]
  cases s <;> rfl

theorem ofBool_eq_ofInt (b : Bool) : BitVec.ofBool b = BitVec.ofInt 1 b.toInt := by
  cases b <;> rfl

theorem isWord_ofBool (d : Demand) (b : Bool) :
    IsWord d 1 none (Scalar.ofBool b) (Word.ofBool b : Word F) := by
  rw [Scalar.ofBool, Word.ofBool, ofBool_eq_ofInt]
  exact .int (.refl d _)

theorem suits_ofBool {d : Demand} (hd : d.Within 1) (b : Bool) :
    Suits d ⟨false, 1⟩ (Scalar.ofBool b : Scalar F) := by
  rintro v hv
  obtain rfl := Scalar.int.inj hv
  exact ⟨hd, fun _ => by cases b <;> rfl⟩

/-- An operator on integers that are promoted. -/
theorem promotedOp_int {op : BinaryOp} {u' v' : Int} (htype : A.type = .int n)
    (hA : A.eval ops σ = some (.int n (BitVec.ofInt n u')))
    (hB : B.eval ops σ = some (.int n (BitVec.ofInt n v')))
    (hmu : (operandDemand op d).Meets u' u) (hmv : (operandDemand op d).Meets v' v)
    (hkeeps : OpKeeps op d f n first s u v) (hV : CodeGenLLVM.promotedOp op s A B = .ok V) :
    ∃ r, V.eval ops σ = some (.int (if op.isLogic then 1 else n)
        (BitVec.ofInt (if op.isLogic then 1 else n) r)) ∧ d.Meets r (op.int u v) := by
  cases op <;>
    simp only [CodeGenLLVM.promotedOp, htype, CodeGenLLVM.isFloatingPointTy, Bool.false_eq_true,
      if_false, Except.ok.injEq, reduceCtorEq] at hV
  all_goals subst hV
  case Add =>
    refine ⟨u' + v', ?_, hmu.add hmv⟩
    rw [LLVMValue.eval_int hA hB, IntOp.apply, ← BitVec.ofInt_add]
    rfl
  case Sub =>
    refine ⟨u' - v', ?_, hmu.sub hmv⟩
    rw [LLVMValue.eval_int hA hB, IntOp.apply, ← ofInt_sub]
    rfl
  case Mul =>
    refine ⟨u' * v', ?_, hmu.mul hmv⟩
    rw [LLVMValue.eval_int hA hB, IntOp.apply, ← BitVec.ofInt_mul]
    rfl
  all_goals
    obtain rfl : u' = u := hmu
    obtain rfl : v' = v := hmv
  case Div =>
    obtain ⟨hv, -, -, -, hfu, hfv, hdiv, -⟩ := hkeeps
    refine ⟨_, ?_, .refl d _⟩
    rw [LLVMValue.eval_int hA hB]
    have hquot := div_of_fits hfu hfv
    cases s
    · rw [if_neg Bool.false_ne_true, IntOp.apply, if_neg (ofInt_ne_zero hfv hv)]
      exact congrArg (fun x => some (Word.int n x)) hquot
    · rw [if_pos rfl, IntOp.apply, if_neg (not_sdivUndefined hv hfu hfv hdiv)]
      exact congrArg (fun x => some (Word.int n x)) hquot
  case Mod =>
    obtain ⟨hv, -, -, -, hfu, hfv, hdiv, -⟩ := hkeeps
    refine ⟨_, ?_, .refl d _⟩
    rw [LLVMValue.eval_int hA hB]
    have hrem := rem_of_fits hfu hfv
    cases s
    · rw [if_neg Bool.false_ne_true, IntOp.apply, if_neg (ofInt_ne_zero hfv hv)]
      exact congrArg (fun x => some (Word.int n x)) hrem
    · rw [if_pos rfl, IntOp.apply, if_neg (not_sdivUndefined hv hfu hfv hdiv)]
      exact congrArg (fun x => some (Word.int n x)) hrem
  case Min =>
    obtain ⟨-, -, hfu, hfv, -⟩ := hkeeps
    refine ⟨_, ?_, .refl d _⟩
    rw [select_int hA hB (slt_or_ult hfu hfv)]
    simp only [decide_eq_true_eq]
    rfl
  case Max =>
    obtain ⟨-, -, hfu, hfv, -⟩ := hkeeps
    refine ⟨_, ?_, .refl d _⟩
    rw [select_int hA hB (sgt_or_ugt hfu hfv)]
    simp only [decide_eq_true_eq]
    rfl
  case EQ =>
    obtain ⟨-, -, heq⟩ := hkeeps
    refine ⟨_, ?_, .refl d _⟩
    have hwords : (BitVec.ofInt n u' == BitVec.ofInt n v') = decide (u' = v') := by
      rw [Bool.eq_iff_iff, beq_iff_eq, ofInt_eq_iff, decide_eq_true_eq]
      exact ⟨heq, fun h => h ▸ Int.ModEq.refl _⟩
    rw [LLVMValue.eval_icmp hA hB, IntPred.apply, hwords, Word.ofBool, ofBool_eq_ofInt]
    rfl
  case LT =>
    obtain ⟨-, -, hfu, hfv⟩ := hkeeps
    refine ⟨_, ?_, .refl d _⟩
    rw [LLVMValue.eval_icmp hA hB, slt_or_ult hfu hfv, Word.ofBool, ofBool_eq_ofInt]
    rfl

/-- An operator on floating-point numbers that are promoted. -/
theorem promotedOp_float {op : BinaryOp} {g : FloatFormat} {x y : F} (htype : A.type = .float g)
    (hA : A.eval ops σ = some (.float x)) (hB : B.eval ops σ = some (.float y))
    (hV : CodeGenLLVM.promotedOp op s A B = .ok V) :
    ∃ w, V.eval ops σ = some w ∧
      IsWord d (if op.isLogic then 1 else n) (if op.isLogic then none else some g)
        (op.float ops g x y) w := by
  have hselect (b : Bool) : IsWord d n (some g) (.float (if b then x else y))
      (if b then Word.float x else Word.float y) := by
    cases b <;> exact .float
  cases op <;>
    simp only [CodeGenLLVM.promotedOp, htype, CodeGenLLVM.isFloatingPointTy, if_true,
      Except.ok.injEq, reduceCtorEq] at hV
  all_goals subst hV
  case EQ | LT => exact ⟨_, LLVMValue.eval_fcmp hA hB _, isWord_ofBool d _⟩
  case Min | Max =>
    exact ⟨_, LLVMValue.eval_select (LLVMValue.eval_fcmp hA hB _) hA hB, hselect _⟩
  all_goals
    refine ⟨_, ?_, .float⟩
    rw [LLVMValue.eval, htype, hA, hB]
    rfl

end Operators

/-! ### Expressions without divisions -/

/-- A word of a kind and of as many bits. -/
inductive WordOf (bits : Nat) : Option FloatFormat → Word F → Prop
  | int (x : BitVec bits) : WordOf bits none (.int bits x)
  | float {g : FloatFormat} (x : F) : WordOf bits (some g) (.float x)

theorem IsWord.wordOf {d : Demand} {bits : Nat} {k : Option FloatFormat} {x : Scalar F} {w : Word F}
    (h : IsWord d bits k x w) : WordOf bits k w := by
  cases h with
  | int => exact .int _
  | float => exact .float _

section Total

variable {σ : Store Var F} {A B A' V : CodeGenLLVM.Value} {k k' : Option FloatFormat} {m n : Nat}
  {s : Bool} {v w : Word F}

theorem CastValue_total (htype : A.type = llvmType k m) (hA : A.eval ops σ = some w)
    (hw : WordOf m k w) (hk : k' = none → k = none)
    (hcast : CodeGenLLVM.CastValue A (llvmType k' n) s = .ok A') :
    ∃ w', A'.eval ops σ = some w' ∧ WordOf n k' w' := by
  simp only [CodeGenLLVM.CastValue, htype] at hcast
  cases hw with
  | int x =>
    cases k' with
    | none =>
      split at hcast
      · rename_i hmn
        obtain rfl : m = n := by injection hmn
        cases hcast
        exact ⟨_, hA, .int x⟩
      · cases hcast
        rw [LLVMValue.eval, hA]
        cases s <;> exact ⟨_, rfl, .int _⟩
    | some g =>
      split at hcast
      · rename_i hmn
        cases hmn
      · cases hcast
        rw [LLVMValue.eval, hA]
        cases s <;> exact ⟨_, rfl, .float _⟩
  | @float f x =>
    cases k' with
    | none => cases hk rfl
    | some g =>
      split at hcast
      · cases hcast
        exact ⟨_, hA, .float x⟩
      · cases hcast
        refine ⟨.float (ops.to f g x), ?_, .float _⟩
        simp only [LLVMValue.eval, hA, htype, llvmType, Option.bind_some]
        split <;> rfl

theorem CastToBool_total (htype : A.type = llvmType k m) (hA : A.eval ops σ = some w)
    (hw : WordOf m k w) (hcast : CodeGenLLVM.CastToBool A = .ok A') :
    ∃ b, A'.eval ops σ = some (.ofBool b) := by
  simp only [CodeGenLLVM.CastToBool, htype] at hcast
  cases hw with
  | int x =>
    cases hcast
    split
    · rename_i hm
      subst hm
      exact ⟨x != 0, by rw [hA, Word.ofBool, ofBool_ne_zero]⟩
    · exact ⟨_, LLVMValue.eval_icmp hA rfl _⟩
  | float x =>
    cases hcast
    exact ⟨_, LLVMValue.eval_fcmp hA rfl _⟩

theorem promotedOp_total {op : BinaryOp} (hdiv : op ≠ .Div ∧ op ≠ .Mod) (htype : A.type = llvmType k n)
    (hA : A.eval ops σ = some v) (hB : B.eval ops σ = some w) (hv : WordOf n k v)
    (hw : WordOf n k w) (hV : CodeGenLLVM.promotedOp op s A B = .ok V) :
    ∃ r, V.eval ops σ = some r ∧
      WordOf (if op.isLogic then 1 else n) (if op.isLogic then none else k) r := by
  cases hv with
  | int x =>
    obtain ⟨y⟩ := hw
    have hselect (b : Bool) :
        WordOf n none (if b then .int n x else .int n y : Word F) := by
      cases b <;> exact .int _
    cases op <;>
      simp only [CodeGenLLVM.promotedOp, htype, llvmType, CodeGenLLVM.isFloatingPointTy,
        Bool.false_eq_true, if_false, Except.ok.injEq, reduceCtorEq] at hV
    all_goals subst hV
    case Div => exact absurd rfl hdiv.1
    case Mod => exact absurd rfl hdiv.2
    case EQ | LT => exact ⟨_, LLVMValue.eval_icmp hA hB _, .int _⟩
    case Min | Max =>
      exact ⟨_, LLVMValue.eval_select (LLVMValue.eval_icmp hA hB _) hA hB, hselect _⟩
    all_goals exact ⟨_, LLVMValue.eval_int hA hB _, .int _⟩
  | @float g x =>
    obtain ⟨y⟩ := hw
    obtain ⟨r, hr, hword⟩ := promotedOp_float (d := .exact) htype hA hB hV
    exact ⟨r, hr, hword.wordOf⟩

end Total

/-- The values of the operands of an operator on numbers. -/
theorem GenBinaryOp_ok {op : BinaryOp} (hlogic : op ≠ .And ∧ op ≠ .Or) {A B V : CodeGenLLVM.Value}
    {k k' : Option FloatFormat} {m n : Nat} {a_dtype b_dtype : DataType}
    (hA : A.type = llvmType k m) (hB : B.type = llvmType k' n)
    (hV : CodeGenLLVM.GenBinaryOp op A B a_dtype b_dtype = .ok V) :
    ∃ A' B', CodeGenLLVM.CastValue A (llvmType (joinKind k k') (max m n)) (a_dtype.code == 0) =
        .ok A' ∧
      CodeGenLLVM.CastValue B (llvmType (joinKind k k') (max m n)) (b_dtype.code == 0) = .ok B' ∧
      CodeGenLLVM.promotedOp op (a_dtype.code == 0 || b_dtype.code == 0) A' B' = .ok V := by
  cases op
  case And => exact absurd rfl hlogic.1
  case Or => exact absurd rfl hlogic.2
  all_goals
    obtain ⟨⟨A', B'⟩, hpromote, h⟩ := except_bind_eq_ok.mp hV
    obtain ⟨hA', hB'⟩ := PromoteBinaryOperands_ok hA hB hpromote
    exact ⟨A', B', hA', hB', h⟩

theorem Keeps_binary {op : BinaryOp} (hlogic : op ≠ .And ∧ op ≠ .Or) {a b : PrimExpr} {d : Demand}
    {σ : Store Var F} : Keeps ops σ (.Binary op a b) d =
      (Keeps ops σ a ((operandDemand op d).operand a.bits) ∧
      Keeps ops σ b ((operandDemand op d).operand b.bits) ∧
      ∀ u v, a.value ops σ = .int u → b.value ops σ = .int v →
        OpKeeps op d (cCommon a b) (max a.bits b.bits) (signed a) (signed a || signed b) u v) := by
  cases op
  case And => exact absurd rfl hlogic.1
  case Or => exact absurd rfl hlogic.2
  all_goals rfl

theorem value_binary {op : BinaryOp} (hlogic : op ≠ .And ∧ op ≠ .Or) (a b : PrimExpr)
    (σ : Store Var F) : (PrimExpr.Binary op a b).value ops σ =
      op.apply ops (joinKind a.kind b.kind)
        (toKind ops a.kind (joinKind a.kind b.kind) (a.value ops σ))
        (toKind ops b.kind (joinKind a.kind b.kind) (b.value ops σ)) := by
  cases op
  case And => exact absurd rfl hlogic.1
  case Or => exact absurd rfl hlogic.2
  all_goals rfl

/-- The integers that an operator keeps as far as it matters suit its result. -/
theorem OpKeeps.suits {op : BinaryOp} {d : Demand} {f : IntFormat} {n : Nat} {first s : Bool}
    {u v : Int} (hlogic : op ≠ .And ∧ op ≠ .Or) (h : OpKeeps op d f n first s u v)
    (hd : d.Within (if op.isLogic then 1 else n)) :
    Suits d ⟨if op.isLogic then false else first, if op.isLogic then 1 else n⟩
      (.int (op.int u v) : Scalar F) := by
  rintro w hw
  obtain rfl := Scalar.int.inj hw
  refine ⟨hd, ?_⟩
  rintro rfl
  cases op
  case And => exact absurd rfl hlogic.1
  case Or => exact absurd rfl hlogic.2
  case EQ => exact (@suits_ofBool F .exact trivial (decide (u = v)) _ rfl).2 rfl
  case LT => exact (@suits_ofBool F .exact trivial (decide (u < v)) _ rfl).2 rfl
  case Add | Sub | Mul => exact h.2.2.2
  case Div | Mod => exact h.2.2.2.2.2.2.2 rfl
  case Min | Max => exact h.2.2.2.2 rfl

theorem signed_binary (op : BinaryOp) (a b : PrimExpr) :
    signed (.Binary op a b) = if op.isLogic then false else signed a := by
  rw [signed, PrimExpr.dtype]
  split <;> rfl

/-- An operator on operands that are promoted. -/
theorem promotedOp_isWord {op : BinaryOp} (hlogic : op ≠ .And ∧ op ≠ .Or) {σ : Store Var F}
    {d : Demand} {f : IntFormat} {n : Nat} {first s : Bool} {A B V : CodeGenLLVM.Value}
    {k : Option FloatFormat} {x y : Scalar F} {v w : Word F} (htype : A.type = llvmType k n)
    (hA : A.eval ops σ = some v) (hB : B.eval ops σ = some w)
    (hv : IsWord (operandDemand op d) n k x v) (hw : IsWord (operandDemand op d) n k y w)
    (hkeeps : ∀ u u', x = .int u → y = .int u' → OpKeeps op d f n first s u u')
    (hd : d.Within (if op.isLogic then 1 else n))
    (hV : CodeGenLLVM.promotedOp op s A B = .ok V) :
    ∃ r, V.eval ops σ = some r ∧
      IsWord d (if op.isLogic then 1 else n) (if op.isLogic then none else k)
        (op.apply ops k x y) r ∧
      Suits d ⟨if op.isLogic then false else first, if op.isLogic then 1 else n⟩
        (op.apply ops k x y) := by
  cases hv with
  | @int u' u hu =>
    obtain ⟨hu'⟩ := hw
    have hkeeps := hkeeps _ _ rfl rfl
    obtain ⟨r, hr, hmeets⟩ := promotedOp_int htype hA hB hu hu' hkeeps hV
    refine ⟨_, hr, ?_, hkeeps.suits hlogic hd⟩
    have hnone : (if op.isLogic then none else none : Option FloatFormat) = none := ite_self none
    rw [hnone]
    exact .int hmeets
  | @float g x =>
    obtain ⟨⟩ := hw
    rename_i y
    obtain ⟨r, hr, hword⟩ := promotedOp_float (d := d) htype hA hB hV
    refine ⟨r, hr, hword, ?_⟩
    cases op
    case EQ | LT => exact suits_ofBool hd _
    case And => exact absurd rfl hlogic.1
    case Or => exact absurd rfl hlogic.2
    all_goals
      intro u hu
      cases hu

/-- The word of a variable or an element of a buffer. -/
theorem ofScalar_isWord {dtype : DataType} {t : LLVMType} {x : Scalar F} (d : Demand)
    (ht : CodeGenLLVM.GetLLVMType dtype = .ok t) (hx : dtype.Holds x)
    (htype : t = llvmType dtype.floatFormat dtype.bits.toNat) :
    ∃ w, Word.ofScalar t x = some w ∧ IsWord d dtype.bits.toNat dtype.floatFormat x w := by
  cases x with
  | int v =>
    have hnone : dtype.floatFormat = none := if_pos hx.1
    rw [hnone] at htype ⊢
    rw [htype]
    exact ⟨_, rfl, .int (.refl d v)⟩
  | float x =>
    have hcode : dtype.code = 2 := hx
    have hsome : dtype.floatFormat ≠ none := by
      intro hnone
      simp only [hnone, llvmType] at htype
      rw [htype] at ht
      simp only [CodeGenLLVM.GetLLVMType, hcode, true_and] at ht
      repeat' split at ht
      all_goals simp_all
    obtain ⟨g, hg⟩ := Option.ne_none_iff_exists'.mp hsome
    rw [hg] at htype ⊢
    rw [htype]
    exact ⟨_, rfl, .float⟩

theorem ofScalar_total {dtype : DataType} {t : LLVMType} {x : Scalar F}
    (ht : CodeGenLLVM.GetLLVMType dtype = .ok t) (hx : dtype.Holds x)
    (htype : t = llvmType dtype.floatFormat dtype.bits.toNat) :
    ∃ w, Word.ofScalar t x = some w ∧ WordOf dtype.bits.toNat dtype.floatFormat w := by
  obtain ⟨w, hw, hword⟩ := ofScalar_isWord .exact ht hx htype
  exact ⟨w, hw, hword.wordOf⟩

theorem suits_holds {dtype : DataType} {d : Demand} {x : Scalar F}
    (hd : d.Within dtype.bits.toNat) (hx : dtype.Holds x) :
    Suits d ⟨dtype.code == 0, dtype.bits.toNat⟩ x := by
  rintro v rfl
  exact ⟨hd, fun _ => hx.2⟩

/-- The branch that a `Select` takes suits the result. -/
theorem suits_branch {own k : Option FloatFormat} {d : Demand} {f : IntFormat} {n : Nat}
    {first : Bool} {x : Scalar F} (hd : d.Within n)
    (h : ∀ v, x = .int v → BranchKeeps d f n first v) : Suits d ⟨first, n⟩ (toKind ops own k x) := by
  intro v hv
  refine ⟨hd, ?_⟩
  rintro rfl
  cases k with
  | none => exact (h v hv).2
  | some g => cases hv

/-- The zero that a load without its predicate has. -/
theorem getNullValue_isWord (ops : FloatOps F) (σ : Store Var F) (k : Option FloatFormat) (n : Nat)
    (d : Demand) :
    ∃ w, (CodeGenLLVM.getNullValue (llvmType k n)).eval ops σ = some w ∧
      IsWord d n k (toKind ops none k (.int 0)) w := by
  cases k with
  | none => exact ⟨_, rfl, .int (.refl d 0)⟩
  | some g =>
    refine ⟨.float (ops.ofInt g 0), ?_, .float⟩
    show some (Word.float (ops.round g 0.0)) = _
    rw [ops.round_zero]

theorem intrinsic_eq {name i : String} {t : LLVMType}
    (h : CodeGenLLVM.GetOrDeclareIntrinsic name t = .ok i) :
    i = PrimExpr.functionName name := by
  simp only [CodeGenLLVM.GetOrDeclareIntrinsic] at h
  split at h
  · cases h
  · repeat' split at h
    all_goals cases h
    all_goals
      rename_i hname
      rcases hname with rfl | rfl <;> rfl

/-- The code of an expression without divisions is always defined. -/
theorem GenExpr_total (σ : Env F) (e : PrimExpr) {V : CodeGenLLVM.Value}
    (hV : CodeGenLLVM.GenExpr e = .ok V) {t : CType}
    (hC : (CodeGenC.GenExpr e).type CodeGenC.typing = some t) (hF : SameFormats e)
    (hdiv : NoDivision e) :
    ∃ w, V.eval ops σ.toStore = some w ∧ WordOf e.bits e.kind w := by
  induction e generalizing V t with
  | IntImm value dtype =>
    obtain ⟨s, hs, h⟩ := except_bind_eq_ok.mp hV
    split at h
    · obtain ⟨-, hbits⟩ := GetLLVMType_int hs
      cases h
      rw [PrimExpr.bits, hbits]
      exact ⟨_, rfl, .int _⟩
    · cases h
  | FloatImm value dtype =>
    obtain ⟨s, hs, h⟩ := except_bind_eq_ok.mp hV
    split at h
    · cases h
      rw [PrimExpr.kind, GetLLVMType_float hs]
      exact ⟨_, rfl, .float _⟩
    · cases h
  | Var var =>
    obtain ⟨s, hs, h⟩ := except_bind_eq_ok.mp hV
    cases h
    exact ofScalar_total hs (σ.vars_holds var)
      (GetLLVMType_eq hs fun hnone => by cases hnone.symm.trans hC)
  | Binary op a b iha ihb =>
    obtain ⟨A, hA, h⟩ := except_bind_eq_ok.mp hV
    obtain ⟨B, hB, h⟩ := except_bind_eq_ok.mp h
    obtain ⟨s, s', hta, htb⟩ := type_binary hC
    obtain ⟨w, hw, hwa⟩ := iha hA hta hF.1 hdiv.2.2.1
    obtain ⟨w', hw', hwb⟩ := ihb hB htb hF.2 hdiv.2.2.2
    have htypeA := GenExpr_type a hA hta
    have htypeB := GenExpr_type b hB htb
    by_cases hlogic : op ≠ .And ∧ op ≠ .Or
    · obtain ⟨A', B', hcastA, hcastB, hop⟩ := GenBinaryOp_ok hlogic htypeA htypeB h
      obtain ⟨v, hv, hva⟩ :=
        CastValue_total htypeA hw hwa (fun h => (joinKind_eq_none.mp h).1) hcastA
      obtain ⟨v', hv', hvb⟩ :=
        CastValue_total htypeB hw' hwb (fun h => (joinKind_eq_none.mp h).2) hcastB
      exact promotedOp_total ⟨hdiv.1, hdiv.2.1⟩ (CastValue_type hcastA) hv hv' hva hvb hop
    · have hor : op = .And ∨ op = .Or := by
        by_contra hne
        exact hlogic (not_or.mp hne)
      rcases hor with rfl | rfl
      all_goals
        obtain ⟨A', hcastA, h⟩ := except_bind_eq_ok.mp h
        obtain ⟨B', hcastB, h⟩ := except_bind_eq_ok.mp h
        obtain ⟨x, hx⟩ := CastToBool_total htypeA hw hwa hcastA
        obtain ⟨y, hy⟩ := CastToBool_total htypeB hw' hwb hcastB
        cases h
        exact ⟨_, LLVMValue.eval_int hx hy _, .int _⟩
  | Not a ih =>
    obtain ⟨A, hA, h⟩ := except_bind_eq_ok.mp hV
    obtain ⟨A', hcast, h⟩ := except_bind_eq_ok.mp h
    cases h
    obtain ⟨s, hta, -⟩ := CExpr.type_not hC
    obtain ⟨w, hw, hwa⟩ := ih hA hta hF hdiv
    obtain ⟨x, hx⟩ := CastToBool_total (GenExpr_type a hA hta) hw hwa hcast
    exact ⟨_, by rw [LLVMValue.eval, hx]; rfl, .int _⟩
  | Load var index ih =>
    obtain ⟨I, hI, h⟩ := except_bind_eq_ok.mp hV
    obtain ⟨s, hs, h⟩ := except_bind_eq_ok.mp h
    cases h
    obtain ⟨f, hti, ht⟩ := CExpr.type_index hC
    have hkind : none = index.kind := GenExpr_cKind index hF hti
    obtain ⟨w, hw, hwi⟩ := ih hI hti hF hdiv
    rw [← hkind] at hwi
    obtain ⟨x⟩ := hwi
    rw [LLVMValue.eval, hw]
    exact ofScalar_total hs (σ.buffers_holds var _)
      (GetLLVMType_eq hs fun hnone => by cases hnone.symm.trans ht)
  | PredicatedLoad var index predicate ihi ihp =>
    obtain ⟨I, hI, h⟩ := except_bind_eq_ok.mp hV
    obtain ⟨s, hs, h⟩ := except_bind_eq_ok.mp h
    obtain ⟨P, hP, h⟩ := except_bind_eq_ok.mp h
    obtain ⟨P', hcast, h⟩ := except_bind_eq_ok.mp h
    cases h
    obtain ⟨r, s', s'', htp, hload, -⟩ := CExpr.type_cond hC
    obtain ⟨f, hti, ht⟩ := CExpr.type_index hload
    have hkind : none = index.kind := GenExpr_cKind index hF.1 hti
    have hs' := GetLLVMType_eq hs fun hnone => by cases hnone.symm.trans ht
    obtain ⟨w, hw, hwi⟩ := ihi hI hti hF.1 hdiv.1
    obtain ⟨v, hv, hvp⟩ := ihp hP htp hF.2 hdiv.2
    obtain ⟨b, hb⟩ := CastToBool_total (GenExpr_type predicate hP htp) hv hvp hcast
    rw [← hkind] at hwi
    obtain ⟨x⟩ := hwi
    obtain ⟨u, hu, hvu⟩ := ofScalar_total hs (σ.buffers_holds var x.toInt) hs'
    have hload : (LLVMValue.load s var I).eval ops σ.toStore = some u := by
      rw [LLVMValue.eval, hw]
      exact hu
    obtain ⟨z, hz, hvz⟩ := getNullValue_isWord ops σ.toStore var.dtype.floatFormat
      var.dtype.bits.toNat .exact
    rw [hs'] at hload
    rw [hs']
    refine ⟨_, LLVMValue.eval_select hb hload hz, ?_⟩
    cases b
    · exact hvz.wordOf
    · exact hvu
  | Call dtype name a ih =>
    obtain ⟨A, hA, h⟩ := except_bind_eq_ok.mp hV
    obtain ⟨s, hs, h⟩ := except_bind_eq_ok.mp h
    obtain ⟨r, f, hta, hf, -⟩ := CExpr.type_call hC
    obtain ⟨w, hw, hwa⟩ := ih hA hta hF.1 hdiv
    split at h
    · rename_i hcast
      rw [hcast] at hf
      have hnone : libraryFormat (CodeGenC.functionName "cast") = none := by decide
      cases hnone.symm.trans hf
    · obtain ⟨A', hcast, h⟩ := except_bind_eq_ok.mp h
      obtain ⟨i, hi, h⟩ := except_bind_eq_ok.mp h
      cases h
      cases s with
      | float g =>
        have hcast : CodeGenLLVM.CastValue A (llvmType (some g) 0) (a.dtype.code == 0) = .ok A' :=
          hcast
        have hkind : some g = none → a.kind = none := fun h => by cases h
        obtain ⟨v, hv, hva⟩ := CastValue_total (GenExpr_type a hA hta) hw hwa hkind hcast
        obtain ⟨y⟩ := hva
        rw [PrimExpr.kind, GetLLVMType_float hs]
        exact ⟨_, LLVMValue.eval_call hv i g, .float _⟩
      | int | ptr | void => cases hi
  | Select condition true_value false_value ihc iht ihf =>
    obtain ⟨C, hC', h⟩ := except_bind_eq_ok.mp hV
    obtain ⟨C', hcastC, h⟩ := except_bind_eq_ok.mp h
    obtain ⟨A, hA, h⟩ := except_bind_eq_ok.mp h
    obtain ⟨B, hB, h⟩ := except_bind_eq_ok.mp h
    obtain ⟨s, hs, h⟩ := except_bind_eq_ok.mp h
    obtain ⟨A', hcastA, h⟩ := except_bind_eq_ok.mp h
    obtain ⟨B', hcastB, h⟩ := except_bind_eq_ok.mp h
    cases h
    obtain ⟨r, s', s'', htc, hta, htb, -⟩ := CExpr.type_cond hC
    obtain ⟨u, hu, huc⟩ := ihc hC' htc hF.1 hdiv.1
    obtain ⟨v, hv, hva⟩ := iht hA hta hF.2.1 hdiv.2.1
    obtain ⟨w, hw, hwb⟩ := ihf hB htb hF.2.2 hdiv.2.2
    have htypeA := GenExpr_type true_value hA hta
    have htypeB := GenExpr_type false_value hB htb
    rw [CommonNumericType_eq htypeA htypeB hs] at hcastA hcastB
    obtain ⟨b, hb⟩ := CastToBool_total (GenExpr_type condition hC' htc) hu huc hcastC
    rw [LLVMValue.eval_phi hb]
    cases b
    · exact CastValue_total htypeB hw hwb (fun h => (joinKind_eq_none.mp h).2) hcastB
    · exact CastValue_total htypeA hv hva (fun h => (joinKind_eq_none.mp h).1) hcastA

/-- The code of an expression computes what matters of its value. -/
def KeepsWord (ops : FloatOps F) (σ : Env F) (e : PrimExpr) : Prop :=
  ∀ {V : CodeGenLLVM.Value}, CodeGenLLVM.GenExpr e = .ok V →
    ∀ {t : CType}, (CodeGenC.GenExpr e).type CodeGenC.typing = some t → SameFormats e →
    ∀ {d : Demand}, d.Within e.bits → (e.kind ≠ none → d = .exact) → Keeps ops σ.toStore e d →
    ∃ w, V.eval ops σ.toStore = some w ∧ IsWord d e.bits e.kind (e.value ops σ.toStore) w ∧
      Suits d ⟨signed e, e.bits⟩ (e.value ops σ.toStore)

section Conditions

variable {σ : Env F} {e : PrimExpr} {A A' : CodeGenLLVM.Value} {t : CType}

theorem KeepsWord.condition (h : KeepsWord ops σ e) (hA : CodeGenLLVM.GenExpr e = .ok A)
    (hC : (CodeGenC.GenExpr e).type CodeGenC.typing = some t) (hF : SameFormats e)
    (hkeeps : Keeps ops σ.toStore e .exact) (hordered : Ordered ops σ.toStore e)
    (hcast : CodeGenLLVM.CastToBool A = .ok A') :
    A'.eval ops σ.toStore = some (.ofBool (e.truth ops σ.toStore)) := by
  obtain ⟨w, hw, hword, hsuits⟩ := h (d := .exact) hA hC hF trivial (fun _ => rfl) hkeeps
  exact CastToBool_eval (GenExpr_type e hA hC) hw hword hsuits hordered hcast

theorem KeepsWord.total (h : KeepsWord ops σ e) (hA : CodeGenLLVM.GenExpr e = .ok A)
    (hC : (CodeGenC.GenExpr e).type CodeGenC.typing = some t) (hF : SameFormats e)
    (hkeeps : Keeps ops σ.toStore e .exact ∨ NoDivision e) :
    ∃ w, A.eval ops σ.toStore = some w ∧ WordOf e.bits e.kind w := by
  rcases hkeeps with hkeeps | hdiv
  · obtain ⟨w, hw, hword, -⟩ := h (d := .exact) hA hC hF trivial (fun _ => rfl) hkeeps
    exact ⟨w, hw, hword.wordOf⟩
  · exact GenExpr_total σ e hA hC hF hdiv

theorem KeepsWord.skipped (h : KeepsWord ops σ e) (hA : CodeGenLLVM.GenExpr e = .ok A)
    (hC : (CodeGenC.GenExpr e).type CodeGenC.typing = some t) (hF : SameFormats e)
    (hkeeps : Keeps ops σ.toStore e .exact ∨ NoDivision e)
    (hcast : CodeGenLLVM.CastToBool A = .ok A') :
    ∃ b, A'.eval ops σ.toStore = some (.ofBool b) := by
  obtain ⟨w, hw, hword⟩ := h.total hA hC hF hkeeps
  exact CastToBool_total (GenExpr_type e hA hC) hw hword hcast

/-- The word of an index that is exact. -/
theorem KeepsWord.index (h : KeepsWord ops σ e) (hA : CodeGenLLVM.GenExpr e = .ok A) {f : IntFormat}
    (hC : (CodeGenC.GenExpr e).type CodeGenC.typing = some (.int f)) (hF : SameFormats e)
    (hkeeps : Keeps ops σ.toStore e .exact) (hfits : IndexFits ops σ.toStore e) :
    ∃ x : BitVec e.bits, A.eval ops σ.toStore = some (.int e.bits x) ∧
      e.value ops σ.toStore = .int x.toInt := by
  obtain ⟨w, hw, hword, -⟩ := h (d := .exact) hA hC hF trivial (fun _ => rfl) hkeeps
  have hkind : none = e.kind := GenExpr_cKind e hF hC
  rw [← hkind] at hword
  generalize hx : e.value ops σ.toStore = x at hword
  obtain ⟨hu⟩ := hword
  rename_i u v
  obtain rfl : u = v := hu
  have hread : (BitVec.ofInt e.bits u).toInt = u := read_of_fits (hfits u hx)
  exact ⟨_, hw, congrArg Scalar.int hread.symm⟩

/-- The element that it selects. -/
theorem KeepsWord.element (h : KeepsWord ops σ e) (hA : CodeGenLLVM.GenExpr e = .ok A)
    {f : IntFormat} (hC : (CodeGenC.GenExpr e).type CodeGenC.typing = some (.int f))
    (hF : SameFormats e) (hkeeps : Keeps ops σ.toStore e .exact)
    (hfits : IndexFits ops σ.toStore e) (var : Var) :
    ∃ i, e.value ops σ.toStore = .int i ∧ ∀ s,
      (LLVMValue.load s var A).eval ops σ.toStore = Word.ofScalar s (σ.buffers var i) := by
  obtain ⟨x, hw, hx⟩ := h.index hA hC hF hkeeps hfits
  refine ⟨x.toInt, hx, fun s => ?_⟩
  rw [LLVMValue.eval, hw]

end Conditions

theorem GenExpr_keepsWord (ops : FloatOps F) (σ : Env F) (e : PrimExpr) : KeepsWord ops σ e := by
  induction e with
  | IntImm value dtype =>
    intro V hV t hC hF d hd hk hkeeps
    obtain ⟨s, hs, h⟩ := except_bind_eq_ok.mp hV
    split at h
    · obtain ⟨-, rfl⟩ := GetLLVMType_int hs
      cases h
      refine ⟨_, rfl, .int (.refl d _), ?_⟩
      rintro v hv
      obtain rfl := Scalar.int.inj hv
      exact ⟨hd, fun _ => hkeeps⟩
    · cases h
  | FloatImm value dtype =>
    intro V hV t hC hF d hd hk hkeeps
    obtain ⟨s, hs, h⟩ := except_bind_eq_ok.mp hV
    split at h
    · rename_i f
      cases h
      rw [PrimExpr.kind, PrimExpr.value, GetLLVMType_float hs]
      exact ⟨_, rfl, .float, fun v hv => by cases hv⟩
    · cases h
  | Var var =>
    intro V hV t hC hF d hd hk hkeeps
    obtain ⟨s, hs, h⟩ := except_bind_eq_ok.mp hV
    cases h
    obtain ⟨w, hw, hword⟩ := ofScalar_isWord d hs (σ.vars_holds var)
      (GetLLVMType_eq hs fun hnone => by cases hnone.symm.trans hC)
    exact ⟨w, hw, hword, suits_holds hd (σ.vars_holds var)⟩
  | Binary op a b iha ihb =>
    intro V hV t hC hF d hd hk hkeeps
    obtain ⟨A, hA, h⟩ := except_bind_eq_ok.mp hV
    obtain ⟨B, hB, h⟩ := except_bind_eq_ok.mp h
    obtain ⟨s, s', hta, htb⟩ := type_binary hC
    have htypeA := GenExpr_type a hA hta
    have htypeB := GenExpr_type b hB htb
    by_cases hlogic : op ≠ .And ∧ op ≠ .Or
    · rw [Keeps_binary hlogic] at hkeeps
      obtain ⟨hkeepsA, hkeepsB, hop⟩ := hkeeps
      have hdemand : joinKind a.kind b.kind ≠ none → operandDemand op d = .exact := by
        intro hjoin
        cases op
        case Add | Sub | Mul => exact hk hjoin
        all_goals rfl
      have hoperand {k : Option FloatFormat} {n : Nat} (hjoin : k ≠ none → joinKind a.kind b.kind ≠ none)
          (hne : k ≠ none) : (operandDemand op d).operand n = .exact := by
        rw [hdemand (hjoin hne)]
        rfl
      obtain ⟨w, hw, hwa, hsa⟩ := iha hA hta hF.1 (Demand.operand_within _ _)
        (hoperand fun hne hjoin => hne (joinKind_eq_none.mp hjoin).1) hkeepsA
      obtain ⟨w', hw', hwb, hsb⟩ := ihb hB htb hF.2 (Demand.operand_within _ _)
        (hoperand fun hne hjoin => hne (joinKind_eq_none.mp hjoin).2) hkeepsB
      obtain ⟨A', B', hcastA, hcastB, hpromoted⟩ := GenBinaryOp_ok hlogic htypeA htypeB h
      obtain ⟨v, hv, hva⟩ := CastValue_isWord htypeA hw hwa hsa
        (fun h => (joinKind_eq_none.mp h).1) hdemand hcastA
      obtain ⟨v', hv', hvb⟩ := CastValue_isWord htypeB hw' hwb hsb
        (fun h => (joinKind_eq_none.mp h).2) hdemand hcastB
      rw [value_binary hlogic, signed_binary]
      refine promotedOp_isWord (f := cCommon a b) hlogic (CastValue_type hcastA) hv hv' hva hvb ?_ hd hpromoted
      cases hjoin : joinKind a.kind b.kind with
      | none => exact hop
      | some g =>
        intro u u' hu
        cases hu
    · have hor : op = .And ∨ op = .Or := by
        by_contra hne
        exact hlogic (not_or.mp hne)
      rcases hor with rfl | rfl
      all_goals
        obtain ⟨A', hcastA, h⟩ := except_bind_eq_ok.mp h
        obtain ⟨B', hcastB, h⟩ := except_bind_eq_ok.mp h
        cases h
        obtain ⟨hkeepsA, hordered, hkeepsB⟩ := hkeeps
        have hA' := iha.condition hA hta hF.1 hkeepsA hordered hcastA
        refine ⟨.ofBool _, ?_, isWord_ofBool d _, suits_ofBool hd _⟩
        split at hkeepsB
      · have hB' := ihb.condition hB htb hF.2 hkeepsB.1 hkeepsB.2 hcastB
        exact LLVMValue.eval_and hA' hB'
      · rename_i hfalse
        obtain ⟨y, hB'⟩ := ihb.skipped hB htb hF.2 hkeepsB hcastB
        rw [Bool.not_eq_true] at hfalse
        have htruth : (a.value ops σ.toStore).truth ops (a.kind.getD .double) = false := hfalse
        rw [LLVMValue.eval_and hA' hB', hfalse, htruth, Bool.false_and, Bool.false_and]
      · rename_i htrue
        obtain ⟨y, hB'⟩ := ihb.skipped hB htb hF.2 hkeepsB hcastB
        have htruth : (a.value ops σ.toStore).truth ops (a.kind.getD .double) = true := htrue
        rw [LLVMValue.eval_or hA' hB', htrue, htruth, Bool.true_or, Bool.true_or]
      · have hB' := ihb.condition hB htb hF.2 hkeepsB.1 hkeepsB.2 hcastB
        exact LLVMValue.eval_or hA' hB'
  | Not a ih =>
    intro V hV t hC hF d hd hk hkeeps
    obtain ⟨A, hA, h⟩ := except_bind_eq_ok.mp hV
    obtain ⟨A', hcast, h⟩ := except_bind_eq_ok.mp h
    cases h
    obtain ⟨s, hta, -⟩ := CExpr.type_not hC
    have hA' := ih.condition hA hta hF hkeeps.1 hkeeps.2 hcast
    exact ⟨_, LLVMValue.eval_not hA', isWord_ofBool d _, suits_ofBool hd _⟩
  | Load var index ih =>
    intro V hV t hC hF d hd hk hkeeps
    obtain ⟨I, hI, h⟩ := except_bind_eq_ok.mp hV
    obtain ⟨s, hs, h⟩ := except_bind_eq_ok.mp h
    cases h
    obtain ⟨f, hti, ht⟩ := CExpr.type_index hC
    have hs' := GetLLVMType_eq hs fun hnone => by cases hnone.symm.trans ht
    obtain ⟨i, hi, helement⟩ := ih.element hI hti hF hkeeps.1 hkeeps.2 var
    obtain ⟨w, hw, hword⟩ := ofScalar_isWord d hs (σ.buffers_holds var i) hs'
    rw [PrimExpr.value, hi]
    exact ⟨w, (helement s).trans hw, hword, suits_holds hd (σ.buffers_holds var i)⟩
  | PredicatedLoad var index predicate ihi ihp =>
    intro V hV t hC hF d hd hk hkeeps
    obtain ⟨I, hI, h⟩ := except_bind_eq_ok.mp hV
    obtain ⟨s, hs, h⟩ := except_bind_eq_ok.mp h
    obtain ⟨P, hP, h⟩ := except_bind_eq_ok.mp h
    obtain ⟨P', hcast, h⟩ := except_bind_eq_ok.mp h
    cases h
    obtain ⟨r, s', s'', htp, hload, -⟩ := CExpr.type_cond hC
    obtain ⟨f, hti, ht⟩ := CExpr.type_index hload
    have hs' := GetLLVMType_eq hs fun hnone => by cases hnone.symm.trans ht
    obtain ⟨hkeepsP, hordered, hkeepsI⟩ := hkeeps
    have hP' := ihp.condition hP htp hF.2 hkeepsP hordered hcast
    obtain ⟨z, hz, hzero⟩ := getNullValue_isWord ops σ.toStore var.dtype.floatFormat
      var.dtype.bits.toNat d
    rw [← hs'] at hz
    split at hkeepsI
    · rename_i htrue
      obtain ⟨i, hi, helement⟩ := ihi.element hI hti hF.1 hkeepsI.1 hkeepsI.2 var
      obtain ⟨w, hw, hword⟩ := ofScalar_isWord d hs (σ.buffers_holds var i) hs'
      rw [PrimExpr.value_load_of_true htrue hi]
      refine ⟨w, ?_, hword, suits_holds hd (σ.buffers_holds var i)⟩
      rw [LLVMValue.eval_select hP' ((helement s).trans hw) hz, if_pos htrue]
    · rename_i hfalse
      obtain ⟨w, hw, hwi⟩ := ihi.total hI hti hF.1 hkeepsI
      have hkind : none = index.kind := GenExpr_cKind index hF.1 hti
      rw [← hkind] at hwi
      obtain ⟨x⟩ := hwi
      obtain ⟨u, hu, hvu⟩ := ofScalar_total hs (σ.buffers_holds var x.toInt) hs'
      have hloaded : (LLVMValue.load s var I).eval ops σ.toStore = some u := by
        rw [LLVMValue.eval, hw]
        exact hu
      rw [PrimExpr.value_load_of_false (Bool.not_eq_true _ ▸ hfalse)]
      refine ⟨z, ?_, hzero, ?_⟩
      · rw [LLVMValue.eval_select hP' hloaded hz, if_neg hfalse]
      · intro v hv
        refine ⟨hd, fun _ => ?_⟩
        cases hkind : var.dtype.floatFormat with
        | none =>
          rw [hkind] at hv
          obtain rfl := Scalar.int.inj hv
          simp [IntFormat.Fits, IntFormat.wrap]
        | some g =>
          rw [hkind] at hv
          cases hv
  | Call dtype name a ih =>
    intro V hV t hC hF d hd hk hkeeps
    obtain ⟨A, hA, h⟩ := except_bind_eq_ok.mp hV
    obtain ⟨s, hs, h⟩ := except_bind_eq_ok.mp h
    obtain ⟨r, f, hta, hf, -⟩ := CExpr.type_call hC
    split at h
    · rename_i hcast
      rw [hcast] at hf
      have hnone : libraryFormat (CodeGenC.functionName "cast") = none := by decide
      cases hnone.symm.trans hf
    · rename_i hname
      obtain ⟨A', hcast, h⟩ := except_bind_eq_ok.mp h
      obtain ⟨i, hi, h⟩ := except_bind_eq_ok.mp h
      cases h
      cases s with
      | float g =>
        have hg := GetLLVMType_float hs
        obtain ⟨w, hw, hwa, hsa⟩ := ih (d := .exact) hA hta hF.1 trivial (fun _ => rfl) hkeeps.1
        have hkind : some g = none → a.kind = none := fun h => by cases h
        have hcast : CodeGenLLVM.CastValue A (llvmType (some g) 0) (a.dtype.code == 0) = .ok A' :=
          hcast
        obtain ⟨w', hw', hword⟩ := CastValue_isWord (d := .exact) (GenExpr_type a hA hta)
          hw hwa hsa hkind (fun _ => rfl) hcast
        obtain ⟨⟩ := hword
        have hvalue : (PrimExpr.Call dtype name a).value ops σ.toStore =
            .float (ops.intrinsic g i
              ((a.value ops σ.toStore).toFloat ops (a.kind.getD .double) g)) := by
          rw [PrimExpr.value, hg, beq_false_of_ne hname, intrinsic_eq hi]
          rfl
        rw [hvalue, PrimExpr.kind, hg]
        exact ⟨_, LLVMValue.eval_call hw' i g, .float, fun v hv => by cases hv⟩
      | int | ptr | void => cases hi
  | Select condition true_value false_value ihc iht ihf =>
    intro V hV t hC hF d hd hk hkeeps
    obtain ⟨C, hC', h⟩ := except_bind_eq_ok.mp hV
    obtain ⟨C', hcastC, h⟩ := except_bind_eq_ok.mp h
    obtain ⟨A, hA, h⟩ := except_bind_eq_ok.mp h
    obtain ⟨B, hB, h⟩ := except_bind_eq_ok.mp h
    obtain ⟨s, hs, h⟩ := except_bind_eq_ok.mp h
    obtain ⟨A', hcastA, h⟩ := except_bind_eq_ok.mp h
    obtain ⟨B', hcastB, h⟩ := except_bind_eq_ok.mp h
    cases h
    obtain ⟨r, s', s'', htc, hta, htb, -⟩ := CExpr.type_cond hC
    have htypeA := GenExpr_type true_value hA hta
    have htypeB := GenExpr_type false_value hB htb
    rw [CommonNumericType_eq htypeA htypeB hs] at hcastA hcastB
    obtain ⟨hkeepsC, hordered, hkeeps⟩ := hkeeps
    have hb := ihc.condition hC' htc hF.1 hkeepsC hordered hcastC
    have hdemand {k : Option FloatFormat} {n : Nat}
        (hjoin : k ≠ none → joinKind true_value.kind false_value.kind ≠ none) (hne : k ≠ none) :
        d.operand n = .exact := by
      rw [hk (hjoin hne)]
      rfl
    rw [LLVMValue.eval_phi hb]
    split at hkeeps
    · rename_i htrue
      rw [PrimExpr.value_select_of_true htrue, if_pos htrue]
      obtain ⟨w, hw, hwa, hsa⟩ := iht hA hta hF.2.1 (Demand.operand_within _ _)
        (hdemand fun hne hjoin => hne (joinKind_eq_none.mp hjoin).1) hkeeps.1
      obtain ⟨w', hw', hword⟩ := CastValue_isWord htypeA hw hwa hsa
        (fun h => (joinKind_eq_none.mp h).1) hk hcastA
      exact ⟨w', hw', hword, suits_branch hd hkeeps.2⟩
    · rename_i hfalse
      rw [PrimExpr.value_select_of_false (Bool.not_eq_true _ ▸ hfalse), if_neg hfalse]
      obtain ⟨w, hw, hwa, hsa⟩ := ihf hB htb hF.2.2 (Demand.operand_within _ _)
        (hdemand fun hne hjoin => hne (joinKind_eq_none.mp hjoin).2) hkeeps.1
      obtain ⟨w', hw', hword⟩ := CastValue_isWord htypeB hw hwa hsa
        (fun h => (joinKind_eq_none.mp h).2) hk hcastB
      exact ⟨w', hw', hword, suits_branch hd hkeeps.2⟩

end Kxc.Codegen
