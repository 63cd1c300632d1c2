import Kxc.Codegen.KeepsLLVM

/-! The C expression of an expression keeps what matters of the expression's value, where its
behaviour is defined. -/

namespace Kxc.Codegen

open Lib Lib.MachineNumber Lib.CLanguage Lib.Llvm Tir

variable {F : Type} {ops : FloatOps F}

/-- The number `c` of C stands for the number `x` of a kind, as far as it matters. -/
inductive IsScalar (d : Demand) : Option FloatFormat → Scalar F → Scalar F → Prop
  | int {u v : Int} (h : d.Meets u v) : IsScalar d none (.int v) (.int u)
  | float {g : FloatFormat} {x : F} : IsScalar d (some g) (.float x) (.float x)

theorem suits_float {d : Demand} {f : IntFormat} {x : F} : Suits d f (.float x) := by
  intro v hv
  cases hv

theorem isScalar_ofBool (d : Demand) (b : Bool) :
    IsScalar d none (Scalar.ofBool b) (Scalar.ofBool b : Scalar F) := .int (.refl d _)

theorem IsScalar.truth {k : Option FloatFormat} {s : CType} {x c : Scalar F}
    (h : IsScalar .exact k x c) (hs : cKind s = k) :
    c.truth ops s.format = x.truth ops (k.getD .double) := by
  cases h with
  | @int u v h =>
    obtain rfl : u = v := h
    rfl
  | float =>
    cases s with
    | int f => cases hs
    | float f =>
      obtain rfl := Option.some.inj hs
      rfl

theorem IsScalar.toFloat {k : Option FloatFormat} {s : CType} {x c : Scalar F}
    (h : IsScalar .exact k x c) (hs : cKind s = k) (f : FloatFormat) :
    c.toFloat ops s.format f = x.toFloat ops (k.getD .double) f := by
  cases h with
  | @int u v h =>
    obtain rfl : u = v := h
    rfl
  | float =>
    cases s with
    | int f => cases hs
    | float f =>
      obtain rfl := Option.some.inj hs
      rfl

/-- The type that operands meet in. -/
def meetType (k : Option FloatFormat) (f : IntFormat) : CType :=
  match k with
  | none => .int f
  | some g => .float g

theorem common_eq {a b : PrimExpr} {s s' : CType}
    (hs : (CodeGenC.GenExpr a).type CodeGenC.typing = some s)
    (hs' : (CodeGenC.GenExpr b).type CodeGenC.typing = some s')
    (hFa : SameFormats a) (hFb : SameFormats b) :
    s.common s' = meetType (joinKind a.kind b.kind) (cCommon a b) := by
  have hkind := cKind_common s s'
  rw [GenExpr_cKind a hFa hs, GenExpr_cKind b hFb hs'] at hkind
  rw [← hkind, cCommon, CExpr.typed_eq hs, CExpr.typed_eq hs']
  cases s.common s' <;> rfl

/-- An operand that is converted to the type that it meets the other one in. -/
theorem convert_isScalar {d : Demand} {m : Nat} {k k' : Option FloatFormat} {s t : CType}
    {x c : Scalar F} {f : IntFormat} (hs : cKind s = k)
    (ht : t = meetType k' f)
    (hc : IsScalar (d.operand m) k x c) (hx : Suits d f (toKind ops k k' x))
    (hk : k' = none → k = none) (hd : k' ≠ none → d = .exact) :
    IsScalar d k' (toKind ops k k' x) (s.convert ops t c) := by
  cases hc with
  | @int u v h =>
    cases k' with
    | none =>
      obtain rfl : t = .int f := ht
      obtain ⟨hwithin, hfits⟩ := hx v rfl
      refine .int (h.of_operand.of_modEq hwithin (f.wrap_modEq u) fun hexact => ?_)
      rw [hexact] at h
      obtain rfl : u = v := h
      exact hfits hexact
    | some g =>
      obtain rfl : t = .float g := ht
      obtain rfl := hd (by simp)
      obtain rfl : u = v := h
      exact .float
  | @float g x =>
    cases k' with
    | none => cases hk rfl
    | some g' =>
      obtain rfl : t = .float g' := ht
      cases s with
      | int f => cases hs
      | float f =>
        obtain rfl := Option.some.inj hs
        exact .float

theorem intResult_meets {d : Demand} {f : IntFormat} {r r' v : Int} (h : intResult f r = some r')
    (hr : d.Meets r v) (hv : Suits d f (.int v : Scalar F)) : d.Meets r' v := by
  obtain ⟨hwithin, hfits⟩ := hv v rfl
  simp only [intResult] at h
  split at h
  · split at h
    · obtain rfl := Option.some.inj h
      exact hr
    · cases h
  · obtain rfl := Option.some.inj h
    refine hr.of_modEq hwithin (f.wrap_modEq r) fun hexact => ?_
    rw [hexact] at hr
    obtain rfl : r = v := hr
    exact hfits hexact

/-- What the operators on numbers keep, for the operands and the result. -/
theorem OpKeeps.suitsC {op : BinaryOp} {d : Demand} {f : IntFormat} {n : Nat} {first s : Bool}
    {u v : Int} (hlogic : op ≠ .And ∧ op ≠ .Or) (h : OpKeeps op d f n first s u v) :
    Suits (operandDemand op d) f (.int u : Scalar F) ∧
    Suits (operandDemand op d) f (.int v : Scalar F) := by
  have hexact {w : Int} (hw : f.Fits w) : Suits .exact f (.int w : Scalar F) := by
    rintro w' hw'
    obtain rfl := Scalar.int.inj hw'
    exact ⟨trivial, fun _ => hw⟩
  have hlow {k : Nat} {w : Int} (hk : k ≤ f.bits) : Suits (.low k) f (.int w : Scalar F) :=
    fun _ _ => ⟨hk, fun h => by cases h⟩
  cases op
  case And => exact absurd rfl hlogic.1
  case Or => exact absurd rfl hlogic.2
  case Add | Sub | Mul =>
    cases d with
    | exact => exact ⟨hexact h.1, hexact h.2.1⟩
    | low k => exact ⟨hlow h, hlow h⟩
  case Div | Mod => exact ⟨hexact h.2.1, hexact h.2.2.1⟩
  all_goals exact ⟨hexact h.1, hexact h.2.1⟩

/-- The operators that are printed as an arithmetic operator of C. -/
inductive PrintsArith : BinaryOp → ArithOp → Prop
  | add : PrintsArith .Add .add
  | sub : PrintsArith .Sub .sub
  | mul : PrintsArith .Mul .mul
  | div : PrintsArith .Div .div
  | mod : PrintsArith .Mod .rem

theorem arith_isScalar {op : BinaryOp} {aop : ArithOp} (hop : PrintsArith op aop) {d : Demand}
    {k : Option FloatFormat} {f : IntFormat} {n : Nat} {first s : Bool} {x y c c' z : Scalar F}
    (hc : IsScalar (operandDemand op d) k x c) (hc' : IsScalar (operandDemand op d) k y c')
    (hkeeps : ∀ u v, x = .int u → y = .int v → OpKeeps op d f n first s u v)
    (h : aop.apply ops (meetType k f) c c' = some z) : IsScalar d k (op.apply ops k x y) z := by
  cases hc with
  | @int u' u hu =>
    obtain ⟨hu'⟩ := hc'
    rename_i v' v
    have hkeeps := hkeeps u v rfl rfl
    obtain ⟨r, hr, rfl⟩ := Option.map_eq_some_iff.mp h
    have hring {w : Int} (hw : operandDemand op d = d) (hexact : d = .exact → f.Fits w)
        (hlow : ∀ k, d = .low k → k ≤ f.bits) : Suits d f (.int w : Scalar F) := by
      rintro w' hw'
      obtain rfl := Scalar.int.inj hw'
      refine ⟨?_, hexact⟩
      cases d with
      | exact => trivial
      | low k => exact hlow k rfl
    cases hop
    case add =>
      refine .int (intResult_meets (F := F) hr (hu.add hu') (hring rfl ?_ ?_))
      · rintro rfl
        exact hkeeps.2.2.1
      · rintro k rfl
        exact hkeeps
    case sub =>
      refine .int (intResult_meets (F := F) hr (hu.sub hu') (hring rfl ?_ ?_))
      · rintro rfl
        exact hkeeps.2.2.1
      · rintro k rfl
        exact hkeeps
    case mul =>
      refine .int (intResult_meets (F := F) hr (hu.mul hu') (hring rfl ?_ ?_))
      · rintro rfl
        exact hkeeps.2.2.1
      · rintro k rfl
        exact hkeeps
    case div =>
      obtain rfl : u' = u := hu
      obtain rfl : v' = v := hu'
      rw [ArithOp.int, if_neg hkeeps.1] at hr
      have hquot : r = u'.tdiv v' := by
        simp only [intResult] at hr
        split at hr
        · split at hr
          · exact (Option.some.inj hr).symm
          · cases hr
        · exact (Option.some.inj hr).symm.trans hkeeps.2.2.2.1
      rw [hquot]
      exact .int (.refl d _)
    case mod =>
      obtain rfl : u' = u := hu
      obtain rfl : v' = v := hu'
      simp only [ArithOp.int] at hr
      split at hr
      · cases hr
      · obtain rfl := Option.some.inj hr
        exact .int (.refl d _)
  | @float g x =>
    obtain ⟨⟩ := hc'
    obtain ⟨r, hr, rfl⟩ := Option.map_eq_some_iff.mp h
    cases hop
    case mod => cases hr
    all_goals
      obtain rfl := Option.some.inj hr
      exact .float

/-- The comparisons. -/
inductive PrintsRel : BinaryOp → RelOp → Prop
  | eq : PrintsRel .EQ .eq
  | lt : PrintsRel .LT .lt

theorem rel_isScalar {op : BinaryOp} {rop : RelOp} (hop : PrintsRel op rop) (d : Demand)
    {k : Option FloatFormat} {x y c c' z : Scalar F} (hc : IsScalar .exact k x c)
    (hc' : IsScalar .exact k y c') (h : rop.apply ops c c' = some z) :
    IsScalar d none (op.apply ops k x y) z := by
  cases hc with
  | @int u' u hu =>
    obtain ⟨hu'⟩ := hc'
    rename_i v' v
    obtain rfl : u' = u := hu
    obtain rfl : v' = v := hu'
    obtain rfl := Option.some.inj h
    cases hop <;> exact isScalar_ofBool d _
  | float =>
    obtain ⟨⟩ := hc'
    obtain rfl := Option.some.inj h
    cases hop <;> exact isScalar_ofBool d _

/-- Minimum and maximum are printed as a comparison of the operands and a choice between them. -/
inductive PrintsChoice : BinaryOp → RelOp → Prop
  | min : PrintsChoice .Min .lt
  | max : PrintsChoice .Max .gt

theorem choice_isScalar {op : BinaryOp} {rop : RelOp} (hop : PrintsChoice op rop) (d : Demand)
    {k : Option FloatFormat} {x y c c' r z : Scalar F} {f : FloatFormat}
    (hc : IsScalar .exact k x c) (hc' : IsScalar .exact k y c')
    (h : rop.apply ops c c' = some r) (hz : z = if r.truth ops f then c else c') :
    IsScalar d k (op.apply ops k x y) z := by
  have htruth (b : Bool) : (Scalar.ofBool b : Scalar F).truth ops f = b := by cases b <;> rfl
  cases hc with
  | @int u' u hu =>
    obtain ⟨hu'⟩ := hc'
    rename_i v' v
    obtain rfl : u' = u := hu
    obtain rfl : v' = v := hu'
    obtain rfl := Option.some.inj h
    have hchoice (b : Bool) :
        IsScalar d none (.int (if b then u' else v')) (if b then .int u' else .int v' : Scalar F) := by
      cases b <;> exact .int (.refl d _)
    rw [hz, htruth]
    cases hop
    · have hmin := hchoice (decide (u' < v'))
      simpa only [BinaryOp.apply, BinaryOp.int, RelOp.int, decide_eq_true_eq] using hmin
    · have hmax := hchoice (decide (v' < u'))
      simpa only [BinaryOp.apply, BinaryOp.int, RelOp.int, decide_eq_true_eq] using hmax
  | float =>
    obtain ⟨⟩ := hc'
    obtain rfl := Option.some.inj h
    rename_i g u v
    have hchoice (b : Bool) : IsScalar d (some g) (.float (if b then u else v))
        (if b then .float u else .float v) := by
      cases b <;> exact .float
    rw [hz, htruth]
    cases hop
    · exact hchoice (ops.lt u v)
    · exact hchoice (ops.lt v u)

/-- The C expression of an expression keeps what matters of its value. -/
def KeepsScalar (ops : FloatOps F) (σ : Env F) (e : PrimExpr) : Prop :=
  ∀ {t : CType}, (CodeGenC.GenExpr e).type CodeGenC.typing = some t → SameFormats e →
    ∀ {d : Demand}, (e.kind ≠ none → d = .exact) → Keeps ops σ.toStore e d →
    ∀ {c : Scalar F}, (CodeGenC.GenExpr e).eval ops CodeGenC.typing σ.toStore = some c →
    IsScalar d e.kind (e.value ops σ.toStore) c

section Operands

variable {σ : Env F} {e a b : PrimExpr} {t s s' : CType} {c c' : Scalar F} {d : Demand}

theorem KeepsScalar.condition (h : KeepsScalar ops σ e)
    (hC : (CodeGenC.GenExpr e).type CodeGenC.typing = some t) (hF : SameFormats e)
    (hkeeps : Keeps ops σ.toStore e .exact)
    (hc : (CodeGenC.GenExpr e).eval ops CodeGenC.typing σ.toStore = some c) :
    c.truth ops t.format = e.truth ops σ.toStore :=
  (h hC hF (fun _ => rfl) hkeeps hc).truth (GenExpr_cKind e hF hC)

theorem KeepsScalar.index {f : IntFormat} {i : Int} (h : KeepsScalar ops σ e)
    (hC : (CodeGenC.GenExpr e).type CodeGenC.typing = some (.int f)) (hF : SameFormats e)
    (hkeeps : Keeps ops σ.toStore e .exact)
    (hi : (CodeGenC.GenExpr e).eval ops CodeGenC.typing σ.toStore = some (.int i)) :
    e.value ops σ.toStore = .int i := by
  have hscalar := h (d := .exact) hC hF (fun _ => rfl) hkeeps hi
  generalize e.value ops σ.toStore = x at hscalar
  generalize e.kind = k at hscalar
  obtain ⟨hu⟩ := hscalar
  exact congrArg Scalar.int hu.symm

/-- The value of a choice between two operands. -/
theorem chosen_eq {r : Scalar F} {f : FloatFormat} {z : Scalar F}
    (hc : (CodeGenC.GenExpr a).eval ops CodeGenC.typing σ.toStore = some c)
    (hc' : (CodeGenC.GenExpr b).eval ops CodeGenC.typing σ.toStore = some c')
    (hz : if r.truth ops f then
        ∃ y, (CodeGenC.GenExpr a).eval ops CodeGenC.typing σ.toStore = some y ∧
          z = s.convert ops (s.common s') y
      else ∃ y, (CodeGenC.GenExpr b).eval ops CodeGenC.typing σ.toStore = some y ∧
        z = s'.convert ops (s.common s') y) :
    z = if r.truth ops f then s.convert ops (s.common s') c
      else s'.convert ops (s.common s') c' := by
  split at hz
  · obtain ⟨y, hy, rfl⟩ := hz
    rw [if_pos ‹_›, Option.some.inj (hc.symm.trans hy)]
  · obtain ⟨y, hy, rfl⟩ := hz
    rw [if_neg ‹_›, Option.some.inj (hc'.symm.trans hy)]

/-- The operands of an operator on numbers, which are converted to the type that they meet in. -/
theorem KeepsScalar.operands {op : BinaryOp} (hlogic : op ≠ .And ∧ op ≠ .Or)
    (iha : KeepsScalar ops σ a) (ihb : KeepsScalar ops σ b)
    (hs : (CodeGenC.GenExpr a).type CodeGenC.typing = some s)
    (hs' : (CodeGenC.GenExpr b).type CodeGenC.typing = some s')
    (hFa : SameFormats a) (hFb : SameFormats b)
    (hk : (PrimExpr.Binary op a b).kind ≠ none → d = .exact)
    (hkeeps : Keeps ops σ.toStore (.Binary op a b) d)
    (hc : (CodeGenC.GenExpr a).eval ops CodeGenC.typing σ.toStore = some c)
    (hc' : (CodeGenC.GenExpr b).eval ops CodeGenC.typing σ.toStore = some c') :
    IsScalar (operandDemand op d) (joinKind a.kind b.kind)
        (toKind ops a.kind (joinKind a.kind b.kind) (a.value ops σ.toStore))
        (s.convert ops (s.common s') c) ∧
      IsScalar (operandDemand op d) (joinKind a.kind b.kind)
        (toKind ops b.kind (joinKind a.kind b.kind) (b.value ops σ.toStore))
        (s'.convert ops (s.common s') c') ∧
      ∀ u v, toKind ops a.kind (joinKind a.kind b.kind) (a.value ops σ.toStore) = .int u →
        toKind ops b.kind (joinKind a.kind b.kind) (b.value ops σ.toStore) = .int v →
        OpKeeps op d (cCommon a b) (max a.bits b.bits) (signed a) (signed a || signed b) u v := by
  rw [Keeps_binary hlogic] at hkeeps
  obtain ⟨hkeepsA, hkeepsB, hop⟩ := hkeeps
  have hdemand : joinKind a.kind b.kind ≠ none → operandDemand op d = .exact := by
    intro hjoin
    cases op
    case Add | Sub | Mul => exact hk hjoin
    all_goals rfl
  have hoperand {k : Option FloatFormat} {n : Nat} (hjoin : k ≠ none → joinKind a.kind b.kind ≠ none)
      (hne : k ≠ none) : (operandDemand op d).operand n = .exact := by
    rw [hdemand (hjoin hne)]
    rfl
  have hA := iha hs hFa (hoperand fun hne hjoin => hne (joinKind_eq_none.mp hjoin).1) hkeepsA hc
  have hB := ihb hs' hFb (hoperand fun hne hjoin => hne (joinKind_eq_none.mp hjoin).2) hkeepsB hc'
  have hcommon := common_eq hs hs' hFa hFb
  have hints : ∀ u v, toKind ops a.kind (joinKind a.kind b.kind) (a.value ops σ.toStore) = .int u →
      toKind ops b.kind (joinKind a.kind b.kind) (b.value ops σ.toStore) = .int v →
      OpKeeps op d (cCommon a b) (max a.bits b.bits) (signed a) (signed a || signed b) u v := by
    cases hjoin : joinKind a.kind b.kind with
    | none => exact hop
    | some g =>
      intro u v hu
      cases hu
  -- An operand of integers meets another one, so both suit the type.
  have hsuits : Suits (operandDemand op d) (cCommon a b)
        (toKind ops a.kind (joinKind a.kind b.kind) (a.value ops σ.toStore)) ∧
      Suits (operandDemand op d) (cCommon a b)
        (toKind ops b.kind (joinKind a.kind b.kind) (b.value ops σ.toStore)) := by
    cases hjoin : joinKind a.kind b.kind with
    | none =>
      rw [hjoin] at hints
      obtain ⟨hka, hkb⟩ := joinKind_eq_none.mp hjoin
      rw [hka] at hA
      rw [hkb] at hB
      generalize a.value ops σ.toStore = x at hA hints ⊢
      generalize b.value ops σ.toStore = y at hB hints ⊢
      obtain ⟨-⟩ := hA
      obtain ⟨-⟩ := hB
      exact (hints _ _ rfl rfl).suitsC hlogic
    | some g => exact ⟨suits_float, suits_float⟩
  exact ⟨convert_isScalar (GenExpr_cKind a hFa hs) hcommon hA hsuits.1
      (fun h => (joinKind_eq_none.mp h).1) hdemand,
    convert_isScalar (GenExpr_cKind b hFb hs') hcommon hB hsuits.2
      (fun h => (joinKind_eq_none.mp h).2) hdemand, hints⟩

end Operands

/-! ### Leaves -/

theorem toLiteral_eval {value : Int64} {ll : Bool} {t : CType} {c : Scalar F} {σ : Store Var F}
    (ht : (CodeGenC.toLiteral value ll).type CodeGenC.typing = some t)
    (hc : (CodeGenC.toLiteral value ll).eval ops CodeGenC.typing σ = some c) :
    c = .int value.toInt := by
  have hsign : value < 0 ↔ value.toInt < 0 := Int64.lt_iff_toInt_lt
  simp only [CodeGenC.toLiteral] at ht hc
  split at hc
  · rename_i hneg
    have hneg := hsign.mp hneg
    rw [if_pos ‹_›] at ht
    have habs : -((value.toInt.natAbs : Nat) : Int) = value.toInt := by omega
    simp only [CExpr.eval] at hc
    split at hc
    · rename_i f v htyped hv
      obtain rfl := Scalar.int.inj (Option.some.inj hv)
      have hsigned : f.signed = true := by
        rw [CExpr.typed] at htyped
        simp only [CExpr.type] at ht htyped
        rw [ht] at htyped
        obtain rfl : t = .int f := htyped
        repeat' split at ht
        all_goals cases ht
        all_goals rfl
      obtain ⟨r, hr, rfl⟩ := Option.map_eq_some_iff.mp hc
      rw [intResult, if_pos hsigned] at hr
      split at hr
      · obtain rfl := Option.some.inj hr
        rw [habs]
      · cases hr
    · cases hc
  · rename_i hpos
    rw [hsign] at hpos
    obtain rfl := Option.some.inj hc
    rw [Int.natAbs_of_nonneg (by omega)]

theorem holds_isScalar {dtype : DataType} {t : CType} {x : Scalar F}
    (ht : (CodeGenC.DTypeToCType dtype).promote = some t) (hx : dtype.Holds x) (d : Demand) :
    IsScalar d dtype.floatFormat x x := by
  cases x with
  | int v =>
    rw [show dtype.floatFormat = none from if_pos hx.1]
    exact .int (.refl d v)
  | float x =>
    have hcode : dtype.code = 2 := hx
    have hsome : cKind t ≠ none := by
      simp only [CodeGenC.DTypeToCType, if_pos hcode] at ht
      repeat' split at ht
      all_goals cases ht
      all_goals exact Option.some_ne_none _
    rw [cKind_promote ht] at hsome
    obtain ⟨g, hg⟩ := Option.ne_none_iff_exists'.mp hsome
    rw [hg]
    exact .float

/-- The integer promotions keep what a variable or an element of a buffer holds, and so does the
conversion to the type that it meets an `int` in. -/
theorem promote_fits {dtype : DataType} {f : IntFormat} {v : Int}
    (ht : (CodeGenC.DTypeToCType dtype).promote = some (.int f)) (hv : dtype.intFormat.Fits v) :
    (f.common ⟨true, 32⟩).Fits v := by
  have hformat {c b : UInt8} (hc : dtype.code = c) (hb : dtype.bits = b) :
      IntFormat.Fits ⟨c == 0, b.toNat⟩ v := by
    rw [← hc, ← hb]
    exact hv
  simp only [CodeGenC.DTypeToCType] at ht
  split at ht
  · repeat' split at ht
    all_goals cases ht
  · split at ht
    · rename_i hcode
      split at ht
      · rename_i hbits
        simp only [List.mem_cons, List.not_mem_nil, or_false] at hbits
        rcases hbits with hbits | hbits | hbits | hbits <;> rw [hbits] at ht <;> cases ht
        · exact (hformat hcode hbits : IntFormat.Fits ⟨true, 7 + 1⟩ v).of_signed (by decide)
        · exact (hformat hcode hbits : IntFormat.Fits ⟨true, 15 + 1⟩ v).of_signed (by decide)
        · exact hformat hcode hbits
        · exact hformat hcode hbits
      · cases ht
    · split at ht
      · rename_i hcode
        split at ht
        · rename_i hbits
          cases ht
          exact ((hformat hcode hbits : IntFormat.Fits ⟨false, 1⟩ v).of_unsigned
            (by decide : 1 ≤ 31)).2
        · split at ht
          · rename_i hbits
            simp only [List.mem_cons, List.not_mem_nil, or_false] at hbits
            rcases hbits with hbits | hbits | hbits | hbits <;> rw [hbits] at ht <;> cases ht
            · exact ((hformat hcode hbits : IntFormat.Fits ⟨false, 8⟩ v).of_unsigned
                (by decide : 8 ≤ 31)).2
            · exact ((hformat hcode hbits : IntFormat.Fits ⟨false, 16⟩ v).of_unsigned
                (by decide : 16 ≤ 31)).2
            · exact hformat hcode hbits
            · exact hformat hcode hbits
          · cases ht
      · cases ht

/-- An element of a buffer that meets the zero of a load without its predicate. -/
theorem element_isScalar {dtype : DataType} {t : CType} {x : Scalar F}
    (ht : (CodeGenC.DTypeToCType dtype).promote = some t) (hx : dtype.Holds x) (d : Demand) :
    IsScalar d dtype.floatFormat x (t.convert ops (t.common cint) x) := by
  have hscalar := holds_isScalar ht hx d
  have hkind := cKind_promote ht
  cases x with
  | int v =>
    cases t with
    | int f =>
      have hfits : (f.common ⟨true, 32⟩).wrap v = v := promote_fits ht hx.2
      show IsScalar d dtype.floatFormat (.int v) (.int ((f.common ⟨true, 32⟩).wrap v))
      rw [hfits]
      exact hscalar
    | float f =>
      have hnone : dtype.floatFormat = none := if_pos hx.1
      cases hkind.trans hnone
  | float x =>
    cases t with
    | int f =>
      rw [← hkind] at hscalar
      cases hscalar
    | float f =>
      show IsScalar d dtype.floatFormat (.float x) (.float (ops.to f f x))
      rw [FloatOps.to_self]
      exact hscalar

theorem zero_isScalar {dtype : DataType} {t : CType}
    (ht : (CodeGenC.DTypeToCType dtype).promote = some t) (d : Demand) :
    IsScalar d dtype.floatFormat (toKind ops none dtype.floatFormat (.int 0))
      (cint.convert ops (t.common cint) (.int 0)) := by
  rw [← cKind_promote ht]
  cases t with
  | int f =>
    have hzero : (f.common ⟨true, 32⟩).wrap 0 = 0 := by
      rw [IntFormat.wrap]
      split
      · exact Int.zero_bmod
      · exact Int.zero_emod _
    show IsScalar d none (.int 0) (.int ((f.common ⟨true, 32⟩).wrap 0))
    rw [hzero]
    exact .int (.refl d 0)
  | float f => exact .float

/-- The branch that a `Select` takes suits the type of both. -/
theorem suitsC_branch {own k : Option FloatFormat} {d : Demand} {f : IntFormat} {n : Nat}
    {first : Bool} {x : Scalar F} (h : ∀ v, x = .int v → BranchKeeps d f n first v) :
    Suits d f (toKind ops own k x) := by
  intro v hv
  cases k with
  | none =>
    have hkeeps := h v hv
    cases d with
    | exact => exact ⟨trivial, fun _ => hkeeps.1⟩
    | low k => exact ⟨hkeeps, fun h => by cases h⟩
  | some g => cases hv

/-! ### Expressions -/

theorem GenExpr_keepsScalar (ops : FloatOps F) (σ : Env F) (e : PrimExpr) :
    KeepsScalar ops σ e := by
  induction e with
  | IntImm value dtype =>
    intro t hC hF d hk hkeeps c hc
    rw [toLiteral_eval hC hc]
    exact .int (.refl d _)
  | FloatImm value dtype =>
    intro t hC hF d hk hkeeps c hc
    have htype : some t = dtype.floatFormat.map .float := hC.symm.trans hF
    obtain ⟨g, hg, rfl⟩ := Option.map_eq_some_iff.mp htype.symm
    rw [PrimExpr.kind, PrimExpr.value, hg]
    simp only [CodeGenC.GenExpr] at hC hc
    split at hc
    · rw [if_pos ‹_›] at hC
      cases hC
      obtain rfl := Option.some.inj hc
      exact .float
    · rename_i hinf
      rw [if_neg hinf] at hC
      split at hc
      · cases hc
      · rw [if_neg ‹_›] at hC
        obtain rfl := Option.some.inj hc
        obtain rfl : _ = g := CType.float.inj (Option.some.inj hC)
        rw [hkeeps _ hg (Bool.not_eq_true _ ▸ hinf)]
        exact .float
  | Var var =>
    intro t hC hF d hk hkeeps c hc
    obtain rfl := Option.some.inj hc
    exact holds_isScalar hC (σ.vars_holds var) d
  | Binary op a b iha ihb =>
    intro t hC hF d hk hkeeps c hc
    obtain ⟨s, s', hta, htb⟩ := type_binary hC
    by_cases hlogic : op ≠ .And ∧ op ≠ .Or
    · rw [value_binary hlogic]
      cases op
      case And => exact absurd rfl hlogic.1
      case Or => exact absurd rfl hlogic.2
      case EQ | LT =>
        obtain ⟨x, y, hx, hy, hz⟩ := CExpr.eval_rel (CExpr.typed_eq hta) (CExpr.typed_eq htb) hc
        obtain ⟨hX, hY, -⟩ := iha.operands hlogic ihb hta htb hF.1 hF.2 hk hkeeps hx hy
        first
          | exact rel_isScalar .eq d hX hY hz
          | exact rel_isScalar .lt d hX hY hz
      case Min | Max =>
        obtain ⟨r, hr, hz⟩ := CExpr.eval_cond rfl (CExpr.typed_eq hta) (CExpr.typed_eq htb) hc
        obtain ⟨x, y, hx, hy, hxy⟩ := CExpr.eval_rel (CExpr.typed_eq hta) (CExpr.typed_eq htb) hr
        obtain ⟨hX, hY, -⟩ := iha.operands hlogic ihb hta htb hF.1 hF.2 hk hkeeps hx hy
        have hchosen := chosen_eq hx hy hz
        first
          | exact choice_isScalar .min d hX hY hxy hchosen
          | exact choice_isScalar .max d hX hY hxy hchosen
      all_goals
        obtain ⟨x, y, hx, hy, hz⟩ := CExpr.eval_arith (CExpr.typed_eq hta) (CExpr.typed_eq htb) hc
        obtain ⟨hX, hY, hop⟩ := iha.operands hlogic ihb hta htb hF.1 hF.2 hk hkeeps hx hy
        rw [common_eq hta htb hF.1 hF.2] at hz hX hY
        exact arith_isScalar (by constructor) hX hY hop hz
    · have hor : op = .And ∨ op = .Or := by
        by_contra hne
        exact hlogic (not_or.mp hne)
      rcases hor with rfl | rfl
      case inl =>
        obtain ⟨hkeepsA, -, hkeepsB⟩ := hkeeps
        obtain ⟨x, hx, h⟩ := CExpr.eval_land (CExpr.typed_eq hta) (CExpr.typed_eq htb) hc
        rw [iha.condition hta hF.1 hkeepsA hx] at h
        split at h
        · rename_i htrue
          rw [if_pos htrue] at hkeepsB
          obtain ⟨y, hy, rfl⟩ := h
          rw [ihb.condition htb hF.2 hkeepsB.1 hy, PrimExpr.value_and_of_true htrue]
          exact isScalar_ofBool d _
        · rename_i hfalse
          rw [h, PrimExpr.value_and_of_false (Bool.not_eq_true _ ▸ hfalse)]
          exact isScalar_ofBool d _
      case inr =>
        obtain ⟨hkeepsA, -, hkeepsB⟩ := hkeeps
        obtain ⟨x, hx, h⟩ := CExpr.eval_lor (CExpr.typed_eq hta) (CExpr.typed_eq htb) hc
        rw [iha.condition hta hF.1 hkeepsA hx] at h
        split at h
        · rename_i htrue
          rw [h, PrimExpr.value_or_of_true htrue]
          exact isScalar_ofBool d _
        · rename_i hfalse
          rw [if_neg hfalse] at hkeepsB
          obtain ⟨y, hy, rfl⟩ := h
          rw [ihb.condition htb hF.2 hkeepsB.1 hy,
            PrimExpr.value_or_of_false (Bool.not_eq_true _ ▸ hfalse)]
          exact isScalar_ofBool d _
  | Not a ih =>
    intro t hC hF d hk hkeeps c hc
    obtain ⟨s, hta, -⟩ := CExpr.type_not hC
    obtain ⟨x, hx, rfl⟩ := CExpr.eval_not (CExpr.typed_eq hta) hc
    rw [ih.condition hta hF hkeeps.1 hx]
    exact isScalar_ofBool d _
  | Load var index ih =>
    intro t hC hF d hk hkeeps c hc
    obtain ⟨f, hti, ht⟩ := CExpr.type_index hC
    obtain ⟨i, hi, rfl⟩ := CExpr.eval_index hc
    rw [PrimExpr.value, ih.index hti hF hkeeps.1 hi]
    exact holds_isScalar ht (σ.buffers_holds var i) d
  | PredicatedLoad var index predicate ihi ihp =>
    intro t hC hF d hk hkeeps c hc
    obtain ⟨r, s', s'', htp, hload, hzero, rfl⟩ := CExpr.type_cond hC
    obtain ⟨f, hti, ht⟩ := CExpr.type_index hload
    obtain rfl : cint = s'' := Option.some.inj hzero
    obtain ⟨hkeepsP, -, hkeepsI⟩ := hkeeps
    obtain ⟨x, hx, h⟩ := CExpr.eval_cond (CExpr.typed_eq htp) (CExpr.typed_eq hload)
      (CExpr.typed_eq hzero) hc
    rw [ihp.condition htp hF.2 hkeepsP hx] at h
    split at h
    · rename_i htrue
      rw [if_pos htrue] at hkeepsI
      obtain ⟨y, hy, rfl⟩ := h
      obtain ⟨i, hi, rfl⟩ := CExpr.eval_index hy
      rw [PrimExpr.value_load_of_true htrue (ihi.index hti hF.1 hkeepsI.1 hi)]
      exact element_isScalar ht (σ.buffers_holds var i) d
    · rename_i hfalse
      obtain ⟨y, hy, rfl⟩ := h
      obtain rfl := Option.some.inj hy
      rw [PrimExpr.value_load_of_false (Bool.not_eq_true _ ▸ hfalse)]
      exact zero_isScalar ht d
  | Call dtype name a ih =>
    intro t hC hF d hk hkeeps c hc
    obtain ⟨s, f, hta, hf, rfl⟩ := CExpr.type_call hC
    obtain ⟨x, hx, rfl⟩ := CExpr.eval_call (CExpr.typed_eq hta) hf hc
    have hg : dtype.floatFormat = some f := hF.2.symm.trans hf
    have hX := ih hta hF.1 (d := .exact) (fun _ => rfl) hkeeps.1 hx
    have hname : name ≠ "cast" := by
      rintro rfl
      have hnone : libraryFormat (CodeGenC.functionName "cast") = none := by decide
      cases hnone.symm.trans hf
    rw [hX.toFloat (GenExpr_cKind a hF.1 hta), hkeeps.2 f hg _ rfl]
    have hvalue : (PrimExpr.Call dtype name a).value ops σ.toStore =
        .float (ops.intrinsic f (PrimExpr.functionName name)
          ((a.value ops σ.toStore).toFloat ops (a.kind.getD .double) f)) := by
      rw [PrimExpr.value, hg, beq_false_of_ne hname]
      rfl
    rw [hvalue, PrimExpr.kind, hg]
    exact .float
  | Select condition true_value false_value ihc iht ihf =>
    intro t hC hF d hk hkeeps c hc
    obtain ⟨r, s, s', htc, hta, htb, rfl⟩ := CExpr.type_cond hC
    obtain ⟨hkeepsC, -, hkeeps⟩ := hkeeps
    obtain ⟨x, hx, h⟩ := CExpr.eval_cond (CExpr.typed_eq htc) (CExpr.typed_eq hta)
      (CExpr.typed_eq htb) hc
    have hcommon := common_eq hta htb hF.2.1 hF.2.2
    have hdemand {k : Option FloatFormat} {n : Nat}
        (hjoin : k ≠ none → joinKind true_value.kind false_value.kind ≠ none) (hne : k ≠ none) :
        d.operand n = .exact := by
      rw [hk (hjoin hne)]
      rfl
    rw [ihc.condition htc hF.1 hkeepsC hx] at h
    split at h
    · rename_i htrue
      rw [if_pos htrue] at hkeeps
      obtain ⟨y, hy, rfl⟩ := h
      rw [PrimExpr.value_select_of_true htrue]
      have hY := iht hta hF.2.1 (hdemand fun hne hjoin => hne (joinKind_eq_none.mp hjoin).1)
        hkeeps.1 hy
      exact convert_isScalar (GenExpr_cKind true_value hF.2.1 hta) hcommon hY
        (suitsC_branch hkeeps.2) (fun h => (joinKind_eq_none.mp h).1) hk
    · rename_i hfalse
      rw [if_neg hfalse] at hkeeps
      obtain ⟨y, hy, rfl⟩ := h
      rw [PrimExpr.value_select_of_false (Bool.not_eq_true _ ▸ hfalse)]
      have hY := ihf htb hF.2.2 (hdemand fun hne hjoin => hne (joinKind_eq_none.mp hjoin).2)
        hkeeps.1 hy
      exact convert_isScalar (GenExpr_cKind false_value hF.2.2 htb) hcommon hY
        (suitsC_branch hkeeps.2) (fun h => (joinKind_eq_none.mp h).2) hk

end Kxc.Codegen
