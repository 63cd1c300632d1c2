import Kxc.Codegen.Integers
import Kxc.Codegen.Typing
import Kxc.Tir.Exec
import Kxc.Tir.PassUtils

/-! Integers that expressions compute, and sums that are right modulo the type of a variable. -/

namespace Kxc.Tir

open Codegen Lib Lib.MachineNumber Lib.Llvm

variable {F : Type} {ops : FloatOps F} {σ : Store Tir.Var F}

namespace PrimExpr

variable {e a b : PrimExpr} {m n k : Nat} {u v : Int}

/-- The code of `e` computes a word of `n` bits that is read as `v`. -/
def Computes (ops : FloatOps F) (σ : Store Tir.Var F) (e : PrimExpr) (n : Nat) (v : Int) : Prop :=
  ∃ V, CodeGenLLVM.GenExpr e = .ok V ∧ V.type = .int n ∧
    ∃ x : BitVec n, V.eval ops σ = some (.int n x) ∧ readWord (e.dtype.code == 0) x = v

theorem Computes.scalar (h : e.Computes ops σ n v) : e.scalar ops σ = some (.int v) := by
  obtain ⟨V, hV, -, x, hx, rfl⟩ := h
  rw [PrimExpr.scalar, word, hV]
  exact congrArg (Option.map _) hx

theorem integer_of_scalar (h : e.scalar ops σ = some (.int v)) : e.integer ops σ = some v := by
  rw [PrimExpr.integer, h]

theorem Computes.integer (h : e.Computes ops σ n v) : e.integer ops σ = some v :=
  integer_of_scalar h.scalar

theorem integer_eq_some : e.integer ops σ = some v ↔ ∃ n, e.Computes ops σ n v := by
  refine ⟨fun h => ?_, fun ⟨n, hn⟩ => hn.integer⟩
  rw [PrimExpr.integer] at h
  split at h
  · rename_i u hscalar
    obtain rfl : u = v := Option.some.inj h
    obtain ⟨w, hword, hw⟩ := Option.map_eq_some_iff.mp hscalar
    rw [word] at hword
    split at hword
    · rename_i V hV
      cases w with
      | float => cases hw
      | int n x =>
        have htyped := GenExpr_typed ops hV σ _ hword
        refine ⟨n, V, hV, ?_, x, hword, Scalar.int.inj hw⟩
        cases ht : V.type <;> rw [ht] at htyped <;> obtain ⟨_, hx⟩ := htyped <;> cases hx
        rfl
    · cases hword
  · cases h

theorem computes_literal {dtype : DataType} (h : dtype.code = 0 ∨ dtype.code = 1) (value : Int64) :
    (IntImm value dtype).Computes ops σ dtype.bits.toNat (dtype.intFormat.wrap value.toInt) :=
  ⟨_, GenExpr_literal h value, rfl, _, rfl, read_ofInt _ _ _⟩

theorem integer_IntImm (ops : FloatOps F) (σ : Store Tir.Var F) {dtype : DataType}
    (h : dtype.code = 0 ∨ dtype.code = 1) (value : Int64) :
    (IntImm value dtype).integer ops σ = some (dtype.intFormat.wrap value.toInt) :=
  (computes_literal h value).integer

theorem computes_var {var : Tir.Var} (h : var.dtype.code = 0 ∨ var.dtype.code = 1)
    (hvar : σ.vars var = .int v) :
    (Var var).Computes ops σ var.dtype.bits.toNat (var.dtype.intFormat.wrap v) := by
  refine ⟨_, except_bind_eq_ok.mpr ⟨_, GetLLVMType_integral h, rfl⟩, rfl,
    BitVec.ofInt _ v, ?_, read_ofInt _ _ _⟩
  rw [LLVMValue.eval, hvar]
  rfl

/-- A literal is a number of its type. -/
def LiteralFits (e : PrimExpr) : Prop :=
  ∀ value, pass_utils.TryGetConstInt64 e = some value → e.dtype.intFormat.Fits value.toInt

theorem integer_literal {value : Int64} (h : pass_utils.TryGetConstInt64 e = some value)
    (hfits : e.LiteralFits) (hv : e.integer ops σ = some v) : value.toInt = v := by
  cases e with
  | IntImm value' dtype =>
    cases h
    obtain ⟨n, V, hV, htype, x, hx, rfl⟩ := integer_eq_some.mp hv
    obtain ⟨t, ht, hV⟩ := except_bind_eq_ok.mp hV
    cases t <;> cases hV
    obtain rfl := (GetLLVMType_int ht).2
    cases hx
    exact (hfits value rfl).symm.trans (read_ofInt _ _ _).symm
  | _ => cases h

theorem integer_FloatImm (value : Float) (dtype : DataType) :
    (FloatImm value dtype).integer ops σ = none := by
  refine Option.eq_none_iff_forall_ne_some.mpr fun v hv => ?_
  obtain ⟨n, V, hV, htype, -⟩ := integer_eq_some.mp hv
  obtain ⟨t, -, hV⟩ := except_bind_eq_ok.mp hV
  cases t <;> cases hV
  cases htype

/-- Addition and multiplication are those of the wider type. -/
theorem Computes.arithmetic {op : BinaryOp} (hop : op = .Add ∨ op = .Mul)
    (ha : a.Computes ops σ m u) (hb : b.Computes ops σ n v) :
    ∃ r, (Binary op a b).Computes ops σ (max m n) r ∧
      r ≡ (if op = .Add then u + v else u * v) [ZMOD 2 ^ max m n] := by
  obtain ⟨A, hA, hAt, x, hx, rfl⟩ := ha
  obtain ⟨B, hB, hBt, y, hy, rfl⟩ := hb
  obtain ⟨A', hA', hAt', hx'⟩ := CastValue_int ops hAt (max m n) (a.dtype.code == 0)
  obtain ⟨B', hB', -, hy'⟩ := CastValue_int ops hBt (max m n) (b.dtype.code == 0)
  have hmem : op ∈ [BinaryOp.Add, .Sub, .Mul, .Div] := by rcases hop with rfl | rfl <;> decide
  have hgen := GenBinaryOp_arithmetic hmem
    (CommonNumericType_integral hAt hBt) hA' hB'
  have heval := LLVMValue.eval_int (hx' σ x hx) (hy' σ y hy)
    (intOp (a.dtype.code == 0 || b.dtype.code == 0) op)
  generalize readWord (a.dtype.code == 0) x = u at heval
  generalize readWord (b.dtype.code == 0) y = v at heval
  have hword : (intOp (a.dtype.code == 0 || b.dtype.code == 0) op).apply
      (BitVec.ofInt (max m n) u) (BitVec.ofInt (max m n) v) =
      some (BitVec.ofInt (max m n) (if op = .Add then u + v else u * v)) := by
    rcases hop with rfl | rfl
    · exact congrArg some (BitVec.ofInt_add u v).symm
    · exact congrArg some (BitVec.ofInt_mul u v).symm
  rw [hword] at heval
  exact ⟨_, ⟨_, except_bind_eq_ok.mpr ⟨A, hA, except_bind_eq_ok.mpr ⟨B, hB, hgen⟩⟩, hAt', _,
    heval, rfl⟩, read_ofInt _ _ _ ▸ IntFormat.wrap_modEq _ _⟩

/-- The word has `k` bits or more, and is read as `v` modulo `2 ^ k`. -/
def Congruent (ops : FloatOps F) (σ : Store Tir.Var F) (k : Nat) (e : PrimExpr) (v : Int) : Prop :=
  ∃ n r, k ≤ n ∧ e.Computes ops σ n r ∧ r ≡ v [ZMOD 2 ^ k]

/-- The word is read as `v`, or has `k` bits or more and is read so modulo `2 ^ k`. -/
def Addend (ops : FloatOps F) (σ : Store Tir.Var F) (k : Nat) (e : PrimExpr) (v : Int) : Prop :=
  e.integer ops σ = some v ∨ e.Congruent ops σ k v

theorem Addend.integer (h : e.Addend ops σ k v) :
    ∃ r, e.scalar ops σ = some (.int r) ∧ r ≡ v [ZMOD 2 ^ k] := by
  rcases h with h | ⟨n, r, -, hr, hmod⟩
  · obtain ⟨n, hn⟩ := integer_eq_some.mp h
    exact ⟨v, hn.scalar, rfl⟩
  · exact ⟨r, hr.scalar, hmod⟩

theorem Addend.add (ha : a.Addend ops σ k u) (hb : b.Congruent ops σ k v) :
    (Binary .Add a b).Congruent ops σ k (u + v) := by
  obtain ⟨n, s, hkn, hs, hsv⟩ := hb
  obtain ⟨m, r, hr, hru⟩ : ∃ m r, a.Computes ops σ m r ∧ r ≡ u [ZMOD 2 ^ k] := by
    rcases ha with ha | ⟨m, r, -, hr, hmod⟩
    · obtain ⟨m, hm⟩ := integer_eq_some.mp ha
      exact ⟨m, u, hm, rfl⟩
    · exact ⟨m, r, hr, hmod⟩
  obtain ⟨t, ht, hmod⟩ := hr.arithmetic (.inl rfl) hs
  have hk : k ≤ max m n := hkn.trans (Nat.le_max_right m n)
  exact ⟨_, t, hk, ht, (hmod.of_dvd (pow_dvd_pow 2 hk)).trans (hru.add hsv)⟩

theorem Congruent.mul (ha : a.Congruent ops σ k u) (hb : b.Congruent ops σ k v) :
    (Binary .Mul a b).Congruent ops σ k (u * v) := by
  obtain ⟨m, r, hkm, hr, hru⟩ := ha
  obtain ⟨n, s, -, hs, hsv⟩ := hb
  obtain ⟨t, ht, hmod⟩ := hr.arithmetic (.inr rfl) hs
  have hk : k ≤ max m n := hkm.trans (Nat.le_max_left m n)
  exact ⟨_, t, hk, ht, (hmod.of_dvd (pow_dvd_pow 2 hk)).trans (hru.mul hsv)⟩

theorem congruent_literal {dtype : DataType} (h : dtype.code = 0 ∨ dtype.code = 1) {value : Int64}
    (hv : value.toInt ≡ v [ZMOD 2 ^ dtype.bits.toNat]) :
    (IntImm value dtype).Congruent ops σ dtype.bits.toNat v :=
  ⟨_, _, le_rfl, computes_literal h value, (IntFormat.wrap_modEq dtype.intFormat _).trans hv⟩

theorem congruent_var {var : Tir.Var} (h : var.dtype.code = 0 ∨ var.dtype.code = 1)
    (hvar : σ.vars var = .int v) : (Var var).Congruent ops σ var.dtype.bits.toNat v :=
  ⟨_, _, le_rfl, computes_var h hvar, IntFormat.wrap_modEq var.dtype.intFormat v⟩

theorem congruent_convert (var : Tir.Var) (h : var.dtype.code = 0 ∨ var.dtype.code = 1)
    (hvar : σ.vars var = var.dtype.convert (.int v)) :
    (Var var).Congruent ops σ var.dtype.bits.toNat v := by
  have hwrapped : (Var var).Congruent ops σ var.dtype.bits.toNat (var.dtype.intFormat.wrap v) :=
    congruent_var h hvar
  obtain ⟨n, r, hn, hr, hmod⟩ := hwrapped
  exact ⟨n, r, hn, hr, hmod.trans (IntFormat.wrap_modEq var.dtype.intFormat v)⟩

theorem int64_add_modEq (x y : Int64) (hk : k ≤ 64) :
    (x + y).toInt ≡ x.toInt + y.toInt [ZMOD 2 ^ k] := by
  have hmod : (x.toInt + y.toInt).bmod (2 ^ 64) ≡ x.toInt + y.toInt [ZMOD (2 ^ 64 : Nat)] :=
    Int.bmod_emod
  rw [Int64.toInt_add]
  exact hmod.of_dvd (by exact_mod_cast pow_dvd_pow 2 hk)

/-- The sum of two literals. -/
theorem congruent_sum {dtype : DataType} (h : dtype.code = 0 ∨ dtype.code = 1)
    (hbits : dtype.bits.toNat ≤ 64) (x y : Int64) :
    (IntImm (x + y) dtype).Congruent ops σ dtype.bits.toNat (x.toInt + y.toInt) :=
  congruent_literal h (int64_add_modEq x y hbits)

end PrimExpr

theorem loopRange_eq_some {σ : Store Tir.Var F} {loop_var : Tir.Var} {min extent : PrimExpr} {a : Int}
    {n : Nat} (h : Stmt.loopRange ops σ loop_var min extent = some (a, n)) :
    min.integer ops σ = some a ∧ (∃ m, extent.integer ops σ = some m ∧ m.toNat = n) ∧
      (loop_var.dtype.code = 0 ∨ loop_var.dtype.code = 1) := by
  obtain ⟨a', ha, h⟩ := Option.bind_eq_some_iff.mp h
  obtain ⟨m, hm, h⟩ := Option.bind_eq_some_iff.mp h
  split at h
  · cases h
    exact ⟨ha, ⟨m, hm, rfl⟩, ‹_›⟩
  · cases h

theorem convert_congr {dtype : DataType} {u v : Int}
    (h : u ≡ v [ZMOD 2 ^ dtype.bits.toNat]) :
    (dtype.convert (.int u) : Scalar F) = dtype.convert (.int v) :=
  congrArg Scalar.int (IntFormat.wrap_congr h)

/-- A `LetStmt` of a value that is right modulo the type of its variable, whatever the memory. -/
theorem exec_LetStmt_addend {contents : Tir.Var → Int → Scalar F} {env : Tir.Var → Scalar F}
    {var : Tir.Var} {value : PrimExpr} {v : Int}
    (h : ∀ memory, value.Addend ops ⟨env, memory⟩ var.dtype.bits.toNat v) (body : Stmt) :
    Stmt.exec ops contents env (.LetStmt var value body) =
      .emit (.bind var (var.dtype.convert (.int v))) *
        Stmt.exec ops contents (Function.update env var (var.dtype.convert (.int v))) body := by
  rw [Stmt.exec]
  funext memory
  obtain ⟨r, hr, hmod⟩ := (h memory).integer
  rw [Action.read, hr, ← convert_congr hmod]
  rfl

end Kxc.Tir
