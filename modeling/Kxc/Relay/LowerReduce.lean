import Kxc.Codegen.Agreement
import Kxc.Relay.Lower

/-! The statements that lowering makes of a reduction (`LowerComputeStmt` of
`relay/backend/lower.cc`), and what they leave in the accumulator when they run as `CodeGenLLVM`
compiles them. -/

namespace Kxc.Relay

open Lib Lib.MachineNumber Lib.Llvm Codegen
open Te (ReduceType)
open Tir (DataType PrimExpr BinaryOp)

def MakeIdentityForReduce (rtype : ReduceType) (dtype : DataType) : PrimExpr :=
  match rtype with
  | .kSum => if dtype.code = 2 then .FloatImm 0.0 dtype else .IntImm 0 dtype
  | .kMax => if dtype.code = 2 then .FloatImm (-(1.0 / 0.0)) dtype else .IntImm Int64.minValue dtype
  | .kMin => if dtype.code = 2 then .FloatImm (1.0 / 0.0) dtype else .IntImm Int64.maxValue dtype

/-- The operator of `update_value`. -/
def updateOp : ReduceType → BinaryOp
  | .kSum => .Add
  | .kMax => .Max
  | .kMin => .Min

/-- What `LowerComputeStmt` makes a reduction of: the variable of the output, which has the type of
the tensor, the index of the element, and the source. -/
structure ReduceStmt where
  reduce_type : ReduceType
  out_var : Tir.Var
  out_index : PrimExpr
  src : PrimExpr

namespace ReduceStmt

def init_value (stmt : ReduceStmt) : PrimExpr :=
  MakeIdentityForReduce stmt.reduce_type stmt.out_var.dtype

def update_value (stmt : ReduceStmt) : PrimExpr :=
  .Binary (updateOp stmt.reduce_type) (.Load stmt.out_var stmt.out_index) stmt.src

end ReduceStmt

section Run

variable {F : Type} (ops : FloatOps F)

/-- What the code of an expression computes. -/
def computed (σ : Store Tir.Var F) (e : PrimExpr) : Option (Word F) :=
  match CodeGenLLVM.GenExpr e with
  | .ok V => V.eval ops σ
  | .error _ => none

/-- What a buffer of a type holds after a word is stored. -/
def storedScalar (dtype : DataType) : Word F → Scalar F
  | .int _ x => .int (readWord (dtype.code == 0) x)
  | .float x => .float x

/-- `GenStore`, run. -/
def runStore (σ : Store Tir.Var F) (buffer_var : Tir.Var) (value index : PrimExpr) :
    Option (Store Tir.Var F) :=
  match computed ops σ value, computed ops σ index with
  | some w, some (.int _ i) =>
    some { σ with buffers := fun v j =>
      if v = buffer_var ∧ j = i.toInt then storedScalar buffer_var.dtype w else σ.buffers v j }
  | _, _ => none

namespace ReduceStmt

/-- `update_store` in the loops over the reduced axes: what the variables hold each time. -/
def runLoops (stmt : ReduceStmt) :
    List (Tir.Var → Scalar F) → Store Tir.Var F → Option (Store Tir.Var F)
  | [], σ => some σ
  | vars :: loops, σ => do
    let σ ← runStore ops { σ with vars } stmt.out_var stmt.update_value stmt.out_index
    stmt.runLoops loops σ

/-- `init_store`, and then the loops. -/
def run (stmt : ReduceStmt) (loops : List (Tir.Var → Scalar F)) (σ : Store Tir.Var F) :
    Option (Store Tir.Var F) := do
  let σ ← runStore ops σ stmt.out_var stmt.init_value stmt.out_index
  stmt.runLoops ops loops σ

end ReduceStmt

/-- The code of an expression computes an integer as a word of a width. -/
def Computes (σ : Store Tir.Var F) (e : PrimExpr) (bits : Nat) (v : Int) : Prop :=
  ∃ V, CodeGenLLVM.GenExpr e = .ok V ∧ V.type = .int bits ∧
    V.eval ops σ = some (.int bits (BitVec.ofInt bits v))

/-- In a store, and in each one that the loops run in, the output's index is `i`; the source does not
read the output, and is one of the values after another. -/
structure Feeds (stmt : ReduceStmt) (σ : Store Tir.Var F) (i : Int)
    (loops : List (Tir.Var → Scalar F)) (vs : List Int) : Prop where
  src_dtype : stmt.src.dtype = stmt.out_var.dtype
  fits : ∀ v ∈ vs, stmt.out_var.dtype.intFormat.Fits v
  index : ∃ bits, IntFormat.Fits ⟨true, bits⟩ i ∧ ∀ τ : Store Tir.Var F, τ.vars ∈ σ.vars :: loops →
    Computes ops τ stmt.out_index bits i
  source : List.Forall₂ (fun vars v => ∀ τ : Store Tir.Var F, τ.vars = vars →
    (∀ b, b ≠ stmt.out_var → τ.buffers b = σ.buffers b) →
    Computes ops τ stmt.src stmt.out_var.dtype.bits.toNat v) loops vs

end Run

/-- The combiner in the arithmetic of a type. -/
def combine (rtype : ReduceType) (dtype : DataType) (u v : Int) : Int :=
  dtype.intFormat.wrap ((updateOp rtype).int u v)

/-- The integer that the accumulator starts from. -/
def initial (rtype : ReduceType) (dtype : DataType) : Int :=
  match MakeIdentityForReduce rtype dtype with
  | .IntImm value _ => dtype.intFormat.wrap value.toInt
  | _ => 0

section Code

variable {F : Type} {ops : FloatOps F} {σ τ : Store Tir.Var F} {i u v : Int}

theorem Computes.computed {e : PrimExpr} {bits : Nat} (h : Computes ops σ e bits v) :
    computed ops σ e = some (.int bits (BitVec.ofInt bits v)) := by
  obtain ⟨V, hV, -, heval⟩ := h
  rw [Relay.computed, hV]
  exact heval

theorem ofInt_wrap (dtype : DataType) (v : Int) :
    BitVec.ofInt dtype.bits.toNat (dtype.intFormat.wrap v) = BitVec.ofInt dtype.bits.toNat v :=
  ofInt_congr (IntFormat.wrap_modEq dtype.intFormat v)

theorem literal_computes {dtype : DataType} (hcode : dtype.code = 0 ∨ dtype.code = 1)
    (value : Int64) :
    Computes ops σ (.IntImm value dtype) dtype.bits.toNat (dtype.intFormat.wrap value.toInt) := by
  refine ⟨.const dtype.bits.toNat (BitVec.ofInt _ value.toInt), ?_, rfl, ?_⟩
  · rw [CodeGenLLVM.GenExpr, CodeGenLLVM.GenIntImm, GetLLVMType_integral hcode]
    rfl
  · rw [LLVMValue.eval, ofInt_wrap]

theorem load_computes {var : Tir.Var} {index : PrimExpr} {bits : Nat}
    (hcode : var.dtype.code = 0 ∨ var.dtype.code = 1) (hfits : IntFormat.Fits ⟨true, bits⟩ i)
    (hindex : Computes ops σ index bits i) (hu : σ.buffers var i = .int u) :
    Computes ops σ (.Load var index) var.dtype.bits.toNat u := by
  obtain ⟨V, hV, -, heval⟩ := hindex
  refine ⟨.load (.int var.dtype.bits.toNat) var V, ?_, rfl, ?_⟩
  · rw [CodeGenLLVM.GenExpr, hV, GetLLVMType_integral hcode]
    rfl
  · have hi : (BitVec.ofInt bits i).toInt = i := read_of_fits hfits
    rw [LLVMValue.eval, heval]
    show Word.ofScalar _ (σ.buffers var (BitVec.ofInt bits i).toInt) = _
    rw [hi, hu]
    rfl

/-- The code of `update_value` combines the two values. -/
theorem update_computes (rtype : ReduceType) {old src : PrimExpr} {dtype : DataType}
    (hold : Computes ops σ old dtype.bits.toNat u) (hsrc : Computes ops σ src dtype.bits.toNat v)
    (hodtype : old.dtype = dtype) (hsdtype : src.dtype = dtype) (hu : dtype.intFormat.Fits u)
    (hv : dtype.intFormat.Fits v) :
    Computes ops σ (.Binary (updateOp rtype) old src) dtype.bits.toNat
      (combine rtype dtype u v) := by
  obtain ⟨A, hA, hAtype, hAeval⟩ := hold
  obtain ⟨B, hB, hBtype, hBeval⟩ := hsrc
  have hpromote (d d' : DataType) : CodeGenLLVM.PromoteBinaryOperands A B d d' = .ok (A, B) := by
    have hcommon := CommonNumericType_integral hAtype hBtype
    rw [Nat.max_self] at hcommon
    exact except_bind_eq_ok.mpr ⟨_, hcommon, except_bind_eq_ok.mpr ⟨A, if_pos hAtype,
      except_bind_eq_ok.mpr ⟨B, if_pos hBtype, rfl⟩⟩⟩
  have hgen : CodeGenLLVM.GenExpr (.Binary (updateOp rtype) old src) =
      CodeGenLLVM.promotedOp (updateOp rtype) (dtype.code == 0) A B := by
    rw [CodeGenLLVM.GenExpr, hA, hB, hodtype, hsdtype]
    have hbind : (CodeGenLLVM.PromoteBinaryOperands A B dtype dtype >>= fun p =>
        CodeGenLLVM.promotedOp (updateOp rtype) (dtype.code == 0 || dtype.code == 0) p.1 p.2) =
        CodeGenLLVM.promotedOp (updateOp rtype) (dtype.code == 0) A B := by
      rw [hpromote, Bool.or_self]
      rfl
    cases rtype <;> exact hbind
  rw [Computes, hgen, combine, ofInt_wrap]
  cases rtype with
  | kSum =>
    refine ⟨.int .add A B, ?_, hAtype, ?_⟩
    · rw [updateOp, CodeGenLLVM.promotedOp, hAtype]
      rfl
    · rw [LLVMValue.eval_int hAeval hBeval, IntOp.apply, ← BitVec.ofInt_add]
      rfl
  | kMax =>
    refine ⟨.select (.icmp (if dtype.code == 0 then .sgt else .ugt) A B) A B, ?_, hAtype, ?_⟩
    · rw [updateOp, CodeGenLLVM.promotedOp, hAtype]
      rfl
    · rw [select_int hAeval hBeval (sgt_or_ugt hu hv)]
      simp only [decide_eq_true_eq]
      rfl
  | kMin =>
    refine ⟨.select (.icmp (if dtype.code == 0 then .slt else .ult) A B) A B, ?_, hAtype, ?_⟩
    · rw [updateOp, CodeGenLLVM.promotedOp, hAtype]
      rfl
    · rw [select_int hAeval hBeval (slt_or_ult hu hv)]
      simp only [decide_eq_true_eq]
      rfl

/-- After a store, the element is the integer, and the other buffers are as they were. -/
theorem runStore_eq {var : Tir.Var} {value index : PrimExpr} {bits : Nat}
    (hfits : IntFormat.Fits ⟨true, bits⟩ i) (hindex : Computes ops σ index bits i)
    (hvalue : Computes ops σ value var.dtype.bits.toNat v) (hv : var.dtype.intFormat.Fits v) :
    ∃ τ, runStore ops σ var value index = some τ ∧ τ.vars = σ.vars ∧
      τ.buffers var i = .int v ∧ ∀ b, b ≠ var → τ.buffers b = σ.buffers b := by
  have hi : (BitVec.ofInt bits i).toInt = i := read_of_fits hfits
  rw [runStore, hvalue.computed, hindex.computed]
  refine ⟨_, rfl, rfl, ?_, fun b hb => ?_⟩
  · show (if _ then _ else _) = _
    rw [if_pos ⟨rfl, hi.symm⟩, storedScalar]
    exact congrArg Scalar.int (read_of_fits hv)
  · funext j
    exact if_neg fun h => hb h.1

theorem combine_fits (rtype : ReduceType) (dtype : DataType) (u v : Int) :
    dtype.intFormat.Fits (combine rtype dtype u v) :=
  IntFormat.wrap_fits _ _

/-- One literal is the identity of each kind of reduction of integers. -/
theorem MakeIdentityForReduce_literal {dtype : DataType} (hcode : dtype.code = 0 ∨ dtype.code = 1)
    (rtype : ReduceType) : ∃ value : Int64, MakeIdentityForReduce rtype dtype = .IntImm value dtype ∧
      initial rtype dtype = dtype.intFormat.wrap value.toInt := by
  have hfloat : dtype.code ≠ 2 := by
    rintro h2
    rw [h2] at hcode
    exact absurd hcode (by decide)
  cases rtype <;> simp only [initial, MakeIdentityForReduce, if_neg hfloat] <;> exact ⟨_, rfl, rfl⟩

theorem init_computes {dtype : DataType} (hcode : dtype.code = 0 ∨ dtype.code = 1)
    (rtype : ReduceType) : Computes ops σ (MakeIdentityForReduce rtype dtype) dtype.bits.toNat
      (initial rtype dtype) := by
  obtain ⟨value, hvalue, hinitial⟩ := MakeIdentityForReduce_literal hcode rtype
  rw [hvalue, hinitial]
  exact literal_computes hcode value

theorem initial_fits {dtype : DataType} (hcode : dtype.code = 0 ∨ dtype.code = 1)
    (rtype : ReduceType) : dtype.intFormat.Fits (initial rtype dtype) := by
  obtain ⟨value, -, hinitial⟩ := MakeIdentityForReduce_literal hcode rtype
  rw [hinitial]
  exact IntFormat.wrap_fits _ _

variable {stmt : ReduceStmt} {loops : List (Tir.Var → Scalar F)} {vs : List Int} {bits : Nat}

/-- The loops fold the values into what the accumulator holds. -/
theorem runLoops_eq (hcode : stmt.out_var.dtype.code = 0 ∨ stmt.out_var.dtype.code = 1)
    (hdtype : stmt.src.dtype = stmt.out_var.dtype) (hfits : IntFormat.Fits ⟨true, bits⟩ i)
    (hsource : List.Forall₂ (fun vars v => ∀ τ : Store Tir.Var F, τ.vars = vars →
      (∀ b, b ≠ stmt.out_var → τ.buffers b = σ.buffers b) →
      Computes ops τ stmt.src stmt.out_var.dtype.bits.toNat v) loops vs)
    (hindex : ∀ τ : Store Tir.Var F, τ.vars ∈ loops → Computes ops τ stmt.out_index bits i)
    (hvs : ∀ v ∈ vs, stmt.out_var.dtype.intFormat.Fits v)
    (hu : stmt.out_var.dtype.intFormat.Fits u) (hacc : τ.buffers stmt.out_var i = .int u)
    (hother : ∀ b, b ≠ stmt.out_var → τ.buffers b = σ.buffers b) :
    ∃ τ', stmt.runLoops ops loops τ = some τ' ∧ τ'.buffers stmt.out_var i =
      .int (vs.foldl (combine stmt.reduce_type stmt.out_var.dtype) u) := by
  induction hsource generalizing u τ with
  | nil => exact ⟨τ, rfl, hacc⟩
  | @cons vars v loops vs hv _ ih =>
    have hindexᵥ : Computes ops { τ with vars } stmt.out_index bits i :=
      hindex _ List.mem_cons_self
    have hold := load_computes (σ := { τ with vars }) hcode hfits hindexᵥ hacc
    have hupdate := update_computes stmt.reduce_type hold (hv { τ with vars } rfl hother)
      rfl hdtype hu (hvs v List.mem_cons_self)
    obtain ⟨τ₁, hτ₁, -, hacc₁, hother₁⟩ :=
      runStore_eq hfits hindexᵥ hupdate (combine_fits _ _ _ _)
    obtain ⟨τ', hτ', hfold⟩ := ih (fun τ hτ => hindex τ (List.mem_cons_of_mem _ hτ))
      (fun w hw => hvs w (List.mem_cons_of_mem _ hw)) (combine_fits _ _ _ _) hacc₁
      fun b hb => (hother₁ b hb).trans (hother b hb)
    refine ⟨τ', ?_, hfold⟩
    rw [ReduceStmt.runLoops, ReduceStmt.update_value, hτ₁]
    exact hτ'

/-- A reduction leaves the fold of its values from the initial one. -/
theorem run_eq (hcode : stmt.out_var.dtype.code = 0 ∨ stmt.out_var.dtype.code = 1)
    (h : Feeds ops stmt σ i loops vs) :
    ∃ τ, stmt.run ops loops σ = some τ ∧ τ.buffers stmt.out_var i =
      .int (vs.foldl (combine stmt.reduce_type stmt.out_var.dtype)
        (initial stmt.reduce_type stmt.out_var.dtype)) := by
  obtain ⟨bits, hfits, hindex⟩ := h.index
  obtain ⟨σ₀, hσ₀, -, hacc, hother⟩ := runStore_eq hfits (hindex σ List.mem_cons_self)
    (init_computes hcode stmt.reduce_type) (initial_fits hcode _)
  obtain ⟨τ, hτ, hfold⟩ := runLoops_eq hcode h.src_dtype hfits h.source
    (fun τ hτ => hindex τ (List.mem_cons_of_mem _ hτ)) h.fits (initial_fits hcode _) hacc hother
  refine ⟨τ, ?_, hfold⟩
  rw [ReduceStmt.run, ReduceStmt.init_value, hσ₀]
  exact hτ

end Code

/-! ### Neutral elements -/

/-- An initial value that is the least integer for a maximum, the greatest one for a minimum and zero
for a sum is neutral. -/
theorem initial_neutral {dtype : DataType} (hsum : initial .kSum dtype = 0)
    (hextremes : ∀ v, dtype.intFormat.Fits v →
      initial .kMax dtype ≤ v ∧ v ≤ initial .kMin dtype) (rtype : ReduceType) (v : Int)
    (hv : dtype.intFormat.Fits v) : combine rtype dtype (initial rtype dtype) v = v := by
  cases rtype with
  | kSum =>
    show dtype.intFormat.wrap (initial .kSum dtype + v) = v
    rw [hsum, Int.zero_add]
    exact hv
  | kMax =>
    show dtype.intFormat.wrap (if v < initial .kMax dtype then _ else v) = v
    rw [if_neg (Int.not_lt.mpr (hextremes v hv).1)]
    exact hv
  | kMin =>
    show dtype.intFormat.wrap (if initial .kMin dtype < v then _ else v) = v
    rw [if_neg (Int.not_lt.mpr (hextremes v hv).2)]
    exact hv

/-- Zero is above -1, and -1 below zero. -/
theorem initial_truncated {dtype : DataType} (hsum : initial .kSum dtype = 0)
    (hmax : initial .kMax dtype = 0) (hmin : initial .kMin dtype = -1)
    (hfits : dtype.intFormat.Fits (-1) ∧ dtype.intFormat.Fits 0) (rtype : ReduceType) :
    (∀ v, dtype.intFormat.Fits v → combine rtype dtype (initial rtype dtype) v = v) ↔
      rtype = .kSum := by
  cases rtype with
  | kSum =>
    refine iff_of_true (fun v hv => ?_) rfl
    show dtype.intFormat.wrap (initial .kSum dtype + v) = v
    rw [hsum, Int.zero_add]
    exact hv
  | kMax =>
    refine iff_of_false (fun h => ?_) (by decide)
    have hzero : dtype.intFormat.wrap (if (-1 : Int) < 0 then 0 else -1) = -1 := by
      have h := h (-1) hfits.1
      rwa [hmax] at h
    rw [if_pos (by decide), hfits.2] at hzero
    exact absurd hzero (by decide)
  | kMin =>
    refine iff_of_false (fun h => ?_) (by decide)
    have hone : dtype.intFormat.wrap (if (-1 : Int) < 0 then -1 else 0) = 0 := by
      have h := h 0 hfits.2
      rwa [hmin] at h
    rw [if_pos (by decide), hfits.1] at hone
    exact absurd hone (by decide)

/-- The literals are truncated to the type: those of signed types of less than 64 bits are not the
least and the greatest integer. -/
theorem initial_neutral_iff {name : String} {dtype : DataType}
    (hname : DTypeFromString name = .ok dtype) (hint : dtype.code ≠ 2) (rtype : ReduceType) :
    (∀ v, dtype.intFormat.Fits v → combine rtype dtype (initial rtype dtype) v = v) ↔
      rtype = .kSum ∨ name = "int64" ∨ name = "uint8" ∨ name = "bool" := by
  unfold DTypeFromString at hname
  split at hname <;> cases hname
  case h_1 | h_2 => exact absurd rfl hint
  case h_3 | h_5 =>
    rw [initial_truncated (by decide) (by decide) (by decide) (by decide)]
    exact (or_iff_left (by decide)).symm
  case h_4 =>
    refine iff_of_true (initial_neutral (by decide) (fun v hv => ?_) rtype) (.inr (.inl rfl))
    have hrange : -2 ^ 63 ≤ v ∧ v < 2 ^ 63 := IntFormat.fits_signed.mp hv
    exact ⟨hrange.1, Int.le_of_lt_add_one hrange.2⟩
  case h_6 =>
    refine iff_of_true (initial_neutral (by decide) (fun v hv => ?_) rtype)
      (.inr (.inr (.inl rfl)))
    have hrange : 0 ≤ v ∧ v < 2 ^ 8 := IntFormat.fits_unsigned.mp hv
    exact ⟨hrange.1, Int.le_of_lt_add_one hrange.2⟩
  case h_7 =>
    refine iff_of_true (initial_neutral (by decide) (fun v hv => ?_) rtype)
      (.inr (.inr (.inr rfl)))
    have hrange : 0 ≤ v ∧ v < 2 ^ 1 := IntFormat.fits_unsigned.mp hv
    exact ⟨hrange.1, Int.le_of_lt_add_one hrange.2⟩

/-- The code of the initial value is neutral for the code of the combiner, and reductions of a kind
leave the fold of their values. -/
structure Neutral (rtype : ReduceType) (dtype : DataType) : Prop where
  combined : ∀ {F : Type} (ops : FloatOps F) (σ : Store Tir.Var F) (src : PrimExpr) (v : Int),
    dtype.intFormat.Fits v → src.dtype = dtype → Computes ops σ src dtype.bits.toNat v →
    computed ops σ (.Binary (updateOp rtype) (MakeIdentityForReduce rtype dtype) src) =
      computed ops σ src
  reduced : ∀ {F : Type} (ops : FloatOps F) (stmt : ReduceStmt) (σ : Store Tir.Var F) (i : Int)
    (loops : List (Tir.Var → Scalar F)) (v : Int) (vs : List Int), stmt.reduce_type = rtype →
    stmt.out_var.dtype = dtype → Feeds ops stmt σ i loops (v :: vs) →
    ∃ τ, stmt.run ops loops σ = some τ ∧
      τ.buffers stmt.out_var i = .int (vs.foldl (combine rtype dtype) v)

theorem MakeIdentityForReduce_dtype (rtype : ReduceType) (dtype : DataType) :
    (MakeIdentityForReduce rtype dtype).dtype = dtype := by
  cases rtype <;> rw [MakeIdentityForReduce] <;> split <;> rfl

/-- The code of the combiner on the initial value. -/
theorem computed_initial {F : Type} {ops : FloatOps F} {σ : Store Tir.Var F} {src : PrimExpr}
    {v : Int} {dtype : DataType} (hcode : dtype.code = 0 ∨ dtype.code = 1) (rtype : ReduceType)
    (hv : dtype.intFormat.Fits v) (hdtype : src.dtype = dtype)
    (hsrc : Computes ops σ src dtype.bits.toNat v) :
    computed ops σ (.Binary (updateOp rtype) (MakeIdentityForReduce rtype dtype) src) =
      some (.int dtype.bits.toNat
        (BitVec.ofInt _ (combine rtype dtype (initial rtype dtype) v))) :=
  (update_computes rtype (init_computes hcode rtype) hsrc (MakeIdentityForReduce_dtype rtype dtype) hdtype
    (initial_fits hcode rtype) hv).computed

theorem neutral_iff {dtype : DataType} (hcode : dtype.code = 0 ∨ dtype.code = 1)
    (rtype : ReduceType) : Neutral rtype dtype ↔
      ∀ v, dtype.intFormat.Fits v → combine rtype dtype (initial rtype dtype) v = v := by
  constructor
  · intro h v hv
    let x : Tir.Var := { name_hint := "x", dtype }
    let σ : Store Tir.Var Unit := ⟨fun _ => .int v, fun _ _ => .int v⟩
    have hx : Computes .zero σ (.Var x) dtype.bits.toNat v := by
      refine ⟨.arg x (.int dtype.bits.toNat), ?_, rfl, rfl⟩
      rw [CodeGenLLVM.GenExpr, CodeGenLLVM.GenVar, GetLLVMType_integral hcode]
      rfl
    have hcombined := h.combined .zero σ (.Var x) v hv rfl hx
    rw [computed_initial hcode rtype hv rfl hx, hx.computed] at hcombined
    have hword : BitVec.ofInt dtype.bits.toNat (combine rtype dtype (initial rtype dtype) v) =
        BitVec.ofInt dtype.bits.toNat v := by
      injection hcombined with hcombined
      injection hcombined
    have hread := congrArg (readWord (dtype.code == 0)) hword
    rwa [read_of_fits (combine_fits rtype dtype _ v), read_of_fits hv] at hread
  · intro h
    refine ⟨fun ops σ src v hv hdtype hsrc => ?_, fun ops stmt σ i loops v vs hr hd hfeeds => ?_⟩
    · rw [computed_initial hcode rtype hv hdtype hsrc, h v hv, hsrc.computed]
    · subst hr hd
      obtain ⟨τ, hτ, hfold⟩ := run_eq hcode hfeeds
      refine ⟨τ, hτ, ?_⟩
      rw [hfold, List.foldl_cons, h v (hfeeds.fits v List.mem_cons_self)]

/-- The initial value of sums is neutral, and that of maxima and minima is where the literals of 64
bits are the extremes of the type. -/
theorem MakeIdentityForReduce_neutral {name : String} {dtype : DataType}
    (hname : DTypeFromString name = .ok dtype) (hint : dtype.code ≠ 2) (rtype : ReduceType) :
    Neutral rtype dtype ↔ rtype = .kSum ∨ name = "int64" ∨ name = "uint8" ∨ name = "bool" := by
  have hcode : dtype.code = 0 ∨ dtype.code = 1 := by
    unfold DTypeFromString at hname
    split at hname <;> cases hname
    case h_1 | h_2 => exact absurd rfl hint
    all_goals decide
  exact (neutral_iff hcode rtype).trans (initial_neutral_iff hname hint rtype)

theorem MakeIdentityForReduce_int64 : DTypeFromString "int64" = .ok (.Int 64) ∧
    (Neutral .kMax (.Int 64) ↔ ReduceType.kMax = .kSum ∨ "int64" = "int64" ∨
      "int64" = "uint8" ∨ "int64" = "bool") :=
  ⟨rfl, MakeIdentityForReduce_neutral rfl (by decide) .kMax⟩

/-- The elements of a buffer `x`, reduced into the only element of another one. -/
def reduceElements (rtype : ReduceType) (dtype : DataType) : ReduceStmt where
  reduce_type := rtype
  out_var := { name_hint := "out", dtype }
  out_index := .IntImm 0 (.Int 32)
  src := .Load { name_hint := "x", dtype } (.Var { name_hint := "rk", dtype := .Int 64 })

/-- What the reduction of some elements leaves. -/
def reducedElements (rtype : ReduceType) (dtype : DataType) (vs : List Int) :
    Option (Scalar Unit) :=
  let σ : Store Tir.Var Unit := ⟨fun _ => .int 0, fun _ j => .int (vs.getD j.toNat 0)⟩
  ((reduceElements rtype dtype).run .zero ((List.range vs.length).map fun k _ => .int k) σ).map
    fun τ => τ.buffers (reduceElements rtype dtype).out_var 0

/-- The maximum of -3, -1 and -2 in 32 bits is zero, and the minimum of 5 and 3 is -1. -/
theorem MakeIdentityForReduce_int32 :
    reducedElements .kMax (.Int 32) [-3, -1, -2] = some (.int 0) ∧
      [-1, -2].foldl (combine .kMax (.Int 32)) (-3) = -1 ∧
      reducedElements .kMin (.Int 32) [5, 3] = some (.int (-1)) ∧
      [3].foldl (combine .kMin (.Int 32)) 5 = 3 ∧
      ¬Neutral .kMax (.Int 32) ∧ ¬Neutral .kMin (.Int 32) := by
  have hnot (rtype : ReduceType) (v : Int) (hv : (DataType.Int 32).intFormat.Fits v)
      (h : combine rtype (.Int 32) (initial rtype (.Int 32)) v ≠ v) :
      ¬Neutral rtype (.Int 32) := fun hneutral => h ((neutral_iff (.inl rfl) rtype).mp hneutral v hv)
  exact ⟨rfl, rfl, rfl, rfl, hnot .kMax (-1) (by decide) (by decide),
    hnot .kMin 0 (by decide) (by decide)⟩

end Kxc.Relay
