import Mathlib.Data.Int.ModEq
import Mathlib.Tactic.Positivity
import Mathlib.Tactic.Ring

/-! Machine scalars: integer formats and the integers that fit them, words read with a sign or
without, and floating-point formats with their arithmetic as a parameter. -/

namespace Kxc.Lib.MachineNumber

/-! ### Integers -/

/-- The integers of a width, with a sign or without. -/
structure IntFormat where
  signed : Bool
  bits : Nat
  deriving DecidableEq

namespace IntFormat

/-- The integer of the format with the low bits of `v`. -/
def wrap (f : IntFormat) (v : Int) : Int :=
  if f.signed then v.bmod (2 ^ f.bits) else v % (2 ^ f.bits : Nat)

/-- `v` is an integer of the format. -/
def Fits (f : IntFormat) (v : Int) : Prop := f.wrap v = v

instance (f : IntFormat) (v : Int) : Decidable (f.Fits v) := inferInstanceAs (Decidable (_ = _))

variable {f : IntFormat} {u v : Int} {bits : Nat}

theorem fits_unsigned : Fits ⟨false, bits⟩ v ↔ 0 ≤ v ∧ v < 2 ^ bits := by
  have hpos : (0 : Int) < (2 ^ bits : Nat) := by positivity
  have hcast : ((2 ^ bits : Nat) : Int) = 2 ^ bits := by push_cast; rfl
  show v % (2 ^ bits : Nat) = v ↔ _
  rw [← hcast]
  constructor
  · intro h
    have := Int.emod_nonneg v hpos.ne'
    have := Int.emod_lt_of_pos v hpos
    omega
  · exact fun ⟨h0, hlt⟩ => Int.emod_eq_of_lt h0 hlt

theorem fits_signed : Fits ⟨true, bits + 1⟩ v ↔ -2 ^ bits ≤ v ∧ v < 2 ^ bits := by
  have hcast : ((2 ^ (bits + 1) : Nat) : Int) = 2 * 2 ^ bits := by push_cast; ring
  have hpos : 0 < 2 ^ (bits + 1) := by positivity
  show v.bmod (2 ^ (bits + 1)) = v ↔ _
  constructor
  · intro h
    have hle := @Int.le_bmod v _ hpos
    have hlt := @Int.bmod_lt v _ hpos
    omega
  · exact fun ⟨hle, hlt⟩ => Int.bmod_eq_of_le (by omega) (by omega)

/-- With a sign or without, a format has the integers in the lower half of its numbers. -/
theorem fits_of_two_mul_lt (hv : 0 ≤ v) (h : 2 * v < 2 ^ f.bits) : f.Fits v := by
  have hcast : ((2 ^ f.bits : Nat) : Int) = 2 ^ f.bits := by push_cast; rfl
  rw [← hcast] at h
  rw [Fits, wrap]
  split
  · exact Int.bmod_eq_of_le (by omega) (by omega)
  · exact Int.emod_eq_of_lt hv (by omega)

/-- A wider format has the integers of a narrower one. -/
theorem Fits.of_signed {m n : Nat} (h : Fits ⟨true, m + 1⟩ v) (hmn : m ≤ n) :
    Fits ⟨true, n + 1⟩ v := by
  have hpow : (2 : Int) ^ m ≤ 2 ^ n := pow_le_pow_right₀ (by decide) hmn
  rw [fits_signed] at h ⊢
  omega

theorem Fits.of_unsigned {m n : Nat} (h : Fits ⟨false, m⟩ v) (hmn : m ≤ n) :
    Fits ⟨false, n⟩ v ∧ Fits ⟨true, n + 1⟩ v := by
  have hpow : (2 : Int) ^ m ≤ 2 ^ n := pow_le_pow_right₀ (by decide) hmn
  rw [fits_unsigned] at h ⊢
  rw [fits_signed]
  omega

theorem wrap_modEq (f : IntFormat) (v : Int) : f.wrap v ≡ v [ZMOD 2 ^ f.bits] := by
  have hcast : ((2 ^ f.bits : Nat) : Int) = 2 ^ f.bits := by push_cast; rfl
  rw [wrap, ← hcast]
  split
  · exact Int.bmod_emod
  · exact Int.mod_modEq v _

theorem wrap_congr (h : u ≡ v [ZMOD 2 ^ f.bits]) : f.wrap u = f.wrap v := by
  have hcast : ((2 ^ f.bits : Nat) : Int) = 2 ^ f.bits := by push_cast; rfl
  rw [← hcast] at h
  rw [wrap, wrap]
  split
  · rw [← Int.emod_bmod u, h, Int.emod_bmod]
  · exact h

theorem wrap_fits (f : IntFormat) (v : Int) : f.Fits (f.wrap v) := wrap_congr (f.wrap_modEq v)

/-- The type that two integers meet in: the wider one; of two of one width, the unsigned one. -/
def common (f g : IntFormat) : IntFormat :=
  if f.bits < g.bits then g
  else if g.bits < f.bits then f
  else ⟨f.signed && g.signed, f.bits⟩

end IntFormat

/-! ### Words -/

section Words

variable {w : Nat} {signed : Bool} {u v : Int}

/-- The integer that a word stands for. -/
def readWord (signed : Bool) (x : BitVec w) : Int := if signed then x.toInt else x.toNat

theorem read_ofInt (signed : Bool) (w : Nat) (v : Int) :
    readWord signed (BitVec.ofInt w v) = IntFormat.wrap ⟨signed, w⟩ v := by
  rw [readWord, IntFormat.wrap]
  split
  · exact BitVec.toInt_ofInt v
  · rw [BitVec.toNat_ofInt]
    exact Int.toNat_of_nonneg (Int.emod_nonneg v (by positivity))

theorem ofInt_read (signed : Bool) (x : BitVec w) : BitVec.ofInt w (readWord signed x) = x := by
  rw [readWord]
  split
  · exact BitVec.ofInt_toInt
  · rw [BitVec.ofInt_natCast, BitVec.ofNat_toNat, BitVec.setWidth_eq]

theorem ofInt_congr (h : u ≡ v [ZMOD 2 ^ w]) : BitVec.ofInt w u = BitVec.ofInt w v := by
  rw [← ofInt_read true (BitVec.ofInt w u), ← ofInt_read true (BitVec.ofInt w v), read_ofInt,
    read_ofInt, IntFormat.wrap_congr h]

theorem ofInt_eq_iff : BitVec.ofInt w u = BitVec.ofInt w v ↔ u ≡ v [ZMOD 2 ^ w] := by
  refine ⟨fun h => ?_, ofInt_congr⟩
  have hread := congrArg (readWord false) h
  rw [read_ofInt, read_ofInt] at hread
  exact (IntFormat.wrap_modEq ⟨false, w⟩ u).symm.trans (hread ▸ IntFormat.wrap_modEq ⟨false, w⟩ v)

theorem ofInt_sub (u v : Int) : BitVec.ofInt w (u - v) = BitVec.ofInt w u - BitVec.ofInt w v := by
  rw [Int.sub_eq_add_neg, BitVec.ofInt_add, BitVec.ofInt_neg, BitVec.sub_eq_add_neg]

/-- A word that is extended, or truncated. -/
theorem extend_eq (signed : Bool) (n : Nat) (x : BitVec w) :
    (if signed then x.signExtend n else x.setWidth n) = BitVec.ofInt n (readWord signed x) := by
  cases signed
  · rw [if_neg Bool.false_ne_true]
    show _ = BitVec.ofInt n (x.toNat : Int)
    rw [BitVec.ofInt_natCast, BitVec.ofNat_toNat]
  · rfl

theorem read_of_fits (h : IntFormat.Fits ⟨signed, w⟩ v) : readWord signed (BitVec.ofInt w v) = v :=
  (read_ofInt signed w v).trans h

/-- A word reads as zero exactly when it is the zero word. -/
theorem read_eq_zero {x : BitVec w} : readWord signed x = 0 ↔ x = 0 := by
  constructor
  · intro h
    rw [← ofInt_read signed x, h]
    rfl
  · rintro rfl
    cases signed <;> simp [readWord]

/-- Division and remainder of words that read as `u` and `v`. -/
theorem div_of_fits (hu : IntFormat.Fits ⟨signed, w⟩ u) (hv : IntFormat.Fits ⟨signed, w⟩ v) :
    (if signed then (BitVec.ofInt w u).sdiv (BitVec.ofInt w v)
      else BitVec.ofInt w u / BitVec.ofInt w v) = BitVec.ofInt w (u.tdiv v) := by
  have hu := read_of_fits hu
  have hv := read_of_fits hv
  cases signed
  · rw [if_neg Bool.false_ne_true, ← ofInt_read false (BitVec.ofInt w u / BitVec.ofInt w v)]
    show BitVec.ofInt w (BitVec.toNat (_ / _) : Nat) = _
    rw [BitVec.toNat_udiv, Int.natCast_ediv]
    have hu : ((BitVec.ofInt w u).toNat : Int) = u := hu
    have hv : ((BitVec.ofInt w v).toNat : Int) = v := hv
    rw [hu, hv, Int.tdiv_eq_ediv_of_nonneg (hu ▸ Int.natCast_nonneg _)]
  · rw [if_pos rfl, ← ofInt_read true ((BitVec.ofInt w u).sdiv (BitVec.ofInt w v))]
    show BitVec.ofInt w (BitVec.toInt _) = _
    have hu : (BitVec.ofInt w u).toInt = u := hu
    have hv : (BitVec.ofInt w v).toInt = v := hv
    rw [BitVec.toInt_sdiv, hu, hv]
    exact ofInt_congr (IntFormat.wrap_modEq ⟨true, w⟩ _)

theorem rem_of_fits (hu : IntFormat.Fits ⟨signed, w⟩ u) (hv : IntFormat.Fits ⟨signed, w⟩ v) :
    (if signed then (BitVec.ofInt w u).srem (BitVec.ofInt w v)
      else BitVec.ofInt w u % BitVec.ofInt w v) = BitVec.ofInt w (u.tmod v) := by
  have hu := read_of_fits hu
  have hv := read_of_fits hv
  cases signed
  · rw [if_neg Bool.false_ne_true, ← ofInt_read false (BitVec.ofInt w u % BitVec.ofInt w v)]
    show BitVec.ofInt w (BitVec.toNat (_ % _) : Nat) = _
    rw [BitVec.toNat_umod, Int.natCast_emod]
    have hu : ((BitVec.ofInt w u).toNat : Int) = u := hu
    have hv : ((BitVec.ofInt w v).toNat : Int) = v := hv
    rw [hu, hv, Int.tmod_eq_emod_of_nonneg (hu ▸ Int.natCast_nonneg _)]
  · rw [if_pos rfl, ← ofInt_read true ((BitVec.ofInt w u).srem (BitVec.ofInt w v))]
    show BitVec.ofInt w (BitVec.toInt _) = _
    have hu : (BitVec.ofInt w u).toInt = u := hu
    have hv : (BitVec.ofInt w v).toInt = v := hv
    rw [BitVec.toInt_srem, hu, hv]

/-- Comparison of words that read as `u` and `v`. -/
theorem lt_of_fits (hu : IntFormat.Fits ⟨signed, w⟩ u) (hv : IntFormat.Fits ⟨signed, w⟩ v) :
    (if signed then (BitVec.ofInt w u).slt (BitVec.ofInt w v)
      else (BitVec.ofInt w u).ult (BitVec.ofInt w v)) = decide (u < v) := by
  have hu := read_of_fits hu
  have hv := read_of_fits hv
  cases signed
  · have hu : ((BitVec.ofInt w u).toNat : Int) = u := hu
    have hv : ((BitVec.ofInt w v).toNat : Int) = v := hv
    have hlt : ((BitVec.ofInt w u).toNat : Int) < (BitVec.ofInt w v).toNat ↔ u < v := by
      rw [hu, hv]
    rw [if_neg Bool.false_ne_true, BitVec.ult_eq_decide, decide_eq_decide, ← hlt]
    exact Int.ofNat_lt.symm
  · have hu : (BitVec.ofInt w u).toInt = u := hu
    have hv : (BitVec.ofInt w v).toInt = v := hv
    rw [if_pos rfl, BitVec.slt_eq_decide, hu, hv]

end Words

/-! ### Floating point -/

/-- The binary floating-point formats. -/
inductive FloatFormat where
  | half
  | single
  | double
  deriving DecidableEq

namespace FloatFormat

/-- The wider one of two formats. -/
def max : FloatFormat → FloatFormat → FloatFormat
  | double, _ | _, double => double
  | single, _ | _, single => single
  | half, half => half

@[simp] theorem max_self (f : FloatFormat) : f.max f = f := by cases f <;> rfl

end FloatFormat

/-- The arithmetic of the formats on a carrier `F`, and the functions of one number that compiled
code may call. -/
structure FloatOps (F : Type) where
  add : FloatFormat → F → F → F
  sub : FloatFormat → F → F → F
  mul : FloatFormat → F → F → F
  div : FloatFormat → F → F → F
  rem : FloatFormat → F → F → F
  lt : F → F → Bool
  eq : F → F → Bool
  ofInt : FloatFormat → Int → F
  /-- The integer part. -/
  toInt : F → Int
  /-- From one format to another. -/
  convert : FloatFormat → FloatFormat → F → F
  /-- A number of format `double`, rounded. -/
  round : FloatFormat → Float → F
  /-- The number that a decimal text with enough digits for the format is read as. -/
  decimal : FloatFormat → Float → F
  /-- A function of the C library. -/
  library : String → F → F
  /-- An intrinsic of a format. -/
  intrinsic : FloatFormat → String → F → F
  /-- Both zeros are the positive one. -/
  round_zero : ∀ f, round f 0.0 = ofInt f 0
  /-- A number that is equal to itself is below zero, above it or equal to it. -/
  compare_zero : ∀ f x, eq x x = true →
    (lt x (ofInt f 0) || lt (ofInt f 0) x) = !eq x (ofInt f 0)

/-- On a carrier of one number, which stands for zero. -/
def FloatOps.zero : FloatOps Unit where
  add _ _ _ := ()
  sub _ _ _ := ()
  mul _ _ _ := ()
  div _ _ _ := ()
  rem _ _ _ := ()
  lt _ _ := false
  eq _ _ := true
  ofInt _ _ := ()
  toInt _ := 0
  convert _ _ _ := ()
  round _ _ := ()
  decimal _ _ := ()
  library _ _ := ()
  intrinsic _ _ _ := ()
  round_zero _ := rfl
  compare_zero _ _ _ := rfl

/-- From one format to another, where that is not the same. -/
def FloatOps.to {F : Type} (ops : FloatOps F) (f g : FloatFormat) (x : F) : F :=
  if f = g then x else ops.convert f g x

@[simp] theorem FloatOps.to_self {F : Type} (ops : FloatOps F) (f : FloatFormat) (x : F) :
    ops.to f f x = x := if_pos rfl

/-- A number in a program, as far as its mathematics go. -/
inductive Scalar (F : Type) where
  | int (v : Int)
  | float (x : F)

/-- The integer of a truth value. -/
def Scalar.ofBool {F : Type} (b : Bool) : Scalar F := .int b.toInt

/-- `x` as a number of a format; `f` is its own format, unless it is an integer. -/
def Scalar.toFloat {F : Type} (ops : FloatOps F) (f g : FloatFormat) : Scalar F → F
  | .int v => ops.ofInt g v
  | .float x => ops.to f g x

/-- Differs from zero. -/
def Scalar.truth {F : Type} (ops : FloatOps F) (f : FloatFormat) : Scalar F → Bool
  | .int v => v != 0
  | .float x => !ops.eq x (ops.ofInt f 0)

/-- What variables hold and, as buffers, point to. -/
structure Store (V F : Type) where
  vars : V → Scalar F
  buffers : V → Int → Scalar F

end Kxc.Lib.MachineNumber
