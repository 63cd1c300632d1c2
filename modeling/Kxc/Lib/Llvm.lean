import Kxc.Lib.MachineNumber

/-! Values of LLVM: each is a constant, an argument or the instruction that computes it. An
instruction runs in the block of the one that uses it, but for the two sides of a `phi`, which
stand for the blocks of a diamond. -/

namespace Kxc.Lib.Llvm

open MachineNumber

inductive LLVMType where
  | int (bits : Nat)
  | float (f : FloatFormat)
  | ptr
  | void
  deriving DecidableEq

inductive IntOp where
  | add
  | sub
  | mul
  | sdiv
  | udiv
  | srem
  | urem
  | and
  | or
  deriving DecidableEq

inductive IntPred where
  | eq
  | ne
  | slt
  | ult
  | sgt
  | ugt
  deriving DecidableEq

inductive FloatOp where
  | fadd
  | fsub
  | fmul
  | fdiv
  | frem
  deriving DecidableEq

inductive FloatPred where
  | oeq
  | one
  | olt
  | ogt
  deriving DecidableEq

/-- The casts of the builder. -/
inductive CastOp where
  | sextOrTrunc
  | zextOrTrunc
  | siToFP
  | uiToFP
  | fpToSI
  | fpToUI
  | fpExt
  | fpTrunc
  deriving DecidableEq

/-- Values over arguments `V`. -/
inductive LLVMValue (V : Type) where
  | const (bits : Nat) (x : BitVec bits)
  | fconst (f : FloatFormat) (value : Float)
  | arg (v : V) (type : LLVMType)
  | int (op : IntOp) (a b : LLVMValue V)
  | icmp (p : IntPred) (a b : LLVMValue V)
  | float (op : FloatOp) (a b : LLVMValue V)
  | fcmp (p : FloatPred) (a b : LLVMValue V)
  | not (a : LLVMValue V)
  | select (c a b : LLVMValue V)
  | cast (op : CastOp) (type : LLVMType) (a : LLVMValue V)
  /-- The element of a buffer of `type`, at the address that `getelementptr` computes. -/
  | load (type : LLVMType) (v : V) (index : LLVMValue V)
  | call (intrinsic : String) (type : LLVMType) (a : LLVMValue V)
  /-- Branches on `c`, to the block that computes `a` or to the one that computes `b`. -/
  | phi (type : LLVMType) (c a b : LLVMValue V)

/-- What a value is when the code runs. -/
inductive Word (F : Type) where
  | int (bits : Nat) (x : BitVec bits)
  | float (x : F)

/-- A truth value. -/
def Word.ofBool {F : Type} (b : Bool) : Word F := .int 1 (BitVec.ofBool b)

/-- Is the word of `true`, or another one that is not zero. -/
def Word.truth {F : Type} : Word F → Bool
  | .int _ x => x != 0
  | .float _ => false

/-- The word of a number that a variable or an element of a buffer holds. -/
def Word.ofScalar {F : Type} : LLVMType → Scalar F → Option (Word F)
  | .int bits, .int v => some (.int bits (BitVec.ofInt bits v))
  | .float _, .float x => some (.float x)
  | _, _ => none

/-- Division of signed words is undefined by zero and when the quotient overflows. -/
def sdivUndefined {bits : Nat} (x y : BitVec bits) : Prop :=
  y = 0 ∨ ¬IntFormat.Fits ⟨true, bits⟩ (x.toInt.tdiv y.toInt)

instance {bits : Nat} (x y : BitVec bits) : Decidable (sdivUndefined x y) :=
  inferInstanceAs (Decidable (_ ∨ _))

def IntOp.apply {bits : Nat} (x y : BitVec bits) : IntOp → Option (BitVec bits)
  | .add => some (x + y)
  | .sub => some (x - y)
  | .mul => some (x * y)
  | .sdiv => if sdivUndefined x y then none else some (x.sdiv y)
  | .udiv => if y = 0 then none else some (x / y)
  | .srem => if sdivUndefined x y then none else some (x.srem y)
  | .urem => if y = 0 then none else some (x % y)
  | .and => some (x &&& y)
  | .or => some (x ||| y)

def IntPred.apply {bits : Nat} (x y : BitVec bits) : IntPred → Bool
  | .eq => x == y
  | .ne => x != y
  | .slt => x.slt y
  | .ult => x.ult y
  | .sgt => y.slt x
  | .ugt => y.ult x

def FloatOp.apply {F : Type} (ops : FloatOps F) (f : FloatFormat) (x y : F) : FloatOp → F
  | .fadd => ops.add f x y
  | .fsub => ops.sub f x y
  | .fmul => ops.mul f x y
  | .fdiv => ops.div f x y
  | .frem => ops.rem f x y

def FloatPred.apply {F : Type} (ops : FloatOps F) (x y : F) : FloatPred → Bool
  | .oeq => ops.eq x y
  | .one => ops.lt x y || ops.lt y x
  | .olt => ops.lt x y
  | .ogt => ops.lt y x

/-- A word of type `s`, cast to `t`. -/
def CastOp.apply {F : Type} (ops : FloatOps F) (s t : LLVMType) (op : CastOp) (x : Word F) :
    Option (Word F) :=
  match op, s, t, x with
  | .sextOrTrunc, _, .int bits, .int _ x => some (.int bits (x.signExtend bits))
  | .zextOrTrunc, _, .int bits, .int _ x => some (.int bits (x.setWidth bits))
  | .siToFP, _, .float f, .int _ x => some (.float (ops.ofInt f x.toInt))
  | .uiToFP, _, .float f, .int _ x => some (.float (ops.ofInt f x.toNat))
  | .fpToSI, _, .int bits, .float x | .fpToUI, _, .int bits, .float x =>
    some (.int bits (BitVec.ofInt bits (ops.toInt x)))
  | .fpExt, .float f, .float g, .float x | .fpTrunc, .float f, .float g, .float x =>
    some (.float (ops.to f g x))
  | _, _, _, _ => none

namespace LLVMValue

variable {V F : Type}

def type : LLVMValue V → LLVMType
  | const bits _ => .int bits
  | fconst f _ => .float f
  | arg _ type | cast _ type _ | load type _ _ | call _ type _ | phi type _ _ _ => type
  | int _ a _ | float _ a _ | not a | select _ a _ => a.type
  | icmp _ _ _ | fcmp _ _ _ => .int 1

variable (ops : FloatOps F) (σ : Store V F)

/-- What a value is, if the instructions that compute it are defined. -/
def eval : LLVMValue V → Option (Word F)
  | const bits x => some (.int bits x)
  | fconst f value => some (.float (ops.round f value))
  | arg v type => Word.ofScalar type (σ.vars v)
  | int op a b =>
    match a.eval, b.eval with
    | some (.int bits x), some (.int _ y) => (op.apply x (y.setWidth bits)).map (.int bits)
    | _, _ => none
  | icmp p a b =>
    match a.eval, b.eval with
    | some (.int bits x), some (.int _ y) => some (.ofBool (p.apply x (y.setWidth bits)))
    | _, _ => none
  | float op a b =>
    match a.type, a.eval, b.eval with
    | .float f, some (.float x), some (.float y) => some (.float (op.apply ops f x y))
    | _, _, _ => none
  | fcmp p a b =>
    match a.eval, b.eval with
    | some (.float x), some (.float y) => some (.ofBool (p.apply ops x y))
    | _, _ => none
  | not a =>
    match a.eval with
    | some (.int bits x) => some (.int bits (~~~x))
    | _ => none
  | select c a b =>
    match c.eval, a.eval, b.eval with
    | some c, some a, some b => some (if c.truth then a else b)
    | _, _, _ => none
  | cast op type a => a.eval.bind (op.apply ops a.type type)
  | load type v index =>
    match index.eval with
    | some (.int _ i) => Word.ofScalar type (σ.buffers v i.toInt)
    | _ => none
  | call intrinsic type a =>
    match type, a.eval with
    | .float f, some (.float x) => some (.float (ops.intrinsic f intrinsic x))
    | _, _ => none
  | phi _ c a b =>
    match c.eval with
    | some c => if c.truth then a.eval else b.eval
    | none => none

example : (const 1 1 : LLVMValue V).eval ops σ = some (.int 1 1) := by simp only [eval]

section Words

variable {ops σ} {A B C : LLVMValue V} {n : Nat} {x y : BitVec n}

theorem eval_int (hA : A.eval ops σ = some (.int n x)) (hB : B.eval ops σ = some (.int n y))
    (op : IntOp) : (int op A B).eval ops σ = (op.apply x y).map (.int n) := by
  simp only [eval, hA, hB, BitVec.setWidth_eq]

theorem eval_icmp (hA : A.eval ops σ = some (.int n x)) (hB : B.eval ops σ = some (.int n y))
    (p : IntPred) : (icmp p A B).eval ops σ = some (.ofBool (p.apply x y)) := by
  simp only [eval, hA, hB, BitVec.setWidth_eq]

theorem eval_fcmp {x y : F} (hA : A.eval ops σ = some (.float x))
    (hB : B.eval ops σ = some (.float y)) (p : FloatPred) :
    (fcmp p A B).eval ops σ = some (.ofBool (p.apply ops x y)) := by
  simp only [eval, hA, hB]

theorem eval_call {x : F} (hA : A.eval ops σ = some (.float x)) (intrinsic : String)
    (f : FloatFormat) :
    (call intrinsic (.float f) A).eval ops σ = some (.float (ops.intrinsic f intrinsic x)) := by
  simp only [eval, hA]

theorem eval_not {b : Bool} (hA : A.eval ops σ = some (.ofBool b)) :
    (not A).eval ops σ = some (.ofBool (!b)) := by
  rw [eval, hA]
  cases b <;> rfl

theorem eval_and {a b : Bool} (hA : A.eval ops σ = some (.ofBool a))
    (hB : B.eval ops σ = some (.ofBool b)) :
    (int .and A B).eval ops σ = some (.ofBool (a && b)) := by
  rw [eval_int hA hB]
  cases a <;> cases b <;> rfl

theorem eval_or {a b : Bool} (hA : A.eval ops σ = some (.ofBool a))
    (hB : B.eval ops σ = some (.ofBool b)) :
    (int .or A B).eval ops σ = some (.ofBool (a || b)) := by
  rw [eval_int hA hB]
  cases a <;> cases b <;> rfl

theorem eval_select {b : Bool} {v w : Word F} (hC : C.eval ops σ = some (.ofBool b))
    (hA : A.eval ops σ = some v) (hB : B.eval ops σ = some w) :
    (select C A B).eval ops σ = some (if b then v else w) := by
  rw [eval, hC, hA, hB]
  cases b <;> rfl

theorem eval_phi {b : Bool} {t : LLVMType} (hC : C.eval ops σ = some (.ofBool b)) :
    (phi t C A B).eval ops σ = if b then A.eval ops σ else B.eval ops σ := by
  rw [eval, hC]
  cases b <;> rfl

end Words

/-- The elements of buffers that the code reads. -/
def reads : LLVMValue V → List (V × Int)
  | const _ _ | fconst _ _ | arg _ _ => []
  | not a | cast _ _ a | call _ _ a => a.reads
  | int _ a b | icmp _ a b | float _ a b | fcmp _ a b => a.reads ++ b.reads
  | select c a b => c.reads ++ a.reads ++ b.reads
  | load _ v index =>
    index.reads ++ match eval ops σ index with
      | some (.int _ i) => [(v, i.toInt)]
      | _ => []
  | phi _ c a b =>
    c.reads ++ match eval ops σ c with
      | some c => if c.truth then a.reads else b.reads
      | none => []

/-! ### Values of integer type -/

section Integers

variable {V F : Type} {ops : FloatOps F}

/-- `A` has `n` bits, as its words have. -/
structure IsInt (ops : FloatOps F) (n : Nat) (A : LLVMValue V) : Prop where
  type_eq : A.type = .int n
  word : ∀ σ w, A.eval ops σ = some w → ∃ x : BitVec n, w = .int n x

namespace IsInt

variable {A B C : LLVMValue V} {m n : Nat}

theorem const (x : BitVec n) : IsInt ops n (const n x : LLVMValue V) :=
  ⟨rfl, fun _ _ h => ⟨x, (Option.some.inj h).symm⟩⟩

theorem ofScalar {x : Scalar F} {w : Word F} (h : Word.ofScalar (.int n) x = some w) :
    ∃ y : BitVec n, w = .int n y := by
  cases x <;> cases h
  exact ⟨_, rfl⟩

theorem arg (v : V) : IsInt ops n (arg v (.int n)) := ⟨rfl, fun _ _ h => ofScalar h⟩

theorem load (A : LLVMValue V) (v : V) : IsInt ops n (load (.int n) v A) := by
  refine ⟨rfl, fun σ w h => ?_⟩
  rw [eval] at h
  split at h
  · exact ofScalar h
  · cases h

/-- Two words, and the bits of the first. -/
theorem words (hA : IsInt ops n A) (hB : IsInt ops n B) {σ : Store V F}
    {f : (k : Nat) → BitVec k → BitVec k → Option (Word F)} {w : Word F}
    (h : (match A.eval ops σ, B.eval ops σ with
      | some (.int bits x), some (.int _ y) => f bits x (y.setWidth bits)
      | _, _ => none) = some w) :
    ∃ x y : BitVec n, A.eval ops σ = some (.int n x) ∧ B.eval ops σ = some (.int n y) ∧
      f n x y = some w := by
  cases hx : A.eval ops σ with
  | none => simp [hx] at h
  | some u =>
    cases hy : B.eval ops σ with
    | none => simp [hx, hy] at h
    | some v =>
      obtain ⟨x, rfl⟩ := hA.word σ u hx
      obtain ⟨y, rfl⟩ := hB.word σ v hy
      simp only [hx, hy, BitVec.setWidth_eq] at h
      exact ⟨x, y, rfl, rfl, h⟩

theorem int (hA : IsInt ops n A) (hB : IsInt ops n B) (op : IntOp) :
    IsInt ops n (int op A B) := by
  refine ⟨hA.type_eq, fun σ w h => ?_⟩
  obtain ⟨x, y, -, -, h⟩ := hA.words hB (f := fun k x y => (op.apply x y).map (.int k)) h
  obtain ⟨z, -, rfl⟩ := Option.map_eq_some_iff.mp h
  exact ⟨z, rfl⟩

theorem icmp (hA : IsInt ops n A) (hB : IsInt ops n B) (p : IntPred) :
    IsInt ops 1 (icmp p A B) := by
  refine ⟨rfl, fun σ w h => ?_⟩
  obtain ⟨x, y, -, -, h⟩ := hA.words hB (f := fun _ x y => some (.ofBool (p.apply x y))) h
  exact ⟨_, (Option.some.inj h).symm⟩

theorem not (hA : IsInt ops n A) : IsInt ops n (not A) := by
  refine ⟨hA.type_eq, fun σ w h => ?_⟩
  rw [eval] at h
  cases hx : A.eval ops σ with
  | none => simp [hx] at h
  | some u =>
    obtain ⟨x, rfl⟩ := hA.word σ u hx
    rw [hx] at h
    exact ⟨_, (Option.some.inj h).symm⟩

theorem select (C : LLVMValue V) (hA : IsInt ops n A) (hB : IsInt ops n B) :
    IsInt ops n (select C A B) := by
  refine ⟨hA.type_eq, fun σ w h => ?_⟩
  rw [eval] at h
  split at h
  · rename_i c a b _ ha hb
    cases h
    split
    · exact hA.word σ a ha
    · exact hB.word σ b hb
  · cases h

theorem phi (C : LLVMValue V) (hA : IsInt ops n A) (hB : IsInt ops n B) :
    IsInt ops n (phi (.int n) C A B) := by
  refine ⟨rfl, fun σ w h => ?_⟩
  rw [eval] at h
  split at h
  · split at h
    · exact hA.word σ w h
    · exact hB.word σ w h
  · cases h

/-- An integer that is extended, or truncated. -/
theorem cast (hA : IsInt ops m A) (n : Nat) (signed : Bool) :
    IsInt ops n (cast (if signed then .sextOrTrunc else .zextOrTrunc) (.int n) A) := by
  refine ⟨rfl, fun σ w h => ?_⟩
  rw [eval] at h
  obtain ⟨u, hu, h⟩ := Option.bind_eq_some_iff.mp h
  obtain ⟨x, rfl⟩ := hA.word σ u hu
  cases signed <;> exact ⟨_, (Option.some.inj h).symm⟩

end IsInt

end Integers

/-! ### Values that instructions are closed under -/

section Closed

variable {V F : Type}

/-- A property that constants have, and instructions on values that have it; the two values that a
`select` or a `phi` chooses from are of one type, but for those of no type. -/
structure Closed (R : LLVMValue V → Prop) : Prop where
  const : ∀ n x, R (const n x)
  fconst : ∀ f x, R (fconst f x)
  int : ∀ op A B, R A → R B → R (int op A B)
  icmp : ∀ p A B, R A → R B → R (icmp p A B)
  float : ∀ op A B, R A → R B → R (float op A B)
  fcmp : ∀ p A B, R A → R B → R (fcmp p A B)
  not : ∀ A, R A → R (not A)
  select : ∀ C A B, R C → R A → R B → A.type = B.type ∨ A.type = .void → R (select C A B)
  cast : ∀ op t A, R A → R (cast op t A)
  call : ∀ i t A, R A → R (call i t A)
  phi : ∀ t C A B, R C → R A → R B → A.type = t → B.type = t → R (phi t C A B)

/-- A word of the type. -/
def OfType : LLVMType → Word F → Prop
  | .int n, w => ∃ x : BitVec n, w = .int n x
  | .float _, w => ∃ x, w = .float x
  | _, _ => False

theorem ofType_ofScalar {t : LLVMType} {x : Scalar F} {w : Word F}
    (h : Word.ofScalar t x = some w) : OfType t w := by
  cases t <;> cases x <;> cases h <;> exact ⟨_, rfl⟩

/-- What a value is has its type. -/
def Typed (ops : FloatOps F) (A : LLVMValue V) : Prop :=
  ∀ σ w, A.eval ops σ = some w → OfType A.type w

theorem typed_arg (ops : FloatOps F) (v : V) (t : LLVMType) : Typed ops (arg v t) :=
  fun _ _ h => ofType_ofScalar h

theorem typed_load (ops : FloatOps F) (v : V) (t : LLVMType) (A : LLVMValue V) :
    Typed ops (load t v A) := by
  intro σ w h
  rw [eval] at h
  split at h
  · exact ofType_ofScalar h
  · cases h

theorem typed_closed (ops : FloatOps F) : Closed (Typed ops : LLVMValue V → Prop) where
  const _ _ _ _ h := ⟨_, (Option.some.inj h).symm⟩
  fconst _ _ _ _ h := ⟨_, (Option.some.inj h).symm⟩
  int op A B hA _ σ w h := by
    rw [eval] at h
    split at h
    · rename_i x _ _ hx _
      have htype := hA σ _ hx
      obtain ⟨z, -, rfl⟩ := Option.map_eq_some_iff.mp h
      rw [type]
      cases ht : A.type <;> rw [ht] at htype <;> obtain ⟨_, hw⟩ := htype <;> cases hw
      exact ⟨z, rfl⟩
    · cases h
  icmp _ _ _ _ _ σ w h := by
    rw [eval] at h
    split at h
    · exact ⟨_, (Option.some.inj h).symm⟩
    · cases h
  float _ _ _ _ _ σ w h := by
    rw [eval] at h
    split at h
    · rename_i ht _ _
      rw [type, ht]
      exact ⟨_, (Option.some.inj h).symm⟩
    · cases h
  fcmp _ _ _ _ _ σ w h := by
    rw [eval] at h
    split at h
    · exact ⟨_, (Option.some.inj h).symm⟩
    · cases h
  not A hA σ w h := by
    rw [eval] at h
    split at h
    · rename_i hx
      have htype := hA σ _ hx
      cases h
      rw [type]
      cases ht : A.type <;> rw [ht] at htype <;> obtain ⟨_, hw⟩ := htype <;> cases hw
      exact ⟨_, rfl⟩
    · cases h
  select C A B _ hA hB htype σ w h := by
    rw [eval] at h
    split at h
    · rename_i ha hb
      cases h
      rw [type]
      rcases htype with htype | htype
      · split
        · exact hA σ _ ha
        · exact htype ▸ hB σ _ hb
      · exact absurd (hA σ _ ha) (htype ▸ id)
    · cases h
  cast op t A _ σ w h := by
    rw [eval] at h
    obtain ⟨x, -, h⟩ := Option.bind_eq_some_iff.mp h
    rw [type]
    unfold CastOp.apply at h
    split at h <;> cases h <;> exact ⟨_, rfl⟩
  call _ _ _ _ σ w h := by
    unfold eval at h
    split at h
    · exact ⟨_, (Option.some.inj h).symm⟩
    · cases h
  phi t C A B _ hA hB hAt hBt σ w h := by
    rw [eval] at h
    split at h
    · split at h
      · exact hAt ▸ hA σ w h
      · exact hBt ▸ hB σ w h
    · cases h

/-- All arguments satisfy `P` and all buffers `Q`. -/
def ReadsOnly (P Q : V → Prop) : LLVMValue V → Prop
  | const _ _ | fconst _ _ => True
  | arg v _ => P v
  | not a | cast _ _ a | call _ _ a => ReadsOnly P Q a
  | int _ a b | icmp _ a b | float _ a b | fcmp _ a b => ReadsOnly P Q a ∧ ReadsOnly P Q b
  | select c a b | phi _ c a b => ReadsOnly P Q c ∧ ReadsOnly P Q a ∧ ReadsOnly P Q b
  | load _ v index => Q v ∧ ReadsOnly P Q index

theorem readsOnly_closed (P Q : V → Prop) : Closed (ReadsOnly P Q) where
  const _ _ := trivial
  fconst _ _ := trivial
  int _ _ _ hA hB := ⟨hA, hB⟩
  icmp _ _ _ hA hB := ⟨hA, hB⟩
  float _ _ _ hA hB := ⟨hA, hB⟩
  fcmp _ _ _ hA hB := ⟨hA, hB⟩
  not _ hA := hA
  select _ _ _ hC hA hB _ := ⟨hC, hA, hB⟩
  cast _ _ _ hA := hA
  call _ _ _ hA := hA
  phi _ _ _ _ hC hA hB _ _ := ⟨hC, hA, hB⟩

/-- A value depends on the arguments and buffers that it reads. -/
theorem eval_congr {ops : FloatOps F} {P Q : V → Prop} {σ σ' : Store V F}
    (hvars : ∀ v, P v → σ.vars v = σ'.vars v) (hbuffers : ∀ v, Q v → σ.buffers v = σ'.buffers v)
    {A : LLVMValue V} (h : ReadsOnly P Q A) : A.eval ops σ = A.eval ops σ' := by
  induction A with
  | const | fconst => rfl
  | arg v t => rw [eval, eval, hvars v h]
  | int op a b iha ihb => rw [eval, eval, iha h.1, ihb h.2]
  | icmp p a b iha ihb => rw [eval, eval, iha h.1, ihb h.2]
  | float op a b iha ihb => rw [eval, eval, iha h.1, ihb h.2]
  | fcmp p a b iha ihb => rw [eval, eval, iha h.1, ihb h.2]
  | not a ih => rw [eval, eval, ih h]
  | cast op t a ih => rw [eval, eval, ih h]
  | call i t a ih => simp only [eval, ih h]
  | select c a b ihc iha ihb => rw [eval, eval, ihc h.1, iha h.2.1, ihb h.2.2]
  | phi t c a b ihc iha ihb => rw [eval, eval, ihc h.1, iha h.2.1, ihb h.2.2]
  | load t v index ih => rw [eval, eval, ih h.2, hbuffers v h.1]

end Closed

/-! ### Refinement -/

section Refinement

variable {V F : Type} {ops : FloatOps F}

/-- `B` has the type of `A`, and its value wherever `A` has one. -/
structure Refines (ops : FloatOps F) (A B : LLVMValue V) : Prop where
  type_eq : B.type = A.type
  eval_eq : ∀ σ w, A.eval ops σ = some w → B.eval ops σ = some w

namespace Refines

variable {A A' B B' C C' : LLVMValue V}

theorem refl (A : LLVMValue V) : Refines ops A A := ⟨rfl, fun _ _ h => h⟩

theorem trans (h : Refines ops A B) (h' : Refines ops B C) : Refines ops A C :=
  ⟨h'.type_eq.trans h.type_eq, fun σ w hA => h'.eval_eq σ w (h.eval_eq σ w hA)⟩

/-- A value that is refined is undefined, or the same. -/
theorem none_or_eq (h : Refines ops A B) (σ : Store V F) :
    A.eval ops σ = none ∨ B.eval ops σ = A.eval ops σ := by
  cases hA : A.eval ops σ with
  | none => exact .inl rfl
  | some w => exact .inr (h.eval_eq σ w hA)

theorem int (hA : Refines ops A A') (hB : Refines ops B B') (op : IntOp) :
    Refines ops (int op A B) (int op A' B') := by
  refine ⟨hA.type_eq, fun σ w h => ?_⟩
  simp only [eval] at h ⊢
  rcases hA.none_or_eq σ with hx | hx
  · simp [hx] at h
  rcases hB.none_or_eq σ with hy | hy
  · simp [hy] at h
  rwa [hx, hy]

theorem icmp (hA : Refines ops A A') (hB : Refines ops B B') (p : IntPred) :
    Refines ops (icmp p A B) (icmp p A' B') := by
  refine ⟨rfl, fun σ w h => ?_⟩
  simp only [eval] at h ⊢
  rcases hA.none_or_eq σ with hx | hx
  · simp [hx] at h
  rcases hB.none_or_eq σ with hy | hy
  · simp [hy] at h
  rwa [hx, hy]

theorem float (hA : Refines ops A A') (hB : Refines ops B B') (op : FloatOp) :
    Refines ops (float op A B) (float op A' B') := by
  refine ⟨hA.type_eq, fun σ w h => ?_⟩
  simp only [eval, hA.type_eq] at h ⊢
  rcases hA.none_or_eq σ with hx | hx
  · simp [hx] at h
  rcases hB.none_or_eq σ with hy | hy
  · simp [hy] at h
  rwa [hx, hy]

theorem fcmp (hA : Refines ops A A') (hB : Refines ops B B') (p : FloatPred) :
    Refines ops (fcmp p A B) (fcmp p A' B') := by
  refine ⟨rfl, fun σ w h => ?_⟩
  simp only [eval] at h ⊢
  rcases hA.none_or_eq σ with hx | hx
  · simp [hx] at h
  rcases hB.none_or_eq σ with hy | hy
  · simp [hy] at h
  rwa [hx, hy]

theorem not (hA : Refines ops A A') : Refines ops (not A) (not A') := by
  refine ⟨hA.type_eq, fun σ w h => ?_⟩
  simp only [eval] at h ⊢
  rcases hA.none_or_eq σ with hx | hx
  · simp [hx] at h
  rwa [hx]

theorem select (hC : Refines ops C C') (hA : Refines ops A A') (hB : Refines ops B B') :
    Refines ops (select C A B) (select C' A' B') := by
  refine ⟨hA.type_eq, fun σ w h => ?_⟩
  simp only [eval] at h ⊢
  rcases hC.none_or_eq σ with hc | hc
  · simp [hc] at h
  rcases hA.none_or_eq σ with hx | hx
  · simp [hx] at h
  rcases hB.none_or_eq σ with hy | hy
  · simp [hy] at h
  rwa [hc, hx, hy]

theorem cast (hA : Refines ops A A') (op : CastOp) (type : LLVMType) :
    Refines ops (cast op type A) (cast op type A') := by
  refine ⟨rfl, fun σ w h => ?_⟩
  simp only [eval, hA.type_eq] at h ⊢
  rcases hA.none_or_eq σ with hx | hx
  · simp [hx] at h
  rwa [hx]

theorem load (hA : Refines ops A A') (type : LLVMType) (v : V) :
    Refines ops (load type v A) (load type v A') := by
  refine ⟨rfl, fun σ w h => ?_⟩
  simp only [eval] at h ⊢
  rcases hA.none_or_eq σ with hx | hx
  · simp [hx] at h
  rwa [hx]

theorem call (hA : Refines ops A A') (intrinsic : String) (type : LLVMType) :
    Refines ops (call intrinsic type A) (call intrinsic type A') := by
  refine ⟨rfl, fun σ w h => ?_⟩
  simp only [eval] at h ⊢
  rcases hA.none_or_eq σ with hx | hx
  · rw [hx] at h
    cases type <;> cases h
  rwa [hx]

/-- Only the side that is chosen has to be defined. -/
theorem phi (hC : Refines ops C C') (hA : Refines ops A A') (hB : Refines ops B B')
    (type : LLVMType) : Refines ops (phi type C A B) (phi type C' A' B') := by
  refine ⟨rfl, fun σ w h => ?_⟩
  simp only [eval] at h ⊢
  rcases hC.none_or_eq σ with hc | hc
  · simp [hc] at h
  rw [hc]
  cases hword : C.eval ops σ with
  | none => simp [hword] at h
  | some c =>
    rw [hword] at h
    dsimp only at h ⊢
    split at h
    · rw [if_pos ‹_›, hA.eval_eq σ w h]
    · rw [if_neg ‹_›, hB.eval_eq σ w h]

end Refines

end Refinement

end LLVMValue

end Kxc.Lib.Llvm
