import Kxc.Lib.MachineNumber

/-! Expressions of the language C over arithmetic types: their types, their values where their
behaviour is defined, and the elements of buffers that they read. `int` has 32 bits and
`long long` 64. -/

namespace Kxc.Lib.CLanguage

open MachineNumber

/-- The types of declarations. -/
inductive CTypeName where
  | bool
  | int (f : IntFormat)
  | float (f : FloatFormat)
  | void
  deriving DecidableEq

/-- The types of operands, which are promoted. -/
inductive CType where
  | int (f : IntFormat)
  | float (f : FloatFormat)
  deriving DecidableEq

/-- `int`. -/
def cint : CType := .int ⟨true, 32⟩

/-- The integer promotions. -/
def CTypeName.promote : CTypeName → Option CType
  | .bool => some cint
  | .int f => some (if f.bits < 32 then cint else .int f)
  | .float f => some (.float f)
  | .void => none

namespace CType

/-- The usual arithmetic conversions. -/
def common : CType → CType → CType
  | .int f, .int g => .int (f.common g)
  | .int _, .float g => .float g
  | .float f, .int _ => .float f
  | .float f, .float g => .float (f.max g)

/-- The floating-point format, if it is one. -/
def format : CType → FloatFormat
  | .int _ => .double
  | .float f => f

variable {F : Type} (ops : FloatOps F)

/-- A number of type `s`, converted to `t`, which is not an integer type if `s` is not one. -/
def convert (s t : CType) (x : Scalar F) : Scalar F :=
  match t, x with
  | .int f, .int v => .int (f.wrap v)
  | .int _, .float x => .float x
  | .float f, x => .float (x.toFloat ops s.format f)

end CType

inductive ArithOp where
  | add
  | sub
  | mul
  | div
  | rem
  deriving DecidableEq

inductive RelOp where
  | lt
  | gt
  | eq
  deriving DecidableEq

/-- The result of an integer operation: an overflow is undefined with a sign, and wraps without. -/
def intResult (f : IntFormat) (r : Int) : Option Int :=
  if f.signed then if f.Fits r then some r else none else some (f.wrap r)

namespace ArithOp

def int (f : IntFormat) (u v : Int) : ArithOp → Option Int
  | .add => intResult f (u + v)
  | .sub => intResult f (u - v)
  | .mul => intResult f (u * v)
  | .div => if v = 0 then none else intResult f (u.tdiv v)
  | .rem => if v = 0 ∨ intResult f (u.tdiv v) = none then none else some (u.tmod v)

def float {F : Type} (ops : FloatOps F) (f : FloatFormat) (x y : F) : ArithOp → Option F
  | .add => some (ops.add f x y)
  | .sub => some (ops.sub f x y)
  | .mul => some (ops.mul f x y)
  | .div => some (ops.div f x y)
  | .rem => none

/-- On numbers of type `t`. -/
def apply {F : Type} (ops : FloatOps F) (op : ArithOp) (t : CType) (x y : Scalar F) :
    Option (Scalar F) :=
  match t, x, y with
  | .int f, .int u, .int v => (op.int f u v).map .int
  | .float f, .float x, .float y => (op.float ops f x y).map .float
  | _, _, _ => none

end ArithOp

namespace RelOp

def int (u v : Int) : RelOp → Bool
  | .lt => decide (u < v)
  | .gt => decide (v < u)
  | .eq => decide (u = v)

def float {F : Type} (ops : FloatOps F) (x y : F) : RelOp → Bool
  | .lt => ops.lt x y
  | .gt => ops.lt y x
  | .eq => ops.eq x y

def apply {F : Type} (ops : FloatOps F) (op : RelOp) (x y : Scalar F) : Option (Scalar F) :=
  match x, y with
  | .int u, .int v => some (.ofBool (op.int u v))
  | .float x, .float y => some (.ofBool (op.float ops x y))
  | _, _ => none

end RelOp

/-- Expressions over variables `V`. -/
inductive CExpr (V : Type) where
  /-- A decimal literal, with suffix `LL` or without one. -/
  | lit (n : Nat) (ll : Bool)
  | neg (a : CExpr V)
  /-- A decimal floating-point literal of a format. -/
  | flit (f : FloatFormat) (value : Float)
  /-- `INFINITY` or `(-INFINITY)`. -/
  | infinity (value : Float)
  | ident (v : V)
  | arith (op : ArithOp) (a b : CExpr V)
  | rel (op : RelOp) (a b : CExpr V)
  | land (a b : CExpr V)
  | lor (a b : CExpr V)
  | not (a : CExpr V)
  | cond (c t f : CExpr V)
  | index (v : V) (i : CExpr V)
  | call (name : String) (a : CExpr V)
  /-- A text that is not an arithmetic expression. -/
  | text (s : String)

/-- The functions of one number of the C library, and the format of each. -/
def libraryFormat (name : String) : Option FloatFormat :=
  if name ∈ ["exp", "log", "sqrt", "tanh", "fabs", "floor", "ceil"] then some .double
  else if name ∈ ["expf", "logf", "sqrtf", "tanhf", "fabsf", "floorf", "ceilf"] then some .single
  else none

namespace CExpr

variable {V F : Type}

/-- The type of an expression that is well formed; `typing` declares the variables. -/
def type (typing : V → CTypeName) : CExpr V → Option CType
  | lit n ll =>
    if n < 2 ^ 31 ∧ ll = false then some cint
    else if n < 2 ^ 63 then some (.int ⟨true, 64⟩)
    else none
  | neg a => a.type typing
  | flit f _ => some (.float f)
  | infinity _ => some (.float .single)
  | ident v => (typing v).promote
  | arith op a b =>
    match a.type typing, b.type typing with
    | some s, some t =>
      match s.common t with
      | .int f => some (.int f)
      | .float f => if op = .rem then none else some (.float f)
    | _, _ => none
  | rel _ a b | land a b | lor a b =>
    match a.type typing, b.type typing with
    | some _, some _ => some cint
    | _, _ => none
  | not a => (a.type typing).map fun _ => cint
  | cond c t f =>
    match c.type typing, t.type typing, f.type typing with
    | some _, some t, some f => some (t.common f)
    | _, _, _ => none
  | index v i =>
    match i.type typing with
    | some (.int _) => (typing v).promote
    | _ => none
  | call name a =>
    match a.type typing, libraryFormat name with
    | some _, some f => some (.float f)
    | _, _ => none
  | text _ => none

/-- The type of an expression that has one. -/
def typed (typing : V → CTypeName) (a : CExpr V) : CType := (a.type typing).getD cint

section Types

attribute [local simp] type

variable {typing : V → CTypeName} {a b c : CExpr V} {t : CType}

theorem type_arith {op : ArithOp} (h : (arith op a b).type typing = some t) :
    ∃ s s', a.type typing = some s ∧ b.type typing = some s' ∧ t = s.common s' := by
  rw [type] at h
  split at h
  · rename_i s s' ha hb
    refine ⟨s, s', ha, hb, ?_⟩
    split at h
    · rename_i f hf
      exact (Option.some.inj h).symm.trans hf.symm
    · rename_i f hf
      split at h
      · cases h
      · exact (Option.some.inj h).symm.trans hf.symm
  · cases h

theorem type_rem (h : (arith .rem a b).type typing = some t) : ∃ f, t = .int f := by
  rw [type] at h
  split at h
  · split at h
    · exact ⟨_, (Option.some.inj h).symm⟩
    · cases h
  · cases h

theorem type_rel {op : RelOp} (h : (rel op a b).type typing = some t) :
    ∃ s s', a.type typing = some s ∧ b.type typing = some s' ∧ t = cint := by
  rw [type] at h
  split at h
  · exact ⟨_, _, ‹_›, ‹_›, (Option.some.inj h).symm⟩
  · cases h

theorem type_land (h : (land a b).type typing = some t) :
    ∃ s s', a.type typing = some s ∧ b.type typing = some s' ∧ t = cint :=
  @type_rel V typing a b t .eq h

theorem type_lor (h : (lor a b).type typing = some t) :
    ∃ s s', a.type typing = some s ∧ b.type typing = some s' ∧ t = cint :=
  @type_rel V typing a b t .eq h

theorem type_not (h : (not a).type typing = some t) : ∃ s, a.type typing = some s ∧ t = cint := by
  obtain ⟨s, hs, rfl⟩ := Option.map_eq_some_iff.mp h
  exact ⟨s, hs, rfl⟩

theorem type_cond (h : (cond c a b).type typing = some t) :
    ∃ r s s', c.type typing = some r ∧ a.type typing = some s ∧ b.type typing = some s' ∧
      t = s.common s' := by
  rw [type] at h
  split at h
  · exact ⟨_, _, _, ‹_›, ‹_›, ‹_›, (Option.some.inj h).symm⟩
  · cases h

theorem type_index {v : V} (h : (index v a).type typing = some t) :
    ∃ f, a.type typing = some (.int f) ∧ (typing v).promote = some t := by
  rw [type] at h
  split at h
  · exact ⟨_, ‹_›, h⟩
  · cases h

theorem type_call {name : String} (h : (call name a).type typing = some t) :
    ∃ s f, a.type typing = some s ∧ libraryFormat name = some f ∧ t = .float f := by
  rw [type] at h
  split at h
  · exact ⟨_, _, ‹_›, ‹_›, (Option.some.inj h).symm⟩
  · cases h

theorem typed_eq (h : a.type typing = some t) : a.typed typing = t := by
  rw [typed, h]
  rfl

end Types

variable (ops : FloatOps F) (typing : V → CTypeName) (σ : Store V F)

/-- The value of an expression that has a type, if its behaviour is defined. -/
def eval : CExpr V → Option (Scalar F)
  | lit n _ => some (.int n)
  | neg a =>
    match a.typed typing, a.eval with
    | .int f, some (.int v) => (intResult f (-v)).map .int
    | _, _ => none
  | flit f value => some (.float (ops.decimal f value))
  | infinity value => some (.float (ops.round .single value))
  | ident v => some (σ.vars v)
  | arith op a b =>
    let s := a.typed typing
    let t := b.typed typing
    match a.eval, b.eval with
    | some x, some y =>
      op.apply ops (s.common t) (s.convert ops (s.common t) x) (t.convert ops (s.common t) y)
    | _, _ => none
  | rel op a b =>
    let s := a.typed typing
    let t := b.typed typing
    match a.eval, b.eval with
    | some x, some y =>
      op.apply ops (s.convert ops (s.common t) x) (t.convert ops (s.common t) y)
    | _, _ => none
  | land a b =>
    match a.eval with
    | some x =>
      if x.truth ops (a.typed typing).format then
        b.eval.map fun y => .ofBool (y.truth ops (b.typed typing).format)
      else some (.ofBool false)
    | none => none
  | lor a b =>
    match a.eval with
    | some x =>
      if x.truth ops (a.typed typing).format then some (.ofBool true)
      else b.eval.map fun y => .ofBool (y.truth ops (b.typed typing).format)
    | none => none
  | not a => a.eval.map fun x => .ofBool (!x.truth ops (a.typed typing).format)
  | cond c t f =>
    let s := t.typed typing
    let s' := f.typed typing
    match c.eval with
    | some x =>
      if x.truth ops (c.typed typing).format then t.eval.map (s.convert ops (s.common s'))
      else f.eval.map (s'.convert ops (s.common s'))
    | none => none
  | index v i =>
    match i.eval with
    | some (.int i) => some (σ.buffers v i)
    | _ => none
  | call name a =>
    match libraryFormat name, a.eval with
    | some f, some x => some (.float (ops.library name (x.toFloat ops (a.typed typing).format f)))
    | _, _ => none
  | text _ => none

section Values

attribute [local simp] eval

variable {ops typing σ} {a b c : CExpr V} {x y z : Scalar F}

theorem eval_arith {op : ArithOp} {s t : CType} (hs : a.typed typing = s) (ht : b.typed typing = t)
    (h : (arith op a b).eval ops typing σ = some z) :
    ∃ x y, a.eval ops typing σ = some x ∧ b.eval ops typing σ = some y ∧
      op.apply ops (s.common t) (s.convert ops (s.common t) x) (t.convert ops (s.common t) y) =
        some z := by
  rw [eval, hs, ht] at h
  split at h
  · exact ⟨_, _, ‹_›, ‹_›, h⟩
  · cases h

theorem eval_rel {op : RelOp} {s t : CType} (hs : a.typed typing = s) (ht : b.typed typing = t)
    (h : (rel op a b).eval ops typing σ = some z) :
    ∃ x y, a.eval ops typing σ = some x ∧ b.eval ops typing σ = some y ∧
      op.apply ops (s.convert ops (s.common t) x) (t.convert ops (s.common t) y) = some z := by
  rw [eval, hs, ht] at h
  split at h
  · exact ⟨_, _, ‹_›, ‹_›, h⟩
  · cases h

theorem eval_land {s t : CType} (hs : a.typed typing = s) (ht : b.typed typing = t)
    (h : (land a b).eval ops typing σ = some z) :
    ∃ x, a.eval ops typing σ = some x ∧
      if x.truth ops s.format then
        ∃ y, b.eval ops typing σ = some y ∧ z = .ofBool (y.truth ops t.format)
      else z = .ofBool false := by
  rw [eval, hs, ht] at h
  split at h
  · refine ⟨_, ‹_›, ?_⟩
    split at h
    · rw [if_pos ‹_›]
      obtain ⟨y, hy, rfl⟩ := Option.map_eq_some_iff.mp h
      exact ⟨y, hy, rfl⟩
    · rw [if_neg ‹_›]
      exact (Option.some.inj h).symm
  · cases h

theorem eval_lor {s t : CType} (hs : a.typed typing = s) (ht : b.typed typing = t)
    (h : (lor a b).eval ops typing σ = some z) :
    ∃ x, a.eval ops typing σ = some x ∧
      if x.truth ops s.format then z = .ofBool true
      else ∃ y, b.eval ops typing σ = some y ∧ z = .ofBool (y.truth ops t.format) := by
  rw [eval, hs, ht] at h
  split at h
  · refine ⟨_, ‹_›, ?_⟩
    split at h
    · rw [if_pos ‹_›]
      exact (Option.some.inj h).symm
    · rw [if_neg ‹_›]
      obtain ⟨y, hy, rfl⟩ := Option.map_eq_some_iff.mp h
      exact ⟨y, hy, rfl⟩
  · cases h

theorem eval_not {s : CType} (hs : a.typed typing = s)
    (h : (not a).eval ops typing σ = some z) :
    ∃ x, a.eval ops typing σ = some x ∧ z = .ofBool (!x.truth ops s.format) := by
  rw [eval, hs] at h
  obtain ⟨x, hx, rfl⟩ := Option.map_eq_some_iff.mp h
  exact ⟨x, hx, rfl⟩

theorem eval_cond {r s t : CType} (hr : c.typed typing = r) (hs : a.typed typing = s)
    (ht : b.typed typing = t) (h : (cond c a b).eval ops typing σ = some z) :
    ∃ x, c.eval ops typing σ = some x ∧
      if x.truth ops r.format then
        ∃ y, a.eval ops typing σ = some y ∧ z = s.convert ops (s.common t) y
      else ∃ y, b.eval ops typing σ = some y ∧ z = t.convert ops (s.common t) y := by
  rw [eval, hr, hs, ht] at h
  split at h
  · refine ⟨_, ‹_›, ?_⟩
    split at h
    · rw [if_pos ‹_›]
      obtain ⟨y, hy, rfl⟩ := Option.map_eq_some_iff.mp h
      exact ⟨y, hy, rfl⟩
    · rw [if_neg ‹_›]
      obtain ⟨y, hy, rfl⟩ := Option.map_eq_some_iff.mp h
      exact ⟨y, hy, rfl⟩
  · cases h

theorem eval_index {v : V} (h : (index v a).eval ops typing σ = some z) :
    ∃ i, a.eval ops typing σ = some (.int i) ∧ z = σ.buffers v i := by
  rw [eval] at h
  split at h
  · exact ⟨_, ‹_›, (Option.some.inj h).symm⟩
  · cases h

theorem eval_call {name : String} {s : CType} {f : FloatFormat} (hs : a.typed typing = s)
    (hf : libraryFormat name = some f) (h : (call name a).eval ops typing σ = some z) :
    ∃ x, a.eval ops typing σ = some x ∧
      z = .float (ops.library name (x.toFloat ops s.format f)) := by
  rw [eval, hs, hf] at h
  split at h
  · rename_i hg hx
    obtain rfl := Option.some.inj hg
    exact ⟨_, hx, (Option.some.inj h).symm⟩
  · cases h

end Values

/-- The elements of buffers that are read when an expression is evaluated. -/
def reads : CExpr V → List (V × Int)
  | lit _ _ | flit _ _ | infinity _ | ident _ | text _ => []
  | neg a | not a | call _ a => a.reads
  | arith _ a b | rel _ a b => a.reads ++ b.reads
  | land a b =>
    a.reads ++ match eval ops typing σ a with
      | some x => if x.truth ops (a.typed typing).format then b.reads else []
      | none => []
  | lor a b =>
    a.reads ++ match eval ops typing σ a with
      | some x => if x.truth ops (a.typed typing).format then [] else b.reads
      | none => []
  | cond c t f =>
    c.reads ++ match eval ops typing σ c with
      | some x => if x.truth ops (c.typed typing).format then t.reads else f.reads
      | none => []
  | index v i =>
    i.reads ++ match eval ops typing σ i with
      | some (.int i) => [(v, i)]
      | _ => []

/-- The value of an expression, if it is well formed and its behaviour is defined. -/
def run (a : CExpr V) : Option (Scalar F) :=
  match a.type typing with
  | some _ => a.eval ops typing σ
  | none => none

variable {ops typing σ} in
theorem run_eq_some {a : CExpr V} {c : Scalar F} (h : a.run ops typing σ = some c) :
    ∃ t, a.type typing = some t ∧ a.eval ops typing σ = some c := by
  rw [run] at h
  split at h
  · exact ⟨_, ‹_›, h⟩
  · cases h

end CExpr

end Kxc.Lib.CLanguage
