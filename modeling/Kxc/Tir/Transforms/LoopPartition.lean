import Kxc.Tir.Arithmetic
import Kxc.Tir.Locality

/-! The pass that splits loops by a factor of four (`tir/transforms/loop_partition.cc`). -/

namespace Kxc.Tir.LoopPartition

open Lib Lib.MachineNumber pass_utils

def CanonicalAdd (lhs rhs : PrimExpr) (dtype : DataType) : PrimExpr :=
  if IsConstZero lhs then rhs
  else if IsConstZero rhs then lhs
  else match TryGetConstInt64 lhs, TryGetConstInt64 rhs with
    | some lhs_v, some rhs_v => .IntImm (lhs_v + rhs_v) dtype
    | _, _ => .Binary .Add lhs rhs

/-- The state is the address of the next object. -/
abbrev RewriteM := StateM Nat

/-- `Var(name_hint, dtype)`. -/
def newVar (name_hint : String) (dtype : DataType) : RewriteM Var :=
  fun id => ({ name_hint, dtype, id }, id + 1)

def factor : Int64 := 4

/-- The iterations in groups of `factor`. -/
def mainFor (outer_var inner_var loop_var : Var) (min : PrimExpr) (main_iters : Int64)
    (body : Stmt) : Stmt :=
  let loop_dtype := loop_var.dtype
  let scaled_outer := .Binary .Mul (.Var outer_var) (.IntImm factor loop_dtype)
  let main_base := CanonicalAdd min scaled_outer loop_dtype
  let bound_value := CanonicalAdd main_base (.Var inner_var) loop_dtype
  let inner_body := .LetStmt loop_var bound_value body
  let inner_loop := .For inner_var (.IntImm 0 loop_dtype) (.IntImm factor loop_dtype) .Serial
    inner_body
  .For outer_var (.IntImm 0 loop_dtype) (.IntImm main_iters loop_dtype) .Serial inner_loop

/-- The iterations that are left. -/
def tailFor (tail_var loop_var : Var) (min : PrimExpr) (main_iters tail_iters : Int64)
    (body : Stmt) : Stmt :=
  let loop_dtype := loop_var.dtype
  let tail_base := CanonicalAdd min (.IntImm (main_iters * factor) loop_dtype) loop_dtype
  let bound_value := CanonicalAdd tail_base (.Var tail_var) loop_dtype
  let tail_body := .LetStmt loop_var bound_value body
  .For tail_var (.IntImm 0 loop_dtype) (.IntImm tail_iters loop_dtype) .Serial tail_body

/-- What `LoopPartitionRewriter` does to a loop whose body is rewritten. -/
def LoopPartitionRewriter (rewritten : Stmt) : RewriteM Stmt := do
  match rewritten with
  | .For loop_var min extent .Serial body =>
    if ContainsFor body then return rewritten
    else match TryGetConstInt64 extent with
      | some extent =>
        if extent ≤ 4 then return rewritten
        else
          let main_iters := extent / factor
          let tail_iters := extent % factor
          let loop_dtype := loop_var.dtype
          let main ← if 0 < main_iters then do
              let outer_var ← newVar (loop_var.name_hint ++ "_part_outer") loop_dtype
              let inner_var ← newVar (loop_var.name_hint ++ "_part_inner") loop_dtype
              pure [mainFor outer_var inner_var loop_var min main_iters body]
            else pure []
          let tail ← if 0 < tail_iters then do
              let tail_var ← newVar (loop_var.name_hint ++ "_part_tail") loop_dtype
              pure [tailFor tail_var loop_var min main_iters tail_iters body]
            else pure []
          return MakeSeqStmtOrUnit (main ++ tail)
      | none => return rewritten
  | rewritten => return rewritten

/-- `LoopPartitionPass`, on the body of a function. -/
def LoopPartitionPass (body : Stmt) : RewriteM Stmt :=
  TIRPass.mutateStmt id LoopPartitionRewriter body

/-! ### The values of the loop variable -/

section Values

variable {F : Type} {ops : FloatOps F} {σ : Store Var F} {lhs rhs : PrimExpr} {dtype : DataType}
  {k : Nat} {u v : Int}

theorem IsConstZero_eq_true {e : PrimExpr} (hv : e.integer ops σ = some v)
    (h : IsConstZero e = true) : TryGetConstInt64 e = some 0 := by
  cases e with
  | FloatImm => rw [PrimExpr.integer_FloatImm] at hv; cases hv
  | IntImm value dtype =>
    have hzero := (IsConstZero_IntImm value dtype).mp h
    rw [TryGetConstInt64, hzero]
  | _ => cases h

/-- The sum, where two literals are added in the type of the variable. -/
theorem CanonicalAdd_congruent (hlhs : lhs.Addend ops σ k u) (hrhs : rhs.Congruent ops σ k v)
    (hzero : IsConstZero rhs = false) (hliteral : ∀ x, TryGetConstInt64 lhs = some x →
      x.toInt ≡ u [ZMOD 2 ^ k]) (hsum : ∀ x y, TryGetConstInt64 lhs = some x →
      TryGetConstInt64 rhs = some y → (PrimExpr.IntImm (x + y) dtype).Congruent ops σ k (u + v)) :
    (CanonicalAdd lhs rhs dtype).Congruent ops σ k (u + v) := by
  unfold CanonicalAdd
  split
  · rename_i h
    obtain ⟨r, hr, -⟩ := hlhs.integer
    have hlhs := hliteral 0 (IsConstZero_eq_true (PrimExpr.integer_of_scalar hr) h)
    obtain ⟨n, s, hkn, hs, hsv⟩ := hrhs
    refine ⟨n, s, hkn, hs, hsv.trans ?_⟩
    simpa using hlhs.add_right v
  · rw [hzero, if_neg Bool.false_ne_true]
    split
    · exact hsum _ _ ‹_› ‹_›
    · exact hlhs.add hrhs

/-- The sum with a variable. -/
theorem CanonicalAdd_var (hlhs : lhs.Addend ops σ k u) (hliteral : ∀ x,
      TryGetConstInt64 lhs = some x → x.toInt ≡ u [ZMOD 2 ^ k]) {var : Var}
    (hvar : (PrimExpr.Var var).Congruent ops σ k v) :
    (CanonicalAdd lhs (.Var var) dtype).Congruent ops σ k (u + v) :=
  CanonicalAdd_congruent hlhs hvar rfl hliteral fun _ _ _ h => nomatch h

/-- The literals that a sum is. -/
theorem CanonicalAdd_literal {x : Int64} (h : TryGetConstInt64 (CanonicalAdd lhs rhs dtype) = some x) :
    (IsConstZero lhs = true ∧ TryGetConstInt64 rhs = some x) ∨
    (IsConstZero rhs = true ∧ TryGetConstInt64 lhs = some x) ∨
    ∃ y z, TryGetConstInt64 lhs = some y ∧ TryGetConstInt64 rhs = some z ∧ x = y + z := by
  unfold CanonicalAdd at h
  split at h
  · exact .inl ⟨‹_›, h⟩
  · split at h
    · exact .inr (.inl ⟨‹_›, h⟩)
    · split at h
      · cases h
        exact .inr (.inr ⟨_, _, ‹_›, ‹_›, rfl⟩)
      · cases h

section Bound

variable {min : PrimExpr} {a : Int} (ha : min.integer ops σ = some a) (hmin : min.LiteralFits)
  (hcode : dtype.code = 0 ∨ dtype.code = 1)
include ha hmin hcode

/-- The value that the loops over groups bind. -/
theorem mainFor_value {outer_var inner_var : Var} {o i : Nat}
    (houter : (PrimExpr.Var outer_var).Congruent ops σ dtype.bits.toNat o)
    (hinner : (PrimExpr.Var inner_var).Congruent ops σ dtype.bits.toNat i) :
    (CanonicalAdd (CanonicalAdd min (.Binary .Mul (.Var outer_var) (.IntImm factor dtype)) dtype)
      (.Var inner_var) dtype).Congruent ops σ dtype.bits.toNat (a + (o * 4 + i : Nat)) := by
  have hfactor : (PrimExpr.IntImm factor dtype).Congruent ops σ dtype.bits.toNat 4 :=
    PrimExpr.congruent_literal hcode rfl
  have hbase : (CanonicalAdd min (.Binary .Mul (.Var outer_var) (.IntImm factor dtype))
      dtype).Congruent ops σ dtype.bits.toNat (a + o * 4) := by
    refine CanonicalAdd_congruent (.inl ha) (houter.mul hfactor) rfl (fun x hx => ?_)
      fun _ _ _ h => nomatch h
    rw [PrimExpr.integer_literal hx hmin ha]
  rw [show a + (o * 4 + i : Nat) = a + o * 4 + i by push_cast; ring]
  refine CanonicalAdd_var (.inr hbase) (fun x hx => ?_) hinner
  rcases CanonicalAdd_literal hx with ⟨-, h⟩ | ⟨h, -⟩ | ⟨_, _, -, h, -⟩ <;> cases h

/-- The value that the loop over what is left binds. -/
theorem tailFor_value {tail_var : Var} {main_iters : Int64} {q j : Nat}
    (hbits : dtype.bits.toNat ≤ 64) (hmain : (main_iters * factor).toInt = q * 4) (hq : 0 < q)
    (htail : (PrimExpr.Var tail_var).Congruent ops σ dtype.bits.toNat j) :
    (CanonicalAdd (CanonicalAdd min (.IntImm (main_iters * factor) dtype) dtype) (.Var tail_var)
      dtype).Congruent ops σ dtype.bits.toNat (a + (q * 4 + j : Nat)) := by
  have hmin' (x : Int64) (hx : TryGetConstInt64 min = some x) : x.toInt = a :=
    PrimExpr.integer_literal hx hmin ha
  have hnotZero : IsConstZero (.IntImm (main_iters * factor) dtype) = false := by
    refine Bool.eq_false_iff.mpr fun h => ?_
    have hzero := congrArg Int64.toInt ((IsConstZero_IntImm _ _).mp h)
    rw [hmain, show Int64.toInt 0 = 0 from rfl] at hzero
    omega
  have hbase : (CanonicalAdd min (.IntImm (main_iters * factor) dtype) dtype).Congruent ops σ
      dtype.bits.toNat (a + q * 4) := by
    refine CanonicalAdd_congruent (.inl ha) (PrimExpr.congruent_literal hcode (hmain ▸ rfl))
      hnotZero (fun x hx => by rw [hmin' x hx]) fun x y hx hy => ?_
    cases hy
    rw [← hmin' x hx, ← hmain]
    exact PrimExpr.congruent_sum hcode hbits x _
  rw [show a + (q * 4 + j : Nat) = a + q * 4 + j by push_cast; ring]
  refine CanonicalAdd_var (.inr hbase) (fun x hx => ?_) htail
  rcases CanonicalAdd_literal hx with ⟨h, hx⟩ | ⟨h, -⟩ | ⟨y, z, hy, hz, rfl⟩
  · cases hx
    rw [← hmin' 0 (IsConstZero_eq_true ha h), hmain, show Int64.toInt 0 = 0 from rfl, Int.zero_add]
  · rw [hnotZero] at h
    cases h
  · cases hz
    rw [← hmin' y hy, ← hmain]
    exact PrimExpr.int64_add_modEq y _ hbits

end Bound

end Values

/-! ### Meaning -/

section Meaning

variable {F : Type} {ops : FloatOps F} {contents : Var → Int → Scalar F}

/-- A loop that is split has a variable of 8 to 64 bits, which has a value for each iteration, and a
least value that reads no buffer. Literal bounds are numbers of their types. -/
def PlainIfSplit : Stmt.LoopProperty := fun loop_var min extent for_type body =>
  ∀ n, for_type = .Serial → ContainsFor body = false → TryGetConstInt64 extent = some n → 4 < n →
    (8 ≤ loop_var.dtype.bits.toNat ∧ loop_var.dtype.bits.toNat ≤ 64 ∧
      n.toInt < 2 ^ loop_var.dtype.bits.toNat) ∧
    min.ReadsOnly (fun _ => True) (fun _ => False) ∧ min.LiteralFits ∧ extent.LiteralFits

/-- Is about an object that was there before. -/
def isOld (id : Nat) (e : Event F) : Bool := e.var.id < id

/-- A loop from zero whose variable is not old. -/
theorem newLoop_refines {id : Nat} (var : Var) {dtype : DataType} {n : Int64} {m : Nat} {inner : Stmt}
    {env : Var → Scalar F} {f : Nat → Run F} (hdtype : var.dtype = dtype) (hid : id ≤ var.id)
    (hcode : dtype.code = 0 ∨ dtype.code = 1) (hzero : dtype.intFormat.Fits 0)
    (hfits : dtype.intFormat.Fits n.toInt) (hm : n.toInt = m)
    (h : ∀ i : Nat, Action.Refines (isOld id) (f i)
      (inner.exec ops contents (Function.update env var (dtype.convert (.int i))))) :
    Action.Refines (isOld id) ((List.range m).map f).prod
      (Stmt.exec ops contents env (.For var (.IntImm 0 dtype) (.IntImm n dtype) .Serial inner)) := by
  have hrange (memory : Memory F) : Stmt.loopRange ops ⟨env, memory⟩ var (.IntImm 0 dtype)
      (.IntImm n dtype) = some (0, m) := by
    have hmin := (PrimExpr.integer_IntImm ops ⟨env, memory⟩ hcode 0)
    have hextent := (PrimExpr.integer_IntImm ops ⟨env, memory⟩ hcode n)
    rw [Stmt.loopRange, hmin, hextent, hfits, show Int64.toInt 0 = 0 from rfl, hzero, hdtype, hm]
    exact if_pos hcode
  have hnew (x : Scalar F) : isOld id (.bind var x : Event F) = false :=
    decide_eq_false (Nat.not_lt.mpr hid)
  rw [Stmt.exec, funext hrange]
  refine Action.Refines.prod_map fun i _ => ?_
  rw [hdtype, Int.zero_add]
  exact (h i).emit_mul (hnew _)

/-- The numbers of groups and of iterations that are left. -/
theorem iters_toInt {n : Int64} (h : 4 < n) : ∃ q r : Nat, (n / factor).toInt = q ∧
    (n % factor).toInt = r ∧ (n / factor * factor).toInt = q * 4 ∧ n.toInt = q * 4 + r ∧ 0 < q ∧
      r < 4 := by
  have hlow : 4 < n.toInt := Int64.lt_iff_toInt_lt.mp h
  have hhigh := n.toInt_lt
  have hfactor : factor.toInt = 4 := rfl
  have hdiv : (n / factor).toInt = n.toInt / 4 := by
    rw [Int64.toInt_div, hfactor, Int.tdiv_eq_ediv_of_nonneg (by omega)]
    exact Int.bmod_eq_of_le (by omega) (by omega)
  have hmod : (n % factor).toInt = n.toInt % 4 := by
    rw [Int64.toInt_mod, hfactor, Int.tmod_eq_emod_of_nonneg (by omega)]
  have hmul : (n / factor * factor).toInt = n.toInt / 4 * 4 := by
    rw [Int64.toInt_mul, hdiv, hfactor]
    exact Int.bmod_eq_of_le (by omega) (by omega)
  exact ⟨(n.toInt / 4).toNat, (n.toInt % 4).toNat, by omega, by omega, by omega, by omega, by omega,
    by omega⟩

/-- The body for a value of the variable. -/
def iteration (ops : FloatOps F) (contents : Var → Int → Scalar F) (env : Var → Scalar F)
    (loop_var : Var) (body : Stmt) (v : Int) : Run F :=
  let x := loop_var.dtype.convert (.int v)
  .emit (.bind loop_var x) * body.exec ops contents (Function.update env loop_var x)

section Copies

variable {id : Nat} {env : Var → Scalar F} {loop_var : Var} {min : PrimExpr} {body : Stmt} {a : Int}
  (hcode : loop_var.dtype.code = 0 ∨ loop_var.dtype.code = 1)
  (hmin : min.ReadsOnly (fun v => v.id < id) fun _ => False)
  (ha : ∀ memory, min.integer ops ⟨env, memory⟩ = some a) (hliteral : min.LiteralFits)
  (hbody : body.AllVars fun v => v.id < id)

include hbody in
/-- A copy of the body where new variables are bound besides. -/
theorem exec_copy {env' : Var → Scalar F} (henv : ∀ v, v.id < id → env v = env' v)
    {value : PrimExpr} {v : Int}
    (h : ∀ memory, value.Addend ops ⟨env', memory⟩ loop_var.dtype.bits.toNat v) :
    Stmt.exec ops contents env' (.LetStmt loop_var value body) =
      iteration ops contents env loop_var body v := by
  rw [exec_LetStmt_addend h]
  refine congrArg (Action.emit _ * ·) (Stmt.exec_congr hbody fun w hw => ?_)
  rw [Function.update_apply, Function.update_apply, henv w hw]

include hmin ha in
theorem min_integer {env' : Var → Scalar F} (henv : ∀ v, v.id < id → env v = env' v)
    (memory : Memory F) : min.integer ops ⟨env', memory⟩ = some a :=
  (PrimExpr.integer_congr (fun v hv => (henv v hv).symm) (fun _ h => nomatch h) hmin).trans
    (ha memory)

omit hbody in
theorem small_fits (hbits : 8 ≤ loop_var.dtype.bits.toNat) :
    loop_var.dtype.intFormat.Fits 0 ∧ loop_var.dtype.intFormat.Fits factor.toInt := by
  have hpow : (2 : Int) ^ 8 ≤ 2 ^ loop_var.dtype.intFormat.bits :=
    pow_le_pow_right₀ (by decide) hbits
  have hfactor : factor.toInt = 4 := rfl
  exact ⟨IntFormat.fits_of_two_mul_lt le_rfl (by omega),
    IntFormat.fits_of_two_mul_lt (by omega) (by omega)⟩

include hcode hmin ha hliteral hbody

theorem mainFor_refines (outer_name inner_name : String) {main_iters : Int64} {q : Nat}
    (hbits : 8 ≤ loop_var.dtype.bits.toNat) (hiters : main_iters.toInt = q)
    (hfits : 2 * main_iters.toInt < 2 ^ loop_var.dtype.bits.toNat) :
    Action.Refines (isOld id)
      ((List.range q).map fun o => ((List.range 4).map fun i =>
        iteration ops contents env loop_var body (a + (o * 4 + i : Nat))).prod).prod
      (Stmt.exec ops contents env (mainFor ⟨outer_name, loop_var.dtype, id⟩
        ⟨inner_name, loop_var.dtype, id + 1⟩ loop_var min main_iters body)) := by
  obtain ⟨hzero, hfour⟩ := small_fits hbits
  have hmain : loop_var.dtype.intFormat.Fits main_iters.toInt :=
    IntFormat.fits_of_two_mul_lt (hiters ▸ Int.natCast_nonneg q) hfits
  refine newLoop_refines ⟨outer_name, loop_var.dtype, id⟩ rfl le_rfl hcode hzero hmain hiters
    fun o => ?_
  refine newLoop_refines ⟨inner_name, loop_var.dtype, id + 1⟩ rfl (Nat.le_succ id) hcode hzero hfour
    rfl fun i => ?_
  set env' := Function.update (Function.update env ⟨outer_name, loop_var.dtype, id⟩
    (loop_var.dtype.convert (.int o))) ⟨inner_name, loop_var.dtype, id + 1⟩
    (loop_var.dtype.convert (.int i)) with henv'
  have hneq : (⟨outer_name, loop_var.dtype, id⟩ : Var) ≠ ⟨inner_name, loop_var.dtype, id + 1⟩ :=
    fun h => Nat.succ_ne_self id (congrArg Var.id h).symm
  have houter : env' ⟨outer_name, loop_var.dtype, id⟩ = loop_var.dtype.convert (.int o) := by
    rw [henv', Function.update_of_ne hneq, Function.update_self]
  have hinner : env' ⟨inner_name, loop_var.dtype, id + 1⟩ = loop_var.dtype.convert (.int i) := by
    rw [henv', Function.update_self]
  have henv (v : Var) (hv : v.id < id) : env v = env' v := by
    rw [henv', Function.update_of_ne, Function.update_of_ne]
    · rintro rfl
      exact absurd hv (Nat.lt_irrefl id)
    · rintro rfl
      exact absurd hv (by simp)
  refine .of_eq (exec_copy hbody henv fun memory => ?_).symm
  exact .inr (mainFor_value (min_integer hmin ha henv memory) hliteral hcode
    (PrimExpr.congruent_convert ⟨outer_name, loop_var.dtype, id⟩ hcode houter) (PrimExpr.congruent_convert ⟨inner_name, loop_var.dtype, id + 1⟩ hcode hinner))

theorem tailFor_refines (tail_name : String) {tail_id : Nat} (hid : id ≤ tail_id)
    {main_iters tail_iters : Int64} {q r : Nat}
    (hbits : 8 ≤ loop_var.dtype.bits.toNat ∧ loop_var.dtype.bits.toNat ≤ 64)
    (hmain : (main_iters * factor).toInt = q * 4) (hq : 0 < q)
    (htail : tail_iters.toInt = r ∧ r < 4) :
    Action.Refines (isOld id)
      ((List.range r).map fun j =>
        iteration ops contents env loop_var body (a + (q * 4 + j : Nat))).prod
      (Stmt.exec ops contents env (tailFor ⟨tail_name, loop_var.dtype, tail_id⟩ loop_var min
        main_iters tail_iters body)) := by
  obtain ⟨hzero, hfour⟩ := small_fits hbits.1
  have hfits : loop_var.dtype.intFormat.Fits tail_iters.toInt := by
    have hpow : (2 : Int) ^ 8 ≤ 2 ^ loop_var.dtype.bits.toNat :=
      pow_le_pow_right₀ (by decide) hbits.1
    rw [htail.1]
    exact IntFormat.fits_of_two_mul_lt (Int.natCast_nonneg r)
      (show _ < 2 ^ loop_var.dtype.bits.toNat by omega)
  refine newLoop_refines ⟨tail_name, loop_var.dtype, tail_id⟩ rfl hid hcode hzero hfits htail.1
    fun j => ?_
  set env' := Function.update env ⟨tail_name, loop_var.dtype, tail_id⟩
    (loop_var.dtype.convert (.int j)) with henv'
  have htailVar : env' ⟨tail_name, loop_var.dtype, tail_id⟩ = loop_var.dtype.convert (.int j) := by
    rw [henv', Function.update_self]
  have henv (v : Var) (hv : v.id < id) : env v = env' v := by
    rw [henv', Function.update_of_ne]
    rintro rfl
    exact absurd (hv.trans_le hid) (Nat.lt_irrefl tail_id)
  refine .of_eq (exec_copy hbody henv fun memory => ?_).symm
  exact .inr (tailFor_value (min_integer hmin ha henv memory) hliteral hcode hbits.2 hmain hq
    (PrimExpr.congruent_convert ⟨tail_name, loop_var.dtype, tail_id⟩ hcode htailVar))

end Copies

/-! ### The pass -/

theorem CanonicalAdd_readsOnly {P : Var → Prop} {lhs rhs : PrimExpr} (hlhs : lhs.ReadsOnly P P)
    (hrhs : rhs.ReadsOnly P P) (dtype : DataType) : (CanonicalAdd lhs rhs dtype).ReadsOnly P P := by
  unfold CanonicalAdd
  split
  · exact hrhs
  · split
    · exact hlhs
    · split
      · exact trivial
      · exact ⟨hlhs, hrhs⟩

theorem mainFor_allVars {P : Var → Prop} {outer_var inner_var loop_var : Var} {min : PrimExpr}
    {body : Stmt} (houter : P outer_var) (hinner : P inner_var) (hloop : P loop_var)
    (hmin : min.ReadsOnly P P) (hbody : body.AllVars P) (main_iters : Int64) :
    (mainFor outer_var inner_var loop_var min main_iters body).AllVars P := by
  have hscaled : (PrimExpr.Binary .Mul (.Var outer_var) (.IntImm factor loop_var.dtype)).ReadsOnly
      P P := ⟨houter, trivial⟩
  have hinner' : (PrimExpr.Var inner_var).ReadsOnly P P := hinner
  exact ⟨houter, trivial, trivial, hinner, trivial, trivial, hloop,
    CanonicalAdd_readsOnly (CanonicalAdd_readsOnly hmin hscaled _) hinner' _, hbody⟩

theorem tailFor_allVars {P : Var → Prop} {tail_var loop_var : Var} {min : PrimExpr} {body : Stmt}
    (htail : P tail_var) (hloop : P loop_var) (hmin : min.ReadsOnly P P) (hbody : body.AllVars P)
    (main_iters tail_iters : Int64) :
    (tailFor tail_var loop_var min main_iters tail_iters body).AllVars P := by
  have hstart : (PrimExpr.IntImm (main_iters * factor) loop_var.dtype).ReadsOnly P P := trivial
  have htail' : (PrimExpr.Var tail_var).ReadsOnly P P := htail
  exact ⟨htail, trivial, trivial, hloop,
    CanonicalAdd_readsOnly (CanonicalAdd_readsOnly hmin hstart _) htail' _, hbody⟩

/-- What the pass makes of `s`, where the next object has the address `id`. -/
structure Partitions (ops : FloatOps F) (contents : Var → Int → Scalar F) (old id : Nat) (s : Stmt)
    (r : Stmt × Nat) : Prop where
  le : id ≤ r.2
  allVars : r.1.AllVars fun v => v.id < r.2
  containsFor : ContainsFor s = true → ContainsFor r.1 = true
  refines : Stmt.Refines ops contents (isOld old) s r.1

theorem LoopPartitionRewriter_split {loop_var : Var} {min extent : PrimExpr} {body : Stmt}
    {n : Int64} (hbody : ContainsFor body = false) (hn : TryGetConstInt64 extent = some n)
    (h : 4 < n) (id : Nat) :
    LoopPartitionRewriter (.For loop_var min extent .Serial body) id =
      let main := mainFor ⟨loop_var.name_hint ++ "_part_outer", loop_var.dtype, id⟩
        ⟨loop_var.name_hint ++ "_part_inner", loop_var.dtype, id + 1⟩ loop_var min (n / factor) body
      if 0 < n % factor then
        (.SeqStmt [main, tailFor ⟨loop_var.name_hint ++ "_part_tail", loop_var.dtype, id + 2⟩
          loop_var min (n / factor) (n % factor) body], id + 3)
      else (main, id + 2) := by
  obtain ⟨q, r, hq, -, -, -, hqpos, -⟩ := iters_toInt h
  have hmain : 0 < n / factor := Int64.lt_iff_toInt_lt.mpr (hq ▸ Int.natCast_pos.mpr hqpos)
  unfold LoopPartitionRewriter
  simp only [hbody, hn, Int64.not_le.mpr h, hmain]
  by_cases htail : 0 < n % factor
  · simp only [htail]
    rfl
  · simp only [htail]
    rfl

/-- Other statements are kept. -/
theorem LoopPartitionRewriter_kept {s : Stmt} (h : ¬∃ loop_var min extent body n,
      s = .For loop_var min extent .Serial body ∧ ContainsFor body = false ∧
        TryGetConstInt64 extent = some n ∧ 4 < n) (id : Nat) :
    LoopPartitionRewriter s id = (s, id) := by
  unfold LoopPartitionRewriter
  split
  · rename_i loop_var min extent body
    by_cases hbody : ContainsFor body = true
    · rw [if_pos hbody]
      rfl
    · rw [if_neg hbody]
      cases hn : TryGetConstInt64 extent with
      | none => rfl
      | some n =>
        have hn4 : n ≤ 4 := Int64.not_lt.mp fun hn4 =>
          h ⟨loop_var, min, extent, body, n, rfl, Bool.eq_false_iff.mpr hbody, hn, hn4⟩
        dsimp only
        rw [if_pos hn4]
        rfl
  · rfl

/-- The groups and what is left run the body for the same values in the same order. -/
theorem split_refines (ops : FloatOps F) (contents : Var → Int → Scalar F) {old id : Nat}
    (hold : old ≤ id) {loop_var : Var} {min extent : PrimExpr} {body : Stmt} {n : Int64}
    (hn : TryGetConstInt64 extent = some n) (hn4 : 4 < n)
    (h : (8 ≤ loop_var.dtype.bits.toNat ∧ loop_var.dtype.bits.toNat ≤ 64 ∧
        n.toInt < 2 ^ loop_var.dtype.bits.toNat) ∧
      min.ReadsOnly (fun _ => True) (fun _ => False) ∧ min.LiteralFits ∧ extent.LiteralFits)
    (hmin : min.ReadsOnly (fun v => v.id < id) (fun v => v.id < id))
    (hbody : body.AllVars fun v => v.id < id) (outer_name inner_name tail_name : String)
    (env : Var → Scalar F) :
    Action.Refines (isOld old) (Stmt.exec ops contents env (.For loop_var min extent .Serial body))
      (Stmt.exec ops contents env (mainFor ⟨outer_name, loop_var.dtype, id⟩
          ⟨inner_name, loop_var.dtype, id + 1⟩ loop_var min (n / factor) body) *
        if 0 < n % factor then Stmt.exec ops contents env
          (tailFor ⟨tail_name, loop_var.dtype, id + 2⟩ loop_var min (n / factor) (n % factor) body)
        else 1) := by
  obtain ⟨⟨hlow, hhigh, hlt⟩, hpure, hliteral, hextent⟩ := h
  obtain ⟨q, r, hq, hr, hmul, hsum, hqpos, hr4⟩ := iters_toInt hn4
  have hkeep (e : Event F) (he : isOld old e = true) : isOld id e = true :=
    decide_eq_true ((of_decide_eq_true he).trans_le hold)
  rw [Stmt.exec]
  refine .of_read fun memory p hp => ?_
  obtain ⟨a, m⟩ := p
  obtain ⟨ha, ⟨v, hv, hm⟩, hcode⟩ := loopRange_eq_some hp
  obtain rfl : n.toInt = v := PrimExpr.integer_literal hn hextent hv
  obtain rfl : m = q * 4 + r := by omega
  have hmin' : min.ReadsOnly (fun v => v.id < id) fun _ => False :=
    (hmin.and hpure).mono (fun _ h => h.1) (fun _ h => h.2)
  have ha' (memory' : Memory F) : min.integer ops ⟨env, memory'⟩ = some a :=
    (PrimExpr.integer_memory hpure env memory' memory).trans ha
  refine Action.Refines.trans (.of_eq (Action.prod_range_groups
    (fun k => iteration ops contents env loop_var body (a + (k : Nat))) 4 q r)) (.mul ?_ ?_)
  · exact (mainFor_refines hcode hmin' ha' hliteral hbody outer_name inner_name hlow hq
      (by omega)).mono hkeep
  · split
    · exact (tailFor_refines hcode hmin' ha' hliteral hbody tail_name (Nat.le_add_right id 2)
        ⟨hlow, hhigh⟩ hmul hqpos ⟨hr, hr4⟩).mono hkeep
    · rename_i hzero
      have hzero : (n % factor).toInt ≤ Int64.toInt 0 :=
        Int64.le_iff_toInt_le.mp (Int64.not_lt.mp hzero)
      obtain rfl : r = 0 := by
        rw [hr, show Int64.toInt 0 = 0 from rfl] at hzero
        omega
      exact .refl _

variable {old id : Nat} {s : Stmt}

theorem Partitions.refl (h : s.AllVars fun v => v.id < id) :
    Partitions ops contents old id s (s, id) :=
  ⟨le_rfl, h, fun hs => hs, .refl s⟩

theorem Partitions.trans {r r' : Stmt × Nat} (h : Partitions ops contents old id s r)
    (h' : Partitions ops contents old r.2 r.1 r') : Partitions ops contents old id s r' :=
  ⟨h.le.trans h'.le, h'.allVars, fun hs => h'.containsFor (h.containsFor hs),
    h.refines.trans h'.refines⟩

theorem LoopPartitionRewriter_partitions (hold : old ≤ id) (hvars : s.AllVars fun v => v.id < id)
    (h : s.LoopHas PlainIfSplit) :
    Partitions ops contents old id s (LoopPartitionRewriter s id) := by
  by_cases hsplit : ∃ loop_var min extent body n, s = .For loop_var min extent .Serial body ∧
      ContainsFor body = false ∧ TryGetConstInt64 extent = some n ∧ 4 < n
  · obtain ⟨loop_var, min, extent, body, n, rfl, hbody, hn, hn4⟩ := hsplit
    obtain ⟨hloop, hmin, -, hbodyVars⟩ := hvars
    have hrefines := split_refines ops contents hold hn hn4
      (h n rfl hbody hn hn4) hmin hbodyVars (loop_var.name_hint ++ "_part_outer")
      (loop_var.name_hint ++ "_part_inner") (loop_var.name_hint ++ "_part_tail")
    rw [LoopPartitionRewriter_split hbody hn hn4]
    have hmono {k : Nat} (v : Var) (hv : v.id < id) : v.id < id + k := Nat.lt_add_right k hv
    dsimp only
    split
    · rename_i htail
      refine ⟨Nat.le_add_right id 3, ⟨mainFor_allVars (by simp) (by simp) (hmono _ hloop)
        (hmin.mono hmono hmono) (hbodyVars.mono hmono) _, tailFor_allVars (by simp) (hmono _ hloop)
        (hmin.mono hmono hmono) (hbodyVars.mono hmono) _ _, trivial⟩, fun _ => rfl, fun env => ?_⟩
      have henv := hrefines env
      rw [if_pos htail] at henv
      rw [Stmt.exec_SeqStmt]
      simpa using henv
    · rename_i htail
      refine ⟨Nat.le_add_right id 2, mainFor_allVars (by simp) (by simp) (hmono _ hloop)
        (hmin.mono hmono hmono) (hbodyVars.mono hmono) _, fun _ => rfl, fun env => ?_⟩
      have henv := hrefines env
      rwa [if_neg htail, mul_one] at henv
  · rw [LoopPartitionRewriter_kept hsplit]
    exact .refl hvars

/-- A statement is partitioned after its parts are. -/
theorem Partitions.rewrite {s' : Stmt} {id' : Nat} (hold : old ≤ id)
    (h : Partitions ops contents old id s (s', id')) (hs : s'.LoopHas PlainIfSplit) :
    Partitions ops contents old id s (LoopPartitionRewriter s' id') :=
  h.trans (LoopPartitionRewriter_partitions (hold.trans h.le) h.allVars hs)

/-- The members of a sequence, one after another. -/
theorem mutateStmts_partitions {seq : List Stmt} (hvars : ∀ s ∈ seq, s.AllVars fun v => v.id < id)
    (hold : old ≤ id)
    (ih : ∀ s ∈ seq, ∀ id, old ≤ id → (s.AllVars fun v => v.id < id) →
      Partitions ops contents old id s (LoopPartitionPass s id)) :
    Partitions ops contents old id (.SeqStmt seq)
      (.SeqStmt (TIRPass.mutateStmts (fun e => e) LoopPartitionRewriter seq id).1,
        (TIRPass.mutateStmts (fun e => e) LoopPartitionRewriter seq id).2) := by
  induction seq generalizing id with
  | nil => exact .refl trivial
  | cons s seq ihseq =>
    have hs := ih s List.mem_cons_self id hold (hvars s List.mem_cons_self)
    have hseq := ihseq
      (fun t ht => (hvars t (List.mem_cons_of_mem s ht)).mono fun v hv => hv.trans_le hs.le)
      (hold.trans hs.le) fun t ht => ih t (List.mem_cons_of_mem s ht)
    refine ⟨hs.le.trans hseq.le,
      ⟨hs.allVars.mono fun v hv => hv.trans_le hseq.le, hseq.allVars⟩, fun h => ?_, fun env => ?_⟩
    · rcases Bool.or_eq_true_iff.mp h with h | h
      · exact Bool.or_eq_true_iff.mpr (.inl (hs.containsFor h))
      · exact Bool.or_eq_true_iff.mpr (.inr (hseq.containsFor h))
    · have henv := (hs.refines env).mul (hseq.refines env)
      rw [Stmt.exec_SeqStmt, Stmt.exec_SeqStmt] at henv ⊢
      exact henv

theorem LoopPartitionPass_partitions (hold : old ≤ id) (hvars : s.AllVars fun v => v.id < id)
    (h : s.AllLoops PlainIfSplit) :
    Partitions ops contents old id s (LoopPartitionPass s id) := by
  have hmono {id id' : Nat} (hle : id ≤ id') {e : PrimExpr}
      (he : e.ReadsOnly (fun v => v.id < id) (fun v => v.id < id)) :
      e.ReadsOnly (fun v => v.id < id') (fun v => v.id < id') :=
    he.mono (fun _ hv => hv.trans_le hle) (fun _ hv => hv.trans_le hle)
  induction s using Stmt.induction generalizing id with
  | undefined => exact .refl trivial
  | Store buffer_var value index predicate =>
    show Partitions ops contents old id _
      (LoopPartitionRewriter (.Store buffer_var value index (predicate.map fun e => e)) id)
    rw [show predicate.map (fun e => e) = predicate from congrFun Option.map_id predicate]
    exact .refl hvars
  | Evaluate value => exact .refl hvars
  | LetStmt var value body ih =>
    have hbody := ih hold hvars.2.2 h
    exact ⟨hbody.le, ⟨hvars.1.trans_le hbody.le, hmono hbody.le hvars.2.1, hbody.allVars⟩,
      hbody.containsFor, hbody.refines.letStmt var value⟩
  | For loop_var min extent for_type body ih =>
    have hbody := ih hold hvars.2.2.2 h.2
    have hloop : Partitions ops contents old id (.For loop_var min extent for_type body)
        (.For loop_var min extent for_type (LoopPartitionPass body id).1,
          (LoopPartitionPass body id).2) :=
      ⟨hbody.le, ⟨hvars.1.trans_le hbody.le, hmono hbody.le hvars.2.1, hmono hbody.le hvars.2.2.1,
        hbody.allVars⟩, fun _ => rfl, hbody.refines.forStmt loop_var min extent for_type for_type⟩
    refine hloop.rewrite hold fun n htype hnone => h.1 n htype ?_
    exact Bool.eq_false_iff.mpr fun hfor => Bool.eq_false_iff.mp hnone (hbody.containsFor hfor)
  | IfThenElse condition then_case else_case ih ih' =>
    have hthen := ih hold hvars.2.1 h.1
    have helse := ih' (hold.trans hthen.le)
      (hvars.2.2.mono fun v hv => hv.trans_le hthen.le) h.2
    refine ⟨hthen.le.trans helse.le, ⟨hmono (hthen.le.trans helse.le) hvars.1,
      hthen.allVars.mono fun v hv => hv.trans_le helse.le, helse.allVars⟩, fun hfor => ?_,
      hthen.refines.ifThenElse helse.refines condition⟩
    rcases Bool.or_eq_true_iff.mp hfor with hfor | hfor
    · exact Bool.or_eq_true_iff.mpr (.inl (hthen.containsFor hfor))
    · exact Bool.or_eq_true_iff.mpr (.inr (helse.containsFor hfor))
  | Allocate buffer_var dtype extents condition body ih =>
    have hbody := ih hold hvars.2.2.2 h
    show Partitions ops contents old id _
      (.Allocate buffer_var dtype (extents.map fun e => e) condition (LoopPartitionPass body id).1,
        (LoopPartitionPass body id).2)
    rw [show extents.map (fun e => e) = extents from List.map_id extents]
    exact ⟨hbody.le, ⟨hvars.1.trans_le hbody.le, fun e he => hmono hbody.le (hvars.2.1 e he),
      hmono hbody.le hvars.2.2.1, hbody.allVars⟩, hbody.containsFor,
      hbody.refines.allocate buffer_var dtype extents condition⟩
  | AttrStmt attr_key value body ih =>
    have hbody := ih hold hvars.2 h
    exact ⟨hbody.le, ⟨hmono hbody.le hvars.1, hbody.allVars⟩, hbody.containsFor,
      hbody.refines.attrStmt attr_key value⟩
  | Block name_hint body init ih ih' =>
    have hbody := ih hold hvars.1 h.1
    have hinit := ih' (hold.trans hbody.le) (hvars.2.mono fun v hv => hv.trans_le hbody.le) h.2
    refine ⟨hbody.le.trans hinit.le, ⟨hbody.allVars.mono fun v hv => hv.trans_le hinit.le,
      hinit.allVars⟩, fun hfor => ?_, hbody.refines.block hinit.refines name_hint⟩
    rcases Bool.or_eq_true_iff.mp hfor with hfor | hfor
    · exact Bool.or_eq_true_iff.mpr (.inl (hinit.containsFor hfor))
    · exact Bool.or_eq_true_iff.mpr (.inr (hbody.containsFor hfor))
  | SeqStmt seq ih =>
    exact mutateStmts_partitions (Stmt.allVarsList_iff.mp hvars) hold fun s hs id hold hvars =>
      ih s hs hold hvars (Stmt.allLoopsList_iff.mp h s hs)

/-- The pass keeps the memory that a statement leaves and its events, the values that its variables
are bound to and the stores. The other events bind new objects. -/
theorem LoopPartitionPass_correct (ops : FloatOps F) (contents : Var → Int → Scalar F) {s : Stmt}
    {id : Nat} (hvars : s.AllVars fun v => v.id < id) (h : s.AllLoops PlainIfSplit)
    (env : Var → Scalar F) (memory memory' : Memory F) (t : List (Event F))
    (hs : s.exec ops contents env memory = some (memory', t)) :
    ∃ t', (LoopPartitionPass s id).1.exec ops contents env memory = some (memory', t') ∧
      t'.filter (isOld id) = t := by
  obtain ⟨t', hs', ht⟩ := (LoopPartitionPass_partitions le_rfl hvars h).refines env memory memory' t hs
  refine ⟨t', hs', ht.trans (List.filter_eq_self.mpr fun e he => ?_)⟩
  exact decide_eq_true (Stmt.exec_makes hvars env memory memory' t hs e he)

end Meaning

/-- Five sums, from the value of `n` on. -/
def bindFive : Stmt :=
  .For ⟨"i", .Int 32, 0⟩ (.Var ⟨"n", .Int 32, 0⟩) (.IntImm 5 (.Int 64)) .Serial
    (.Evaluate (.Binary .Add (.Var ⟨"i", .Int 32, 0⟩) (.IntImm 1 (.Int 32))))

theorem bindFive_split :
    ∃ t', (LoopPartitionPass bindFive 1).1.exec FloatOps.zero (fun _ _ => .int 0)
        (fun _ => .int 5) (fun _ _ => .int 0) = some (fun _ _ => .int 0, t') ∧
      t'.filter (isOld 1) = [5, 6, 7, 8, 9].map fun v => .bind ⟨"i", .Int 32, 0⟩ (.int v) := by
  have hplain : bindFive.AllLoops PlainIfSplit := by
    have hextent : (PrimExpr.IntImm 5 (.Int 64)).LiteralFits := by
      intro value hvalue
      cases hvalue
      decide
    refine ⟨fun n _ _ hn _ => ⟨?_, trivial, nofun, hextent⟩, trivial⟩
    cases hn
    decide
  have hvars : bindFive.AllVars fun v => v.id < 1 :=
    ⟨Nat.one_pos, Nat.one_pos, trivial, Nat.one_pos, trivial⟩
  exact LoopPartitionPass_correct FloatOps.zero (fun _ _ => .int 0) hvars hplain _ _ _ _ rfl

end Kxc.Tir.LoopPartition
