import Kxc.Tir.Arithmetic
import Kxc.Tir.Locality
import Kxc.Tir.Refinement

/-! The pass that unrolls short loops (`tir/transforms/unroll_loop.cc`). -/

namespace Kxc.Tir.UnrollLoop

open Lib Lib.MachineNumber pass_utils

def BuildUnrolledIterValue (min : PrimExpr) (step : Int64) (dtype : DataType) : PrimExpr :=
  if step = 0 then min
  else match TryGetConstInt64 min with
    | some min_value => .IntImm (min_value + step) dtype
    | none =>
      if IsConstZero min then .IntImm step dtype else .Binary .Add min (.IntImm step dtype)

/-- What `UnrollLoopRewriter` does to a loop whose body is rewritten. -/
def UnrollLoopRewriter (rewritten : Stmt) : Id Stmt :=
  match rewritten with
  | .For loop_var min extent .Serial body =>
    match TryGetConstInt64 extent with
    | some extent =>
      if extent < 0 ∨ 8 < extent then rewritten
      else if extent = 0 then .undefined
      else MakeSeqStmtOrUnit ((List.range extent.toInt.toNat).map fun i =>
        .LetStmt loop_var (BuildUnrolledIterValue min (.ofNat i) loop_var.dtype) body)
    | none => rewritten
  | rewritten => rewritten

/-- `UnrollLoopPass`, on the body of a function. -/
def UnrollLoopPass (body : Stmt) : Stmt := TIRPass.mutateStmt id UnrollLoopRewriter body

/-! ### Meaning -/

/-- A loop that is unrolled has a variable of 64 bits or less, and a least value that reads no buffer.
Literal bounds are numbers of their types. -/
def PlainIfUnrolled (loop_var : Var) (min extent : PrimExpr) (for_type : ForType) : Prop :=
  ∀ n, for_type = .Serial → TryGetConstInt64 extent = some n → 0 ≤ n ∧ n ≤ 8 →
    loop_var.dtype.bits.toNat ≤ 64 ∧ min.ReadsOnly (fun _ => True) (fun _ => False) ∧
      min.LiteralFits ∧ extent.LiteralFits

variable {F : Type} {ops : FloatOps F} {contents : Var → Int → Scalar F} {keep : Event F → Bool}

/-- The value of a copy is that of the iteration, modulo the type of the variable. -/
theorem BuildUnrolledIterValue_addend {σ : Store Var F} {min : PrimExpr} {a : Int}
    (ha : min.integer ops σ = some a) (hmin : min.LiteralFits) {dtype : DataType}
    (hcode : dtype.code = 0 ∨ dtype.code = 1) (hbits : dtype.bits.toNat ≤ 64) {k : Nat}
    (hk : k < 2 ^ 63) :
    (BuildUnrolledIterValue min (.ofNat k) dtype).Addend ops σ dtype.bits.toNat (a + k) := by
  have hstep : (Int64.ofNat k).toInt = k := Int64.toInt_ofNat_of_lt hk
  unfold BuildUnrolledIterValue
  split
  · rename_i h
    rw [h] at hstep
    have hk : k = 0 := Int.ofNat_eq_zero.mp hstep.symm
    rw [hk, Nat.cast_zero, Int.add_zero]
    exact .inl ha
  · split
    · rename_i min_value hliteral
      rw [← hstep, ← PrimExpr.integer_literal hliteral hmin ha]
      exact .inr (PrimExpr.congruent_sum hcode hbits _ _)
    · split
      · rename_i hnone hzero
        cases min with
        | FloatImm => rw [PrimExpr.integer_FloatImm] at ha; cases ha
        | IntImm => cases hnone
        | _ => cases hzero
      · have ha : min.Addend ops σ dtype.bits.toNat a := .inl ha
        exact .inr (ha.add (PrimExpr.congruent_literal hcode (hstep ▸ rfl)))

/-- The copies run the body for the values of the iterations. -/
theorem unrolled_exec {env : Var → Scalar F} {loop_var : Var} {min : PrimExpr} {a : Int}
    (ha : ∀ memory, min.integer ops ⟨env, memory⟩ = some a) (hmin : min.LiteralFits)
    (hcode : loop_var.dtype.code = 0 ∨ loop_var.dtype.code = 1)
    (hbits : loop_var.dtype.bits.toNat ≤ 64) (body : Stmt) {n : Nat} (hn : n ≤ 2 ^ 63) :
    (((List.range n).map fun i => Stmt.LetStmt loop_var
      (BuildUnrolledIterValue min (.ofNat i) loop_var.dtype) body).map
        (Stmt.exec ops contents env)).prod =
      ((List.range n).map fun (k : Nat) =>
        let x := loop_var.dtype.convert (.int (a + k))
        .emit (.bind loop_var x) *
          Stmt.exec ops contents (Function.update env loop_var x) body).prod := by
  rw [List.map_map]
  refine congrArg List.prod (List.map_congr_left fun k hk => ?_)
  have hk : k < 2 ^ 63 := (List.mem_range.mp hk).trans_le hn
  exact exec_LetStmt_addend (fun memory =>
    BuildUnrolledIterValue_addend (ha memory) hmin hcode hbits hk) body

theorem UnrollLoopRewriter_refines {s : Stmt}
    (h : s.LoopHas fun loop_var min extent for_type _ =>
      PlainIfUnrolled loop_var min extent for_type) :
    Stmt.Refines ops contents keep s (UnrollLoopRewriter s) := by
  unfold UnrollLoopRewriter
  split
  · rename_i loop_var min extent body
    split
    · rename_i n hn
      split
      · exact .refl _
      · rename_i hrange
        obtain ⟨hbits, hpure, hmin, hextent⟩ := h n rfl hn (by grind)
        intro env
        rw [Stmt.exec]
        refine .of_read fun memory p hp => ?_
        obtain ⟨a, m⟩ := p
        obtain ⟨ha, ⟨v, hv, hm⟩, hcode⟩ := loopRange_eq_some hp
        obtain rfl : n.toInt = v := PrimExpr.integer_literal hn hextent hv
        dsimp only
        split
        · rename_i hzero
          obtain rfl : m = 0 := by rw [← hm, hzero]; rfl
          rw [Stmt.exec_undefined]
          exact .refl _
        · have ha' (memory' : Memory F) : min.integer ops ⟨env, memory'⟩ = some a :=
            (PrimExpr.integer_memory hpure env memory' memory).trans ha
          have hm63 : m ≤ 2 ^ 63 := by
            have := n.toInt_lt
            omega
          rw [hm, ← unrolled_exec ha' hmin hcode hbits body hm63, Stmt.exec_MakeSeqStmtOrUnit]
          exact Stmt.appendMembers_refines fun s _ => Stmt.AppendFlattenedStmt_refines env s
    · exact .refl _
  · exact .refl _

/-- The pass keeps the memory that a statement leaves and its events: the values that each variable is
bound to, and the stores. -/
theorem UnrollLoopPass_correct (ops : FloatOps F) (contents : Var → Int → Scalar F) {s : Stmt}
    (h : s.AllLoops fun loop_var min extent for_type _ =>
      PlainIfUnrolled loop_var min extent for_type)
    (env : Var → Scalar F) (memory memory' : Memory F) (t : List (Event F))
    (hs : s.exec ops contents env memory = some (memory', t)) :
    (UnrollLoopPass s).exec ops contents env memory = some (memory', t) := by
  have hrefines : Stmt.Refines ops contents (fun _ => true) s (UnrollLoopPass s) :=
    Stmt.mutateStmt_refines (fun _ => UnrollLoopRewriter_refines) h
  obtain ⟨t', hs', ht⟩ := hrefines env memory memory' t hs
  rw [List.filter_true, List.filter_true] at ht
  rw [hs', ht]

/-- Two stores, from the value of `n` on. -/
def storeFrom : Stmt :=
  .For ⟨"i", .Int 32, 0⟩ (.Var ⟨"n", .Int 32, 0⟩) (.IntImm 2 (.Int 64)) .Serial
    (.Store ⟨"x", .Int 32, 0⟩ (.IntImm 7 (.Int 32)) (.Var ⟨"i", .Int 32, 0⟩) none)

example : UnrollLoopPass storeFrom = .SeqStmt
    [.LetStmt ⟨"i", .Int 32, 0⟩ (.Var ⟨"n", .Int 32, 0⟩)
      (.Store ⟨"x", .Int 32, 0⟩ (.IntImm 7 (.Int 32)) (.Var ⟨"i", .Int 32, 0⟩) none),
    .LetStmt ⟨"i", .Int 32, 0⟩ (.Binary .Add (.Var ⟨"n", .Int 32, 0⟩) (.IntImm 1 (.Int 32)))
      (.Store ⟨"x", .Int 32, 0⟩ (.IntImm 7 (.Int 32)) (.Var ⟨"i", .Int 32, 0⟩) none)] := by rfl

theorem storeFrom_unrolled :
    (UnrollLoopPass storeFrom).exec FloatOps.zero (fun _ _ => .int 0) (fun _ => .int 5)
        (fun _ _ => .int 0) =
      some (Memory.store (Memory.store (fun _ _ => .int 0) ⟨"x", .Int 32, 0⟩ 5 (.int 7))
          ⟨"x", .Int 32, 0⟩ 6 (.int 7),
        [.bind ⟨"i", .Int 32, 0⟩ (.int 5), .store ⟨"x", .Int 32, 0⟩ 5 (.int 7),
          .bind ⟨"i", .Int 32, 0⟩ (.int 6), .store ⟨"x", .Int 32, 0⟩ 6 (.int 7)]) := by
  have hplain : storeFrom.AllLoops fun loop_var min extent for_type _ =>
      PlainIfUnrolled loop_var min extent for_type := by
    have hextent : (PrimExpr.IntImm 2 (.Int 64)).LiteralFits := by
      intro value hvalue
      cases hvalue
      decide
    exact ⟨fun n _ _ _ => ⟨by decide, trivial, nofun, hextent⟩, trivial⟩
  exact UnrollLoopPass_correct FloatOps.zero (fun _ _ => .int 0) hplain _ _ _ _ rfl

end Kxc.Tir.UnrollLoop
