import Kxc.Tir.Expr

/-! Statements (`tir/stmt.h`). -/

namespace Kxc.Tir

inductive ForType where
  | Serial
  | Parallel
  | Vectorized
  | Unrolled
  deriving DecidableEq

/-- `Stmt`, without the iteration variables and regions of a `Block`, which no pass on statements
reads, and the node that an `AttrStmt` is about. -/
inductive Stmt where
  /-- `Stmt()`, which is not defined. -/
  | undefined
  | LetStmt (var : Var) (value : PrimExpr) (body : Stmt)
  | Store (buffer_var : Var) (value index : PrimExpr) (predicate : Option PrimExpr)
  | For (loop_var : Var) (min extent : PrimExpr) (for_type : ForType) (body : Stmt)
  | IfThenElse (condition : PrimExpr) (then_case else_case : Stmt)
  | Allocate (buffer_var : Var) (dtype : DataType) (extents : List PrimExpr) (condition : PrimExpr)
    (body : Stmt)
  | AttrStmt (attr_key : String) (value : PrimExpr) (body : Stmt)
  | Block (name_hint : String) (body init : Stmt)
  | SeqStmt (seq : List Stmt)
  | Evaluate (value : PrimExpr)

/-- Induction with a hypothesis for the members of a sequence. -/
@[elab_as_elim]
theorem Stmt.induction {P : Stmt → Prop} (undefined : P .undefined)
    (LetStmt : ∀ var value body, P body → P (.LetStmt var value body))
    (Store : ∀ buffer_var value index predicate, P (.Store buffer_var value index predicate))
    (For : ∀ loop_var min extent for_type body, P body →
      P (.For loop_var min extent for_type body))
    (IfThenElse : ∀ condition then_case else_case, P then_case → P else_case →
      P (.IfThenElse condition then_case else_case))
    (Allocate : ∀ buffer_var dtype extents condition body, P body →
      P (.Allocate buffer_var dtype extents condition body))
    (AttrStmt : ∀ attr_key value body, P body → P (.AttrStmt attr_key value body))
    (Block : ∀ name_hint body init, P body → P init → P (.Block name_hint body init))
    (SeqStmt : ∀ seq, (∀ s ∈ seq, P s) → P (.SeqStmt seq))
    (Evaluate : ∀ value, P (.Evaluate value)) (s : Stmt) : P s :=
  @Stmt.rec P (fun seq => ∀ s ∈ seq, P s) undefined LetStmt Store For IfThenElse Allocate AttrStmt
    Block SeqStmt Evaluate (fun _ h => nomatch h)
    (fun _ _ hs hseq _ ht => (List.mem_cons.mp ht).elim (fun h => h ▸ hs) (hseq _)) s

namespace Stmt

/-- A property of the loop over a body. -/
abbrev LoopProperty := Var → PrimExpr → PrimExpr → ForType → Stmt → Prop

/-- Has the property if it is a loop. -/
def LoopHas (P : LoopProperty) : Stmt → Prop
  | .For loop_var min extent for_type body => P loop_var min extent for_type body
  | _ => True

mutual

/-- Every loop in a statement has the property. -/
def AllLoops (P : LoopProperty) : Stmt → Prop
  | .undefined | .Store _ _ _ _ | .Evaluate _ => True
  | .LetStmt _ _ body | .Allocate _ _ _ _ body | .AttrStmt _ _ body => AllLoops P body
  | .For loop_var min extent for_type body => P loop_var min extent for_type body ∧ AllLoops P body
  | .IfThenElse _ then_case else_case => AllLoops P then_case ∧ AllLoops P else_case
  | .Block _ body init => AllLoops P body ∧ AllLoops P init
  | .SeqStmt seq => AllLoopsList P seq

def AllLoopsList (P : LoopProperty) : List Stmt → Prop
  | [] => True
  | s :: seq => AllLoops P s ∧ AllLoopsList P seq

end

theorem allLoopsList_iff {P : LoopProperty} {seq : List Stmt} :
    AllLoopsList P seq ↔ ∀ s ∈ seq, AllLoops P s := by
  induction seq with
  | nil => exact iff_of_true trivial (fun _ h => nomatch h)
  | cons s seq ih => rw [AllLoopsList, ih, List.forall_mem_cons]

theorem allLoops_true (s : Stmt) : s.AllLoops fun _ _ _ _ _ => True := by
  induction s using Stmt.induction with
  | undefined | Store | Evaluate => exact trivial
  | LetStmt _ _ _ ih | Allocate _ _ _ _ _ ih | AttrStmt _ _ _ ih => exact ih
  | For _ _ _ _ _ ih => exact ⟨trivial, ih⟩
  | IfThenElse _ _ _ ih ih' | Block _ _ _ ih ih' => exact ⟨ih, ih'⟩
  | SeqStmt seq ih => exact allLoopsList_iff.mpr ih

mutual

/-- Every variable that a statement binds, reads or stores to satisfies `P`. -/
def AllVars (P : Var → Prop) : Stmt → Prop
  | .undefined => True
  | .LetStmt var value body => P var ∧ value.ReadsOnly P P ∧ AllVars P body
  | .Store buffer_var value index predicate => P buffer_var ∧ value.ReadsOnly P P ∧
    index.ReadsOnly P P ∧ ∀ e ∈ predicate, e.ReadsOnly P P
  | .For loop_var min extent _ body =>
    P loop_var ∧ min.ReadsOnly P P ∧ extent.ReadsOnly P P ∧ AllVars P body
  | .IfThenElse condition then_case else_case =>
    condition.ReadsOnly P P ∧ AllVars P then_case ∧ AllVars P else_case
  | .Allocate buffer_var _ extents condition body => P buffer_var ∧
    (∀ e ∈ extents, e.ReadsOnly P P) ∧ condition.ReadsOnly P P ∧ AllVars P body
  | .AttrStmt _ value body => value.ReadsOnly P P ∧ AllVars P body
  | .Block _ body init => AllVars P body ∧ AllVars P init
  | .SeqStmt seq => AllVarsList P seq
  | .Evaluate value => value.ReadsOnly P P

def AllVarsList (P : Var → Prop) : List Stmt → Prop
  | [] => True
  | s :: seq => AllVars P s ∧ AllVarsList P seq

end

theorem allVarsList_iff {P : Var → Prop} {seq : List Stmt} :
    AllVarsList P seq ↔ ∀ s ∈ seq, AllVars P s := by
  induction seq with
  | nil => exact iff_of_true trivial (fun _ h => nomatch h)
  | cons s seq ih => rw [AllVarsList, ih, List.forall_mem_cons]

theorem AllVars.mono {P P' : Var → Prop} (hP : ∀ v, P v → P' v) {s : Stmt} (h : s.AllVars P) :
    s.AllVars P' := by
  have hexpr {e : PrimExpr} (he : e.ReadsOnly P P) : e.ReadsOnly P' P' := he.mono hP hP
  induction s using Stmt.induction with
  | undefined => exact trivial
  | LetStmt _ _ _ ih => exact ⟨hP _ h.1, hexpr h.2.1, ih h.2.2⟩
  | Store =>
    exact ⟨hP _ h.1, hexpr h.2.1, hexpr h.2.2.1, fun e he => hexpr (h.2.2.2 e he)⟩
  | For _ _ _ _ _ ih => exact ⟨hP _ h.1, hexpr h.2.1, hexpr h.2.2.1, ih h.2.2.2⟩
  | IfThenElse _ _ _ ih ih' => exact ⟨hexpr h.1, ih h.2.1, ih' h.2.2⟩
  | Allocate _ _ _ _ _ ih =>
    exact ⟨hP _ h.1, fun e he => hexpr (h.2.1 e he), hexpr h.2.2.1, ih h.2.2.2⟩
  | AttrStmt _ _ _ ih => exact ⟨hexpr h.1, ih h.2⟩
  | Block _ _ _ ih ih' => exact ⟨ih h.1, ih' h.2⟩
  | SeqStmt seq ih => exact allVarsList_iff.mpr fun s hs => ih s hs (allVarsList_iff.mp h s hs)
  | Evaluate => exact hexpr h

end Stmt

end Kxc.Tir
