import Kxc.Tir.Refinement

/-! The pass that removes statements that do nothing (`tir/transforms/remove_no_op.cc`). -/

namespace Kxc.Tir.RemoveNoOp

open Lib Lib.MachineNumber pass_utils

/-- What the visitors of `RemoveNoOpRewriter` do to a statement whose parts are rewritten. -/
def RemoveNoOpRewriter (rewritten : Stmt) : Id Stmt :=
  match rewritten with
  | .Evaluate value => if IsConstZero value then .undefined else rewritten
  | .SeqStmt seq => MakeSeqStmtOrUnit (seq.flatMap AppendFlattenedStmt)
  | .For _ _ _ _ body => if IsNoOpStmt body then .undefined else rewritten
  | rewritten => rewritten

/-- `RemoveNoOpPass`, on the body of a function. -/
def RemoveNoOpPass (body : Stmt) : Stmt := TIRPass.mutateStmt id RemoveNoOpRewriter body

/-! ### Meaning -/

section Meaning

variable {F : Type} {ops : FloatOps F} {contents : Var → Int → Scalar F}

/-- Is what a run does to the memory. -/
def isStore : Event F → Bool
  | .store _ _ _ => true
  | .bind _ _ => false

theorem MakeSeqStmtOrUnit_refines {keep : Event F → Bool} (seq : List Stmt) :
    Stmt.Refines ops contents keep (.SeqStmt seq)
      (MakeSeqStmtOrUnit (seq.flatMap AppendFlattenedStmt)) := by
  intro env
  rw [Stmt.exec_SeqStmt, Stmt.exec_MakeSeqStmtOrUnit, ← AppendFlattenedStmts_eq]
  exact (Stmt.appendMembers_refines fun s _ => Stmt.AppendFlattenedStmt_refines env s).trans
    (Stmt.appendMembers_refines fun s _ => Stmt.AppendFlattenedStmt_refines env s)

/-- A loop over a body that does nothing only binds its variable. -/
theorem emptyLoop_refines {body : Stmt} (h : IsNoOpStmt body = true) (loop_var : Var)
    (min extent : PrimExpr) (for_type : ForType) :
    Stmt.Refines ops contents isStore (.For loop_var min extent for_type body) .undefined := by
  intro env
  rw [Stmt.exec, Stmt.exec]
  refine .of_read fun _ p _ => .prod_one fun k _ => .mul_one (.emit_one rfl) ?_
  rw [← Stmt.exec_undefined ops contents]
  exact Stmt.noOp_refines h _

theorem RemoveNoOpRewriter_refines (s : Stmt) :
    Stmt.Refines ops contents isStore s (RemoveNoOpRewriter s) := by
  cases s with
  | Evaluate value =>
    rw [RemoveNoOpRewriter]
    split
    · exact Stmt.noOp_refines ‹_›
    · exact .refl _
  | SeqStmt seq => exact MakeSeqStmtOrUnit_refines seq
  | For loop_var min extent for_type body =>
    rw [RemoveNoOpRewriter]
    split
    · exact emptyLoop_refines ‹_› loop_var min extent for_type
    · exact .refl _
  | _ => exact .refl _

end Meaning

/-! ### Normal form -/

def isSeqStmt : Stmt → Bool
  | .SeqStmt _ => true
  | _ => false

mutual

/-- No zero is evaluated, no loop is over a body that does nothing, and a sequence has two members or
more, none of which is a sequence or does nothing. -/
def NormalForm : Stmt → Prop
  | .undefined | .Store _ _ _ _ => True
  | .Evaluate value => IsConstZero value = false
  | .LetStmt _ _ body | .Allocate _ _ _ _ body | .AttrStmt _ _ body => NormalForm body
  | .For _ _ _ _ body => IsNoOpStmt body = false ∧ NormalForm body
  | .IfThenElse _ then_case else_case => NormalForm then_case ∧ NormalForm else_case
  | .Block _ body init => NormalForm body ∧ NormalForm init
  | .SeqStmt seq => 2 ≤ seq.length ∧ NormalMembers seq

def NormalMembers : List Stmt → Prop
  | [] => True
  | s :: seq => (isSeqStmt s = false ∧ IsNoOpStmt s = false ∧ NormalForm s) ∧ NormalMembers seq

end

theorem normalMembers_iff {seq : List Stmt} : NormalMembers seq ↔
    ∀ s ∈ seq, isSeqStmt s = false ∧ IsNoOpStmt s = false ∧ NormalForm s := by
  induction seq with
  | nil => exact iff_of_true trivial (fun _ h => nomatch h)
  | cons s seq ih => rw [NormalMembers, ih, List.forall_mem_cons]

theorem AppendFlattenedStmt_of_not_isSeqStmt {s : Stmt} (h : isSeqStmt s = false) :
    AppendFlattenedStmt s = if IsNoOpStmt s then [] else [s] := by
  cases s with
  | SeqStmt => cases h
  | _ => rfl

/-- Members of a sequence in normal form are not flattened any more. -/
theorem appendMembers_eq {seq : List Stmt} (h : NormalMembers seq) :
    seq.flatMap AppendFlattenedStmt = seq := by
  have hmember (s : Stmt) (hs : s ∈ seq) : AppendFlattenedStmt s = [s] := by
    obtain ⟨hseq, hnoOp, -⟩ := normalMembers_iff.mp h s hs
    rw [AppendFlattenedStmt_of_not_isSeqStmt hseq, hnoOp, if_neg Bool.false_ne_true]
  rw [List.flatMap_congr hmember, List.flatMap_singleton']

theorem normalMembers_append {s : Stmt} (h : NormalForm s) :
    NormalMembers (AppendFlattenedStmt s) := by
  by_cases hseq : isSeqStmt s = false
  · rw [AppendFlattenedStmt_of_not_isSeqStmt hseq]
    split
    · exact trivial
    · rename_i hnoOp
      exact ⟨⟨hseq, Bool.eq_false_iff.mpr hnoOp, h⟩, trivial⟩
  · cases s with
    | SeqStmt seq =>
      rw [AppendFlattenedStmt, AppendFlattenedStmts_eq, appendMembers_eq h.2]
      exact h.2
    | _ => exact absurd rfl hseq

theorem normalForm_MakeSeqStmtOrUnit {seq : List Stmt} (h : NormalMembers seq) :
    NormalForm (MakeSeqStmtOrUnit seq) := by
  rw [MakeSeqStmtOrUnit, AppendFlattenedStmts_eq, appendMembers_eq h]
  rcases seq with _ | ⟨s, _ | ⟨t, seq⟩⟩
  · exact trivial
  · exact h.1.2.2
  · exact ⟨by simp, h⟩

theorem normalForm_RemoveNoOpRewriter_seq {seq : List Stmt} (h : ∀ s ∈ seq, NormalForm s) :
    NormalForm (RemoveNoOpRewriter (.SeqStmt seq)) := by
  refine normalForm_MakeSeqStmtOrUnit (normalMembers_iff.mpr fun s hs => ?_)
  obtain ⟨t, ht, hs⟩ := List.mem_flatMap.mp hs
  exact normalMembers_iff.mp (normalMembers_append (h t ht)) s hs

theorem RemoveNoOpPass_SeqStmt (seq : List Stmt) : RemoveNoOpPass (.SeqStmt seq) =
    RemoveNoOpRewriter (.SeqStmt (seq.map RemoveNoOpPass)) :=
  congrArg (fun seq => RemoveNoOpRewriter (.SeqStmt seq)) (TIRPass.mutateStmts_eq id _ seq)

/-- One application reaches the normal form. -/
theorem RemoveNoOpPass_normalForm (s : Stmt) : NormalForm (RemoveNoOpPass s) := by
  induction s using Stmt.induction with
  | undefined | Store => exact trivial
  | LetStmt _ _ _ ih | Allocate _ _ _ _ _ ih | AttrStmt _ _ _ ih => exact ih
  | IfThenElse _ _ _ ih ih' | Block _ _ _ ih ih' => exact ⟨ih, ih'⟩
  | Evaluate value =>
    show NormalForm (if IsConstZero value then _ else _)
    split
    · exact trivial
    · exact Bool.eq_false_iff.mpr ‹_›
  | For loop_var min extent for_type body ih =>
    show NormalForm (if IsNoOpStmt (RemoveNoOpPass body) then _ else _)
    split
    · exact trivial
    · exact ⟨Bool.eq_false_iff.mpr ‹_›, ih⟩
  | SeqStmt seq ih =>
    rw [RemoveNoOpPass_SeqStmt]
    exact normalForm_RemoveNoOpRewriter_seq (List.forall_mem_map.mpr ih)

/-- A statement in normal form is kept. -/
theorem RemoveNoOpPass_of_normalForm {s : Stmt} (h : NormalForm s) : RemoveNoOpPass s = s := by
  induction s using Stmt.induction with
  | undefined => rfl
  | LetStmt var value body ih => exact congrArg (Stmt.LetStmt var value) (ih h)
  | Store buffer_var value index predicate =>
    exact congrArg (Stmt.Store buffer_var value index) (congrFun Option.map_id predicate)
  | Allocate buffer_var dtype extents condition body ih =>
    exact congrArg₂ (fun extents body => Stmt.Allocate buffer_var dtype extents condition body)
      (List.map_id extents) (ih h)
  | AttrStmt attr_key value body ih => exact congrArg (Stmt.AttrStmt attr_key value) (ih h)
  | IfThenElse condition then_case else_case ih ih' =>
    exact congrArg₂ (Stmt.IfThenElse condition) (ih h.1) (ih' h.2)
  | Block name_hint body init ih ih' => exact congrArg₂ (Stmt.Block name_hint) (ih h.1) (ih' h.2)
  | Evaluate value =>
    show (if IsConstZero value then _ else _) = _
    rw [show IsConstZero value = false from h]
    rfl
  | For loop_var min extent for_type body ih =>
    show (if IsNoOpStmt (RemoveNoOpPass body) then _ else
      Stmt.For loop_var min extent for_type (RemoveNoOpPass body)) = _
    rw [ih h.2, h.1, if_neg Bool.false_ne_true]
  | SeqStmt seq ih =>
    have hseq : seq.map RemoveNoOpPass = seq :=
      (List.map_congr_left fun s hs => ih s hs (normalMembers_iff.mp h.2 s hs).2.2).trans
        (List.map_id seq)
    rw [RemoveNoOpPass_SeqStmt, hseq]
    show MakeSeqStmtOrUnit (seq.flatMap AppendFlattenedStmt) = _
    rw [appendMembers_eq h.2, MakeSeqStmtOrUnit, AppendFlattenedStmts_eq, appendMembers_eq h.2]
    have hlength := h.1
    rcases seq with _ | ⟨s, _ | ⟨t, seq⟩⟩
    · exact absurd hlength (by simp)
    · exact absurd hlength (by simp)
    · rfl

/-- The pass keeps what a statement does to the memory, changes nothing when it is applied again, and
reaches the normal form. -/
theorem RemoveNoOpPass_correct {F : Type} (ops : FloatOps F) (contents : Var → Int → Scalar F)
    (s : Stmt) :
    (∀ env memory memory' t, s.exec ops contents env memory = some (memory', t) →
      ∃ t', (RemoveNoOpPass s).exec ops contents env memory = some (memory', t') ∧
        t'.filter isStore = t.filter isStore) ∧
    RemoveNoOpPass (RemoveNoOpPass s) = RemoveNoOpPass s ∧ NormalForm (RemoveNoOpPass s) :=
  ⟨fun env => Stmt.mutateStmt_refines (fun s _ => RemoveNoOpRewriter_refines s) s.allLoops_true env,
    RemoveNoOpPass_of_normalForm (RemoveNoOpPass_normalForm s), RemoveNoOpPass_normalForm s⟩

/-- A loop over nothing before a store. -/
def storeAfterNothing : Stmt :=
  .SeqStmt [.For ⟨"i", .Int 32, 0⟩ (.IntImm 0 (.Int 32)) (.IntImm 2 (.Int 32)) .Serial
      (.SeqStmt [.Evaluate (.IntImm 0 (.Int 32))]),
    .Store ⟨"x", .Int 32, 0⟩ (.IntImm 5 (.Int 32)) (.IntImm 1 (.Int 32)) none]

theorem storeAfterNothing_kept :
    ∃ t', (RemoveNoOpPass storeAfterNothing).exec FloatOps.zero (fun _ _ => .int 0)
        (fun _ => .int 0) (fun _ _ => .int 0) =
        some (Memory.store (fun _ _ => .int 0) ⟨"x", .Int 32, 0⟩ 1 (.int 5), t') ∧
      t'.filter isStore = [.store ⟨"x", .Int 32, 0⟩ 1 (.int 5)] :=
  (RemoveNoOpPass_correct FloatOps.zero (fun _ _ => .int 0) storeAfterNothing).1
    (fun _ => .int 0) (fun _ _ => .int 0) _ _ rfl

end Kxc.Tir.RemoveNoOp
