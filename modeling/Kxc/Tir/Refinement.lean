import Kxc.Tir.Exec
import Kxc.Tir.Pass
import Kxc.Tir.PassUtils

/-! Statements that do what others do: replacing a part of a statement by one that refines it, and
flattening sequences. -/

namespace Kxc.Tir

open Lib Lib.MachineNumber pass_utils

variable {F : Type}

namespace Stmt

/-- In every environment, where `s` is defined `s'` is, and leaves the same memory and the same events
of those that `keep` selects. -/
def Refines (ops : FloatOps F) (contents : Var → Int → Scalar F) (keep : Event F → Bool)
    (s s' : Stmt) : Prop :=
  ∀ env, Action.Refines keep (s.exec ops contents env) (s'.exec ops contents env)

variable {ops : FloatOps F} {contents : Var → Int → Scalar F} {keep : Event F → Bool}

theorem exec_undefined (ops : FloatOps F) (contents : Var → Int → Scalar F)
    (env : Var → Scalar F) : exec ops contents env .undefined = 1 :=
  exec.eq_def ops contents env .undefined

theorem execSeq_eq (env : Var → Scalar F) (seq : List Stmt) :
    execSeq ops contents env seq = (seq.map (exec ops contents env)).prod := by
  induction seq with
  | nil => rfl
  | cons s seq ih => rw [execSeq, ih, List.map_cons, List.prod_cons]

theorem exec_SeqStmt (env : Var → Scalar F) (seq : List Stmt) :
    exec ops contents env (.SeqStmt seq) = (seq.map (exec ops contents env)).prod :=
  (exec.eq_def ops contents env (.SeqStmt seq)).trans (execSeq_eq env seq)

/-- A program that is a buffer's. -/
theorem withBuffer_refines {body body' : Run F} (h : Action.Refines keep body body')
    (buffer_var : Var) : Action.Refines keep (withBuffer contents buffer_var body)
      (withBuffer contents buffer_var body') := by
  intro m m' t hr
  obtain ⟨⟨m₁, t₁⟩, hbody, heq⟩ := Option.map_eq_some_iff.mp hr
  cases heq
  obtain ⟨t', hbody', ht⟩ := h _ _ _ hbody
  exact ⟨t', Option.map_eq_some_iff.mpr ⟨(m₁, t'), hbody', rfl⟩, ht⟩

namespace Refines

variable {s s' s'' t t' body body' init init' then_case then_case' else_case else_case' : Stmt}

theorem refl (s : Stmt) : Refines ops contents keep s s := fun _ => .refl _

theorem trans (h : Refines ops contents keep s s') (h' : Refines ops contents keep s' s'') :
    Refines ops contents keep s s'' := fun env => (h env).trans (h' env)

theorem letStmt (h : Refines ops contents keep body body') (var : Var) (value : PrimExpr) :
    Refines ops contents keep (.LetStmt var value body) (.LetStmt var value body') := by
  intro env
  rw [exec, exec]
  exact .read fun x => .mul (.refl _) (h _)

theorem forStmt (h : Refines ops contents keep body body') (loop_var : Var) (min extent : PrimExpr)
    (for_type for_type' : ForType) : Refines ops contents keep
      (.For loop_var min extent for_type body) (.For loop_var min extent for_type' body') := by
  intro env
  rw [exec, exec]
  exact .read fun _ => .prod_map fun k _ => .mul (.refl _) (h _)

theorem ifThenElse (h : Refines ops contents keep then_case then_case')
    (h' : Refines ops contents keep else_case else_case') (condition : PrimExpr) :
    Refines ops contents keep (.IfThenElse condition then_case else_case)
      (.IfThenElse condition then_case' else_case') := by
  intro env
  rw [exec, exec]
  refine .read fun c => ?_
  cases c
  · exact h' env
  · exact h env

theorem allocate (h : Refines ops contents keep body body') (buffer_var : Var) (dtype : DataType)
    (extents : List PrimExpr) (condition : PrimExpr) : Refines ops contents keep
      (.Allocate buffer_var dtype extents condition body)
      (.Allocate buffer_var dtype extents condition body') := by
  intro env
  rw [exec, exec]
  exact .read fun _ => withBuffer_refines (h env) buffer_var

theorem attrStmt (h : Refines ops contents keep body body') (attr_key : String)
    (value : PrimExpr) : Refines ops contents keep (.AttrStmt attr_key value body)
      (.AttrStmt attr_key value body') := by
  intro env
  rw [exec, exec]
  exact h env

theorem block (h : Refines ops contents keep body body')
    (h' : Refines ops contents keep init init') (name_hint : String) :
    Refines ops contents keep (.Block name_hint body init) (.Block name_hint body' init') := by
  intro env
  rw [exec, exec]
  exact .mul (h' env) (h env)

theorem seqStmt {seq : List Stmt} {f : Stmt → Stmt}
    (h : ∀ s ∈ seq, Refines ops contents keep s (f s)) :
    Refines ops contents keep (.SeqStmt seq) (.SeqStmt (seq.map f)) := by
  intro env
  rw [exec_SeqStmt, exec_SeqStmt, List.map_map]
  exact .prod_map fun s hs => h s hs env

end Refines

/-! ### Flattening -/

/-- A statement that is no operation leaves the memory and no event. -/
theorem noOp_refines {s : Stmt} (h : IsNoOpStmt s = true) :
    Refines ops contents keep s .undefined := by
  induction s using Stmt.induction with
  | undefined => exact .refl _
  | Evaluate value =>
    intro env
    rw [exec, exec]
    exact .of_read fun _ _ _ => .refl _
  | SeqStmt seq ih =>
    intro env
    rw [exec_SeqStmt, exec]
    exact .prod_one fun s hs => ih s hs (IsNoOpStmt_SeqStmt.mp h s hs) env
  | _ => cases h

theorem appendMembers_refines {env : Var → Scalar F} {seq : List Stmt}
    (h : ∀ s ∈ seq, Action.Refines keep (exec ops contents env s)
      ((AppendFlattenedStmt s).map (exec ops contents env)).prod) :
    Action.Refines keep (seq.map (exec ops contents env)).prod
      ((AppendFlattenedStmts seq).map (exec ops contents env)).prod := by
  rw [AppendFlattenedStmts_eq, List.map_flatMap, List.flatMap, List.prod_flatten, List.map_map]
  exact .prod_map h

theorem AppendFlattenedStmt_refines (env : Var → Scalar F) (s : Stmt) :
    Action.Refines keep (exec ops contents env s)
      ((AppendFlattenedStmt s).map (exec ops contents env)).prod := by
  have hleaf {s : Stmt} (hs : AppendFlattenedStmt s = if IsNoOpStmt s then [] else [s]) :
      Action.Refines keep (exec ops contents env s)
        ((AppendFlattenedStmt s).map (exec ops contents env)).prod := by
    rw [hs]
    split
    · exact noOp_refines ‹_› env
    · rw [List.map_singleton, List.prod_singleton]
      exact .refl _
  induction s using Stmt.induction with
  | SeqStmt seq ih =>
    rw [exec_SeqStmt, AppendFlattenedStmt]
    exact appendMembers_refines ih
  | _ => exact hleaf rfl

theorem exec_MakeSeqStmtOrUnit (env : Var → Scalar F) (seq : List Stmt) :
    exec ops contents env (MakeSeqStmtOrUnit seq) =
      ((AppendFlattenedStmts seq).map (exec ops contents env)).prod := by
  rw [MakeSeqStmtOrUnit]
  split
  · rename_i h
    rw [h, exec]
    rfl
  · rename_i s h
    rw [h, List.map_singleton, List.prod_singleton]
  · exact exec_SeqStmt env _

/-! ### Passes -/

/-- A pass that rewrites each statement into one that refines it makes of the whole one that refines
it. The property of loops is not about the body, which is rewritten first. -/
theorem mutateStmt_refines {P : Var → PrimExpr → PrimExpr → ForType → Prop}
    {rewrite : Stmt → Id Stmt} (hrewrite : ∀ s,
      s.LoopHas (fun loop_var min extent for_type _ => P loop_var min extent for_type) →
      Refines ops contents keep s (rewrite s)) {s : Stmt}
    (h : s.AllLoops fun loop_var min extent for_type _ => P loop_var min extent for_type) :
    Refines ops contents keep s (TIRPass.mutateStmt (m := Id) id rewrite s) := by
  induction s using Stmt.induction with
  | undefined => exact .refl _
  | LetStmt var value body ih => exact ((ih h).letStmt var value).trans (hrewrite _ trivial)
  | Store buffer_var value index predicate =>
    rw [TIRPass.mutateStmt, Option.map_id]
    exact hrewrite (.Store buffer_var value index predicate) trivial
  | For loop_var min extent for_type body ih =>
    exact ((ih h.2).forStmt loop_var min extent for_type for_type).trans (hrewrite _ h.1)
  | IfThenElse condition then_case else_case ih ih' =>
    exact ((ih h.1).ifThenElse (ih' h.2) condition).trans (hrewrite _ trivial)
  | Allocate buffer_var dtype extents condition body ih =>
    rw [TIRPass.mutateStmt, List.map_id]
    exact ((ih h).allocate buffer_var dtype extents condition).trans (hrewrite _ trivial)
  | AttrStmt attr_key value body ih =>
    exact ((ih h).attrStmt attr_key value).trans (hrewrite _ trivial)
  | Block name_hint body init ih ih' =>
    exact ((ih h.1).block (ih' h.2) name_hint).trans (hrewrite _ trivial)
  | SeqStmt seq ih =>
    rw [TIRPass.mutateStmt, TIRPass.mutateStmts_eq]
    exact (Refines.seqStmt fun s hs => ih s hs (allLoopsList_iff.mp h s hs)).trans
      (hrewrite _ trivial)
  | Evaluate value => exact hrewrite _ trivial

end Stmt

end Kxc.Tir
