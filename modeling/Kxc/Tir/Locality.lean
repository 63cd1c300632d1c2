import Kxc.Codegen.Typing
import Kxc.Tir.Refinement

/-! Expressions and statements depend on the variables and buffers that they read. -/

namespace Kxc.Tir

open Codegen Lib Lib.MachineNumber Lib.Llvm

variable {F : Type} {ops : FloatOps F} {P Q : Tir.Var → Prop}

namespace PrimExpr

variable {e : PrimExpr} {σ σ' : MachineNumber.Store Tir.Var F}
  (hvars : ∀ v, P v → σ.vars v = σ'.vars v) (hbuffers : ∀ v, Q v → σ.buffers v = σ'.buffers v)
  (h : e.ReadsOnly P Q)
include hvars hbuffers h

theorem word_congr : e.word ops σ = e.word ops σ' := by
  unfold word
  split
  · rename_i V hV
    exact LLVMValue.eval_congr hvars hbuffers (GenExpr_readsOnly h hV)
  · rfl

theorem scalar_congr : e.scalar ops σ = e.scalar ops σ' := by
  rw [scalar, scalar, word_congr hvars hbuffers h]

theorem integer_congr : e.integer ops σ = e.integer ops σ' := by
  rw [integer, integer, scalar_congr hvars hbuffers h]

omit hvars hbuffers h in
/-- An expression that reads no buffer. -/
theorem integer_memory {e : PrimExpr} (h : e.ReadsOnly (fun _ => True) fun _ => False)
    (env : Tir.Var → Scalar F) (memory memory' : Memory F) :
    e.integer ops ⟨env, memory⟩ = e.integer ops ⟨env, memory'⟩ :=
  integer_congr (fun _ _ => rfl) (fun _ hfalse => nomatch hfalse) h

theorem condition_congr : e.condition ops σ = e.condition ops σ' := by
  unfold condition
  split
  · rename_i V hV
    obtain ⟨A, hA, hV⟩ := except_bind_eq_ok.mp hV
    rw [LLVMValue.eval_congr hvars hbuffers
      (CastToBool_closed (LLVMValue.readsOnly_closed P Q) (GenExpr_readsOnly h hA) hV)]
  · rfl

end PrimExpr

/-- The variable that is bound, or the buffer that is stored to. -/
def Event.var : Event F → Var
  | .bind var _ => var
  | .store buffer_var _ _ => buffer_var

namespace Stmt

variable {contents : Var → Int → Scalar F} {s : Stmt} {env env' : Var → Scalar F}

section Readers

variable (henv : ∀ v, P v → env v = env' v) (memory : Memory F)
include henv

theorem loopRange_congr {loop_var : Var} {min extent : PrimExpr} (hmin : min.ReadsOnly P P)
    (hextent : extent.ReadsOnly P P) :
    loopRange ops ⟨env, memory⟩ loop_var min extent =
      loopRange ops ⟨env', memory⟩ loop_var min extent := by
  have ha : min.integer ops ⟨env, memory⟩ = min.integer ops ⟨env', memory⟩ :=
    PrimExpr.integer_congr henv (fun _ _ => rfl) hmin
  have hn : extent.integer ops ⟨env, memory⟩ = extent.integer ops ⟨env', memory⟩ :=
    PrimExpr.integer_congr henv (fun _ _ => rfl) hextent
  rw [loopRange, loopRange, ha, hn]

theorem storeTarget_congr {value index : PrimExpr} {predicate : Option PrimExpr}
    (hvalue : value.ReadsOnly P P) (hindex : index.ReadsOnly P P)
    (hpredicate : ∀ e ∈ predicate, e.ReadsOnly P P) :
    storeTarget ops ⟨env, memory⟩ value index predicate =
      storeTarget ops ⟨env', memory⟩ value index predicate := by
  have hx : value.scalar ops ⟨env, memory⟩ = value.scalar ops ⟨env', memory⟩ :=
    PrimExpr.scalar_congr henv (fun _ _ => rfl) hvalue
  have hi : index.integer ops ⟨env, memory⟩ = index.integer ops ⟨env', memory⟩ :=
    PrimExpr.integer_congr henv (fun _ _ => rfl) hindex
  rw [storeTarget, storeTarget, hx, hi]
  cases predicate with
  | none => rfl
  | some predicate =>
    have hp : predicate.condition ops ⟨env, memory⟩ = predicate.condition ops ⟨env', memory⟩ :=
      PrimExpr.condition_congr henv (fun _ _ => rfl) (hpredicate predicate rfl)
    simp only [hp]

theorem mapM_integer_congr {es : List PrimExpr} (h : ∀ e ∈ es, e.ReadsOnly P P) :
    (es.mapM fun e => e.integer ops ⟨env, memory⟩) =
      es.mapM fun e => e.integer ops ⟨env', memory⟩ := by
  induction es with
  | nil => rfl
  | cons e es ih =>
    have he : e.integer ops ⟨env, memory⟩ = e.integer ops ⟨env', memory⟩ :=
      PrimExpr.integer_congr henv (fun _ _ => rfl) (h e List.mem_cons_self)
    rw [List.mapM_cons, List.mapM_cons, he, ih fun e he => h e (List.mem_cons_of_mem _ he)]

end Readers

/-- The variables of a statement are all that matters of the environment. -/
theorem exec_congr (h : s.AllVars P) (henv : ∀ v, P v → env v = env' v) :
    exec ops contents env s = exec ops contents env' s := by
  have hupdate (var : Var) (x : Scalar F) {env env' : Var → Scalar F}
      (henv : ∀ v, P v → env v = env' v) (v : Var) (hv : P v) :
      Function.update env var x v = Function.update env' var x v := by
    rw [Function.update_apply, Function.update_apply, henv v hv]
  induction s using Stmt.induction generalizing env env' with
  | undefined => rw [exec, exec]
  | LetStmt var value body ih =>
    rw [exec, exec]
    refine congrArg₂ Action.read (funext fun memory => ?_) (funext fun x => ?_)
    · exact PrimExpr.scalar_congr henv (fun _ _ => rfl) h.2.1
    · exact congrArg (Action.emit _ * ·) (ih h.2.2 (hupdate _ _ henv))
  | Store buffer_var value index predicate =>
    rw [exec, exec]
    refine congrArg₂ Action.read (funext fun memory => ?_) rfl
    exact storeTarget_congr henv memory h.2.1 h.2.2.1 h.2.2.2
  | For loop_var min extent for_type body ih =>
    rw [exec, exec]
    refine congrArg₂ Action.read (funext fun memory => ?_) (funext fun p => ?_)
    · exact loopRange_congr henv memory h.2.1 h.2.2.1
    · refine congrArg List.prod (List.map_congr_left fun k _ => ?_)
      exact congrArg (Action.emit _ * ·) (ih h.2.2.2 (hupdate _ _ henv))
  | IfThenElse condition then_case else_case ih ih' =>
    rw [exec, exec]
    refine congrArg₂ Action.read (funext fun memory => ?_) (funext fun c => ?_)
    · exact PrimExpr.condition_congr henv (fun _ _ => rfl) h.1
    · rw [ih h.2.1 henv, ih' h.2.2 henv]
  | Allocate buffer_var dtype extents condition body ih =>
    rw [exec, exec]
    refine congrArg₂ Action.read (funext fun memory => ?_) (funext fun _ => ?_)
    · exact mapM_integer_congr henv memory h.2.1
    · rw [ih h.2.2.2 henv]
  | AttrStmt attr_key value body ih =>
    rw [exec, exec]
    exact ih h.2 henv
  | Block name_hint body init ih ih' =>
    rw [exec, exec, ih h.1 henv, ih' h.2 henv]
  | SeqStmt seq ih =>
    rw [exec_SeqStmt, exec_SeqStmt]
    exact congrArg List.prod (List.map_congr_left fun s hs =>
      ih s hs (allVarsList_iff.mp h s hs) henv)
  | Evaluate value =>
    rw [exec, exec]
    refine congrArg₂ Action.read (funext fun memory => ?_) rfl
    exact PrimExpr.word_congr henv (fun _ _ => rfl) h

theorem withBuffer_makes {R : Event F → Prop} {body : Run F} (h : body.Makes R) (buffer_var : Var) :
    (withBuffer contents buffer_var body).Makes R := by
  intro m m' t hr
  obtain ⟨⟨m₁, t₁⟩, hbody, heq⟩ := Option.map_eq_some_iff.mp hr
  cases heq
  exact h _ _ _ hbody

/-- A statement binds and stores to its variables only. -/
theorem exec_makes (h : s.AllVars P) (env : Var → Scalar F) :
    (exec ops contents env s).Makes fun e => P e.var := by
  induction s using Stmt.induction generalizing env with
  | undefined =>
    rw [exec]
    exact .one
  | LetStmt var value body ih =>
    rw [exec]
    exact .read fun x => .mul (.emit h.1) (ih h.2.2 _)
  | Store buffer_var value index predicate =>
    rw [exec]
    refine .read fun target => ?_
    obtain ⟨i, x, p⟩ := target
    cases p
    · exact .one
    · intro m m' t hm e he
      cases hm
      exact List.mem_singleton.mp he ▸ h.1
  | For loop_var min extent for_type body ih =>
    rw [exec]
    exact .read fun p => .prod_map fun k _ => .mul (.emit h.1) (ih h.2.2.2 _)
  | IfThenElse condition then_case else_case ih ih' =>
    rw [exec]
    refine .read fun c => ?_
    cases c
    · exact ih' h.2.2 env
    · exact ih h.2.1 env
  | Allocate buffer_var dtype extents condition body ih =>
    rw [exec]
    exact .read fun _ => withBuffer_makes (ih h.2.2.2 env) buffer_var
  | AttrStmt attr_key value body ih =>
    rw [exec]
    exact ih h.2 env
  | Block name_hint body init ih ih' =>
    rw [exec]
    exact .mul (ih' h.2 env) (ih h.1 env)
  | SeqStmt seq ih =>
    rw [exec_SeqStmt]
    exact .prod_map fun s hs => ih s hs (allVarsList_iff.mp h s hs) env
  | Evaluate value =>
    rw [exec]
    exact .read fun _ => .one

end Stmt

end Kxc.Tir
