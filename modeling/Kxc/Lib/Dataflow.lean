import Kxc.Lib.StateExcept
import Mathlib.Data.List.Nodup

/-! Straight-line dataflow programs: nodes that read and define named values, single assignment in
topological order, and the runs of such a program over a table of values. -/

namespace Kxc.Lib

variable {ι N : Type} (inputs outputs : N → List ι)

/-- Every node reads only values in `defs` and outputs of the nodes before it. -/
def InOrder : List ι → List N → Prop
  | _, [] => True
  | defs, n :: ns => (∀ x ∈ inputs n, x ∈ defs) ∧ InOrder (defs ++ outputs n) ns

/-- Single assignment in topological order, with `defs` defined from the start. -/
structure Ssa (defs : List ι) (prog : List N) : Prop where
  single : (defs ++ prog.flatMap outputs).Nodup
  ordered : InOrder inputs outputs defs prog

variable {inputs outputs}

theorem InOrder.mono {defs defs' : List ι} {prog : List N} (h : InOrder inputs outputs defs prog)
    (hsub : ∀ x ∈ defs, x ∈ defs') : InOrder inputs outputs defs' prog := by
  induction prog generalizing defs defs' with
  | nil => trivial
  | cons n ns ih =>
    refine ⟨fun x hx => hsub x (h.1 x hx), ih h.2 fun x hx => ?_⟩
    rcases List.mem_append.mp hx with hx | hx
    · exact List.mem_append.mpr (Or.inl (hsub x hx))
    · exact List.mem_append.mpr (Or.inr hx)

theorem inOrder_append {defs : List ι} {prog rest : List N} :
    InOrder inputs outputs defs (prog ++ rest) ↔
      InOrder inputs outputs defs prog ∧
        InOrder inputs outputs (defs ++ prog.flatMap outputs) rest := by
  induction prog generalizing defs with
  | nil => simp [InOrder]
  | cons n ns ih =>
    simp only [List.cons_append, InOrder, ih, List.flatMap_cons, List.append_assoc, and_assoc]

/-- A node at the end reads what is defined before it. -/
theorem InOrder.concat {defs : List ι} {prog : List N} {n : N}
    (h : InOrder inputs outputs defs prog)
    (hn : ∀ x ∈ inputs n, x ∈ defs ++ prog.flatMap outputs) :
    InOrder inputs outputs defs (prog ++ [n]) :=
  inOrder_append.mpr ⟨h, hn, trivial⟩

section Run

variable {σ ε : Type} (bound : σ → ι → Prop) {step : N → StateT σ (Except ε) PUnit}
  {E : ε → Prop}

/-- A node that finds its inputs in the table keeps the table and adds its outputs. -/
def StepBinds (inputs outputs : N → List ι) (step : N → StateT σ (Except ε) PUnit)
    (E : ε → Prop) : Prop :=
  ∀ n s, (∀ x ∈ inputs n, bound s x) →
    Outcome (step n) s E fun _ t => (∀ x, bound s x → bound t x) ∧ ∀ x ∈ outputs n, bound t x

variable {bound}

/-- A program in order, run on a table that holds `defs`, fails only as its nodes do on bound
inputs, and leaves every value that it defines in the table. -/
theorem InOrder.run {defs : List ι} {prog : List N} {s : σ}
    (hstep : StepBinds bound inputs outputs step E) (h : InOrder inputs outputs defs prog)
    (hs : ∀ x ∈ defs, bound s x) :
    Outcome (prog.forM step) s E fun _ t => ∀ x ∈ defs ++ prog.flatMap outputs, bound t x := by
  induction prog generalizing defs s with
  | nil =>
    simp only [List.forM_eq_forM, List.forM_nil, outcome_pure, List.flatMap_nil, List.append_nil]
    exact hs
  | cons n ns ih =>
    simp only [List.forM_eq_forM, List.forM_cons, outcome_bind]
    refine (hstep n s fun x hx => hs x (h.1 x hx)).mono fun _ t ht => ?_
    have hrest := ih (s := t) h.2 fun x hx => ?_
    · refine hrest.mono fun _ u hu x hx => hu x ?_
      rwa [List.append_assoc, ← List.flatMap_cons]
    · rcases List.mem_append.mp hx with hx | hx
      · exact ht.1 x (hs x hx)
      · exact ht.2 x hx

/-- Whenever a run reaches a node, the table holds the inputs of that node. -/
theorem InOrder.inputs_bound {defs : List ι} {before after : List N} {n : N} {s t : σ}
    (hstep : StepBinds bound inputs outputs step E)
    (h : InOrder inputs outputs defs (before ++ n :: after)) (hs : ∀ x ∈ defs, bound s x)
    (hrun : before.forM step s = .ok (⟨⟩, t)) : ∀ x ∈ inputs n, bound t x := by
  obtain ⟨hbefore, hn⟩ := inOrder_append.mp h
  have hbound := (hbefore.run hstep hs).of_ok hrun
  exact fun x hx => hbound x (hn.1 x hx)

end Run

end Kxc.Lib
