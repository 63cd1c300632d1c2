import Kxc.Codegen.KeepsC

/-! The elements of buffers that the code of both generators reads. -/

namespace Kxc.Codegen

open Lib Lib.MachineNumber Lib.CLanguage Lib.Llvm Tir

variable {F : Type}

section

variable (ops : FloatOps F) (σ : Store Var F)

/-- Both languages keep the conditions that select a branch and the indices, when no operand is
skipped. -/
def EagerKeeps : PrimExpr → Prop
  | .IntImm _ _ | .FloatImm _ _ | .Var _ => True
  | .Binary _ a b => EagerKeeps a ∧ EagerKeeps b
  | .Not a | .Call _ _ a => EagerKeeps a
  | .Load _ index => EagerKeeps index ∧ Keeps ops σ index .exact ∧ IndexFits ops σ index
  | .PredicatedLoad _ index predicate => EagerKeeps predicate ∧
    EagerKeeps index ∧ Keeps ops σ index .exact ∧ IndexFits ops σ index
  | .Select condition true_value false_value =>
    EagerKeeps condition ∧ Keeps ops σ condition .exact ∧ Ordered ops σ condition ∧
    if condition.truth ops σ then EagerKeeps true_value else EagerKeeps false_value

/-- Both languages keep these conditions and indices, and the conditions that skip an operand. -/
def GuardsKeep : PrimExpr → Prop
  | .IntImm _ _ | .FloatImm _ _ | .Var _ => True
  | .Binary .And a b => GuardsKeep a ∧ Keeps ops σ a .exact ∧
    if a.truth ops σ then GuardsKeep b else EagerKeeps ops σ b
  | .Binary .Or a b => GuardsKeep a ∧ Keeps ops σ a .exact ∧
    if a.truth ops σ then EagerKeeps ops σ b else GuardsKeep b
  | .Binary _ a b => GuardsKeep a ∧ GuardsKeep b
  | .Not a | .Call _ _ a => GuardsKeep a
  | .Load _ index => GuardsKeep index ∧ Keeps ops σ index .exact ∧ IndexFits ops σ index
  | .PredicatedLoad _ index predicate =>
    GuardsKeep predicate ∧ Keeps ops σ predicate .exact ∧
    (Keeps ops σ index .exact ∧ IndexFits ops σ index) ∧
    if predicate.truth ops σ then GuardsKeep index else EagerKeeps ops σ index
  | .Select condition true_value false_value =>
    GuardsKeep condition ∧ Keeps ops σ condition .exact ∧ Ordered ops σ condition ∧
    if condition.truth ops σ then GuardsKeep true_value else GuardsKeep false_value

end

variable {ops : FloatOps F} {σ : Env F} {x : Var × Int}

theorem GuardsKeep.eager {e : PrimExpr} (h : GuardsKeep ops σ.toStore e) :
    EagerKeeps ops σ.toStore e := by
  induction e with
  | IntImm | FloatImm | Var => trivial
  | Binary op a b iha ihb =>
    cases op
    case And =>
      obtain ⟨ha, -, hb⟩ := h
      split at hb
      · exact ⟨iha ha, ihb hb⟩
      · exact ⟨iha ha, hb⟩
    case Or =>
      obtain ⟨ha, -, hb⟩ := h
      split at hb
      · exact ⟨iha ha, hb⟩
      · exact ⟨iha ha, ihb hb⟩
    all_goals exact ⟨iha h.1, ihb h.2⟩
  | Not a ih | Call dtype name a ih => exact ih h
  | Load var index ih => exact ⟨ih h.1, h.2⟩
  | PredicatedLoad var index predicate ihi ihp =>
    obtain ⟨hp, -, hkeeps, hi⟩ := h
    split at hi
    · exact ⟨ihp hp, ihi hi, hkeeps⟩
    · exact ⟨ihp hp, hi, hkeeps⟩
  | Select condition true_value false_value ihc iht ihf =>
    obtain ⟨hc, hkeeps, hordered, hv⟩ := h
    refine ⟨ihc hc, hkeeps, hordered, ?_⟩
    split at hv
    · rw [if_pos ‹_›]
      exact iht hv
    · rw [if_neg ‹_›]
      exact ihf hv

/-! ### The LLVM code -/

theorem CastValue_reads {A A' : CodeGenLLVM.Value} {t : LLVMType} {is_signed : Bool}
    (h : CodeGenLLVM.CastValue A t is_signed = .ok A') :
    A'.reads ops σ.toStore = A.reads ops σ.toStore := by
  simp only [CodeGenLLVM.CastValue] at h
  split at h
  · cases h
    rfl
  · repeat' split at h
    all_goals cases h
    all_goals rfl

theorem CastToBool_reads {A A' : CodeGenLLVM.Value} (h : CodeGenLLVM.CastToBool A = .ok A') :
    A'.reads ops σ.toStore = A.reads ops σ.toStore := by
  rw [CodeGenLLVM.CastToBool] at h
  split at h
  · cases h
    split
    · rfl
    · exact List.append_nil _
  · cases h
    exact List.append_nil _
  · cases h

/-- An operator may name an operand twice. -/
theorem promotedOp_reads {op : BinaryOp} {is_signed : Bool} {A B V : CodeGenLLVM.Value}
    (h : CodeGenLLVM.promotedOp op is_signed A B = .ok V) :
    x ∈ V.reads ops σ.toStore ↔ x ∈ A.reads ops σ.toStore ∨ x ∈ B.reads ops σ.toStore := by
  cases op <;> simp only [CodeGenLLVM.promotedOp, Except.ok.injEq, reduceCtorEq] at h
  all_goals
    subst h
    cases CodeGenLLVM.isFloatingPointTy A.type <;>
      simp only [LLVMValue.reads, Bool.false_eq_true, if_true, if_false, List.mem_append]
  all_goals rw [or_assoc, or_self]

/-- A load reads the element at its index. -/
theorem load_reads {index : PrimExpr} {I : CodeGenLLVM.Value}
    (hI : CodeGenLLVM.GenExpr index = .ok I) {f : IntFormat}
    (hC : (CodeGenC.GenExpr index).type CodeGenC.typing = some (.int f)) (hF : SameFormats index)
    (hkeeps : Keeps ops σ.toStore index .exact) (hfits : IndexFits ops σ.toStore index)
    (s : LLVMType) (var : Var) : (LLVMValue.load s var I).reads ops σ.toStore =
      I.reads ops σ.toStore ++ PrimExpr.element ops σ.toStore var index := by
  have hindex : KeepsWord ops σ index := GenExpr_keepsWord ops σ index
  obtain ⟨i, hi, hvalue⟩ := hindex.index hI hC hF hkeeps hfits
  rw [LLVMValue.reads, hi, PrimExpr.element, hvalue]

theorem null_reads (t : LLVMType) : (CodeGenLLVM.getNullValue t).reads ops σ.toStore = [] := by
  cases t <;> rfl

/-- The code of an expression reads what is read when no operand is skipped. -/
theorem GenExpr_reads (e : PrimExpr) {V : CodeGenLLVM.Value} (hV : CodeGenLLVM.GenExpr e = .ok V)
    {t : CType} (hC : (CodeGenC.GenExpr e).type CodeGenC.typing = some t) (hF : SameFormats e)
    (hkeeps : EagerKeeps ops σ.toStore e) :
    x ∈ V.reads ops σ.toStore ↔ x ∈ e.eagerReads ops σ.toStore := by
  induction e generalizing V t with
  | IntImm value dtype =>
    obtain ⟨s, -, h⟩ := except_bind_eq_ok.mp hV
    split at h <;> cases h
    rfl
  | FloatImm value dtype =>
    obtain ⟨s, -, h⟩ := except_bind_eq_ok.mp hV
    split at h <;> cases h
    rfl
  | Var var =>
    obtain ⟨s, -, h⟩ := except_bind_eq_ok.mp hV
    cases h
    rfl
  | Binary op a b iha ihb =>
    obtain ⟨A, hA, h⟩ := except_bind_eq_ok.mp hV
    obtain ⟨B, hB, h⟩ := except_bind_eq_ok.mp h
    obtain ⟨s, s', hta, htb⟩ := type_binary hC
    have hreads := or_congr (iha hA hta hF.1 hkeeps.1) (ihb hB htb hF.2 hkeeps.2)
    rw [PrimExpr.eagerReads, List.mem_append, ← hreads]
    by_cases hlogic : op ≠ .And ∧ op ≠ .Or
    · obtain ⟨A', B', hcastA, hcastB, hpromoted⟩ :=
        GenBinaryOp_ok hlogic (GenExpr_type a hA hta) (GenExpr_type b hB htb) h
      rw [promotedOp_reads hpromoted, CastValue_reads hcastA, CastValue_reads hcastB]
    · have hor : op = .And ∨ op = .Or := by
        by_contra hne
        exact hlogic (not_or.mp hne)
      rcases hor with rfl | rfl
      all_goals
        obtain ⟨A', hcastA, h⟩ := except_bind_eq_ok.mp h
        obtain ⟨B', hcastB, h⟩ := except_bind_eq_ok.mp h
        cases h
        rw [LLVMValue.reads, CastToBool_reads hcastA, CastToBool_reads hcastB, List.mem_append]
  | Not a ih =>
    obtain ⟨A, hA, h⟩ := except_bind_eq_ok.mp hV
    obtain ⟨A', hcast, h⟩ := except_bind_eq_ok.mp h
    cases h
    obtain ⟨s, hta, -⟩ := CExpr.type_not hC
    rw [LLVMValue.reads, CastToBool_reads hcast, ih hA hta hF hkeeps]
    rfl
  | Load var index ih =>
    obtain ⟨I, hI, h⟩ := except_bind_eq_ok.mp hV
    obtain ⟨s, hs, h⟩ := except_bind_eq_ok.mp h
    cases h
    obtain ⟨f, hti, -⟩ := CExpr.type_index hC
    obtain ⟨hkeepsI, hexact, hfits⟩ := hkeeps
    rw [load_reads hI hti hF hexact hfits, PrimExpr.eagerReads, List.mem_append, List.mem_append,
      ih hI hti hF hkeepsI]
  | PredicatedLoad var index predicate ihi ihp =>
    obtain ⟨I, hI, h⟩ := except_bind_eq_ok.mp hV
    obtain ⟨s, hs, h⟩ := except_bind_eq_ok.mp h
    obtain ⟨P, hP, h⟩ := except_bind_eq_ok.mp h
    obtain ⟨P', hcast, h⟩ := except_bind_eq_ok.mp h
    cases h
    obtain ⟨r, s', s'', htp, hload, -⟩ := CExpr.type_cond hC
    obtain ⟨f, hti, -⟩ := CExpr.type_index hload
    obtain ⟨hkeepsP, hkeepsI, hexact, hfits⟩ := hkeeps
    rw [LLVMValue.reads, load_reads hI hti hF.1 hexact hfits, null_reads, CastToBool_reads hcast,
      PrimExpr.eagerReads, List.append_nil]
    simp only [List.mem_append, ihp hP htp hF.2 hkeepsP, ihi hI hti hF.1 hkeepsI]
  | Call dtype name a ih =>
    obtain ⟨A, hA, h⟩ := except_bind_eq_ok.mp hV
    obtain ⟨s, hs, h⟩ := except_bind_eq_ok.mp h
    obtain ⟨r, f, hta, hf, -⟩ := CExpr.type_call hC
    split at h
    · rw [CastValue_reads h, ih hA hta hF.1 hkeeps]
      rfl
    · obtain ⟨A', hcast, h⟩ := except_bind_eq_ok.mp h
      obtain ⟨i, hi, h⟩ := except_bind_eq_ok.mp h
      cases h
      rw [LLVMValue.reads, CastValue_reads hcast, ih hA hta hF.1 hkeeps]
      rfl
  | Select condition true_value false_value ihc iht ihf =>
    obtain ⟨C, hC', h⟩ := except_bind_eq_ok.mp hV
    obtain ⟨C', hcastC, h⟩ := except_bind_eq_ok.mp h
    obtain ⟨A, hA, h⟩ := except_bind_eq_ok.mp h
    obtain ⟨B, hB, h⟩ := except_bind_eq_ok.mp h
    obtain ⟨s, hs, h⟩ := except_bind_eq_ok.mp h
    obtain ⟨A', hcastA, h⟩ := except_bind_eq_ok.mp h
    obtain ⟨B', hcastB, h⟩ := except_bind_eq_ok.mp h
    cases h
    obtain ⟨r, s', s'', htc, hta, htb, -⟩ := CExpr.type_cond hC
    obtain ⟨hkeepsC, hexact, hordered, hkeeps⟩ := hkeeps
    have hcondition : KeepsWord ops σ condition := GenExpr_keepsWord ops σ condition
    have hb := hcondition.condition hC' htc hF.1 hexact hordered hcastC
    rw [LLVMValue.reads, hb, PrimExpr.eagerReads, List.mem_append, List.mem_append,
      CastToBool_reads hcastC, ihc hC' htc hF.1 hkeepsC]
    cases htruth : condition.truth ops σ.toStore with
    | true =>
      rw [htruth, if_pos rfl] at hkeeps
      have hbranch : x ∈ A'.reads ops σ.toStore ↔ x ∈ true_value.eagerReads ops σ.toStore := by
        rw [CastValue_reads hcastA, iht hA hta hF.2.1 hkeeps]
      exact or_congr_right hbranch
    | false =>
      rw [htruth, if_neg Bool.false_ne_true] at hkeeps
      have hbranch : x ∈ B'.reads ops σ.toStore ↔ x ∈ false_value.eagerReads ops σ.toStore := by
        rw [CastValue_reads hcastB, ihf hB htb hF.2.2 hkeeps]
      exact or_congr_right hbranch

/-! ### The C code -/

/-- An operator on numbers evaluates both operands, and reads what they read. -/
theorem operand_reads {op : BinaryOp} (hlogic : op ≠ .And ∧ op ≠ .Or) {a b : PrimExpr} {c : Scalar F}
    {t : CType} (hC : (CodeGenC.GenExpr (.Binary op a b)).type CodeGenC.typing = some t)
    (hc : (CodeGenC.GenExpr (.Binary op a b)).eval ops CodeGenC.typing σ.toStore = some c) :
    (∃ y, (CodeGenC.GenExpr a).eval ops CodeGenC.typing σ.toStore = some y) ∧
    (∃ y, (CodeGenC.GenExpr b).eval ops CodeGenC.typing σ.toStore = some y) ∧
    (x ∈ (CodeGenC.GenExpr (.Binary op a b)).reads ops CodeGenC.typing σ.toStore ↔
      x ∈ (CodeGenC.GenExpr a).reads ops CodeGenC.typing σ.toStore ∨
      x ∈ (CodeGenC.GenExpr b).reads ops CodeGenC.typing σ.toStore) := by
  obtain ⟨s, s', hta, htb⟩ := type_binary hC
  cases op
  case And => exact absurd rfl hlogic.1
  case Or => exact absurd rfl hlogic.2
  case EQ | LT =>
    obtain ⟨y, z, hy, hz, -⟩ := CExpr.eval_rel (CExpr.typed_eq hta) (CExpr.typed_eq htb) hc
    exact ⟨⟨y, hy⟩, ⟨z, hz⟩, List.mem_append⟩
  case Min | Max =>
    obtain ⟨r, hr, -⟩ := CExpr.eval_cond rfl (CExpr.typed_eq hta) (CExpr.typed_eq htb) hc
    obtain ⟨y, z, hy, hz, -⟩ := CExpr.eval_rel (CExpr.typed_eq hta) (CExpr.typed_eq htb) hr
    refine ⟨⟨y, hy⟩, ⟨z, hz⟩, ?_⟩
    rw [CodeGenC.GenExpr, CExpr.reads, hr]
    show x ∈ _ ++ (if _ then _ else _) ↔ _
    rw [List.mem_append, CExpr.reads, List.mem_append]
    split
    · rw [or_right_comm, or_self]
    · rw [or_assoc, or_self]
  all_goals
    obtain ⟨y, z, hy, hz, -⟩ := CExpr.eval_arith (CExpr.typed_eq hta) (CExpr.typed_eq htb) hc
    exact ⟨⟨y, hy⟩, ⟨z, hz⟩, List.mem_append⟩

/-- The elements that a part reads when it is not skipped. -/
theorem mem_append_if {α : Type} {a : α} {as bs cs as' bs' cs' : List α} {b : Bool}
    (ha : a ∈ as ↔ a ∈ as') (hb : b = true → (a ∈ bs ↔ a ∈ bs'))
    (hc : b = false → (a ∈ cs ↔ a ∈ cs')) :
    a ∈ as ++ (if b then bs else cs) ↔ a ∈ as' ++ (if b then bs' else cs') := by
  rw [List.mem_append, List.mem_append, ha]
  cases b
  · exact or_congr_right (hc rfl)
  · exact or_congr_right (hb rfl)

theorem condition_truth {e : PrimExpr} {t : CType}
    (hC : (CodeGenC.GenExpr e).type CodeGenC.typing = some t) (hF : SameFormats e)
    (hkeeps : Keeps ops σ.toStore e .exact) {c : Scalar F}
    (hc : (CodeGenC.GenExpr e).eval ops CodeGenC.typing σ.toStore = some c) :
    c.truth ops t.format = e.truth ops σ.toStore :=
  KeepsScalar.condition (GenExpr_keepsScalar ops σ e) hC hF hkeeps hc

theorem index_element {index : PrimExpr} {f : IntFormat}
    (hC : (CodeGenC.GenExpr index).type CodeGenC.typing = some (.int f)) (hF : SameFormats index)
    (hkeeps : Keeps ops σ.toStore index .exact) {i : Int}
    (hi : (CodeGenC.GenExpr index).eval ops CodeGenC.typing σ.toStore = some (.int i)) (var : Var) :
    PrimExpr.element ops σ.toStore var index = [(var, i)] := by
  have hindex : KeepsScalar ops σ index := GenExpr_keepsScalar ops σ index
  rw [PrimExpr.element, hindex.index hC hF hkeeps hi]

/-- The C expression of an expression reads what is read when operands are skipped. -/
theorem GenExpr_reads_c (e : PrimExpr) {t : CType}
    (hC : (CodeGenC.GenExpr e).type CodeGenC.typing = some t) (hF : SameFormats e) {c : Scalar F}
    (hc : (CodeGenC.GenExpr e).eval ops CodeGenC.typing σ.toStore = some c)
    (hkeeps : GuardsKeep ops σ.toStore e) :
    x ∈ (CodeGenC.GenExpr e).reads ops CodeGenC.typing σ.toStore ↔ x ∈ e.reads ops σ.toStore := by
  induction e generalizing t c with
  | IntImm value dtype =>
    rw [CodeGenC.GenExpr, CodeGenC.toLiteral]
    split <;> rfl
  | FloatImm value dtype =>
    rw [CodeGenC.GenExpr]
    repeat' split
    all_goals rfl
  | Var var => rfl
  | Binary op a b iha ihb =>
    obtain ⟨s, s', hta, htb⟩ := type_binary hC
    by_cases hlogic : op ≠ .And ∧ op ≠ .Or
    · obtain ⟨⟨y, hy⟩, ⟨z, hz⟩, hreads⟩ := operand_reads hlogic hC hc
      have hboth : GuardsKeep ops σ.toStore a ∧ GuardsKeep ops σ.toStore b := by
        cases op
        case And => exact absurd rfl hlogic.1
        case Or => exact absurd rfl hlogic.2
        all_goals exact hkeeps
      have hunion : (PrimExpr.Binary op a b).reads ops σ.toStore =
          a.reads ops σ.toStore ++ b.reads ops σ.toStore := by
        cases op
        case And => exact absurd rfl hlogic.1
        case Or => exact absurd rfl hlogic.2
        all_goals rfl
      rw [hreads, hunion, List.mem_append]
      exact or_congr (iha hta hF.1 hy hboth.1) (ihb htb hF.2 hz hboth.2)
    · have hor : op = .And ∨ op = .Or := by
        by_contra hne
        exact hlogic (not_or.mp hne)
      rcases hor with rfl | rfl
      case inl =>
        obtain ⟨hkeepsA, hexact, hkeepsB⟩ := hkeeps
        obtain ⟨y, hy, h⟩ := CExpr.eval_land (CExpr.typed_eq hta) (CExpr.typed_eq htb) hc
        have htruth := condition_truth hta hF.1 hexact hy
        rw [htruth] at h
        rw [CodeGenC.GenExpr, CExpr.reads, hy, CExpr.typed_eq hta, PrimExpr.reads]
        show x ∈ _ ++ (if y.truth ops s.format then _ else []) ↔ _
        rw [htruth]
        refine mem_append_if (iha hta hF.1 hy hkeepsA) (fun htrue => ?_) fun _ => Iff.rfl
        rw [if_pos htrue] at h hkeepsB
        obtain ⟨z, hz, -⟩ := h
        exact ihb htb hF.2 hz hkeepsB
      case inr =>
        obtain ⟨hkeepsA, hexact, hkeepsB⟩ := hkeeps
        obtain ⟨y, hy, h⟩ := CExpr.eval_lor (CExpr.typed_eq hta) (CExpr.typed_eq htb) hc
        have htruth := condition_truth hta hF.1 hexact hy
        rw [htruth] at h
        rw [CodeGenC.GenExpr, CExpr.reads, hy, CExpr.typed_eq hta, PrimExpr.reads]
        show x ∈ _ ++ (if y.truth ops s.format then [] else _) ↔ _
        rw [htruth]
        refine mem_append_if (iha hta hF.1 hy hkeepsA) (fun _ => Iff.rfl) fun hfalse => ?_
        rw [hfalse, if_neg Bool.false_ne_true] at h hkeepsB
        obtain ⟨z, hz, -⟩ := h
        exact ihb htb hF.2 hz hkeepsB
  | Not a ih =>
    obtain ⟨s, hta, -⟩ := CExpr.type_not hC
    obtain ⟨y, hy, -⟩ := CExpr.eval_not (CExpr.typed_eq hta) hc
    exact ih hta hF hy hkeeps
  | Load var index ih =>
    obtain ⟨f, hti, -⟩ := CExpr.type_index hC
    obtain ⟨i, hi, -⟩ := CExpr.eval_index hc
    obtain ⟨hkeepsI, hexact, -⟩ := hkeeps
    rw [CodeGenC.GenExpr, CExpr.reads, hi, PrimExpr.reads,
      index_element hti hF hexact hi var]
    simp only [List.mem_append, ih hti hF hi hkeepsI]
  | PredicatedLoad var index predicate ihi ihp =>
    obtain ⟨r, s', s'', htp, hload, hzero, -⟩ := CExpr.type_cond hC
    obtain ⟨f, hti, -⟩ := CExpr.type_index hload
    obtain ⟨hkeepsP, hexactP, ⟨hexact, -⟩, hkeepsI⟩ := hkeeps
    obtain ⟨y, hy, h⟩ := CExpr.eval_cond (CExpr.typed_eq htp) (CExpr.typed_eq hload)
      (CExpr.typed_eq hzero) hc
    have htruth := condition_truth htp hF.2 hexactP hy
    rw [htruth] at h
    rw [CodeGenC.GenExpr, CExpr.reads, hy, CExpr.typed_eq htp, PrimExpr.reads]
    show x ∈ _ ++ (if y.truth ops r.format then _ else []) ↔ _
    rw [htruth]
    refine mem_append_if (ihp htp hF.2 hy hkeepsP) (fun htrue => ?_) fun _ => Iff.rfl
    rw [if_pos htrue] at h hkeepsI
    obtain ⟨z, hz, -⟩ := h
    obtain ⟨i, hi, -⟩ := CExpr.eval_index hz
    rw [CExpr.reads, hi, index_element hti hF.1 hexact hi var]
    simp only [List.mem_append, ihi hti hF.1 hi hkeepsI]
  | Call dtype name a ih =>
    obtain ⟨s, f, hta, hf, -⟩ := CExpr.type_call hC
    obtain ⟨y, hy, -⟩ := CExpr.eval_call (CExpr.typed_eq hta) hf hc
    exact ih hta hF.1 hy hkeeps
  | Select condition true_value false_value ihc iht ihf =>
    obtain ⟨r, s, s', htc, hta, htb, -⟩ := CExpr.type_cond hC
    obtain ⟨hkeepsC, hexact, -, hkeeps⟩ := hkeeps
    obtain ⟨y, hy, h⟩ := CExpr.eval_cond (CExpr.typed_eq htc) (CExpr.typed_eq hta)
      (CExpr.typed_eq htb) hc
    have htruth := condition_truth htc hF.1 hexact hy
    rw [htruth] at h
    rw [CodeGenC.GenExpr, CExpr.reads, hy, CExpr.typed_eq htc, PrimExpr.reads]
    show x ∈ _ ++ (if y.truth ops r.format then _ else _) ↔ _
    rw [htruth]
    refine mem_append_if (ihc htc hF.1 hy hkeepsC) (fun htrue => ?_) fun hfalse => ?_
    · rw [if_pos htrue] at h hkeeps
      obtain ⟨z, hz, -⟩ := h
      exact iht hta hF.2.1 hz hkeeps
    · rw [hfalse, if_neg Bool.false_ne_true] at h hkeeps
      obtain ⟨z, hz, -⟩ := h
      exact ihf htb hF.2.2 hz hkeeps

/-! ### Both -/

/-- The LLVM code reads no element that the C expression does not read. -/
def Guarded (ops : FloatOps F) (σ : Env F) (e : PrimExpr) : Prop :=
  ∀ V, CodeGenLLVM.GenExpr e = .ok V → ∀ x ∈ V.reads ops σ.toStore,
    x ∈ (CodeGenC.GenExpr e).reads ops CodeGenC.typing σ.toStore

/-- The element `i` of a buffer, if it is one of the first four. -/
def paddedLoad : PrimExpr :=
  .PredicatedLoad ⟨"data", .Float 32, 0⟩ (.Var ⟨"i", .Int 32, 0⟩)
    (.Binary .LT (.Var ⟨"i", .Int 32, 0⟩) (.IntImm 4 (.Int 32)))

end Kxc.Codegen
