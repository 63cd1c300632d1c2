import Kxc.Lib.Interleaving
import Kxc.Te.Expr
import Mathlib.Data.List.Nodup
import Mathlib.Logic.Function.Basic

/-! The schedule of an operation (`te/te.cc`): the primitives of a `Stage` edit the list of its leaf
iteration variables. Iteration variables are compared by address. -/

namespace Kxc.Te

/-- `IterVarType`. -/
inductive IterVarType where
  | kDataPar
  | kThreadIndex
  | kCommReduce
  | kOrdered
  | kOpaque
  | kVectorized
  | kParallel
  | kUnrolled
  deriving DecidableEq

/-- The fields of an `IterVarNode` that the primitives read or give; `name_hint` is that of its
variable. -/
structure IterVarNode where
  name_hint : String
  dom_extent : PrimExpr
  iter_type : IterVarType := .kDataPar

namespace Schedule

open Lib.Interleaving

/-- An `IterVar`, by the address of its node. -/
abbrev IterVar := Nat

/-! ### `ComputeOp` -/

/-- The expressions that `find_reduce` tells apart. -/
inductive Body where
  | reduce (axis : List IterVar) (source : List Body)
  | binary (a b : Body)
  | call (args : List Body)
  | select (condition true_value false_value : Body)
  | not (value : Body)
  | load (indices : List Body)
  | other

/-- The axes of a `Reduce` that were not found before. -/
def addAxes (reduce_axis axis : List IterVar) : List IterVar :=
  axis.foldl (fun found ax => if ax ∈ found then found else found ++ [ax]) reduce_axis

mutual

def find_reduce (reduce_axis : List IterVar) : Body → List IterVar
  | .reduce axis source => find_reduces (addAxes reduce_axis axis) source
  | .binary a b => find_reduce (find_reduce reduce_axis a) b
  | .call args => find_reduces reduce_axis args
  | .select condition true_value false_value =>
    find_reduce (find_reduce (find_reduce reduce_axis condition) true_value) false_value
  | .not value => find_reduce reduce_axis value
  | .load indices => find_reduces reduce_axis indices
  | .other => reduce_axis

/-- `find_reduce` of each expression of an array. -/
def find_reduces (reduce_axis : List IterVar) : List Body → List IterVar
  | [] => reduce_axis
  | e :: es => find_reduces (find_reduce reduce_axis e) es

end

/-- A `ComputeOp`: the names of its data axes, and its body. -/
structure ComputeOp where
  axis : List String
  body : List Body

def ComputeOp.reduce_axis (op : ComputeOp) : List IterVar := find_reduces [] op.body

/-! ### `Stage` -/

/-- A `StageNode`, the nodes of the iteration variables, and the next free address. -/
structure Stage where
  leaf_iter_vars : List IterVar
  all_iter_vars : List IterVar
  nodes : IterVar → IterVarNode
  next : Nat

/-- `IterVar(0, extent, kDataPar, "", name)`. -/
def Stage.newIterVar (s : Stage) (extent : PrimExpr) (name : String) : IterVar × Stage :=
  (s.next, { s with
    nodes := Function.update s.nodes s.next { name_hint := name, dom_extent := extent }
    next := s.next + 1 })

/-- A data axis of `Stage::Stage`. -/
def Stage.addDataAxis (s : Stage) (name : String) : Stage :=
  let (iv, s) := s.newIterVar (.int 0) name
  { s with leaf_iter_vars := s.leaf_iter_vars ++ [iv], all_iter_vars := s.all_iter_vars ++ [iv] }

/-- `Stage::Stage`. -/
def Stage.create (op : ComputeOp) (nodes : IterVar → IterVarNode) (next : Nat) : Stage :=
  let s := op.axis.foldl Stage.addDataAxis
    { leaf_iter_vars := [], all_iter_vars := [], nodes := nodes, next := next }
  { s with
    leaf_iter_vars := s.leaf_iter_vars ++ op.reduce_axis
    all_iter_vars := s.all_iter_vars ++ op.reduce_axis }

/-- The leaves of `split`. -/
def splitLeaves (leaves : List IterVar) (parent outer inner : IterVar) : List IterVar :=
  match leaves.idxOf? parent with
  | some idx => (leaves.set idx outer).insertIdx (idx + 1) inner
  | none => leaves

/-- `Stage::split`, with `*p_outer` and `*p_inner`. -/
def Stage.split (s : Stage) (parent : IterVar) (factor : PrimExpr) : (IterVar × IterVar) × Stage :=
  let (outer, s) := s.newIterVar (.int 0) ((s.nodes parent).name_hint ++ ".outer")
  let (inner, s) := s.newIterVar factor ((s.nodes parent).name_hint ++ ".inner")
  ((outer, inner), { s with
    leaf_iter_vars := splitLeaves s.leaf_iter_vars parent outer inner
    all_iter_vars := s.all_iter_vars ++ [outer, inner] })

/-- The leaves of `fuse`. -/
def fuseLeaves (leaves : List IterVar) (outer inner fused : IterVar) : List IterVar :=
  if outer ∈ leaves ∧ inner ∈ leaves then
    let leaves := leaves.erase inner
    match leaves.idxOf? outer with
    | some idx => leaves.set idx fused
    | none => leaves
  else leaves

/-- `Stage::fuse`. -/
def Stage.fuse (s : Stage) (outer inner : IterVar) : IterVar × Stage :=
  let (fused, s) := s.newIterVar (.int 0)
    ((s.nodes outer).name_hint ++ "." ++ (s.nodes inner).name_hint ++ ".fused")
  (fused, { s with
    leaf_iter_vars := fuseLeaves s.leaf_iter_vars outer inner fused
    all_iter_vars := s.all_iter_vars ++ [fused] })

/-- `Stage::reorder`. -/
def Stage.reorder (s : Stage) (order : List IterVar) : Stage := { s with leaf_iter_vars := order }

/-- The loop of `tile` over the leaves before it reordered them. -/
def tileLeaves (x_parent y_parent : IterVar) (current_leaves new_leaves : List IterVar) :
    List IterVar :=
  current_leaves.foldl
    (fun new_leaves iv =>
      if iv = x_parent ∨ iv = y_parent then new_leaves
      else if iv ∈ new_leaves then new_leaves else new_leaves ++ [iv])
    new_leaves

/-- `Stage::tile`, with what the two splits return. -/
def Stage.tile (s : Stage) (x_parent y_parent : IterVar) (x_factor y_factor : PrimExpr) :
    ((IterVar × IterVar) × (IterVar × IterVar)) × Stage :=
  let (x, s) := s.split x_parent x_factor
  let (y, s) := s.split y_parent y_factor
  let current_leaves := s.leaf_iter_vars
  let s := s.reorder [x.1, y.1, x.2, y.2]
  ((x, y), { s with leaf_iter_vars := tileLeaves x_parent y_parent current_leaves s.leaf_iter_vars })

/-! ### Runs -/

/-- What a split or a fusion did. -/
inductive Relation where
  | split (parent outer inner : IterVar)
  | fuse (outer inner fused : IterVar)

/-- Puts the parent in the place of the two parts of a split, and the two axes in the place of a fused
one. -/
def Relation.undo : Relation → List IterVar → List IterVar
  | split parent outer inner, vars =>
    if outer ∈ vars ∧ inner ∈ vars then parent :: (vars.erase outer).erase inner else vars
  | fuse outer inner fused, vars =>
    if fused ∈ vars then outer :: inner :: vars.erase fused else vars

/-- The variables that leaves stand for, through relations of which the last is the first of the
list. -/
def expand (relations : List Relation) (vars : List IterVar) : List IterVar :=
  relations.foldl (fun vars relation => relation.undo vars) vars

/-- A call of a primitive. -/
inductive Primitive where
  | split (parent : IterVar) (factor : PrimExpr)
  | fuse (outer inner : IterVar)
  | reorder (order : List IterVar)
  | tile (x_parent y_parent : IterVar) (x_factor y_factor : PrimExpr)

/-- A stage and what the calls on it did. -/
structure State where
  stage : Stage
  relations : List Relation := []

def State.apply (s : State) : Primitive → State
  | .split parent factor =>
    let ((outer, inner), stage) := s.stage.split parent factor
    { stage, relations := .split parent outer inner :: s.relations }
  | .fuse outer inner =>
    let (fused, stage) := s.stage.fuse outer inner
    { stage, relations := .fuse outer inner fused :: s.relations }
  | .reorder order => { s with stage := s.stage.reorder order }
  | .tile x_parent y_parent x_factor y_factor =>
    let ((x, y), stage) := s.stage.tile x_parent y_parent x_factor y_factor
    { stage, relations := .split y_parent y.1 y.2 :: .split x_parent x.1 x.2 :: s.relations }

/-- The arguments are current leaves; two of them are different, and an order holds every leaf
once. -/
def State.Admits (s : State) : Primitive → Prop
  | .split parent _ => parent ∈ s.stage.leaf_iter_vars
  | .fuse outer inner =>
    outer ∈ s.stage.leaf_iter_vars ∧ inner ∈ s.stage.leaf_iter_vars ∧ outer ≠ inner
  | .reorder order => order.Perm s.stage.leaf_iter_vars
  | .tile x_parent y_parent _ _ =>
    x_parent ∈ s.stage.leaf_iter_vars ∧ y_parent ∈ s.stage.leaf_iter_vars ∧ x_parent ≠ y_parent

/-! ### The reduction axes -/

theorem addAxes_nodup {found axis : List IterVar} (h : found.Nodup) : (addAxes found axis).Nodup := by
  induction axis generalizing found with
  | nil => exact h
  | cons ax axis ih =>
    refine ih ?_
    show (if ax ∈ found then found else found ++ [ax]).Nodup
    split
    · exact h
    · rename_i hnew
      exact List.nodup_append.mpr ⟨h, List.nodup_singleton _, fun a ha b hb => by
        rintro rfl
        exact hnew (List.mem_singleton.mp hb ▸ ha)⟩

mutual

theorem find_reduce_nodup {found : List IterVar} (h : found.Nodup) :
    (e : Body) → (find_reduce found e).Nodup
  | .reduce _ source => find_reduces_nodup (addAxes_nodup h) source
  | .binary a b => find_reduce_nodup (find_reduce_nodup h a) b
  | .call args => find_reduces_nodup h args
  | .select condition true_value false_value =>
    find_reduce_nodup (find_reduce_nodup (find_reduce_nodup h condition) true_value) false_value
  | .not value => find_reduce_nodup h value
  | .load indices => find_reduces_nodup h indices
  | .other => h

theorem find_reduces_nodup {found : List IterVar} (h : found.Nodup) :
    (es : List Body) → (find_reduces found es).Nodup
  | [] => h
  | e :: es => find_reduces_nodup (find_reduce_nodup h e) es

end

theorem addDataAxes (names : List String) (s : Stage) :
    (names.foldl Stage.addDataAxis s).leaf_iter_vars =
        s.leaf_iter_vars ++ List.range' s.next names.length ∧
      (names.foldl Stage.addDataAxis s).next = s.next + names.length := by
  induction names generalizing s with
  | nil => simp
  | cons name names ih =>
    obtain ⟨hleaves, hnext⟩ := ih (s.addDataAxis name)
    rw [List.foldl_cons, hleaves, hnext]
    simp [Stage.addDataAxis, Stage.newIterVar, List.range'_succ, Nat.add_assoc, Nat.add_comm 1]

/-- The data axes of an operation, whose nodes are allocated from an address on, and its reduction
axes. -/
def ComputeOp.roots (op : ComputeOp) (next : Nat) : List IterVar :=
  List.range' next op.axis.length ++ op.reduce_axis

theorem ComputeOp.roots_nodup {op : ComputeOp} {next : Nat}
    (h : ∀ iv ∈ op.reduce_axis, iv < next) : (op.roots next).Nodup :=
  List.nodup_append.mpr ⟨List.nodup_range', find_reduces_nodup List.nodup_nil op.body,
    fun _ ha b hb => Nat.ne_of_gt (Nat.lt_of_lt_of_le (h b hb) (List.mem_range'_1.mp ha).1)⟩

/-! ### What a primitive makes of the leaves -/

section Leaves

variable {leaves current before after : List IterVar} {parent outer inner fused x y : IterVar}

theorem idxOf?_append (h : parent ∉ before) :
    (before ++ parent :: after).idxOf? parent = some before.length := by
  induction before with
  | nil => simp [List.idxOf?_cons]
  | cons a before ih =>
    obtain ⟨hne, hbefore⟩ := not_or.mp (List.mem_cons.not.mp h)
    rw [List.cons_append, List.idxOf?_cons, ih hbefore, beq_false_of_ne (Ne.symm hne)]
    rfl

theorem insert_after : ((before ++ parent :: after).set before.length outer).insertIdx
    (before.length + 1) inner = before ++ outer :: inner :: after := by
  induction before with
  | nil => rfl
  | cons a before ih => exact congrArg (a :: ·) ih

theorem splitLeaves_perm (h : parent ∈ leaves) :
    (splitLeaves leaves parent outer inner).Perm (outer :: inner :: leaves.erase parent) := by
  obtain ⟨before, after, rfl, hbefore⟩ := List.eq_append_cons_of_mem h
  rw [splitLeaves, idxOf?_append hbefore, List.erase_append_right _ hbefore,
    List.erase_cons_head]
  show (((before ++ parent :: after).set before.length outer).insertIdx _ inner).Perm _
  rw [insert_after]
  exact List.perm_middle.trans (List.perm_middle.cons outer)

theorem fuseLeaves_perm (houter : outer ∈ leaves) (hinner : inner ∈ leaves) (hne : outer ≠ inner) :
    (fuseLeaves leaves outer inner fused).Perm (fused :: (leaves.erase inner).erase outer) := by
  have hrest : outer ∈ leaves.erase inner := (List.mem_erase_of_ne hne).mpr houter
  obtain ⟨before, after, heq, hbefore⟩ := List.eq_append_cons_of_mem hrest
  simp only [fuseLeaves, houter, hinner, and_self, if_true, heq, idxOf?_append hbefore]
  rw [List.erase_append_right _ hbefore, List.erase_cons_head]
  rw [List.set_append_right _ _ (Nat.le_refl _), Nat.sub_self, List.set_cons_zero]
  exact List.perm_middle

theorem tileLeaves_cons (iv : IterVar) : tileLeaves x y (iv :: current) leaves =
    tileLeaves x y current (if iv = x ∨ iv = y then leaves
      else if iv ∈ leaves then leaves else leaves ++ [iv]) := rfl

/-- The loop of `tile` adds the leaves that are missing. -/
theorem tileLeaves_spec (hleaves : leaves.Nodup) (hx : x ∉ current) (hy : y ∉ current) :
    (tileLeaves x y current leaves).Nodup ∧
      ∀ iv, iv ∈ tileLeaves x y current leaves ↔ iv ∈ leaves ∨ iv ∈ current := by
  induction current generalizing leaves with
  | nil => exact ⟨hleaves, fun iv => by simp [tileLeaves]⟩
  | cons a current ih =>
    obtain ⟨hax, hx⟩ := not_or.mp (List.mem_cons.not.mp hx)
    obtain ⟨hay, hy⟩ := not_or.mp (List.mem_cons.not.mp hy)
    rw [tileLeaves_cons, if_neg (not_or.mpr ⟨Ne.symm hax, Ne.symm hay⟩)]
    split
    · rename_i ha
      obtain ⟨hnodup, hmem⟩ := ih hleaves hx hy
      refine ⟨hnodup, fun iv => ?_⟩
      rw [hmem, List.mem_cons]
      constructor
      · exact Or.imp_right .inr
      · rintro (h | rfl | h)
        · exact .inl h
        · exact .inl ha
        · exact .inr h
    · rename_i ha
      have hleaves' : (leaves ++ [a]).Nodup :=
        List.nodup_append.mpr ⟨hleaves, List.nodup_singleton _, fun b hb c hc heq =>
          ha (List.mem_singleton.mp hc ▸ heq ▸ hb)⟩
      obtain ⟨hnodup, hmem⟩ := ih hleaves' hx hy
      refine ⟨hnodup, fun iv => ?_⟩
      rw [hmem, List.mem_append, List.mem_singleton, List.mem_cons, or_assoc]

/-- The loop of `tile` puts back the leaves that are missing. -/
theorem tileLeaves_perm (hcurrent : current.Nodup) (hleaves : leaves.Nodup)
    (hsub : leaves ⊆ current) (hx : x ∉ current) (hy : y ∉ current) :
    (tileLeaves x y current leaves).Perm current := by
  obtain ⟨hnodup, hmem⟩ := tileLeaves_spec hleaves hx hy
  refine (List.perm_ext_iff_of_nodup hnodup hcurrent).mpr fun iv => ?_
  rw [hmem]
  exact or_iff_right_of_imp fun h => hsub h

end Leaves

/-! ### The invariant -/

theorem Relation.undo_perm (relation : Relation) {vars vars' : List IterVar} (h : vars.Perm vars') :
    (relation.undo vars).Perm (relation.undo vars') := by
  cases relation with
  | split parent outer inner =>
    simp only [undo, h.mem_iff]
    split
    · exact ((h.erase outer).erase inner).cons parent
    · exact h
  | fuse outer inner fused =>
    simp only [undo, h.mem_iff]
    split
    · exact ((h.erase fused).cons inner).cons outer
    · exact h

theorem undo_split {parent outer inner : IterVar} {vars rest : List IterVar}
    (h : vars.Perm (outer :: inner :: rest)) :
    ((Relation.split parent outer inner).undo vars).Perm (parent :: rest) := by
  refine (Relation.undo_perm _ h).trans ?_
  rw [Relation.undo, if_pos ⟨List.mem_cons_self, List.mem_cons_of_mem _ List.mem_cons_self⟩,
    List.erase_cons_head, List.erase_cons_head]

theorem undo_fuse {outer inner fused : IterVar} {vars rest : List IterVar}
    (h : vars.Perm (fused :: rest)) :
    ((Relation.fuse outer inner fused).undo vars).Perm (outer :: inner :: rest) := by
  refine (Relation.undo_perm _ h).trans ?_
  rw [Relation.undo, if_pos List.mem_cons_self, List.erase_cons_head]

theorem expand_perm (relations : List Relation) {vars vars' : List IterVar} (h : vars.Perm vars') :
    (expand relations vars).Perm (expand relations vars') := by
  induction relations generalizing vars vars' with
  | nil => exact h
  | cons relation relations ih => exact ih (relation.undo_perm h)

/-- The leaves are allocated and different, and stand for the axes. -/
structure State.Inv (s : State) (roots : List IterVar) : Prop where
  nodup : s.stage.leaf_iter_vars.Nodup
  allocated : ∀ iv ∈ s.stage.leaf_iter_vars, iv < s.stage.next
  frontier : (expand s.relations s.stage.leaf_iter_vars).Perm roots

section Invariant

variable {s : State} {roots : List IterVar}

/-- Leaves that a relation leads back to those of before stand for the same axes. -/
theorem State.Inv.frontier_cons (h : s.Inv roots) {relation : Relation} {leaves : List IterVar}
    (hundo : (relation.undo leaves).Perm s.stage.leaf_iter_vars) :
    (expand (relation :: s.relations) leaves).Perm roots :=
  (expand_perm s.relations hundo).trans h.frontier

theorem State.Inv.fresh (h : s.Inv roots) {iv : IterVar} (hiv : s.stage.next ≤ iv) :
    iv ∉ s.stage.leaf_iter_vars := fun hmem => Nat.not_le.mpr (h.allocated iv hmem) hiv

theorem State.Inv.split (h : s.Inv roots) {parent : IterVar} (factor : PrimExpr)
    (hparent : parent ∈ s.stage.leaf_iter_vars) : (s.apply (.split parent factor)).Inv roots := by
  have hperm : (s.apply (.split parent factor)).stage.leaf_iter_vars.Perm
      (s.stage.next :: (s.stage.next + 1) :: s.stage.leaf_iter_vars.erase parent) :=
    splitLeaves_perm hparent
  have hfresh {iv : IterVar} (hiv : s.stage.next ≤ iv) :
      iv ∉ s.stage.leaf_iter_vars.erase parent := fun hmem => h.fresh hiv (List.mem_of_mem_erase hmem)
  refine ⟨hperm.nodup_iff.mpr ?_, fun iv hiv => ?_, ?_⟩
  · refine List.nodup_cons.mpr ⟨?_, List.nodup_cons.mpr ⟨hfresh (Nat.le_succ _), h.nodup.erase _⟩⟩
    exact List.mem_cons.not.mpr (not_or.mpr ⟨Nat.ne_of_lt (Nat.lt_succ_self _), hfresh (Nat.le_refl _)⟩)
  · show iv < s.stage.next + 1 + 1
    rcases List.mem_cons.mp (hperm.mem_iff.mp hiv) with rfl | hiv
    · exact Nat.lt_succ_of_lt (Nat.lt_succ_self _)
    rcases List.mem_cons.mp hiv with rfl | hiv
    · exact Nat.lt_succ_self _
    · exact Nat.lt_succ_of_lt (Nat.lt_succ_of_lt (h.allocated iv (List.mem_of_mem_erase hiv)))
  · exact h.frontier_cons ((undo_split hperm).trans (List.perm_cons_erase hparent).symm)

theorem State.Inv.fuse (h : s.Inv roots) {outer inner : IterVar}
    (hadmits : s.Admits (.fuse outer inner)) : (s.apply (.fuse outer inner)).Inv roots := by
  obtain ⟨houter, hinner, hne⟩ := hadmits
  have hperm : (s.apply (.fuse outer inner)).stage.leaf_iter_vars.Perm
      (s.stage.next :: (s.stage.leaf_iter_vars.erase inner).erase outer) :=
    fuseLeaves_perm houter hinner hne
  have hsub {iv : IterVar} (hiv : iv ∈ (s.stage.leaf_iter_vars.erase inner).erase outer) :
      iv ∈ s.stage.leaf_iter_vars := List.mem_of_mem_erase (List.mem_of_mem_erase hiv)
  have hrest : outer ∈ s.stage.leaf_iter_vars.erase inner := (List.mem_erase_of_ne hne).mpr houter
  refine ⟨hperm.nodup_iff.mpr ?_, fun iv hiv => ?_, ?_⟩
  · exact List.nodup_cons.mpr ⟨fun hiv => h.fresh (Nat.le_refl _) (hsub hiv),
      (h.nodup.erase _).erase _⟩
  · show iv < s.stage.next + 1
    rcases List.mem_cons.mp (hperm.mem_iff.mp hiv) with rfl | hiv
    · exact Nat.lt_succ_self _
    · exact Nat.lt_succ_of_lt (h.allocated iv (hsub hiv))
  · refine h.frontier_cons ((undo_fuse hperm).trans ?_)
    refine (List.Perm.swap inner outer _).trans ?_
    exact (((List.perm_cons_erase hrest).symm.cons inner).trans (List.perm_cons_erase hinner).symm)

theorem State.Inv.reorder (h : s.Inv roots) {order : List IterVar}
    (horder : order.Perm s.stage.leaf_iter_vars) : (s.apply (.reorder order)).Inv roots where
  nodup := horder.nodup_iff.mpr h.nodup
  allocated iv hiv := h.allocated iv (horder.mem_iff.mp hiv)
  frontier := (expand_perm s.relations horder).trans h.frontier

/-- `tile` is two splits and an order of all leaves. -/
theorem State.apply_tile (x y : IterVar) (x_factor y_factor : PrimExpr) :
    let s' := (s.apply (.split x x_factor)).apply (.split y y_factor)
    s.apply (.tile x y x_factor y_factor) = s'.apply (.reorder (tileLeaves x y
      s'.stage.leaf_iter_vars [s.stage.next, s.stage.next + 2, s.stage.next + 1,
        s.stage.next + 3])) := rfl

theorem State.Inv.tile (h : s.Inv roots) {x y : IterVar} (x_factor y_factor : PrimExpr)
    (hadmits : s.Admits (.tile x y x_factor y_factor)) :
    (s.apply (.tile x y x_factor y_factor)).Inv roots := by
  obtain ⟨hx, hy, hne⟩ := hadmits
  have hxperm : (s.apply (.split x x_factor)).stage.leaf_iter_vars.Perm
      (s.stage.next :: (s.stage.next + 1) :: s.stage.leaf_iter_vars.erase x) := splitLeaves_perm hx
  have hy' : y ∈ (s.apply (.split x x_factor)).stage.leaf_iter_vars :=
    hxperm.mem_iff.mpr (List.mem_cons_of_mem _ (List.mem_cons_of_mem _
      ((List.mem_erase_of_ne hne.symm).mpr hy)))
  have hsplit := (h.split x_factor hx).split y_factor hy'
  have hyperm : ((s.apply (.split x x_factor)).apply (.split y y_factor)).stage.leaf_iter_vars.Perm
      ((s.stage.next + 2) :: (s.stage.next + 3) ::
        (s.apply (.split x x_factor)).stage.leaf_iter_vars.erase y) := splitLeaves_perm hy'
  rw [State.apply_tile]
  have hfresh {iv k : IterVar} (hiv : iv ∈ s.stage.leaf_iter_vars) : s.stage.next + k ≠ iv :=
    fun heq => h.fresh (heq ▸ Nat.le_add_right _ _) hiv
  have hnotMem : x ∉ (s.apply (.split x x_factor)).stage.leaf_iter_vars := fun hmem => by
    rcases List.mem_cons.mp (hxperm.mem_iff.mp hmem) with heq | hmem
    · exact @hfresh x 0 hx heq.symm
    rcases List.mem_cons.mp hmem with heq | hmem
    · exact hfresh hx heq.symm
    · exact h.nodup.not_mem_erase hmem
  have hnew {iv : IterVar} (hiv : iv = s.stage.next ∨ iv = s.stage.next + 1) :
      iv ∈ (s.apply (.split x x_factor)).stage.leaf_iter_vars.erase y := by
    have hmem : iv ∈ (s.apply (.split x x_factor)).stage.leaf_iter_vars :=
      hxperm.mem_iff.mpr (by rcases hiv with rfl | rfl <;> simp)
    refine (List.mem_erase_of_ne ?_).mpr hmem
    rcases hiv with rfl | rfl
    · exact @hfresh y 0 hy
    · exact hfresh hy
  refine hsplit.reorder (tileLeaves_perm hsplit.nodup (by simp) ?_ ?_ ?_)
  · intro iv hiv
    refine hyperm.mem_iff.mpr ?_
    simp only [List.mem_cons, List.not_mem_nil, or_false] at hiv ⊢
    rcases hiv with heq | heq | heq | heq
    · exact .inr (.inr (hnew (.inl heq)))
    · exact .inl heq
    · exact .inr (.inr (hnew (.inr heq)))
    · exact .inr (.inl heq)
  · intro hmem
    rcases List.mem_cons.mp (hyperm.mem_iff.mp hmem) with heq | hmem
    · exact hfresh hx heq.symm
    rcases List.mem_cons.mp hmem with heq | hmem
    · exact hfresh hx heq.symm
    · exact hnotMem (List.mem_of_mem_erase hmem)
  · intro hmem
    rcases List.mem_cons.mp (hyperm.mem_iff.mp hmem) with heq | hmem
    · exact hfresh hy heq.symm
    rcases List.mem_cons.mp hmem with heq | hmem
    · exact hfresh hy heq.symm
    · exact (h.split x_factor hx).nodup.not_mem_erase hmem

theorem State.Inv.apply (h : s.Inv roots) {p : Primitive} (hadmits : s.Admits p) :
    (s.apply p).Inv roots := by
  cases p with
  | split parent factor => exact h.split factor hadmits
  | fuse outer inner => exact h.fuse hadmits
  | reorder order => exact h.reorder hadmits
  | tile x y x_factor y_factor => exact h.tile x_factor y_factor hadmits

end Invariant

/-- The schedule of an operation before any call. -/
def start (op : ComputeOp) (nodes : IterVar → IterVarNode) (next : Nat) : State where
  stage := .create op nodes next

theorem start_inv {op : ComputeOp} {nodes : IterVar → IterVarNode} {next : Nat}
    (h : ∀ iv ∈ op.reduce_axis, iv < next) : (start op nodes next).Inv (op.roots next) := by
  obtain ⟨hleaves, hnext⟩ := addDataAxes op.axis
    { leaf_iter_vars := [], all_iter_vars := [], nodes := nodes, next := next }
  have hroots : (start op nodes next).stage.leaf_iter_vars = op.roots next :=
    congrArg (· ++ op.reduce_axis) hleaves
  refine ⟨hroots ▸ ComputeOp.roots_nodup h, fun iv hiv => ?_, hroots ▸ .refl _⟩
  rw [hroots] at hiv
  show iv < (op.axis.foldl Stage.addDataAxis _).next
  rw [hnext]
  rcases List.mem_append.mp hiv with hiv | hiv
  · exact (List.mem_range'_1.mp hiv).2
  · exact Nat.lt_of_lt_of_le (h iv hiv) (Nat.le_add_right _ _)

/-- A matrix product: two data axes and a reduction axis, which is found twice. -/
def product : ComputeOp where
  axis := ["ax0", "ax1"]
  body := [.binary (.reduce [0] [.load [.other, .other]]) (.reduce [0] [.other])]

def productStart : State :=
  start product (fun _ => { name_hint := "k", dom_extent := .int 8, iter_type := .kCommReduce }) 1

end Schedule

end Kxc.Te
