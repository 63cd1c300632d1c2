import Kxc.Te.Meaning
import Kxc.Te.Topi

/-! Reductions over some of the axes of a tensor (`comm_reduce`): which elements of the input each
element of the output is reduced from. -/

namespace Kxc.Te

open Lib.MachineNumber Lib.IndexSpace
open Tir (DataType Var)

/-- The axes that are not reduced, held at coordinates. -/
def heldAxes (reduced : Nat → Bool) (coordinate : Nat → Int) (i n : Nat) : Held :=
  (List.range' i n).map fun j => if reduced j then none else some (coordinate j)

theorem heldAxes_succ {reduced : Nat → Bool} {coordinate : Nat → Int} {i n : Nat} :
    heldAxes reduced coordinate i (n + 1) =
      (if reduced i then none else some (coordinate i)) ::
        heldAxes reduced coordinate (i + 1) n := by
  rw [heldAxes, List.range'_succ, List.map_cons]
  rfl

/-- How many axes before `i` are not reduced. -/
def keptBefore (reduced : Nat → Bool) (i : Nat) : Nat :=
  ((List.range i).filter fun j => !reduced j).length

theorem keptBefore_succ (reduced : Nat → Bool) (i : Nat) :
    keptBefore reduced (i + 1) = keptBefore reduced i + if reduced i then 0 else 1 := by
  rw [keptBefore, keptBefore, List.range_succ, List.filter_append, List.length_append]
  cases h : reduced i <;> simp [h]

theorem keptBefore_mono {reduced : Nat → Bool} {i j : Nat} (h : i ≤ j) :
    keptBefore reduced i ≤ keptBefore reduced j := by
  induction h with
  | refl => exact Nat.le_refl _
  | step _ ih =>
    rw [keptBefore_succ]
    omega

theorem keptBefore_le (reduced : Nat → Bool) (i : Nat) : keptBefore reduced i ≤ i :=
  (List.length_filter_le _ _).trans (List.length_range).le

/-- A reduced axis leaves fewer kept ones before those that follow it. -/
theorem keptBefore_lt {reduced : Nat → Bool} {p i : Nat} (hp : reduced p = true) (hpi : p < i) :
    keptBefore reduced i < i := by
  have hlt := List.length_filter_lt_length_iff_exists (l := List.range i)
    (p := fun j => !reduced j) |>.mpr ⟨p, List.mem_range.mpr hpi, by simp [hp]⟩
  rwa [List.length_range] at hlt

/-- Without a reduced axis before it, an axis comes at its own place. -/
theorem keptBefore_eq {reduced : Nat → Bool} {i : Nat} (h : ∀ p < i, reduced p = false) :
    keptBefore reduced i = i := by
  have hall : (List.range i).filter (fun j => !reduced j) = List.range i :=
    List.filter_eq_self.mpr fun j hj => by simp [h j (List.mem_range.mp hj)]
  rw [keptBefore, hall, List.length_range]

theorem keptBefore_congr {reduced reduced' : Nat → Bool} {i : Nat}
    (h : ∀ j < i, reduced j = reduced' j) : keptBefore reduced i = keptBefore reduced' i :=
  congrArg List.length (List.filter_congr fun j hj => by rw [h j (List.mem_range.mp hj)])

theorem heldAxes_congr {reduced reduced' : Nat → Bool} {c c' : Nat → Int} {n : Nat}
    (h : ∀ j < n, reduced j = reduced' j) (hc : ∀ j < n, reduced j = false → c j = c' j) :
    heldAxes reduced c 0 n = heldAxes reduced' c' 0 n := by
  refine List.map_congr_left fun j hj => ?_
  have hj : j < n := by simpa using hj
  rw [← h j hj]
  cases hr : reduced j with
  | true => rfl
  | false => simp [hc j hj hr]

namespace Topi

/-- An axis is among those that a list names. -/
def namesAxis (ndim : Nat) (axis : List Int) (i : Nat) : Bool :=
  axis.isEmpty || axis.any fun a : Int => a == i || a + ndim == i

theorem mem_GetRealAxis {ndim i : Nat} {axis : List Int} (hi : i < ndim) :
    i ∈ GetRealAxis ndim axis ↔ namesAxis ndim axis i = true := by
  rw [GetRealAxis, namesAxis]
  cases haxis : axis.isEmpty with
  | true => simpa using hi
  | false =>
    simp only [Bool.false_eq_true, if_false, List.mem_mergeSort, List.mem_filterMap,
      Bool.false_or, List.any_eq_true, Bool.or_eq_true, beq_iff_eq]
    refine exists_congr fun a => and_congr_right fun _ => ?_
    split
    · split
      · simp only [Option.some.injEq]
        omega
      · simp only [reduceCtorEq, false_iff]
        omega
    · split
      · simp only [Option.some.injEq]
        omega
      · simp only [reduceCtorEq, false_iff]
        omega

/-! ### The loops -/

section Loops

variable {reduce_set : List Nat} {vars : List Var} {idx is : List Int} {i k n : Nat}

theorem reduceVar_ne {s : String} (h : s.toList.head? ≠ some 'k') (i : Nat) :
    intVar s!"k{i}" ≠ intVar s :=
  numbered_ne (by simp : "k".toList.head? = _) h i

theorem reduceAxes_vars (shape : List PrimExpr) :
    (reduceAxes reduce_set i k shape).map IterVar.var =
      (List.range' k (reduceAxes reduce_set i k shape).length).map fun j => intVar s!"k{j}" := by
  induction shape generalizing i k with
  | nil => rfl
  | cons dim dims ih =>
    rw [reduceAxes]
    split
    · rw [List.map_cons, List.length_cons, List.range'_succ, List.map_cons, ih]
      rfl
    · exact ih

theorem reduceVar_injective : Function.Injective fun j : Nat => intVar s!"k{j}" :=
  intVar_injective.comp fun _ _ h => Nat.repr_injective (String.append_right_inj _ |>.mp h)

/-- The variables of an output index and of the axes that are reduced. -/
theorem bind_reduceAxes {shape : List PrimExpr} (hidx : idx.length = n)
    (his : is.length = (reduceAxes reduce_set 0 0 shape).length) :
    let axes := reduceAxes reduce_set 0 0 shape
    let ρ := bind (axes.map IterVar.var) is (bind (axisVars n) idx fun _ => 0)
    (∀ c, ρ ((axisVars n).getD c (intVar "")) = idx.getD c 0) ∧
      ∀ j, ρ (axes.getD j (reduce_axis (.int 0) (.int 0) "rv")).var = is.getD j 0 := by
  intro axes ρ
  have hvars : axes.map IterVar.var = (List.range axes.length).map fun j => intVar s!"k{j}" := by
    rw [List.range_eq_range']
    exact reduceAxes_vars shape
  have hreduce {v : Var} (h : ∀ j : Nat, intVar s!"k{j}" ≠ v) :
      ρ v = bind (axisVars n) idx (fun _ => 0) v := by
    refine bind_of_notMem ?_
    rw [hvars, List.mem_map]
    rintro ⟨j, -, hj⟩
    exact h j hj
  have haxis {v : Var} (h : ∀ c : Nat, intVar s!"ax{c}" ≠ v) :
      bind (axisVars n) idx (fun _ => 0) v = 0 := by
    refine bind_of_notMem ?_
    rw [axisVars, List.mem_map]
    rintro ⟨c, -, hc⟩
    exact h c hc
  have hblank (s : String) (ha : s.toList.head? ≠ some 'a') (hk : s.toList.head? ≠ some 'k') :
      ρ (intVar s) = 0 := (hreduce (reduceVar_ne hk)).trans (haxis (axisVar_ne ha))
  refine ⟨fun c => ?_, fun j => ?_⟩
  · by_cases hc : c < n
    · have hget : (axisVars n).getD c (intVar "") = intVar s!"ax{c}" := by
        simp [axisVars, hc]
      have hne (j : Nat) : (s!"ax{c}").toList.head? ≠ some 'k' := by
        show ("ax" ++ toString c).toList.head? ≠ _
        simp
      rw [hget, hreduce fun j => reduceVar_ne (hne j) j]
      exact bind_axisVars hidx hc
    · have hget : (axisVars n).getD c (intVar "") = intVar "" := by
        simp [axisVars, hc]
      rw [hget, hblank "" (by simp) (by simp), List.getD_eq_getElem?_getD,
        List.getElem?_eq_none (by omega), Option.getD_none]
  · by_cases hj : j < axes.length
    · have hget : (axes.getD j (reduce_axis (.int 0) (.int 0) "rv")).var = intVar s!"k{j}" := by
        have hj' : j < (axes.map IterVar.var).length := by simpa using hj
        have := List.getElem_of_eq hvars hj'
        rw [List.getElem_map, List.getElem_map, List.getElem_range] at this
        rw [← this, List.getElem_eq_getD (reduce_axis (.int 0) (.int 0) "rv")]
      rw [hget]
      show bind (axes.map IterVar.var) is _ _ = _
      rw [hvars]
      exact bind_map_range reduceVar_injective his hj
    · have hget : axes.getD j (reduce_axis (.int 0) (.int 0) "rv") =
          reduce_axis (.int 0) (.int 0) "rv" := by
        simp [show axes.length ≤ j by omega]
      rw [hget, List.getD_eq_getElem?_getD,
        List.getElem?_eq_none (his ▸ Nat.le_of_not_lt hj), Option.getD_none]
      exact hblank "rv" (by simp) (by simp)

variable {F : Type} {ops : FloatOps F} {inputs : String → List Int → Scalar F} {ρ : Var → Int}

/-- Where the input of a reduction is read. -/
theorem indices_evalIndices {axes : List IterVar}
    (hvars : ∀ c, ρ (vars.getD c (intVar "")) = idx.getD c 0)
    (haxes : ∀ j, ρ (axes.getD j (reduce_axis (.int 0) (.int 0) "rv")).var = is.getD j 0) :
    let reduced := fun j => decide (j ∈ reduce_set)
    PrimExpr.indices ops inputs ρ
        (evalIndices reduce_set vars axes n i (keptBefore reduced i) k) =
      Held.fill (heldAxes reduced (fun j => idx.getD (keptBefore reduced j) 0) i n)
        (is.drop k) := by
  intro reduced
  induction n generalizing i k with
  | zero => rfl
  | succ n ih =>
    rw [heldAxes_succ, evalIndices]
    have hstep := keptBefore_succ reduced i
    by_cases hi : i ∈ reduce_set
    · have hred : reduced i = true := decide_eq_true hi
      simp only [hred, if_true, Nat.add_zero] at hstep
      rw [if_pos hi, hred, if_pos rfl, PrimExpr.indices, ← hstep, ih, Held.fill]
      congr 1
      · show ρ _ = _
        rw [haxes, List.headD_eq_head?_getD, List.head?_drop]
        rfl
      · rw [List.tail_drop]
    · have hred : reduced i = false := decide_eq_false hi
      simp only [hred, Bool.false_eq_true, if_false] at hstep
      rw [if_neg hi, hred, if_neg Bool.false_ne_true, PrimExpr.indices, ← hstep, ih, Held.fill]
      congr 1
      exact hvars _

/-- The extents of the axes that are reduced. -/
theorem extents_reduceAxes (shape : List PrimExpr) (coordinate : Nat → Int) :
    IterVar.extents ops inputs ρ (reduceAxes reduce_set i k shape) =
      Held.free (heldAxes (fun j => decide (j ∈ reduce_set)) coordinate i shape.length)
        (PrimExpr.indices ops inputs ρ shape) := by
  induction shape generalizing i k with
  | nil => rfl
  | cons dim dims ih =>
    rw [List.length_cons, heldAxes_succ, reduceAxes, PrimExpr.indices]
    by_cases hi : i ∈ reduce_set
    · rw [if_pos hi, IterVar.extents, ih, decide_eq_true hi, if_pos rfl, Held.free]
      rfl
    · rw [if_neg hi, ih, decide_eq_false hi, if_neg Bool.false_ne_true, Held.free]

theorem mins_reduceAxes (shape : List PrimExpr) :
    IterVar.mins ops inputs ρ (reduceAxes reduce_set i k shape) =
      List.replicate (reduceAxes reduce_set i k shape).length 0 := by
  induction shape generalizing i k with
  | nil => rfl
  | cons dim dims ih =>
    rw [reduceAxes]
    split
    · rw [IterVar.mins, ih, List.length_cons, List.replicate_succ]
      congr 1
    · exact ih

theorem extents_length (axes : List IterVar) :
    (IterVar.extents ops inputs ρ axes).length = axes.length := by
  induction axes with
  | nil => rfl
  | cons ax axes ih => rw [IterVar.extents, List.length_cons, List.length_cons, ih]

end Loops

/-- A reduction of a type, as the combiner of `comm_reduce`. -/
def combiner (type : ReduceType) (expr : PrimExpr) (axis : List IterVar) : PrimExpr :=
  .Reduce axis expr type

section Element

variable {F : Type} {ops : FloatOps F} {inputs : String → List Int → Scalar F} {data : Tensor}
  {axis : List Int} {keepdims : Bool} {type : ReduceType} {name : String} {dims idx : List Int}

/-- The axes that `comm_reduce` does not reduce, at the coordinates where it reads the input: each
has the next coordinate of the output index. -/
def readAxes (axis : List Int) (ndim : Nat) (idx : List Int) : Held :=
  heldAxes (namesAxis ndim axis) (fun i => idx.getD (keptBefore (namesAxis ndim axis) i) 0) 0 ndim

theorem comm_reduce_element (hdims : HasDims ops inputs data dims)
    (hidx : idx.length = (comm_reduce data axis keepdims (combiner type) name).shape.length) :
    (comm_reduce data axis keepdims (combiner type) name).element ops inputs idx =
      type.reduce ops data.dtype data.dtype.floatFormat
        ((indexSpace (Held.free (readAxes axis dims.length idx) dims)).map fun is =>
          data.element ops inputs (Held.fill (readAxes axis dims.length idx) is)) := by
  have hlen : data.shape.length = dims.length := by
    exact hdims.length_eq
  let set := GetRealAxis data.shape.length axis
  let reduced := fun j => decide (j ∈ set)
  have hreduced (j : Nat) (hj : j < dims.length) : reduced j = namesAxis dims.length axis j := by
    have hmem := @mem_GetRealAxis _ _ axis (hlen ▸ hj)
    rw [hlen] at hmem
    exact (Bool.eq_iff_iff.mpr (by simpa [reduced, set, hlen] using hmem))
  have hread : readAxes axis dims.length idx =
      heldAxes reduced (fun i => idx.getD (keptBefore reduced i) 0) 0 data.shape.length := by
    rw [hlen]
    refine (heldAxes_congr hreduced fun j hj _ => ?_).symm
    rw [keptBefore_congr fun p hp => hreduced p (by omega)]
  have hextents (ρ : Var → Int) : IterVar.extents ops inputs ρ (reduceAxes set 0 0 data.shape) =
      Held.free (readAxes axis dims.length idx) dims := by
    rw [hread, extents_reduceAxes data.shape, indices_extents hdims]
  show type.reduce ops data.dtype data.dtype.floatFormat (((indexSpace (IterVar.extents ops inputs
    _ (reduceAxes set 0 0 data.shape))).map (List.zipWith (· + ·) (IterVar.mins ops inputs _
      (reduceAxes set 0 0 data.shape)))).map fun is => data.element ops inputs _) = _
  rw [hextents, mins_reduceAxes, List.map_map]
  congr 1
  refine List.map_congr_left fun is his => ?_
  have hlength : is.length = (reduceAxes set 0 0 data.shape).length := by
    rw [length_of_mem_indexSpace his, ← hextents fun _ => 0, extents_length]
  obtain ⟨hvars, haxes⟩ := bind_reduceAxes hidx hlength
  have hread' := @indices_evalIndices set _ idx is 0 0 data.shape.length F ops inputs _
    (reduceAxes set 0 0 data.shape) hvars haxes
  rw [Function.comp_apply, zipWith_replicate_zero is hlength, hread, ← List.drop_zero (l := is)]
  exact congrArg (data.element ops inputs) hread'

end Element

/-! ### What a reduction is -/

/-- The extents of the output. -/
def reducedDims (reduced : Nat → Bool) (keepdims : Bool) (i : Nat) : List Int → List Int
  | [] => []
  | n :: dims =>
    (if reduced i then if keepdims then [1] else [] else [n]) ++
      reducedDims reduced keepdims (i + 1) dims

/-- The axis of the output that an axis of the input becomes. -/
def outputAxis (reduced : Nat → Bool) (keepdims : Bool) (i : Nat) : Nat :=
  if keepdims then i else keptBefore reduced i

/-- The indices of the input that an element of the output is the reduction of: each axis that is not
reduced has its coordinate in the output. -/
def reducedFrom (dims : List Int) (axis : List Int) (keepdims : Bool) (idx : List Int) :
    List (List Int) :=
  let reduced := namesAxis dims.length axis
  (indexSpace dims).filter fun j => decide (∀ i < dims.length, reduced i = false →
    j.getD i 0 = idx.getD (outputAxis reduced keepdims i) 0)

section Reduction

variable {reduced : Nat → Bool} {keepdims : Bool} {c : Nat → Int} {dims idx : List Int} {i k n : Nat}

theorem length_reducedDims : (reducedDims reduced true i dims).length = dims.length := by
  induction dims generalizing i with
  | nil => rfl
  | cons n dims ih => cases hr : reduced i <;> simp [reducedDims, hr, ih]

theorem getD_reducedDims (hk : k < dims.length) :
    (reducedDims reduced true i dims).getD k 0 = if reduced (i + k) then 1 else dims.getD k 0 := by
  induction dims generalizing i k with
  | nil => exact absurd hk (Nat.not_lt_zero k)
  | cons n dims ih =>
    have hcons : reducedDims reduced true i (n :: dims) =
        (if reduced i then 1 else n) :: reducedDims reduced true (i + 1) dims := by
      cases hr : reduced i <;> simp [reducedDims, hr]
    rw [hcons]
    cases k with
    | zero => simp
    | succ k =>
      have := @ih (i + 1) k (Nat.lt_of_succ_lt_succ hk)
      rwa [Nat.add_right_comm] at this

/-- An output index with all axes is below the extents, and 0 along the reduced ones. -/
theorem inBounds_keepdims (h : InBounds idx (reducedDims reduced true i dims))
    (hk : k < dims.length) :
    0 ≤ idx.getD k 0 ∧ idx.getD k 0 < if reduced (i + k) then 1 else dims.getD k 0 := by
  have hbound := (inBounds_iff.mp h).2 k (by rwa [length_reducedDims])
  rwa [getD_reducedDims hk] at hbound

/-- An output index without the reduced axes is below the extents of the others, in their order. -/
theorem inBounds_kept (h : InBounds idx (reducedDims reduced false i dims))
    (hk : k < dims.length) (hkept : reduced (i + k) = false) :
    0 ≤ idx.getD (keptBefore reduced (i + k) - keptBefore reduced i) 0 ∧
      idx.getD (keptBefore reduced (i + k) - keptBefore reduced i) 0 < dims.getD k 0 := by
  induction dims generalizing idx i k with
  | nil => exact absurd hk (Nat.not_lt_zero k)
  | cons n dims ih =>
    have hstep := keptBefore_succ reduced i
    cases hr : reduced i with
    | true =>
      simp only [hr, if_true, Nat.add_zero] at hstep
      have hcons : reducedDims reduced false i (n :: dims) =
          reducedDims reduced false (i + 1) dims := by simp [reducedDims, hr]
      rw [hcons] at h
      cases k with
      | zero => exact absurd (hr.symm.trans hkept) Bool.noConfusion
      | succ k =>
        have hkept' : reduced (i + 1 + k) = false := by rwa [Nat.add_right_comm]
        have hnext := ih h (Nat.lt_of_succ_lt_succ hk) hkept'
        rwa [hstep, Nat.add_right_comm] at hnext
    | false =>
      simp only [hr, Bool.false_eq_true, if_false] at hstep
      have hcons : reducedDims reduced false i (n :: dims) =
          n :: reducedDims reduced false (i + 1) dims := by simp [reducedDims, hr]
      rw [hcons] at h
      cases h with
      | cons hx hrest =>
        cases k with
        | zero => simpa using hx
        | succ k =>
          have hkept' : reduced (i + 1 + k) = false := by rwa [Nat.add_right_comm]
          have hnext := ih hrest (Nat.lt_of_succ_lt_succ hk) hkept'
          have hmono : keptBefore reduced (i + 1) ≤ keptBefore reduced (i + 1 + k) :=
            keptBefore_mono (Nat.le_add_right _ _)
          have hsub : keptBefore reduced (i + (k + 1)) - keptBefore reduced i =
              (keptBefore reduced (i + 1 + k) - keptBefore reduced (i + 1)) + 1 := by
            rw [show i + (k + 1) = i + 1 + k by omega]
            omega
          rw [hsub]
          simpa using hnext

/-- The coordinates of the axes that are not reduced are below their extents. -/
theorem outputAxis_bounds (h : InBounds idx (reducedDims reduced keepdims 0 dims))
    (hk : k < dims.length) (hkept : reduced k = false) :
    0 ≤ idx.getD (outputAxis reduced keepdims k) 0 ∧
      idx.getD (outputAxis reduced keepdims k) 0 < dims.getD k 0 := by
  cases keepdims with
  | true => simpa [hkept, outputAxis] using inBounds_keepdims h hk
  | false =>
    have hbounds := @inBounds_kept reduced dims idx 0 k h hk (by simpa using hkept)
    simpa [outputAxis, keptBefore] using hbounds

theorem length_heldAxes : (heldAxes reduced c i n).length = n := by simp [heldAxes]

/-- An index agrees with the held axes if it has their coordinates. -/
theorem agrees_heldAxes {j : List Int} (hj : j.length = n) :
    Held.agrees (heldAxes reduced c i n) j = true ↔
      ∀ k < n, reduced (i + k) = false → j.getD k 0 = c (i + k) := by
  induction n generalizing i j with
  | zero => simp [heldAxes, Held.agrees]
  | succ n ih =>
    obtain ⟨x, j, rfl⟩ := List.exists_cons_of_length_eq_add_one hj
    have hnext := ih (i := i + 1) (Nat.succ.inj hj)
    simp only [Nat.add_assoc, Nat.add_comm 1] at hnext
    rw [heldAxes_succ, Nat.forall_lt_succ_left']
    cases hr : reduced i with
    | true => simpa [Held.agrees, hr] using hnext
    | false => simp [Held.agrees, hnext, @eq_comm Int x]

theorem within_heldAxes (h : ∀ k < dims.length, reduced (i + k) = false →
    0 ≤ c (i + k) ∧ c (i + k) < dims.getD k 0) :
    Held.Within (heldAxes reduced c i dims.length) dims := by
  induction dims generalizing i with
  | nil => exact .nil
  | cons n dims ih =>
    rw [List.length_cons, heldAxes_succ]
    refine .cons (fun x hx => ?_) (ih fun k hk hkept => ?_)
    · cases hr : reduced i with
      | true => simp [hr] at hx
      | false =>
        obtain rfl : c i = x := by simpa [hr] using hx
        simpa using h 0 (by simp) (by simpa using hr)
    · have := h (k + 1) (by simpa using hk) (by rwa [← Nat.add_assoc, Nat.add_right_comm])
      rwa [← Nat.add_assoc, Nat.add_right_comm] at this

theorem free_heldAxes (c' : Nat → Int) (dims : List Int) :
    Held.free (heldAxes reduced c i n) dims = Held.free (heldAxes reduced c' i n) dims := by
  induction n generalizing i dims with
  | zero => rfl
  | succ n ih =>
    rw [heldAxes_succ, heldAxes_succ]
    cases dims with
    | nil => cases reduced i <;> rfl
    | cons m dims => cases hr : reduced i <;> simp [Held.free, ih (i := i + 1) dims]

/-- The axes that are not reduced, held at their coordinates in the output. -/
def outputAxes (axis : List Int) (keepdims : Bool) (ndim : Nat) (idx : List Int) : Held :=
  let reduced := namesAxis ndim axis
  heldAxes reduced (fun i => idx.getD (outputAxis reduced keepdims i) 0) 0 ndim

theorem reducedFrom_eq {axis : List Int}
    (h : InBounds idx (reducedDims (namesAxis dims.length axis) keepdims 0 dims)) :
    reducedFrom dims axis keepdims idx =
      (indexSpace (Held.free (outputAxes axis keepdims dims.length idx) dims)).map
        (Held.fill (outputAxes axis keepdims dims.length idx)) := by
  have hwithin : Held.Within (outputAxes axis keepdims dims.length idx) dims := by
    refine within_heldAxes fun k hk hkept => ?_
    rw [Nat.zero_add] at hkept ⊢
    exact outputAxis_bounds h hk hkept
  rw [← Held.filter_indexSpace hwithin, reducedFrom]
  refine List.filter_congr fun j hj => ?_
  have hagrees := @agrees_heldAxes (namesAxis dims.length axis)
    (fun i => idx.getD (outputAxis (namesAxis dims.length axis) keepdims i) 0) 0 _ _
    (length_of_mem_indexSpace hj)
  simp only [Nat.zero_add] at hagrees
  rw [Bool.eq_iff_iff, decide_eq_true_iff]
  exact hagrees.symm

/-- Every axis that is not reduced has its coordinate in the output where `comm_reduce` looks for
it: no such axis of several elements follows a reduced one that is kept. -/
def KeptStay (dims : List Int) (axis : List Int) (keepdims : Bool) : Prop :=
  keepdims = false ∨ (∃ n ∈ dims, n ≤ 0) ∨ ∀ p i, p < i → i < dims.length →
    namesAxis dims.length axis p = true → namesAxis dims.length axis i = false →
      dims.getD i 0 = 1

theorem reducedFrom_congr {axis axis' : List Int} {keepdims : Bool}
    (h : ∀ i < dims.length, namesAxis dims.length axis i = namesAxis dims.length axis' i) :
    reducedFrom dims axis keepdims idx = reducedFrom dims axis' keepdims idx := by
  refine List.filter_congr fun j _ => ?_
  rw [decide_eq_decide]
  refine forall₂_congr fun i hi => ?_
  have hplace : outputAxis (namesAxis dims.length axis) keepdims i =
      outputAxis (namesAxis dims.length axis') keepdims i := by
    rw [outputAxis, outputAxis, keptBefore_congr fun p hp => h p (by omega)]
  rw [h i hi, hplace]

theorem KeptStay.congr {axis axis' : List Int} {keepdims : Bool}
    (h : ∀ i < dims.length, namesAxis dims.length axis i = namesAxis dims.length axis' i)
    (hstay : KeptStay dims axis' keepdims) : KeptStay dims axis keepdims := by
  refine hstay.imp_right (Or.imp_right fun hone p i hpi hi hp hkept => ?_)
  rw [h p (by omega)] at hp
  rw [h i hi] at hkept
  exact hone p i hpi hi hp hkept

/-- Then it holds each axis at its coordinate. -/
theorem readAxes_eq {axis : List Int}
    (h : InBounds idx (reducedDims (namesAxis dims.length axis) true 0 dims))
    (hone : ∀ p i, p < i → i < dims.length → namesAxis dims.length axis p = true →
      namesAxis dims.length axis i = false → dims.getD i 0 = 1) :
    readAxes axis dims.length idx = outputAxes axis true dims.length idx := by
  refine heldAxes_congr (fun _ _ => rfl) fun i hi hkept => ?_
  have hcoordinate (q : Nat) (hq : q < dims.length) := by
    simpa only [Nat.zero_add] using inBounds_keepdims h hq
  rw [outputAxis, if_pos rfl]
  by_cases hbefore : ∃ p < i, namesAxis dims.length axis p = true
  · obtain ⟨hfirst, hreduced⟩ := Nat.find_spec hbefore
    have hmin := @Nat.find_min _ _ hbefore
    generalize Nat.find hbefore = p at hfirst hreduced hmin
    have hplace : keptBefore (namesAxis dims.length axis) p = p := keptBefore_eq fun q hq => by
      have := hmin hq
      simpa [show q < i by omega] using this
    have hle := @keptBefore_mono (namesAxis dims.length axis) _ _ hfirst.le
    have hlt := keptBefore_lt hreduced hfirst
    have hi0 := hcoordinate i hi
    rw [hkept, if_neg Bool.false_ne_true, hone p i hfirst hi hreduced hkept] at hi0
    have hq0 := hcoordinate (keptBefore (namesAxis dims.length axis) i) (by omega)
    cases hq : namesAxis dims.length axis (keptBefore (namesAxis dims.length axis) i) with
    | true =>
      rw [hq, if_pos rfl] at hq0
      omega
    | false =>
      have hne : p ≠ keptBefore (namesAxis dims.length axis) i := by
        rintro heq
        rw [← heq, hreduced] at hq
        cases hq
      rw [hq, if_neg Bool.false_ne_true, hone p _ (by omega) (by omega) hreduced hq] at hq0
      omega
  · rw [keptBefore_eq fun p hp => ?_]
    simpa using fun h => hbefore ⟨p, hp, h⟩

end Reduction

section Correct

variable {F : Type} {ops : FloatOps F} {inputs : String → List Int → Scalar F} {data : Tensor}
  {axis : List Int} {keepdims : Bool} {type : ReduceType} {name : String} {dims idx : List Int}

theorem reducedDims_congr {reduced reduced' : Nat → Bool} {i : Nat}
    (h : ∀ k < dims.length, reduced (i + k) = reduced' (i + k)) :
    reducedDims reduced keepdims i dims = reducedDims reduced' keepdims i dims := by
  induction dims generalizing i with
  | nil => rfl
  | cons n dims ih =>
    have hhead : reduced i = reduced' i := by simpa using h 0 (by simp)
    have htail := @ih (i + 1) fun k hk => by
      have := h (k + 1) (by simpa using hk)
      rwa [← Nat.add_assoc, Nat.add_right_comm] at this
    rw [reducedDims, reducedDims, hhead, htail]

theorem reduceShape_extents {reduce_set : List Nat} {i : Nat} {shape : List PrimExpr}
    (h : List.Forall₂ (HasExtent ops inputs) shape dims) :
    List.Forall₂ (HasExtent ops inputs) (reduceShape reduce_set keepdims i shape)
      (reducedDims (fun j => decide (j ∈ reduce_set)) keepdims i dims) := by
  induction h generalizing i with
  | nil => exact .nil
  | cons hdim _ ih =>
    rw [reduceShape, reducedDims]
    by_cases hi : i ∈ reduce_set
    · rw [if_pos hi, decide_eq_true hi, if_pos rfl]
      cases keepdims with
      | true => exact .cons (hasExtent_int 1) ih
      | false => exact ih
    · rw [if_neg hi, decide_eq_false hi]
      exact .cons hdim ih

theorem comm_reduce_dims (hdims : HasDims ops inputs data dims) :
    HasDims ops inputs (comm_reduce data axis keepdims (combiner type) name)
      (reducedDims (namesAxis dims.length axis) keepdims 0 dims) := by
  have hcongr : reducedDims (namesAxis dims.length axis) keepdims 0 dims =
      reducedDims (fun j => decide (j ∈ GetRealAxis data.shape.length axis)) keepdims 0 dims := by
    refine reducedDims_congr fun k hk => ?_
    rw [Nat.zero_add, hdims.length_eq]
    exact Bool.eq_iff_iff.mpr (by simpa using (mem_GetRealAxis hk).symm)
  rw [hcongr]
  exact reduceShape_extents hdims

theorem length_comm_reduce (hdims : HasDims ops inputs data dims)
    (h : InBounds idx (reducedDims (namesAxis dims.length axis) keepdims 0 dims)) :
    idx.length = (comm_reduce data axis keepdims (combiner type) name).shape.length := by
  exact h.length_eq.trans (comm_reduce_dims hdims).length_eq.symm

/-- Where the axes stay, each element of the output is the reduction that it should be. -/
theorem comm_reduce_reduces (hdims : HasDims ops inputs data dims)
    (hstay : KeptStay dims axis keepdims)
    (h : InBounds idx (reducedDims (namesAxis dims.length axis) keepdims 0 dims)) :
    (comm_reduce data axis keepdims (combiner type) name).element ops inputs idx =
      type.reduce ops data.dtype data.dtype.floatFormat
        ((reducedFrom dims axis keepdims idx).map (data.element ops inputs)) := by
  rw [comm_reduce_element hdims (length_comm_reduce hdims h), reducedFrom_eq h, List.map_map]
  rcases hstay with rfl | hempty | hone
  · rfl
  · have hnil : reducedFrom dims axis keepdims idx = [] := by
      rw [reducedFrom, indexSpace_eq_nil.mpr hempty, List.filter_nil]
    rw [reducedFrom_eq h, List.map_eq_nil_iff] at hnil
    have hfree : Held.free (readAxes axis dims.length idx) dims =
        Held.free (outputAxes axis keepdims dims.length idx) dims := free_heldAxes _ dims
    rw [hfree, hnil]
    rfl
  · cases keepdims with
    | false => rfl
    | true =>
      rw [readAxes_eq h hone]
      rfl

end Correct

section Misread

variable {F : Type} {ops : FloatOps F} {type : ReduceType}

theorem applyBinary_int (a b : Int) :
    applyBinary ops type.op none none (.int a) (.int b) = .int (type.op.int a b) := by
  cases type <;> rfl

/-- A reduction of zeros is zero. -/
theorem reduce_zeros {dtype : DataType} {xs : List (Scalar F)} (hne : xs ≠ [])
    (h : ∀ x ∈ xs, x = .int 0) : type.reduce ops dtype none xs = .int 0 := by
  have hfold (xs : List (Scalar F)) (h : ∀ x ∈ xs, x = .int 0) :
      xs.foldl (applyBinary ops type.op none none) (.int 0) = .int 0 := by
    induction xs with
    | nil => rfl
    | cons x xs ih =>
      have hzero : type.op.int 0 0 = 0 := by cases type <;> rfl
      rw [List.foldl_cons, h x List.mem_cons_self, applyBinary_int, hzero]
      exact ih fun y hy => h y (List.mem_cons_of_mem _ hy)
  cases xs with
  | nil => exact absurd rfl hne
  | cons x xs =>
    rw [ReduceType.reduce, h x List.mem_cons_self]
    exact hfold xs fun y hy => h y (List.mem_cons_of_mem _ hy)

/-- A reduction of ones is not. -/
theorem reduce_ones {dtype : DataType} {xs : List (Scalar F)} (hne : xs ≠ [])
    (h : ∀ x ∈ xs, x = .int 1) : ∃ w, 1 ≤ w ∧ type.reduce ops dtype none xs = .int w := by
  have hfold (xs : List (Scalar F)) (h : ∀ x ∈ xs, x = .int 1) (a : Int) (ha : 1 ≤ a) :
      ∃ w, 1 ≤ w ∧ xs.foldl (applyBinary ops type.op none none) (.int a) = .int w := by
    induction xs generalizing a with
    | nil => exact ⟨a, ha, rfl⟩
    | cons x xs ih =>
      rw [List.foldl_cons, h x List.mem_cons_self, applyBinary_int]
      refine ih (fun y hy => h y (List.mem_cons_of_mem _ hy)) _ ?_
      cases type <;> simp only [ReduceType.op, Tir.BinaryOp.int] <;> (try split) <;> omega
  cases xs with
  | nil => exact absurd rfl hne
  | cons x xs =>
    rw [ReduceType.reduce, h x List.mem_cons_self]
    exact hfold xs (fun y hy => h y (List.mem_cons_of_mem _ hy)) 1 (by decide)

theorem getD_fill {reduced : Nat → Bool} {c : Nat → Int} {i k n : Nat} {is : List Int} (hk : k < n)
    (hkept : reduced (i + k) = false) :
    (Held.fill (heldAxes reduced c i n) is).getD k 0 = c (i + k) := by
  induction n generalizing i k is with
  | zero => exact absurd hk (Nat.not_lt_zero k)
  | succ n ih =>
    rw [heldAxes_succ]
    cases k with
    | zero =>
      have hi : reduced i = false := by simpa using hkept
      simp [hi, Held.fill]
    | succ k =>
      have hkept' : reduced (i + 1 + k) = false := by rwa [Nat.add_right_comm]
      have hnext (is : List Int) := @ih (i + 1) k is (Nat.lt_of_succ_lt_succ hk) hkept'
      rw [Nat.add_right_comm] at hnext
      cases hi : reduced i with
      | true => simpa [Held.fill, Nat.add_assoc] using hnext is.tail
      | false => simpa [Held.fill, Nat.add_assoc] using hnext is

/-- Where an axis of several elements follows a reduced one that is kept, it is read at the
coordinate of another axis. -/
theorem comm_reduce_misreads (ops : FloatOps F) {dims : List Int64} {axis : List Int}
    {keepdims : Bool} (h : ¬ KeptStay (dims.map Int64.toInt) axis keepdims) :
    ∃ (inputs : String → List Int → Scalar F) (idx : List Int),
      let data := Tensor.placeholder "data" (ShapeFromTensorType dims) (.Int 64)
      InBounds idx (reducedDims (namesAxis dims.length axis) keepdims 0 (dims.map Int64.toInt)) ∧
        (comm_reduce data axis keepdims (combiner type) "reduce").element ops inputs idx ≠
          type.reduce ops data.dtype data.dtype.floatFormat
            ((reducedFrom (dims.map Int64.toInt) axis keepdims idx).map
              (data.element ops inputs)) := by
  rw [KeptStay, not_or, not_or, Bool.not_eq_false] at h
  obtain ⟨rfl, hpos, hmoved⟩ := h
  push Not at hpos hmoved
  obtain ⟨p, i, hpi, hi, hp, hkept, hone⟩ := hmoved
  simp only [List.length_map] at hi hp hkept hone
  have hextent {k : Nat} (hk : k < dims.length) : 0 < (dims.map Int64.toInt).getD k 0 := by
    refine hpos _ ?_
    rw [← List.getElem_eq_getD (h := by simpa using hk) 0]
    exact List.getElem_mem _
  let inputs : String → List Int → Scalar F := fun _ j => .int (if j.getD i 0 = 1 then 1 else 0)
  have hhas : HasDims ops inputs
      (.placeholder "data" (ShapeFromTensorType dims) (.Int 64)) (dims.map Int64.toInt) :=
    placeholder_hasDims _ _ _
  let idx := (List.range dims.length).map fun j => if j = i then (1 : Int) else 0
  have hidx {k : Nat} (hk : k < dims.length) : idx.getD k 0 = if k = i then 1 else 0 := by
    simp [idx, hk]
  have hbounds : InBounds idx
      (reducedDims (namesAxis dims.length axis) true 0 (dims.map Int64.toInt)) := by
    rw [inBounds_iff, length_reducedDims]
    refine ⟨by simp [idx], fun k hk => ?_⟩
    have hk' : k < dims.length := by simpa using hk
    have := hextent hk'
    rw [getD_reducedDims hk, hidx hk', Nat.zero_add]
    by_cases hki : k = i
    · subst hki
      rw [if_pos rfl, hkept, if_neg Bool.false_ne_true]
      omega
    · rw [if_neg hki]
      split <;> omega
  refine ⟨inputs, idx, hbounds, ?_⟩
  have hlen : (dims.map Int64.toInt).length = dims.length := List.length_map _
  have hbounds' := hbounds
  rw [← hlen] at hbounds'
  have hnonempty (held : Held) : indexSpace (Held.free held (dims.map Int64.toInt)) ≠ [] := by
    rw [Ne, indexSpace_eq_nil]
    rintro ⟨n, hn, hle⟩
    exact absurd (hpos n (Held.mem_of_mem_free hn)) (by omega)
  -- The output has a reduction of ones there, and the code reduces zeros.
  have hones : ∃ w, 1 ≤ w ∧ type.reduce ops (.Int 64) none
      ((reducedFrom (dims.map Int64.toInt) axis true idx).map (inputs "data")) = .int w := by
    rw [reducedFrom_eq hbounds']
    refine reduce_ones (by simpa using hnonempty _) fun x hx => ?_
    obtain ⟨j, hj, rfl⟩ := List.mem_map.mp hx
    obtain ⟨is, -, rfl⟩ := List.mem_map.mp hj
    have hcoordinate := @getD_fill (namesAxis dims.length axis)
      (fun i => idx.getD (outputAxis (namesAxis dims.length axis) true i) 0) 0 i dims.length is hi
      (by simpa using hkept)
    rw [Nat.zero_add, outputAxis, if_pos rfl, hidx hi, if_pos rfl] at hcoordinate
    simp only [inputs, outputAxes, hlen]
    rw [if_pos hcoordinate]
  have hzeros : type.reduce ops (.Int 64) none
      ((indexSpace (Held.free (readAxes axis dims.length idx) (dims.map Int64.toInt))).map
        fun is => inputs "data" (Held.fill (readAxes axis dims.length idx) is)) = .int 0 := by
    refine reduce_zeros (by simpa using hnonempty _) fun x hx => ?_
    obtain ⟨is, -, rfl⟩ := List.mem_map.mp hx
    have hcoordinate := @getD_fill (namesAxis dims.length axis)
      (fun i => idx.getD (keptBefore (namesAxis dims.length axis) i) 0) 0 i dims.length is hi
      (by simpa using hkept)
    have hlt := keptBefore_lt hp hpi
    rw [Nat.zero_add, hidx (by omega), if_neg (by omega)] at hcoordinate
    simp only [inputs, readAxes]
    rw [hcoordinate, if_neg (by decide)]
  obtain ⟨w, hw, hones⟩ := hones
  intro heq
  have helement := @comm_reduce_element _ _ _ _ _ _ type "reduce" _ _ hhas
    (length_comm_reduce hhas hbounds')
  rw [hlen] at helement
  have := (hzeros.symm.trans (helement.symm.trans heq)).trans hones
  have := Scalar.int.inj this
  omega

end Misread

end Topi

end Kxc.Te
