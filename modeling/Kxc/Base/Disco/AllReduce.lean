import Kxc.Base.Disco.Arrays
import Kxc.Base.Disco.GroupPartition

/-! `AllReduce` of the CPU backend (`base/disco/ccl_cpu.cc`). It adds into an array in place, so that
registers refer to arrays on a heap here. -/

namespace Kxc.Disco

open Relay Lib

/-- A session whose registers refer to the arrays of the heap. -/
structure HeapSession where
  num_workers : Int32
  num_groups : Int32
  reg_count : Int32 := 0
  register_file : Int32 → Int32 → Option Nat := fun _ _ => none
  arrays : List NDArray := []

abbrev HeapM := StateT HeapSession (Except SessionError)

namespace HeapSession

/-- The workers, groups and registers of the session. -/
def counts (s : HeapSession) : ThreadedSession :=
  { num_workers := s.num_workers, num_groups := s.num_groups, reg_count := s.reg_count }

def groups (s : HeapSession) : Groups := ⟨s.num_workers, s.num_groups⟩

/-- Runs a computation that does not use the session. -/
def checked {α : Type} (x : Except SessionError α) : HeapM α := fun s => x.map (·, s)

def Get (worker_id : Int32) (ref : DRef) : HeapM (Option Nat) := do
  let s ← get
  checked (s.counts.ValidateWorkerId worker_id)
  checked (s.counts.ValidateRegId ref.reg_id)
  return s.register_file worker_id ref.reg_id

def Set (worker_id : Int32) (ref : DRef) (value : Option Nat) : HeapM Unit := do
  let s ← get
  checked (s.counts.ValidateWorkerId worker_id)
  checked (s.counts.ValidateRegId ref.reg_id)
  set { s with
    register_file := Function.update s.register_file worker_id
      (Function.update (s.register_file worker_id) ref.reg_id value) }

/-- The array that a reference refers to. -/
def array (s : HeapSession) (value : Option Nat) : Option NDArray :=
  value.bind fun address => s.arrays[address]?

end HeapSession

namespace CpuCCLBackend.Heap

open HeapSession

/-- `CloneArray`, which makes a new array. -/
def CloneArray (src : Option Nat) : HeapM (Option Nat) := do
  let s ← get
  match ← checked (CpuCCLBackend.CloneArray (s.array src)) with
  | none => return none
  | some clone =>
    set { s with arrays := s.arrays ++ [clone] }
    return some s.arrays.length

/-- `float` addition of words. -/
def addFloat32 (x y : Nat) : Nat :=
  (Float32.ofBits (UInt32.ofNat x) + Float32.ofBits (UInt32.ofNat y)).toBits.toNat

/-- `double` addition of words. -/
def addFloat64 (x y : Nat) : Nat :=
  (Float.ofBits (UInt64.ofNat x) + Float.ofBits (UInt64.ofNat y)).toBits.toNat

/-- The loop `a[i] += b[i]` over numbers of `size` bytes; integers wrap around. -/
def addElements (size : Nat) (add : Nat → Nat → Nat) (acc other : NDArray) : NDArray :=
  { acc with
    data := (List.range (NumElements acc).toInt.toNat).foldl
      (updateAt size fun i a => add a (readAt other.data size i)) acc.data }

def AddInPlace (acc other : Option Nat) : HeapM Unit := do
  let s ← get
  match acc, s.array acc, s.array other with
  | some address, some a, some b =>
    let store (sum : NDArray) : HeapM Unit := set { s with arrays := s.arrays.set address sum }
    if NumElements a ≠ NumElements b then
      throw (.runtime "AllReduce requires equal tensor size")
    else if a.dtype.code = kDLFloat ∧ a.dtype.bits = 32 then store (addElements 4 addFloat32 a b)
    else if a.dtype.code = kDLFloat ∧ a.dtype.bits = 64 then store (addElements 8 addFloat64 a b)
    else if a.dtype.code = kDLInt ∧ a.dtype.bits = 32 then store (addElements 4 (· + ·) a b)
    else if a.dtype.code = kDLInt ∧ a.dtype.bits = 64 then store (addElements 8 (· + ·) a b)
    else throw (.runtime "Unsupported dtype for sum allreduce")
  | _, _, _ => throw (.runtime "AllReduce requires defined arrays")

/-- One iteration of the first loop of `AllReduce`. -/
def accumulate (src : DRef) (acc : Option Nat) (worker : Int32) : HeapM (Option Nat) := do
  let value ← Get worker src
  if value = none then return acc
  else if acc = none then CloneArray value
  else do
    AddInPlace acc value
    return acc

/-- `AllReduce`; its `in_group` is not used. -/
def AllReduce (src dst : DRef) (reduce_kind : String) (_in_group : Bool) : HeapM Unit := do
  if reduce_kind ≠ "sum" then
    throw (.runtime "CpuCCLBackend supports only sum allreduce")
  else do
    let session ← get
    let acc ← (intRange session.num_workers).foldlM (accumulate src) none
    if acc = none then
      throw (.runtime "AllReduce has no source tensors")
    else
      (intRange session.num_workers).forM fun worker => do
        Set worker dst (← CloneArray acc)

end CpuCCLBackend.Heap

/-! ### What a sum is -/

/-- Element `i` as a number. -/
def element (a : NDArray) (i : Nat) : Nat := readAt a.data (elementBytes a.dtype) i

namespace HeapSession

/-- The array that a worker holds. -/
def held (s : HeapSession) (ref : DRef) (worker : Int32) : Option NDArray :=
  s.array (s.register_file worker ref.reg_id)

/-- The sum of the elements `i` of the arrays of some workers. -/
def total (s : HeapSession) (src : DRef) (workers : List Int32) (i : Nat) : Nat :=
  ((workers.filterMap (s.held src)).map (element · i)).sum

end HeapSession

/-- The workers that reduce together. -/
def Groups.teams (gs : Groups) (in_group : Bool) : List (List Int32) :=
  if in_group then (intRange gs.num_groups).map gs.members else [intRange gs.num_workers]

/-- The elements of `r` are the sums of those of the workers' arrays, which wrap around. -/
structure IsSum (s : HeapSession) (src : DRef) (shape : List Int64) (dtype : DLDataType)
    (workers : List Int32) (r : NDArray) : Prop where
  shape_eq : r.shape = shape
  dtype_eq : r.dtype = dtype
  elements : ∀ i < numel shape,
    element r i = s.total src workers i % 256 ^ elementBytes dtype

/-- Every worker has got the sum over its team; all arrays that there were are unchanged, and so are
all registers but those of `dst`. -/
structure Reduced (src dst : DRef) (in_group : Bool) (shape : List Int64) (dtype : DLDataType)
    (s s' : HeapSession) : Prop where
  results : ∀ team ∈ s.groups.teams in_group, ∀ worker ∈ team,
    ∃ r ∈ s'.held dst worker, IsSum s src shape dtype team r
  arrays : ∀ address < s.arrays.length, s'.arrays[address]? = s.arrays[address]?
  registers : ∀ worker reg, ¬(worker ∈ intRange s.num_workers ∧ reg = dst.reg_id) →
    s'.register_file worker reg = s.register_file worker reg

/-- The registers `src` refer to arrays of one shape and type, of which there is one at least. -/
structure Sources (s : HeapSession) (src : DRef) (shape : List Int64) (dtype : DLDataType) :
    Prop where
  defined : ∀ worker ∈ intRange s.num_workers, ∀ address ∈ s.register_file worker src.reg_id,
    address < s.arrays.length
  same : ∀ worker ∈ intRange s.num_workers, ∀ a ∈ s.held src worker,
    WellFormed a ∧ a.shape = shape ∧ a.dtype = dtype
  nonempty : ∃ worker ∈ intRange s.num_workers, (s.held src worker).isSome

/-- The types that can be summed: an `int8` array can only be passed on. -/
def Summable (dtype : DLDataType) (arrays : Nat) : Prop :=
  dtype.code = kDLInt ∧ dtype.lanes = 1 ∧
    (dtype.bits = 32 ∨ dtype.bits = 64 ∨ dtype.bits = 8 ∧ arrays = 1)

/-! ### Arrays -/

section Elements

open CpuCCLBackend

variable {a b : NDArray} {dtype_str : String}

theorem NumElements_eq (ha : WellFormed a) : NumElements a = Int64.ofNat (numel a.shape) :=
  foldl_mul_eq ha.nonneg

theorem lanes_eq_one {dtype : DLDataType} (h : DTypeToString dtype = .ok dtype_str) :
    dtype.lanes = 1 := by
  by_contra hlanes
  rw [DTypeToString, if_pos hlanes] at h
  cases h

/-- A clone has the shape, the type and the elements of the original. -/
theorem CloneArray_eq_ok (ha : WellFormed a) (hdtype : DTypeToString a.dtype = .ok dtype_str) :
    ∃ r, CpuCCLBackend.CloneArray (some a) = .ok (some r) ∧ WellFormed r ∧ r.shape = a.shape ∧
      r.dtype = a.dtype ∧ ∀ i < numel a.shape, element r i = element a i := by
  obtain ⟨hparse, hpos, hbytes⟩ := DTypeToString_eq_ok hdtype
  have hsmall := ha.small
  have hroom := ha.room
  rw [hbytes] at hsmall hroom
  have hcopied : NBytes a = numel a.shape * elementBytes a.dtype := by
    have hone : a.dtype.lanes.toNat = 1 := by
      rw [lanes_eq_one hdtype]
      rfl
    rw [NBytes, NumElements_eq ha, hone, ← Int64.ofNat_mul, ← Int64.ofNat_mul, Nat.mul_one]
    exact toUInt64_toNat hsmall
  have hzero := zeroArray_room hdtype ha.nonneg (ha.elements_small hdtype)
  rw [← hcopied] at hsmall hroom hzero
  let r : NDArray :=
    { zeroArray a.shape dtype_str with
      data := memcpy (zeroArray a.shape dtype_str).data 0 a.data (NBytes a) }
  have hlength : r.data.length = (zeroArray a.shape dtype_str).data.length :=
    memcpy_length (by omega) hroom
  have htake : r.data.take (NBytes a) = a.data.take (NBytes a) := by
    have hcopy := memcpy_take (Nat.zero_le (zeroArray a.shape dtype_str).data.length) hroom
    rwa [Nat.zero_add, List.take_zero, List.nil_append] at hcopy
  have hrdtype : r.dtype = a.dtype := hparse
  refine ⟨r, by rw [CpuCCLBackend.CloneArray, hdtype]; rfl, ⟨ha.nonneg, ?_, ?_⟩, rfl, hrdtype, ?_⟩
  · rw [hrdtype, hbytes, show r.shape = a.shape from rfl, ← hcopied]
    exact hsmall
  · rw [hrdtype, hbytes, show r.shape = a.shape from rfl, ← hcopied, hlength]
    exact hzero
  · intro i hi
    rw [element, element, hrdtype]
    refine readAt_congr htake ?_
    rw [hcopied]
    exact Nat.mul_le_mul_right _ hi

/-- The loop of an addition of integers. -/
theorem addElements_eq (ha : WellFormed a) (hpos : 0 < elementBytes a.dtype)
    (hbytes : (a.dtype.bits.toNat + 7) / 8 = elementBytes a.dtype) (hdtype : b.dtype = a.dtype) :
    let r := Heap.addElements (elementBytes a.dtype) (· + ·) a b
    WellFormed r ∧ r.shape = a.shape ∧ r.dtype = a.dtype ∧
      ∀ i < numel a.shape, element r i = (element a i + element b i) % 256 ^ elementBytes a.dtype := by
  intro r
  have hroom := ha.room
  have hsmall := ha.small
  rw [hbytes] at hroom hsmall
  have hcount : (NumElements a).toInt.toNat = numel a.shape := by
    rw [NumElements_eq ha, Int64.toInt_ofNat_of_lt, Int.toNat_natCast]
    exact Nat.lt_of_le_of_lt (Nat.le_mul_of_pos_right _ hpos) hsmall
  obtain ⟨hlength, hread⟩ := foldl_updateAt
    (f := fun i x => x + readAt b.data (elementBytes a.dtype) i) hroom
  have hdata : r.data = (List.range (numel a.shape)).foldl (updateAt (elementBytes a.dtype)
      fun i x => x + readAt b.data (elementBytes a.dtype) i) a.data := by
    rw [← hcount]
    rfl
  refine ⟨⟨ha.nonneg, ha.small, ?_⟩, rfl, rfl, fun i hi => ?_⟩
  · rw [hdata, hlength]
    exact ha.room
  · rw [element, element, element, hdata, hdtype]
    exact (hread i).trans (if_pos hi)

end Elements

/-! ### The accesses -/

section Accesses

open HeapSession CpuCCLBackend

variable {s : HeapSession} {E : SessionError → Prop} {src dst ref : DRef} {worker : Int32}

theorem outcome_checked {α : Type} {x : Except SessionError α} {Q : α → HeapSession → Prop}
    (herror : ∀ e, x = .error e → E e) (hok : ∀ a, x = .ok a → Q a s) :
    Outcome (checked x) s E Q := by
  cases x with
  | error e => exact herror e rfl
  | ok a => exact hok a rfl

/-- The register is one of the session. -/
def HeapSession.HasRegister (s : HeapSession) (ref : DRef) : Prop :=
  0 ≤ ref.reg_id ∧ ref.reg_id < s.reg_count

theorem validated (hworker : 0 ≤ worker ∧ worker < s.num_workers) (href : s.HasRegister ref) :
    s.counts.ValidateWorkerId worker = .ok () ∧ s.counts.ValidateRegId ref.reg_id = .ok () := by
  refine ⟨if_neg ?_, if_neg ?_⟩
  · rw [not_or]
    exact ⟨Int32.not_lt.mpr hworker.1, Int32.not_le.mpr hworker.2⟩
  · rw [not_or]
    exact ⟨Int32.not_lt.mpr href.1, Int32.not_le.mpr href.2⟩

theorem heapGet_spec (hworker : 0 ≤ worker ∧ worker < s.num_workers) (href : s.HasRegister ref) :
    Outcome (HeapSession.Get worker ref) s E fun value s' =>
      value = s.register_file worker ref.reg_id ∧ s' = s := by
  obtain ⟨hworkerId, hregId⟩ := validated hworker href
  simp only [HeapSession.Get, outcome_bind, outcome_get, hworkerId, hregId]
  exact ⟨rfl, rfl⟩

theorem heapSet_spec (hworker : 0 ≤ worker ∧ worker < s.num_workers) (href : s.HasRegister ref)
    (value : Option Nat) :
    Outcome (HeapSession.Set worker ref value) s E fun _ s' =>
      s'.register_file worker ref.reg_id = value ∧
        (∀ w reg, ¬(w = worker ∧ reg = ref.reg_id) →
          s'.register_file w reg = s.register_file w reg) ∧
        s'.arrays = s.arrays ∧ s'.num_workers = s.num_workers ∧ s'.reg_count = s.reg_count := by
  obtain ⟨hworkerId, hregId⟩ := validated hworker href
  simp only [HeapSession.Set, outcome_bind, outcome_get, hworkerId, hregId]
  have hself : Function.update s.register_file worker (Function.update (s.register_file worker)
      ref.reg_id value) worker ref.reg_id = value := by
    rw [Function.update_self, Function.update_self]
  refine ⟨hself, fun w reg hne => ?_, rfl, rfl, rfl⟩
  dsimp only
  by_cases hw : w = worker
  · subst hw
    rw [Function.update_self, Function.update_of_ne fun hreg => hne ⟨rfl, hreg⟩]
  · rw [Function.update_of_ne hw]

/-- A clone is a new array at the end of the heap. -/
theorem heapClone_spec {address : Nat} {a : NDArray} (haddress : s.arrays[address]? = some a)
    (ha : WellFormed a) (hE : (∀ dtype_str, DTypeToString a.dtype ≠ .ok dtype_str) → ∀ e, E e) :
    Outcome (Heap.CloneArray (some address)) s E fun value s' =>
      (∃ dtype_str, DTypeToString a.dtype = .ok dtype_str) ∧ value = some s.arrays.length ∧
        ∃ r, s' = { s with arrays := s.arrays ++ [r] } ∧ WellFormed r ∧ r.shape = a.shape ∧
          r.dtype = a.dtype ∧ ∀ i < numel a.shape, element r i = element a i := by
  have harray : s.array (some address) = some a := haddress
  simp only [Heap.CloneArray, outcome_bind, outcome_get, harray]
  cases hdtype : DTypeToString a.dtype with
  | error e =>
    refine outcome_checked (fun e' _ => hE (fun dtype_str h => ?_) e') fun value hvalue => ?_
    · rw [hdtype] at h
      cases h
    · rw [CpuCCLBackend.CloneArray, hdtype] at hvalue
      cases hvalue
  | ok dtype_str =>
    obtain ⟨r, hclone, hrest⟩ := CloneArray_eq_ok ha hdtype
    rw [hclone]
    exact ⟨⟨dtype_str, rfl⟩, rfl, r, rfl, hrest⟩

/-- Adding changes the array that is added to, if the type can be summed. -/
theorem AddInPlace_spec {address other : Nat} {a b : NDArray} {dtype_str : String}
    (haddress : s.arrays[address]? = some a) (hother : s.arrays[other]? = some b)
    (ha : WellFormed a) (hshape : b.shape = a.shape) (hdtype : b.dtype = a.dtype)
    (hnamed : DTypeToString a.dtype = .ok dtype_str)
    (hint : a.dtype.code = kDLInt ∨ a.dtype.code = kDLUint) {n : Nat} (hn : 2 ≤ n)
    (hE : ¬Summable a.dtype n → ∀ e, E e) :
    Outcome (Heap.AddInPlace (some address) (some other)) s E fun _ s' =>
      Summable a.dtype n ∧ ∃ r, s' = { s with arrays := s.arrays.set address r } ∧
        WellFormed r ∧ r.shape = a.shape ∧ r.dtype = a.dtype ∧ ∀ i < numel a.shape,
          element r i = (element a i + element b i) % 256 ^ elementBytes a.dtype := by
  obtain ⟨-, hpos, hbytes⟩ := DTypeToString_eq_ok hnamed
  have hlanes := lanes_eq_one hnamed
  have hnumel : NumElements a = NumElements b := by rw [NumElements, NumElements, hshape]
  have hfloat : a.dtype.code ≠ kDLFloat := by
    rcases hint with h | h
    · rw [h]; decide
    · rw [h]; decide
  have harray : s.array (some address) = some a := haddress
  have harray' : s.array (some other) = some b := hother
  have hsum := addElements_eq ha hpos hbytes hdtype
  simp only [Heap.AddInPlace, outcome_bind, outcome_get, harray, harray', hnumel, ne_eq,
    not_true_eq_false, if_false, hfloat, false_and]
  by_cases hcode : a.dtype.code = kDLInt
  · by_cases h32 : a.dtype.bits = 32
    · have hsize : elementBytes a.dtype = 4 := by
        rw [elementBytes, h32]
        rfl
      rw [if_pos ⟨hcode, h32⟩, ← hsize]
      exact ⟨⟨hcode, hlanes, .inl h32⟩, _, rfl, hsum⟩
    · rw [if_neg fun h => h32 h.2]
      by_cases h64 : a.dtype.bits = 64
      · have hsize : elementBytes a.dtype = 8 := by
          rw [elementBytes, h64]
          rfl
        rw [if_pos ⟨hcode, h64⟩, ← hsize]
        exact ⟨⟨hcode, hlanes, .inr (.inl h64)⟩, _, rfl, hsum⟩
      · rw [if_neg fun h => h64 h.2]
        refine hE (fun hsummable => ?_) _
        rcases hsummable.2.2 with h | h | h
        · exact h32 h
        · exact h64 h
        · omega
  · rw [if_neg fun h => hcode h.1, if_neg fun h => hcode h.1]
    exact hE (fun hsummable => hcode hsummable.1) _

end Accesses

/-! ### Accumulating -/

section Accumulating

open HeapSession CpuCCLBackend

variable {s t : HeapSession} {src dst : DRef} {shape : List Int64} {dtype : DLDataType}
  {seen : List Int32} {acc : Option Nat}

theorem Summable.named {n : Nat} (h : Summable dtype n) :
    ∃ dtype_str, DTypeToString dtype = .ok dtype_str := by
  obtain ⟨code, bits, lanes⟩ := dtype
  obtain ⟨rfl, rfl, rfl | rfl | ⟨rfl, -⟩⟩ := h
  · exact ⟨_, rfl⟩
  · exact ⟨_, rfl⟩
  · exact ⟨_, rfl⟩

theorem summable_one {dtype_str : String} (h : DTypeToString dtype = .ok dtype_str)
    (hint : dtype.code = kDLInt ∨ dtype.code = kDLUint) : Summable dtype 1 := by
  have hlanes := lanes_eq_one h
  have hfloat : dtype.code ≠ kDLFloat := by
    rcases hint with h | h
    · rw [h]; decide
    · rw [h]; decide
  simp only [DTypeToString, hlanes, ne_eq, not_true_eq_false, if_false, hfloat, false_and] at h
  split at h
  · rename_i h32
    exact ⟨h32.1, hlanes, .inl h32.2⟩
  split at h
  · rename_i h64
    exact ⟨h64.1, hlanes, .inr (.inl h64.2)⟩
  split at h
  · rename_i h8
    exact ⟨h8.1, hlanes, .inr (.inr ⟨h8.2, rfl⟩)⟩
  · cases h

/-- With two arrays the number does not matter any more. -/
theorem Summable.of_two {m n : Nat} (h : Summable dtype m) (hm : 2 ≤ m) : Summable dtype n := by
  obtain ⟨hcode, hlanes, h32 | h64 | ⟨-, h1⟩⟩ := h
  · exact ⟨hcode, hlanes, .inl h32⟩
  · exact ⟨hcode, hlanes, .inr (.inl h64)⟩
  · omega

/-- The state of the first loop: `acc` is a new array with the sum over the workers seen. -/
def Accumulated (s : HeapSession) (src : DRef) (shape : List Int64) (dtype : DLDataType)
    (seen : List Int32) (acc : Option Nat) (t : HeapSession) : Prop :=
  (acc = none ∧ t = s ∧ seen.filterMap (s.held src) = []) ∨
  (acc = some s.arrays.length ∧ 0 < (seen.filterMap (s.held src)).length ∧
    Summable dtype (seen.filterMap (s.held src)).length ∧ ∃ r, t = { s with arrays := s.arrays ++ [r] } ∧
      WellFormed r ∧ IsSum s src shape dtype seen r)

theorem total_append (seen : List Int32) (worker : Int32) (i : Nat) :
    s.total src (seen ++ [worker]) i =
      s.total src seen i + ((s.held src worker).map (element · i)).getD 0 := by
  rw [total, List.filterMap_append, List.map_append, List.sum_append, total]
  cases hheld : s.held src worker with
  | none => rw [List.filterMap_cons_none hheld]; rfl
  | some a => rw [List.filterMap_cons_some hheld]; rfl

/-- One iteration of the first loop. -/
theorem accumulate_spec (hs : Sources s src shape dtype) (hsrc : s.HasRegister src)
    (hint : dtype.code = kDLInt ∨ dtype.code = kDLUint) {worker : Int32}
    (hworker : worker ∈ intRange s.num_workers)
    (hrange : 0 ≤ worker ∧ worker < s.num_workers) {N : Nat}
    (hN : ((seen ++ [worker]).filterMap (s.held src)).length ≤ N)
    (h : Accumulated s src shape dtype seen acc t) :
    Outcome (Heap.accumulate src acc worker) t (fun _ => ¬Summable dtype N)
      fun acc' t' => Accumulated s src shape dtype (seen ++ [worker]) acc' t' := by
  obtain ⟨hrange', hsrc', hregisters⟩ : (0 ≤ worker ∧ worker < t.num_workers) ∧
      t.HasRegister src ∧ t.register_file = s.register_file := by
    rcases h with ⟨-, rfl, -⟩ | ⟨-, -, -, r, rfl, -⟩
    · exact ⟨hrange, hsrc, rfl⟩
    · exact ⟨hrange, hsrc, rfl⟩
  rw [Heap.accumulate, outcome_bind]
  refine (heapGet_spec hrange' hsrc').mono fun value t' ht => ?_
  obtain ⟨rfl, hstate⟩ := ht
  rw [hstate, hregisters]
  cases hvalue : s.register_file worker src.reg_id with
  | none =>
    -- a worker without an array is passed over
    have hheld : s.held src worker = none := by rw [held, hvalue]; rfl
    have hsame : (seen ++ [worker]).filterMap (s.held src) = seen.filterMap (s.held src) := by
      rw [List.filterMap_append, List.filterMap_cons_none hheld, List.filterMap_nil,
        List.append_nil]
    rw [if_pos rfl, outcome_pure, Accumulated, hsame]
    refine h.imp_right fun ⟨hacc, hpos, hsummable, r, ht, hwf, hsum⟩ =>
      ⟨hacc, hpos, hsummable, r, ht, hwf, hsum.shape_eq, hsum.dtype_eq, fun i hi => ?_⟩
    rw [hsum.elements i hi, total_append, hheld]
    rfl
  | some address =>
    obtain ⟨a, ha⟩ : ∃ a, s.arrays[address]? = some a :=
      ⟨_, List.getElem?_eq_getElem (hs.defined worker hworker address hvalue)⟩
    have hheld : s.held src worker = some a := by rw [held, hvalue]; exact ha
    obtain ⟨hwf, hshape, hdtype⟩ := hs.same worker hworker a hheld
    have hmore : (seen ++ [worker]).filterMap (s.held src) =
        seen.filterMap (s.held src) ++ [a] := by
      rw [List.filterMap_append, List.filterMap_cons_some hheld, List.filterMap_nil]
    rw [hmore, List.length_append, List.length_singleton] at hN
    rw [if_neg (Option.some_ne_none address)]
    rcases h with ⟨rfl, hstart, hnone⟩ | ⟨rfl, hpos, hsummable, r, rfl, hrwf, hsum⟩
    · rw [if_pos rfl, hstart]
      refine (heapClone_spec ha hwf fun hunnamed _ hsummable => ?_).mono
        fun value t' ht => ?_
      · obtain ⟨dtype_str, hnamed⟩ := hsummable.named
        exact hunnamed dtype_str (hdtype ▸ hnamed)
      · obtain ⟨⟨dtype_str, hnamed⟩, rfl, r, rfl, hrwf, hrshape, hrdtype, helements⟩ := ht
        rw [hdtype] at hnamed
        refine .inr ⟨rfl, ?_, ?_, r, rfl, hrwf, hrshape.trans hshape, hrdtype.trans hdtype,
          fun i hi => ?_⟩
        · rw [hmore, hnone]
          exact Nat.one_pos
        · rw [hmore, hnone]
          exact summable_one hnamed hint
        · have htotal : s.total src seen i = 0 := by rw [total, hnone]; rfl
          rw [helements i (hshape ▸ hi), total_append, htotal, hheld, Nat.zero_add]
          have hlt : element a i < 256 ^ elementBytes dtype := hdtype ▸ readBytes_lt _ _
          exact (Nat.mod_eq_of_lt hlt).symm
    · rw [if_neg (Option.some_ne_none s.arrays.length), outcome_bind]
      obtain ⟨dtype_str, hnamed⟩ := hsummable.named
      have haddress : (s.arrays ++ [r])[s.arrays.length]? = some r := by simp
      have hother : (s.arrays ++ [r])[address]? = some a := by
        rw [List.getElem?_append_left (hs.defined worker hworker address hvalue)]
        exact ha
      have hadd := AddInPlace_spec (s := { s with arrays := s.arrays ++ [r] })
        (E := fun _ => ¬Summable dtype N) haddress hother hrwf
        (hshape.trans hsum.shape_eq.symm) (hdtype.trans hsum.dtype_eq.symm)
        (hsum.dtype_eq.symm ▸ hnamed) (hsum.dtype_eq.symm ▸ hint) (n := N) (by omega)
        fun h _ => hsum.dtype_eq ▸ h
      refine hadd.mono fun _ t' ht => ?_
      obtain ⟨hsummable', r', rfl, hrwf', hrshape, hrdtype, helements⟩ := ht
      rw [hsum.dtype_eq] at hsummable'
      refine .inr ⟨rfl, ?_, ?_, r', ?_, hrwf', hrshape.trans hsum.shape_eq,
        hrdtype.trans hsum.dtype_eq, fun i hi => ?_⟩
      · rw [hmore, List.length_append]
        omega
      · exact hsummable'.of_two (by omega)
      · simp
      · rw [helements i (hsum.shape_eq.symm ▸ hi), hsum.elements i hi, hsum.dtype_eq,
          total_append, hheld, Nat.mod_add_mod]
        rfl

/-- The first loop. -/
theorem accumulateAll_spec (hs : Sources s src shape dtype) (hsrc : s.HasRegister src)
    (hint : dtype.code = kDLInt ∨ dtype.code = kDLUint)
    (hrange : ∀ worker ∈ intRange s.num_workers, 0 ≤ worker ∧ worker < s.num_workers) :
    Outcome ((intRange s.num_workers).foldlM (Heap.accumulate src) none) s
      (fun _ => ¬Summable dtype ((intRange s.num_workers).filterMap (s.held src)).length)
      fun acc t => Accumulated s src shape dtype (intRange s.num_workers) acc t := by
  have hloop (rest seen : List Int32) (acc : Option Nat) (t : HeapSession)
      (hall : seen ++ rest = intRange s.num_workers)
      (h : Accumulated s src shape dtype seen acc t) :
      Outcome (rest.foldlM (Heap.accumulate src) acc) t
        (fun _ => ¬Summable dtype ((intRange s.num_workers).filterMap (s.held src)).length)
        fun acc t => Accumulated s src shape dtype (intRange s.num_workers) acc t := by
    induction rest generalizing seen acc t with
    | nil =>
      rw [List.append_nil] at hall
      exact hall ▸ h
    | cons worker rest ih =>
      have hall' : (seen ++ [worker]) ++ rest = intRange s.num_workers := by
        rw [List.append_assoc, List.singleton_append, hall]
      have hmem : worker ∈ intRange s.num_workers :=
        hall ▸ List.mem_append_right seen List.mem_cons_self
      have hle : ((seen ++ [worker]).filterMap (s.held src)).length ≤
          ((intRange s.num_workers).filterMap (s.held src)).length :=
        ((hall' ▸ List.sublist_append_left (seen ++ [worker]) rest).filterMap _).length_le
      rw [List.foldlM_cons, outcome_bind]
      exact (accumulate_spec hs hsrc hint hmem (hrange worker hmem) hle h).mono
        fun acc' t' h' => ih _ acc' t' hall' h'
  exact hloop _ [] none s rfl (.inl ⟨rfl, rfl, rfl⟩)

/-- The second loop gives every worker a copy of its own. -/
theorem distribute_spec (t : HeapSession) (dst : DRef) (address : Nat) {r : NDArray}
    {dtype_str : String} {workers : List Int32}
    (haddress : t.arrays[address]? = some r) (hr : WellFormed r)
    (hnamed : DTypeToString r.dtype = .ok dtype_str)
    (hrange : ∀ worker ∈ workers, 0 ≤ worker ∧ worker < t.num_workers) (hdst : t.HasRegister dst) :
    Outcome (workers.forM fun worker => do
        HeapSession.Set worker dst (← Heap.CloneArray (some address))) t (fun _ => False)
      fun _ t' => (∃ more, t'.arrays = t.arrays ++ more) ∧
        (∀ worker reg, ¬(worker ∈ workers ∧ reg = dst.reg_id) →
          t'.register_file worker reg = t.register_file worker reg) ∧
        ∀ worker ∈ workers, ∃ c ∈ t'.held dst worker, c.shape = r.shape ∧ c.dtype = r.dtype ∧
          ∀ i < numel r.shape, element c i = element r i := by
  induction workers generalizing t with
  | nil => exact ⟨⟨[], (List.append_nil _).symm⟩, fun _ _ _ => rfl, nofun⟩
  | cons worker workers ih =>
    obtain ⟨hworker, hworkers⟩ := List.forall_mem_cons.mp hrange
    simp only [List.forM_eq_forM, List.forM_cons, outcome_bind]
    refine (heapClone_spec haddress hr fun h => absurd hnamed (h dtype_str)).mono
      fun value t₁ h₁ => ?_
    obtain ⟨-, rfl, c, rfl, -, hshape, hdtype, helements⟩ := h₁
    refine (heapSet_spec (by exact hworker) (by exact hdst) _).mono fun _ t₂ h₂ => ?_
    obtain ⟨hset, hkeep, harrays, hnum_workers, hreg_count⟩ := h₂
    have hlt : address < t.arrays.length := (List.getElem?_eq_some_iff.mp haddress).1
    have haddress₂ : t₂.arrays[address]? = some r := by
      rw [harrays, List.getElem?_append_left hlt]
      exact haddress
    have hdst₂ : t₂.HasRegister dst := ⟨hdst.1, hreg_count ▸ hdst.2⟩
    refine (ih t₂ haddress₂ (hnum_workers ▸ hworkers) hdst₂).mono fun _ t₃ h₃ => ?_
    obtain ⟨⟨more, hmore⟩, hregisters, hcopies⟩ := h₃
    refine ⟨⟨[c] ++ more, by rw [hmore, harrays, List.append_assoc]⟩, fun w reg h => ?_,
      List.forall_mem_cons.mpr ⟨?_, hcopies⟩⟩
    · rw [hregisters w reg fun h' => h ⟨List.mem_cons_of_mem _ h'.1, h'.2⟩,
        hkeep w reg fun h' => h ⟨h'.1 ▸ List.mem_cons_self, h'.2⟩]
    · by_cases hagain : worker ∈ workers
      · exact hcopies worker hagain
      · refine ⟨c, ?_, hshape, hdtype, helements⟩
        rw [held, hregisters worker dst.reg_id fun h => hagain h.1, hset, array, Option.bind_some,
          hmore, harrays]
        simp

end Accumulating

/-! ### Reducing -/

section Reducing

open HeapSession CpuCCLBackend

variable {s t : HeapSession} {src dst : DRef} {shape : List Int64} {dtype : DLDataType}

/-- `AllReduce` returns if and only if the type can be summed, and then sums over all workers. -/
theorem AllReduce_spec (hs : Sources s src shape dtype) (hsrc : s.HasRegister src)
    (hdst : s.HasRegister dst) (hint : dtype.code = kDLInt ∨ dtype.code = kDLUint)
    (hrange : ∀ worker ∈ intRange s.num_workers, 0 ≤ worker ∧ worker < s.num_workers)
    (in_group : Bool) :
    Outcome (Heap.AllReduce src dst "sum" in_group) s
      (fun _ => ¬Summable dtype ((intRange s.num_workers).filterMap (s.held src)).length)
      fun _ s' => Summable dtype ((intRange s.num_workers).filterMap (s.held src)).length ∧
        Reduced src dst false shape dtype s s' := by
  simp only [Heap.AllReduce, ne_eq, not_true_eq_false, if_false, outcome_bind, outcome_get]
  refine (accumulateAll_spec hs hsrc hint hrange).mono fun acc t h => ?_
  obtain ⟨worker, hworker, hheld⟩ := hs.nonempty
  obtain ⟨a, ha⟩ := Option.isSome_iff_exists.mp hheld
  rcases h with ⟨-, -, hnone⟩ | ⟨rfl, -, hsummable, r, rfl, hrwf, hsum⟩
  · have hmem : a ∈ (intRange s.num_workers).filterMap (s.held src) :=
      List.mem_filterMap.mpr ⟨worker, hworker, ha⟩
    rw [hnone] at hmem
    cases hmem
  rw [if_neg (Option.some_ne_none s.arrays.length)]
  obtain ⟨dtype_str, hnamed⟩ := hsummable.named
  have hloop := distribute_spec { s with arrays := s.arrays ++ [r] } dst s.arrays.length
    (by simp) hrwf (hsum.dtype_eq.symm ▸ hnamed) hrange hdst
  refine hloop.weaken (fun _ => False.elim) fun _ s' h => ?_
  obtain ⟨⟨more, hmore⟩, hregisters, hcopies⟩ := h
  refine ⟨hsummable, ?_, fun address haddress => ?_, hregisters⟩
  · intro team hteam w hw
    obtain rfl := List.mem_singleton.mp hteam
    obtain ⟨c, hc, hshape, hdtype, helements⟩ := hcopies w hw
    refine ⟨c, hc, hshape.trans hsum.shape_eq, hdtype.trans hsum.dtype_eq, fun i hi => ?_⟩
    rw [helements i (hsum.shape_eq.symm ▸ hi), hsum.elements i hi]
    rfl
  · rw [hmore, List.append_assoc, List.getElem?_append_left haddress]

/-- `AllReduce` returns and every worker has got the sum over its team. -/
def Reduces (src dst : DRef) (in_group : Bool) (shape : List Int64) (dtype : DLDataType)
    (s : HeapSession) : Prop :=
  ∃ s', Heap.AllReduce src dst "sum" in_group s = .ok ((), s') ∧
    Reduced src dst in_group shape dtype s s'

/-- The sums over each group are those over all workers. -/
def SameTotals (src : DRef) (shape : List Int64) (dtype : DLDataType) (s : HeapSession) : Prop :=
  ∀ group ∈ intRange s.num_groups, ∀ i < numel shape,
    s.total src (s.groups.members group) i % 256 ^ elementBytes dtype =
      s.total src (intRange s.num_workers) i % 256 ^ elementBytes dtype

/-- `AllReduce` sums over the teams if and only if the type can be summed and, for groups, their
sums are those over all workers. -/
theorem reduces_iff {in_group : Bool} (hworkers : 1 ≤ s.num_workers) (hgroups : 1 ≤ s.num_groups)
    (hdvd : s.num_groups.toInt ∣ s.num_workers.toInt) (hs : Sources s src shape dtype)
    (hint : dtype.code = kDLInt ∨ dtype.code = kDLUint) (hsrc : s.HasRegister src)
    (hdst : s.HasRegister dst) :
    Reduces src dst in_group shape dtype s ↔
      Summable dtype ((intRange s.num_workers).filterMap (s.held src)).length ∧
        (in_group = true → SameTotals src shape dtype s) := by
  obtain ⟨N, hN, hnum_workers⟩ := exists_ofNat (Int32.le_trans (by decide) hworkers)
  obtain ⟨M, hM, hnum_groups⟩ := exists_ofNat (Int32.le_trans (by decide) hgroups)
  rw [hnum_workers] at hworkers hdvd
  rw [hnum_groups] at hgroups hdvd
  have hpos : 0 < N := (ofNat_le_iff (a := 1) (by omega) hN).mp hworkers
  have hpos' : 0 < M := (ofNat_le_iff (a := 1) (by omega) hM).mp hgroups
  rw [Int32.toInt_ofNat_of_lt hN, Int32.toInt_ofNat_of_lt hM, Int.natCast_dvd_natCast] at hdvd
  have heven : s.groups.Even := by
    rw [groups, hnum_workers, hnum_groups]
    exact Groups.even_of_dvd hN hM hpos hpos' hdvd
  have hmem (w : Int32) : w ∈ intRange s.num_workers ↔ 0 ≤ w ∧ w < s.num_workers := by
    rw [hnum_workers, intRange_ofNat hN]
    exact mem_range_ofNat hN w
  have hspec := AllReduce_spec hs hsrc hdst hint (fun w hw => (hmem w).mp hw) in_group
  constructor
  · rintro ⟨s', hrun, hreduced⟩
    obtain ⟨hsummable, hall⟩ := hspec.of_ok hrun
    refine ⟨hsummable, fun hgroup group hg i hi => ?_⟩
    have hroot := heven.root_mem group hg
    have hteam : s.groups.members group ∈ s.groups.teams in_group := by
      rw [hgroup]
      exact List.mem_map.mpr ⟨group, hg, rfl⟩
    obtain ⟨r, hr, hsum⟩ := hreduced.results _ hteam _ hroot
    obtain ⟨r', hr', hsum'⟩ := hall.results _ (List.mem_singleton_self _) _
      ((hmem _).mpr (heven.in_range group hg _ hroot))
    obtain rfl : r = r' := Option.some.inj (hr.symm.trans hr')
    rw [← hsum.elements i hi, hsum'.elements i hi]
    rfl
  · rintro ⟨hsummable, hgroup⟩
    obtain ⟨_, s', hrun, -, hall⟩ :=
      (hspec.weaken (F := fun _ => False) (fun _ h => h hsummable) fun _ _ h => h).exists_ok
    refine ⟨s', hrun, fun team hteam w hw => ?_, hall.arrays, hall.registers⟩
    cases in_group with
    | false => exact hall.results team hteam w hw
    | true =>
      obtain ⟨group, hg, rfl⟩ := List.mem_map.mp hteam
      obtain ⟨r, hr, hsum⟩ := hall.results _ (List.mem_singleton_self _) w
        ((hmem w).mpr (heven.in_range group hg w hw))
      refine ⟨r, hr, hsum.shape_eq, hsum.dtype_eq, fun i hi => ?_⟩
      rw [hsum.elements i hi, hgroup rfl group hg i hi]
      rfl

/-- An `int32` array of one element. -/
def oneElement (value : Nat) : NDArray where
  shape := [1]
  dtype := ⟨kDLInt, 32, 1⟩
  data := writeBytes value 4

/-- Two workers in groups of their own, which hold arrays of one element in register 0. -/
def pairSession (a b : Nat) : HeapSession where
  num_workers := 2
  num_groups := 2
  reg_count := 2
  register_file worker reg :=
    if reg = 0 then if worker = 0 then some 0 else if worker = 1 then some 1 else none else none
  arrays := [oneElement a, oneElement b]

theorem pairSession_sources (a b : Nat) :
    Sources (pairSession a b) ⟨0⟩ [1] ⟨kDLInt, 32, 1⟩ := by
  have hwf (value : Nat) : WellFormed (oneElement value) := by
    refine ⟨fun dim h => List.mem_singleton.mp h ▸ by decide, ?_, ?_⟩
    · change numel [1] * (((32 : UInt8).toNat + 7) / 8) < 2 ^ 63
      decide
    · change numel [1] * (((32 : UInt8).toNat + 7) / 8) ≤ (writeBytes value 4).length
      rw [writeBytes_length]
      decide
  have hheld (worker : Int32) (hworker : worker ∈ intRange 2) :
      (worker = 0 ∧ (pairSession a b).held ⟨0⟩ worker = some (oneElement a)) ∨
        worker = 1 ∧ (pairSession a b).held ⟨0⟩ worker = some (oneElement b) := by
    obtain ⟨n, hn, rfl⟩ := List.mem_map.mp hworker
    have hn : n < 2 := List.mem_range.mp hn
    rcases n with _ | _ | n
    · exact .inl ⟨rfl, rfl⟩
    · exact .inr ⟨rfl, rfl⟩
    · omega
  refine ⟨fun worker hworker address haddress => ?_, fun worker hworker array harray => ?_,
    0, List.mem_cons_self, rfl⟩
  · rcases hheld worker hworker with ⟨rfl, -⟩ | ⟨rfl, -⟩
    · obtain rfl : 0 = address := Option.some.inj haddress
      exact (by decide : 0 < 2)
    · obtain rfl : 1 = address := Option.some.inj haddress
      exact (by decide : 1 < 2)
  · rcases hheld worker hworker with ⟨-, h⟩ | ⟨-, h⟩
    · obtain rfl : oneElement a = array := Option.some.inj (h.symm.trans harray)
      exact ⟨hwf a, rfl, rfl⟩
    · obtain rfl : oneElement b = array := Option.some.inj (h.symm.trans harray)
      exact ⟨hwf b, rfl, rfl⟩

theorem pairSession_reduces :
    Reduces ⟨0⟩ ⟨1⟩ false [1] ⟨kDLInt, 32, 1⟩ (pairSession 3 4) :=
  (reduces_iff (by decide) (by decide) (by decide) (pairSession_sources 3 4) (.inl rfl)
    ⟨by decide, by decide⟩ ⟨by decide, by decide⟩).mpr ⟨⟨rfl, rfl, .inl rfl⟩, nofun⟩

/-- Worker 0 is alone in its group and gets seven. -/
theorem pairSession_not_reduces :
    ¬Reduces ⟨0⟩ ⟨1⟩ true [1] ⟨kDLInt, 32, 1⟩ (pairSession 3 4) := by
  rintro ⟨s', hrun, hreduced⟩
  obtain rfl := (Prod.mk.inj (Except.ok.inj hrun)).2
  obtain ⟨r, hr, hsum⟩ := hreduced.results [0] (by decide) 0 List.mem_cons_self
  have hseven : element r 0 = 7 := by
    obtain rfl := Option.some.inj hr
    decide
  have hthree := hsum.elements 0 (by decide)
  rw [hseven] at hthree
  exact absurd hthree (by decide)

end Reducing

end Kxc.Disco
