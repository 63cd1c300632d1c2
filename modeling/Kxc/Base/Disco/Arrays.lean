import Kxc.Base.Disco.CclCpu
import Kxc.Lib.RowMajor

/-! The arrays that the collectives of the CPU backend cut, join and copy: their buffers have room
for their elements, and their contents are the bytes of these. -/

namespace Kxc.Disco

open Relay Lib Lib.RowMajor

/-- The number of the elements. -/
def numel (shape : List Int64) : Nat := (count (shape.map Int64.toInt)).toNat

/-- The bytes of one element. -/
def elementBytes (dtype : DLDataType) : Nat := dtype.bits.toNat / 8

/-- The bytes of the elements; the buffer may have more. -/
def contents (a : NDArray) : List UInt8 := a.data.take (numel a.shape * elementBytes a.dtype)

/-- An array whose elements fit into memory and into its buffer. -/
structure WellFormed (a : NDArray) : Prop where
  nonneg : ∀ dim ∈ a.shape, 0 ≤ dim
  small : numel a.shape * ((a.dtype.bits.toNat + 7) / 8) < 2 ^ 63
  room : numel a.shape * ((a.dtype.bits.toNat + 7) / 8) ≤ a.data.length

/-- The same shape and type, and the same elements. -/
structure SameTensor (a b : NDArray) : Prop where
  shape : a.shape = b.shape
  dtype : a.dtype = b.dtype
  contents : contents a = contents b

section Sizes

variable {shape : List Int64} {dim : Int64}

theorem count_nonneg_of (h : ∀ dim ∈ shape, 0 ≤ dim) : 0 ≤ count (shape.map Int64.toInt) := by
  refine count_nonneg fun n hn => ?_
  obtain ⟨dim, hdim, rfl⟩ := List.mem_map.mp hn
  simpa using Int64.le_iff_toInt_le.mp (h dim hdim)

theorem numel_cons (h : ∀ d ∈ dim :: shape, 0 ≤ d) :
    numel (dim :: shape) = dim.toInt.toNat * numel shape := by
  obtain ⟨hdim, hshape⟩ := List.forall_mem_cons.mp h
  have hdim' : 0 ≤ dim.toInt := by simpa using Int64.le_iff_toInt_le.mp hdim
  rw [numel, List.map_cons, count, Int.toNat_mul hdim' (count_nonneg_of hshape), numel]

/-- The code's product of the dimensions is the number of the elements modulo `2 ^ 64`. -/
theorem foldl_mul_eq (h : ∀ d ∈ shape, 0 ≤ d) :
    shape.foldl (· * ·) 1 = Int64.ofNat (numel shape) := by
  rw [foldl_mul_int64, Int64.one_mul, numel, ← Int64.ofInt_eq_ofNat,
    Int.toNat_of_nonneg (count_nonneg_of h)]

theorem toUInt64_toNat {n : Nat} (h : n < 2 ^ 63) : (Int64.ofNat n).toUInt64.toNat = n := by
  rw [Int64.toUInt64_ofNat', UInt64.toNat_ofNat_of_lt' (Nat.lt_of_lt_of_le h (by decide))]

end Sizes

open CpuCCLBackend

section Types

variable {dtype : DLDataType} {dtype_str : String}

/-- The types that the backend names are those that `ParseDType` reads back, of whole bytes. -/
theorem DTypeToString_eq_ok (h : DTypeToString dtype = .ok dtype_str) :
    ParseDType dtype_str = dtype ∧ 0 < elementBytes dtype ∧
      (dtype.bits.toNat + 7) / 8 = elementBytes dtype := by
  obtain ⟨code, bits, lanes⟩ := dtype
  simp only [DTypeToString, ne_eq, ite_not] at h
  split at h
  · rename_i hlanes
    repeat' split at h
    all_goals try cases h
    all_goals
      rename_i hdtype
      obtain ⟨rfl, rfl⟩ := hdtype
      subst hlanes
      decide
  · cases h

theorem zeroArray_room (hdtype : DTypeToString dtype = .ok dtype_str) {shape : List Int64}
    (hshape : ∀ dim ∈ shape, 0 ≤ dim) (hsmall : numel shape < 2 ^ 63) :
    numel shape * elementBytes dtype ≤ (zeroArray shape dtype_str).data.length := by
  obtain ⟨hparse, -, hbytes⟩ := DTypeToString_eq_ok hdtype
  simp only [zeroArray, List.length_replicate, hparse, hbytes, foldl_mul_eq hshape,
    toUInt64_toNat hsmall]
  split
  · rename_i hzero
    rw [hzero]
    exact Nat.zero_le 1
  · exact Nat.le_refl _

theorem WellFormed.elements_small {a : NDArray} (ha : WellFormed a)
    (hdtype : DTypeToString a.dtype = .ok dtype_str) : numel a.shape < 2 ^ 63 := by
  obtain ⟨-, hpos, hbytes⟩ := DTypeToString_eq_ok hdtype
  have hsmall := ha.small
  rw [hbytes] at hsmall
  exact Nat.lt_of_le_of_lt (Nat.le_mul_of_pos_right _ hpos) hsmall

end Types

/-! ### Cutting an array -/

/-- `r` is piece `i` of `src`, of `len` rows. -/
structure IsShard (src : NDArray) (i len : Nat) (r : NDArray) : Prop where
  shape : r.shape = Int64.ofNat len :: src.shape.tail
  dtype : r.dtype = src.dtype
  wellFormed : WellFormed r
  contents : contents r = ((contents src).drop
    (i * (len * numel src.shape.tail * elementBytes src.dtype))).take
      (len * numel src.shape.tail * elementBytes src.dtype)

/-- `SliceFirstDim` cuts out a piece, if the array has the rows. -/
theorem SliceFirstDim_isShard {src : NDArray} {dim0 : Int64} {dims : List Int64} {i len : Nat}
    {v : Option NDArray} (hsrc : WellFormed src) (hshape : src.shape = dim0 :: dims)
    (hrows : (i + 1) * len < 2 ^ 63)
    (h : SliceFirstDim (some src) (Int64.ofNat (i * len)) (Int64.ofNat len) = .ok v) :
    (i + 1) * len ≤ dim0.toInt.toNat ∧ (∃ dtype_str, DTypeToString src.dtype = .ok dtype_str) ∧
      ∃ r, v = some r ∧ IsShard src i len r := by
  have hsum : i * len + len = (i + 1) * len := (Nat.succ_mul i len).symm
  have hlen : len ≤ (i + 1) * len := Nat.le_mul_of_pos_left len i.succ_pos
  simp only [SliceFirstDim, hshape] at h
  split at h
  · cases h
  rename_i hbounds
  rw [not_or, not_or, ← Int64.ofNat_add, hsum] at hbounds
  have hdim0 : (i + 1) * len ≤ dim0.toInt.toNat := by
    have := Int64.le_iff_toInt_le.mp (Int64.not_lt.mp hbounds.2.2)
    rw [Int64.toInt_ofNat_of_lt hrows] at this
    omega
  obtain ⟨dtype_str, hdtype, h⟩ := except_bind_eq_ok.mp h
  cases h
  refine ⟨hdim0, ⟨dtype_str, hdtype⟩, ?_⟩
  obtain ⟨hparse, hpos, hbytes⟩ := DTypeToString_eq_ok hdtype
  have hnonneg := hsrc.nonneg
  rw [hshape] at hnonneg
  obtain ⟨hdim, hdims⟩ := List.forall_mem_cons.mp hnonneg
  have hinner : innerSize src = Int64.ofNat (numel dims) := by
    rw [innerSize, hshape]
    exact foldl_mul_eq hdims
  have hnumel : numel src.shape = dim0.toInt.toNat * numel dims := by
    rw [hshape, numel_cons hnonneg]
  have hrowsIn : (i + 1) * len * numel dims ≤ numel src.shape := by
    rw [hnumel]
    exact Nat.mul_le_mul_right _ hdim0
  have helements := hsrc.elements_small hdtype
  have hpiece : len * numel dims ≤ (i + 1) * len * numel dims := Nat.mul_le_mul_right _ hlen
  have hstart : i * len * numel dims + len * numel dims = (i + 1) * len * numel dims := by
    rw [← Nat.add_mul, hsum]
  have hcopy : (Int64.ofNat len * innerSize src).toUInt64.toNat = len * numel dims := by
    rw [hinner, ← Int64.ofNat_mul, toUInt64_toNat (by omega)]
  have hoffset : (Int64.ofNat (i * len) * innerSize src).toUInt64.toNat = i * len * numel dims := by
    rw [hinner, ← Int64.ofNat_mul, toUInt64_toNat (by omega)]
  have hshard : ∀ d ∈ Int64.ofNat len :: dims, 0 ≤ d := by
    refine List.forall_mem_cons.mpr ⟨?_, hdims⟩
    rw [Int64.le_iff_toInt_le, Int64.toInt_ofNat_of_lt (by omega), Int64.toInt_zero]
    exact Int.natCast_nonneg len
  have hpieceNumel : numel (Int64.ofNat len :: dims) = len * numel dims := by
    rw [numel_cons hshard, Int64.toInt_ofNat_of_lt (by omega), Int.toNat_natCast]
  have hroom := zeroArray_room hdtype hshard (by omega)
  have hin : i * len * numel dims * elementBytes src.dtype +
      len * numel dims * elementBytes src.dtype ≤ numel src.shape * elementBytes src.dtype := by
    rw [← Nat.add_mul, hstart]
    exact Nat.mul_le_mul_right _ hrowsIn
  have hbuffer : numel src.shape * elementBytes src.dtype ≤ src.data.length := hbytes ▸ hsrc.room
  rw [hpieceNumel] at hroom
  have htail : src.shape.tail = dims := by rw [hshape, List.tail_cons]
  have hlength : len * numel dims * elementBytes src.dtype ≤
      (src.data.drop (i * len * numel dims * elementBytes src.dtype)).length := by
    rw [List.length_drop]
    omega
  refine ⟨_, rfl, ⟨?_, hparse, ⟨hshard, ?_, ?_⟩, ?_⟩⟩
  · rw [htail]
    rfl
  · change numel (Int64.ofNat len :: dims) * (((ParseDType dtype_str).bits.toNat + 7) / 8) < 2 ^ 63
    rw [hpieceNumel, hparse]
    exact Nat.lt_of_le_of_lt (Nat.mul_le_mul_right _ (hpiece.trans hrowsIn)) hsrc.small
  · change numel (Int64.ofNat len :: dims) * (((ParseDType dtype_str).bits.toNat + 7) / 8) ≤
      (memcpy _ 0 _ ((Int64.ofNat len * innerSize src).toUInt64.toNat * elementBytes src.dtype)).length
    rw [hpieceNumel, hparse, hbytes, hcopy, memcpy_length (by omega)]
    · exact hroom
    · rw [hoffset]
      exact hlength
  · change (memcpy _ 0 (src.data.drop ((Int64.ofNat (i * len) * innerSize src).toUInt64.toNat *
      elementBytes src.dtype)) ((Int64.ofNat len * innerSize src).toUInt64.toNat *
        elementBytes src.dtype)).take (numel (Int64.ofNat len :: dims) *
          elementBytes (ParseDType dtype_str)) = _
    rw [hpieceNumel, hparse, hcopy, hoffset, htail, contents, List.drop_take, List.take_take]
    have htake := memcpy_take (Nat.zero_le (zeroArray (Int64.ofNat len :: dims) dtype_str).data.length)
      hlength
    rw [Nat.zero_add, List.take_zero, List.nil_append] at htake
    have hassoc : i * len * numel dims * elementBytes src.dtype =
        i * (len * numel dims * elementBytes src.dtype) := by simp only [Nat.mul_assoc]
    rw [htake, ← hassoc, Nat.min_eq_left (by omega)]

/-! ### Joining pieces -/

theorem totalDim0_eq (arrays : List NDArray) (len : Nat)
    (h : ∀ a ∈ arrays, a.shape.getD 0 0 = Int64.ofNat len) :
    totalDim0 (arrays.map some) = .ok (Int64.ofNat (arrays.length * len)) := by
  induction arrays with
  | nil =>
    rw [List.length_nil, Nat.zero_mul]
    rfl
  | cons a arrays ih =>
    obtain ⟨ha, harrays⟩ := List.forall_mem_cons.mp h
    rw [List.map_cons, totalDim0, ih harrays, ha, List.length_cons, Nat.succ_mul, Nat.add_comm,
      Int64.ofNat_add]
    rfl

/-- The loop of `ConcatFirstDim` fills the buffer from `offset` on, each array giving `size`
bytes. -/
theorem concatBytes_eq {inner : Int64} {bytes_per_elem size : Nat} {arrays : List NDArray}
    (dst : List UInt8) (offset : Nat)
    (hsize : ∀ a ∈ arrays, (a.shape.getD 0 0 * inner).toUInt64.toNat * bytes_per_elem = size)
    (hdata : ∀ a ∈ arrays, size ≤ a.data.length) (hdst : offset + arrays.length * size ≤ dst.length) :
    (concatBytes inner bytes_per_elem dst offset (arrays.map some)).length = dst.length ∧
      (concatBytes inner bytes_per_elem dst offset (arrays.map some)).take
          (offset + arrays.length * size) =
        dst.take offset ++ arrays.flatMap fun a => a.data.take size := by
  induction arrays generalizing dst offset with
  | nil => simp [concatBytes]
  | cons a arrays ih =>
    obtain ⟨hsizeA, hsizes⟩ := List.forall_mem_cons.mp hsize
    obtain ⟨hdataA, hdatas⟩ := List.forall_mem_cons.mp hdata
    rw [List.length_cons, Nat.succ_mul] at hdst ⊢
    rw [List.map_cons, concatBytes, hsizeA]
    have hlength : (memcpy dst offset a.data size).length = dst.length :=
      memcpy_length (by omega) hdataA
    obtain ⟨hlen, htake⟩ := ih (memcpy dst offset a.data size) (offset + size) hsizes hdatas
      (by omega)
    refine ⟨hlen.trans hlength, ?_⟩
    rw [Nat.add_comm (arrays.length * size), ← Nat.add_assoc, htake,
      memcpy_take (by omega) hdataA, List.flatMap_cons, List.append_assoc]

/-- Pieces `0` to `pieces - 1` of an array are joined to its first rows. -/
theorem ConcatFirstDim_shards {src : NDArray} {len pieces : Nat} {shard : Nat → NDArray}
    {dtype_str : String} (hsrc : WellFormed src) (hdtype : DTypeToString src.dtype = .ok dtype_str)
    (hpieces : 0 < pieces) (hshard : ∀ i < pieces, IsShard src i len (shard i))
    (hsmall : pieces * len < 2 ^ 63)
    (hrows : pieces * len * numel src.shape.tail ≤ numel src.shape) :
    ∃ r, ConcatFirstDim ((List.range pieces).map fun i => some (shard i)) = .ok (some r) ∧
      r.shape = Int64.ofNat (pieces * len) :: src.shape.tail ∧ r.dtype = src.dtype ∧
      contents r = (contents src).take
        (pieces * (len * numel src.shape.tail * elementBytes src.dtype)) := by
  have hfirst := hshard 0 hpieces
  obtain ⟨hparse, hpos, hbytes⟩ := DTypeToString_eq_ok hdtype
  have hnonneg : ∀ d ∈ Int64.ofNat len :: src.shape.tail, 0 ≤ d :=
    hfirst.shape ▸ hfirst.wellFormed.nonneg
  have htail : ∀ d ∈ src.shape.tail, 0 ≤ d := (List.forall_mem_cons.mp hnonneg).2
  have helements := hsrc.elements_small hdtype
  obtain ⟨rest, hrest⟩ : ∃ rest, List.range pieces = 0 :: rest :=
    ⟨_, by rw [← Nat.succ_pred_eq_of_pos hpieces, List.range_succ_eq_map]⟩
  have hmap : ((List.range pieces).map fun i => some (shard i)) =
      ((List.range pieces).map shard).map some := (List.map_map ..).symm
  have hmem : ∀ a ∈ (List.range pieces).map shard, ∃ i, IsShard src i len a := by
    intro a ha
    obtain ⟨i, hi, rfl⟩ := List.mem_map.mp ha
    exact ⟨i, hshard i (List.mem_range.mp hi)⟩
  have hlength : ((List.range pieces).map shard).length = pieces := by
    rw [List.length_map, List.length_range]
  have htotal := totalDim0_eq ((List.range pieces).map shard) len fun a ha => by
    obtain ⟨i, hi⟩ := hmem a ha
    rw [hi.shape, List.getD_cons_zero]
  rw [hlength] at htotal
  have hconcat : ConcatFirstDim (((List.range pieces).map shard).map some) = .ok (some
      { zeroArray (Int64.ofNat (pieces * len) :: src.shape.tail) dtype_str with
        data := concatBytes (innerSize (shard 0)) (elementBytes src.dtype)
          (zeroArray (Int64.ofNat (pieces * len) :: src.shape.tail) dtype_str).data 0
          (((List.range pieces).map shard).map some) }) := by
    rw [hrest, List.map_cons, List.map_cons] at htotal ⊢
    simp only [ConcatFirstDim, hfirst.shape, htotal, hfirst.dtype, hdtype]
    rfl
  rw [hmap]
  refine ⟨_, hconcat, rfl, hparse, ?_⟩
  have hlen : len ≤ pieces * len := Nat.le_mul_of_pos_left len hpieces
  have hpiece : len * numel src.shape.tail ≤ pieces * len * numel src.shape.tail :=
    Nat.mul_le_mul_right _ hlen
  have hnumel {a : NDArray} {i : Nat} (h : IsShard src i len a) :
      numel a.shape = len * numel src.shape.tail := by
    rw [h.shape, numel_cons hnonneg, Int64.toInt_ofNat_of_lt (by omega), Int.toNat_natCast]
  have hjoined : ∀ d ∈ Int64.ofNat (pieces * len) :: src.shape.tail, 0 ≤ d := by
    refine List.forall_mem_cons.mpr ⟨?_, htail⟩
    rw [Int64.le_iff_toInt_le, Int64.toInt_ofNat_of_lt hsmall, Int64.toInt_zero]
    exact Int.natCast_nonneg _
  have hjoinedNumel : numel (Int64.ofNat (pieces * len) :: src.shape.tail) =
      pieces * len * numel src.shape.tail := by
    rw [numel_cons hjoined, Int64.toInt_ofNat_of_lt hsmall, Int.toNat_natCast]
  have hinner : innerSize (shard 0) = Int64.ofNat (numel src.shape.tail) := by
    rw [innerSize, hfirst.shape]
    exact foldl_mul_eq htail
  have hroom := zeroArray_room hdtype hjoined (by omega)
  have hassoc : pieces * len * numel src.shape.tail * elementBytes src.dtype =
      pieces * (len * numel src.shape.tail * elementBytes src.dtype) := by
    simp only [Nat.mul_assoc]
  have hbytesOf : ∀ a ∈ (List.range pieces).map shard,
      (a.shape.getD 0 0 * innerSize (shard 0)).toUInt64.toNat * elementBytes src.dtype =
        len * numel src.shape.tail * elementBytes src.dtype := by
    intro a ha
    obtain ⟨i, hi⟩ := hmem a ha
    rw [hi.shape, List.getD_cons_zero, hinner, ← Int64.ofNat_mul, toUInt64_toNat (by omega)]
  have hdata : ∀ a ∈ (List.range pieces).map shard,
      len * numel src.shape.tail * elementBytes src.dtype ≤ a.data.length := by
    intro a ha
    obtain ⟨i, hi⟩ := hmem a ha
    have hroomA := hi.wellFormed.room
    rwa [hnumel hi, hi.dtype, hbytes] at hroomA
  rw [hjoinedNumel, hassoc] at hroom
  obtain ⟨-, htake⟩ := concatBytes_eq
    (zeroArray (Int64.ofNat (pieces * len) :: src.shape.tail) dtype_str).data 0 hbytesOf hdata
    (by rwa [hlength, Nat.zero_add])
  rw [hlength, Nat.zero_add, List.take_zero, List.nil_append] at htake
  change (concatBytes _ _ _ 0 _).take (numel (Int64.ofNat (pieces * len) :: src.shape.tail) *
    elementBytes (ParseDType dtype_str)) = _
  rw [hjoinedNumel, hparse, hassoc, htake, List.flatMap_map, ← flatMap_pieces]
  refine List.flatMap_congr fun i hi => ?_
  have hi := hshard i (List.mem_range.mp hi)
  rw [← hi.contents, contents, hnumel hi, hi.dtype]

end Kxc.Disco
