import Mathlib.Tactic.Ring
import Kxc.Lib.IndexSpace

/-! Row-major offsets: the indices of a box are numbered with the last axis running fastest, and the
coordinates of an offset are its digits, the extents being the radices. -/

namespace Kxc.Lib.RowMajor

open IndexSpace

/-- The number of the indices below some extents. -/
def count : List Int → Int
  | [] => 1
  | n :: dims => n * count dims

/-- The offset of an index, read on from the offset `k`. -/
def offsetFrom (k : Int) : List Int → List Int → Int
  | n :: dims, i :: idx => offsetFrom (k * n + i) dims idx
  | _, _ => k

def offset (dims idx : List Int) : Int := offsetFrom 0 dims idx

/-- The digits of `k` for some radices, and what is left. -/
def digits : List Int → Int → Int × List Int
  | [], k => (k, [])
  | n :: dims, k => ((digits dims k).1 / n, (digits dims k).1 % n :: (digits dims k).2)

/-- The coordinates of an offset. -/
def unravel (dims : List Int) (k : Int) : List Int := (digits dims k).2

section Counts

theorem count_append (dims dims' : List Int) : count (dims ++ dims') = count dims * count dims' := by
  induction dims with
  | nil => rw [List.nil_append, count, Int.one_mul]
  | cons n dims ih => rw [List.cons_append, count, count, ih, Int.mul_assoc]

theorem count_nonneg {dims : List Int} (h : ∀ n ∈ dims, 0 ≤ n) : 0 ≤ count dims := by
  induction dims with
  | nil => decide
  | cons n dims ih =>
    obtain ⟨hn, hdims⟩ := List.forall_mem_cons.mp h
    exact Int.mul_nonneg hn (ih hdims)

theorem count_pos {dims : List Int} (h : ∀ n ∈ dims, 0 < n) : 0 < count dims := by
  induction dims with
  | nil => decide
  | cons n dims ih =>
    obtain ⟨hn, hdims⟩ := List.forall_mem_cons.mp h
    exact Int.mul_pos hn (ih hdims)

/-- Extents of a box that is not empty are positive. -/
theorem extents_pos {dims : List Int} (h : ∀ n ∈ dims, 0 ≤ n) (hcount : count dims ≠ 0) :
    ∀ n ∈ dims, 0 < n := by
  induction dims with
  | nil => exact fun n hn => absurd hn List.not_mem_nil
  | cons n dims ih =>
    obtain ⟨hn, hdims⟩ := List.forall_mem_cons.mp h
    obtain ⟨hn0, hcount0⟩ := Int.mul_ne_zero_iff.mp hcount
    exact List.forall_mem_cons.mpr ⟨by omega, ih hdims hcount0⟩

/-- The product of extents, as 64 bits hold it. -/
theorem foldl_mul_int64 (dims : List Int64) (n : Int64) :
    dims.foldl (· * ·) n = n * Int64.ofInt (count (dims.map Int64.toInt)) := by
  induction dims generalizing n with
  | nil => exact (Int64.mul_one n).symm
  | cons d dims ih =>
    rw [List.foldl_cons, ih, List.map_cons, count, Int64.ofInt_mul, Int64.ofInt_toInt,
      Int64.mul_assoc]

end Counts

section Offsets

variable {dims dims' idx idx' : List Int} {k : Int}

theorem offsetFrom_eq (h : idx.length = dims.length) :
    offsetFrom k dims idx = k * count dims + offset dims idx := by
  induction dims generalizing idx k with
  | nil =>
    rw [List.length_eq_zero_iff.mp h]
    simp [offsetFrom, count, offset]
  | cons n dims ih =>
    obtain ⟨i, idx, rfl⟩ := List.exists_cons_of_length_eq_add_one h
    have hlen : idx.length = dims.length := Nat.succ.inj h
    rw [offset, offsetFrom, offsetFrom, ih hlen, ih hlen, count, Int.zero_mul, Int.zero_add,
      Int.add_mul, Int.mul_assoc, Int.add_assoc]

theorem offset_nil : offset [] idx = 0 := rfl

theorem offset_cons {n i : Int} (h : idx.length = dims.length) :
    offset (n :: dims) (i :: idx) = i * count dims + offset dims idx := by
  rw [offset, offsetFrom, Int.zero_mul, Int.zero_add, offsetFrom_eq h]

theorem offset_append (h : idx.length = dims.length) (h' : idx'.length = dims'.length) :
    offset (dims ++ dims') (idx ++ idx') =
      offset dims idx * count dims' + offset dims' idx' := by
  induction dims generalizing idx with
  | nil =>
    obtain rfl := List.length_eq_zero_iff.mp h
    rw [List.nil_append, List.nil_append, offset_nil, Int.zero_mul, Int.zero_add]
  | cons n dims ih =>
    obtain ⟨i, idx, rfl⟩ := List.exists_cons_of_length_eq_add_one h
    have hlen : idx.length = dims.length := Nat.succ.inj h
    rw [List.cons_append, List.cons_append, offset_cons (by simp [hlen, h']), offset_cons hlen,
      ih hlen, count_append, Int.add_mul, Int.mul_assoc, Int.add_assoc]

/-- The offset of an index is below the count. -/
theorem offset_bounds (h : InBounds idx dims) : 0 ≤ offset dims idx ∧ offset dims idx < count dims := by
  induction h with
  | nil => decide
  | @cons i n idx dims hi hidx ih =>
    rw [offset_cons hidx.length_eq, count]
    have hnext : i * count dims + count dims ≤ n * count dims := by
      rw [← add_one_mul]
      exact Int.mul_le_mul_of_nonneg_right (by omega) (by omega)
    have hfirst : 0 ≤ i * count dims := Int.mul_nonneg hi.1 (by omega)
    omega

end Offsets

section Digits

variable {dims idx : List Int} {k : Int}

theorem digits_fst (h : ∀ n ∈ dims, 0 < n) : (digits dims k).1 = k / count dims := by
  induction dims with
  | nil => rw [digits, count, Int.ediv_one]
  | cons n dims ih =>
    obtain ⟨-, hdims⟩ := List.forall_mem_cons.mp h
    rw [digits, ih hdims, count, Int.mul_comm,
      Int.ediv_ediv_of_nonneg (Int.le_of_lt (count_pos hdims))]

theorem length_unravel : (unravel dims k).length = dims.length := by
  induction dims with
  | nil => rfl
  | cons n dims ih => exact congrArg (· + 1) ih

theorem unravel_cons {n : Int} (h : ∀ n ∈ dims, 0 < n) :
    unravel (n :: dims) k = k / count dims % n :: unravel dims k := by
  rw [unravel, digits, digits_fst h, unravel]

/-- Digits are below their radices. -/
theorem inBounds_unravel (h : ∀ n ∈ dims, 0 < n) : InBounds (unravel dims k) dims := by
  induction dims with
  | nil => exact .nil
  | cons n dims ih =>
    obtain ⟨hn, hdims⟩ := List.forall_mem_cons.mp h
    rw [unravel_cons hdims]
    exact .cons ⟨Int.emod_nonneg _ (by omega), Int.emod_lt_of_pos _ hn⟩ (ih hdims)

/-- Digits put together are the number again, up to the number of indices. -/
theorem offset_unravel_emod (h : ∀ n ∈ dims, 0 < n) :
    offset dims (unravel dims k) = k % count dims := by
  induction dims with
  | nil => rw [offset_nil, count, Int.emod_one]
  | cons n dims ih =>
    obtain ⟨hn, hdims⟩ := List.forall_mem_cons.mp h
    have hpos := count_pos hdims
    have hlow := Int.emod_nonneg k (Int.ne_of_gt hpos)
    have hhigh := Int.emod_lt_of_pos k hpos
    have hdigit := Int.emod_nonneg (k / count dims) (Int.ne_of_gt hn)
    have hdigit' := Int.emod_lt_of_pos (k / count dims) hn
    rw [unravel_cons hdims, offset_cons length_unravel, ih hdims, count]
    have hk : k = (k / count dims / n) * (n * count dims) +
        (k / count dims % n * count dims + k % count dims) := by
      calc k = count dims * (k / count dims) + k % count dims :=
            (Int.mul_ediv_add_emod k (count dims)).symm
        _ = count dims * (n * (k / count dims / n) + k / count dims % n) + k % count dims := by
            rw [Int.mul_ediv_add_emod (k / count dims) n]
        _ = _ := by ring
    have hbound : k / count dims % n * count dims + k % count dims < n * count dims := by
      have : (k / count dims % n + 1) * count dims ≤ n * count dims :=
        Int.mul_le_mul_of_nonneg_right (by omega) (by omega)
      rw [add_one_mul] at this
      omega
    have hsum : 0 ≤ k / count dims % n * count dims + k % count dims :=
      Int.add_nonneg (Int.mul_nonneg hdigit (by omega)) hlow
    conv_rhs => rw [hk, Int.mul_add_emod_self_right]
    exact (Int.emod_eq_of_lt hsum hbound).symm

theorem offset_unravel (h : ∀ n ∈ dims, 0 < n) (h0 : 0 ≤ k) (hk : k < count dims) :
    offset dims (unravel dims k) = k := by
  rw [offset_unravel_emod h, Int.emod_eq_of_lt h0 hk]

/-- The coordinates of the offset of an index are the index. -/
theorem unravel_offset (h : InBounds idx dims) : unravel dims (offset dims idx) = idx := by
  have hpos : ∀ n ∈ dims, 0 < n := by
    induction h with
    | nil => exact fun n hn => absurd hn List.not_mem_nil
    | cons hi _ ih => exact List.forall_mem_cons.mpr ⟨by omega, ih⟩
  have hsame (i : Int) : unravel dims (i * count dims + offset dims idx) = idx := by
    induction h generalizing i with
    | nil => rfl
    | @cons j n idx dims hj hidx ih =>
      obtain ⟨hn, hdims⟩ := List.forall_mem_cons.mp hpos
      obtain ⟨hlow, hhigh⟩ := offset_bounds hidx
      have hsplit : i * (n * count dims) + (j * count dims + offset dims idx) =
          (i * n + j) * count dims + offset dims idx := by ring
      rw [unravel_cons hdims, offset_cons hidx.length_eq, count, hsplit, ih hdims,
        Int.mul_comm, Int.mul_add_ediv_left _ _ (by omega), Int.ediv_eq_zero_of_lt hlow hhigh,
        Int.add_zero, Int.mul_add_emod_self_right, Int.emod_eq_of_lt hj.1 hj.2]
  simpa using hsame 0

/-- The coordinates of an offset in a box of two parts are those of the two offsets. -/
theorem unravel_append {dims' : List Int} {i j : Int} (h : ∀ n ∈ dims, 0 < n)
    (h' : ∀ n ∈ dims', 0 < n) (hi : 0 ≤ i ∧ i < count dims) (hj : 0 ≤ j ∧ j < count dims') :
    unravel (dims ++ dims') (i * count dims' + j) = unravel dims i ++ unravel dims' j := by
  have hbounds : InBounds (unravel dims i ++ unravel dims' j) (dims ++ dims') :=
    List.rel_append (inBounds_unravel h) (inBounds_unravel h')
  have hoffset := offset_append (@length_unravel dims i) (@length_unravel dims' j)
  rw [offset_unravel h hi.1 hi.2, offset_unravel h' hj.1 hj.2] at hoffset
  rw [← hoffset, unravel_offset hbounds]

/-- Each number below the count is the offset of one index. -/
theorem exists_unique_offset (h : ∀ n ∈ dims, 0 < n) (h0 : 0 ≤ k) (hk : k < count dims) :
    ∃! idx, InBounds idx dims ∧ offset dims idx = k := by
  refine ⟨unravel dims k, ⟨inBounds_unravel h, offset_unravel h h0 hk⟩, fun idx hidx => ?_⟩
  rw [← hidx.2, unravel_offset hidx.1]

end Digits

end Kxc.Lib.RowMajor
