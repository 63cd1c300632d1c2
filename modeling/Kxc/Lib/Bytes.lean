import Mathlib.Algebra.Order.Ring.Nat

/-! Buffers of bytes: little-endian numbers, copying from one buffer into another, and loops over the
numbers that a buffer holds. -/

namespace Kxc.Lib

/-- The first `n` bytes of a buffer as a little-endian number. -/
def readBytes (data : List UInt8) (n : Nat) : Nat :=
  (data.take n).foldr (fun byte acc => byte.toNat + 256 * acc) 0

/-- The `n` bytes of a little-endian number. -/
def writeBytes (value : Nat) : Nat → List UInt8
  | 0 => []
  | n + 1 => UInt8.ofNat value :: writeBytes (value / 256) n

/-- `memcpy` of `bytes` bytes from `src` to the place `offset` of `dst`. -/
def memcpy (dst : List UInt8) (offset : Nat) (src : List UInt8) (bytes : Nat) : List UInt8 :=
  dst.take offset ++ src.take bytes ++ dst.drop (offset + bytes)

@[simp] theorem writeBytes_length (value n : Nat) : (writeBytes value n).length = n := by
  induction n generalizing value with
  | zero => rfl
  | succ n ih => rw [writeBytes, List.length_cons, ih]

/-- A number that is written and read back has lost what does not fit. -/
theorem readBytes_writeBytes (value n : Nat) (rest : List UInt8) :
    readBytes (writeBytes value n ++ rest) n = value % 256 ^ n := by
  induction n generalizing value with
  | zero => simp [readBytes, writeBytes, Nat.mod_one]
  | succ n ih =>
    have hrest : readBytes (writeBytes value (n + 1) ++ rest) (n + 1) =
        (UInt8.ofNat value).toNat + 256 * readBytes (writeBytes (value / 256) n ++ rest) n := rfl
    rw [hrest, ih, Nat.pow_succ', Nat.mod_mul, UInt8.toNat_ofNat']

theorem readBytes_lt (data : List UInt8) (n : Nat) : readBytes data n < 256 ^ n := by
  induction n generalizing data with
  | zero => exact Nat.one_pos
  | succ n ih =>
    cases data with
    | nil => exact Nat.pow_pos (by decide)
    | cons byte data =>
      have hrest : readBytes (byte :: data) (n + 1) = byte.toNat + 256 * readBytes data n := rfl
      have hbyte := byte.toNat_lt
      have htail := ih data
      rw [hrest, Nat.pow_succ']
      omega

section Copy

variable {dst src : List UInt8} {offset bytes : Nat}

theorem memcpy_length (hdst : offset + bytes ≤ dst.length) (hsrc : bytes ≤ src.length) :
    (memcpy dst offset src bytes).length = dst.length := by
  rw [memcpy, List.length_append, List.length_append, List.length_take, List.length_take,
    List.length_drop]
  omega

/-- What a copy leaves in front of its place. -/
theorem memcpy_before (hdst : offset ≤ dst.length) {i n : Nat} (h : i + n ≤ offset) :
    ((memcpy dst offset src bytes).drop i).take n = (dst.drop i).take n := by
  rw [memcpy, List.append_assoc, List.drop_append_of_le_length (by rw [List.length_take]; omega),
    List.take_append_of_le_length (by rw [List.length_drop, List.length_take]; omega),
    List.drop_take, List.take_take, Nat.min_eq_left (by omega)]

/-- What a copy leaves behind its place. -/
theorem memcpy_after (hdst : offset + bytes ≤ dst.length) (hsrc : bytes ≤ src.length) {i : Nat}
    (h : offset + bytes ≤ i) : (memcpy dst offset src bytes).drop i = dst.drop i := by
  have hlen : (dst.take offset ++ src.take bytes).length = offset + bytes := by
    rw [List.length_append, List.length_take, List.length_take]
    omega
  rw [memcpy, List.drop_append, hlen, List.drop_eq_nil_of_le (by omega), List.nil_append,
    List.drop_drop]
  congr 1
  omega

/-- What a copy puts at its place. -/
theorem memcpy_at (hdst : offset ≤ dst.length) (hsrc : bytes ≤ src.length) :
    ((memcpy dst offset src bytes).drop offset).take bytes = src.take bytes := by
  have hlen : (dst.take offset).length = offset := by
    rw [List.length_take]
    omega
  rw [memcpy, List.append_assoc, List.drop_append, hlen, Nat.sub_self, List.drop_zero,
    List.drop_eq_nil_of_le (Nat.le_of_eq hlen), List.nil_append, List.take_append_of_le_length]
  · rw [List.take_take, Nat.min_self]
  · rw [List.length_take]
    omega

/-- Copies one after another, as far as they have come. -/
theorem memcpy_take (hdst : offset ≤ dst.length) (hsrc : bytes ≤ src.length) :
    (memcpy dst offset src bytes).take (offset + bytes) = dst.take offset ++ src.take bytes := by
  have hlen : (dst.take offset ++ src.take bytes).length = offset + bytes := by
    rw [List.length_append, List.length_take, List.length_take]
    omega
  rw [memcpy, ← hlen, List.take_left]

end Copy

/-- Number `i` of a buffer of numbers of `size` bytes. -/
def readAt (data : List UInt8) (size i : Nat) : Nat := readBytes (data.drop (i * size)) size

/-- Replaces number `i` by what `f` makes of it. -/
def updateAt (size : Nat) (f : Nat → Nat → Nat) (data : List UInt8) (i : Nat) : List UInt8 :=
  memcpy data (i * size) (writeBytes (f i (readAt data size i)) size) size

section Numbers

variable {data : List UInt8} {size i j n : Nat} {f : Nat → Nat → Nat}

/-- A number is read from its bytes. -/
theorem readBytes_congr {a b : List UInt8} (h : a.take n = b.take n) :
    readBytes a n = readBytes b n := by
  rw [readBytes, readBytes, h]

theorem readAt_congr {a b : List UInt8} {bytes : Nat} (h : a.take bytes = b.take bytes)
    (hi : (i + 1) * size ≤ bytes) : readAt a size i = readAt b size i := by
  have hend : i * size + size = (i + 1) * size := (Nat.succ_mul i size).symm
  have hpart (c : List UInt8) :
      (c.drop (i * size)).take size = ((c.take bytes).drop (i * size)).take size := by
    rw [List.drop_take, List.take_take, Nat.min_eq_left (by omega)]
  exact readBytes_congr (by rw [hpart a, hpart b, h])

theorem updateAt_length (hi : (i + 1) * size ≤ data.length) :
    (updateAt size f data i).length = data.length := by
  have hend : i * size + size = (i + 1) * size := (Nat.succ_mul i size).symm
  exact memcpy_length (by omega) (by rw [writeBytes_length])

theorem readAt_updateAt (hi : (i + 1) * size ≤ data.length) :
    readAt (updateAt size f data i) size i = f i (readAt data size i) % 256 ^ size := by
  have hend : i * size + size = (i + 1) * size := (Nat.succ_mul i size).symm
  have hat : ((updateAt size f data i).drop (i * size)).take size =
      (writeBytes (f i (readAt data size i)) size).take size :=
    memcpy_at (by omega) (by rw [writeBytes_length])
  have hback := readBytes_writeBytes (f i (readAt data size i)) size []
  rw [List.append_nil] at hback
  rw [readAt, readBytes_congr hat, hback]

theorem readAt_updateAt_ne (hi : (i + 1) * size ≤ data.length) (hne : j ≠ i) :
    readAt (updateAt size f data i) size j = readAt data size j := by
  have hend (k : Nat) : k * size + size = (k + 1) * size := (Nat.succ_mul k size).symm
  rcases Nat.lt_or_gt_of_ne hne with h | h
  · have hle : (j + 1) * size ≤ i * size := Nat.mul_le_mul_right size h
    refine readBytes_congr (memcpy_before ?_ ?_)
    · have := hend i
      omega
    · rw [hend]
      exact hle
  · have hle : (i + 1) * size ≤ j * size := Nat.mul_le_mul_right size h
    rw [readAt, updateAt, memcpy_after (by rw [hend]; exact hi) (by rw [writeBytes_length])
      (by rw [hend]; exact hle), readAt]

/-- A loop over the first `n` numbers. -/
theorem foldl_updateAt (hn : n * size ≤ data.length) :
    ((List.range n).foldl (updateAt size f) data).length = data.length ∧
      ∀ j, readAt ((List.range n).foldl (updateAt size f) data) size j =
        if j < n then f j (readAt data size j) % 256 ^ size else readAt data size j := by
  induction n with
  | zero => exact ⟨rfl, fun j => (if_neg (Nat.not_lt_zero j)).symm⟩
  | succ n ih =>
    have hle : n * size ≤ (n + 1) * size := Nat.mul_le_mul_right size (Nat.le_succ n)
    obtain ⟨hlength, hread⟩ := ih (Nat.le_trans hle hn)
    have hroom : (n + 1) * size ≤ ((List.range n).foldl (updateAt size f) data).length :=
      hlength.symm ▸ hn
    rw [List.range_succ, List.foldl_append, List.foldl_cons, List.foldl_nil]
    refine ⟨(updateAt_length hroom).trans hlength, fun j => ?_⟩
    by_cases hj : j = n
    · subst hj
      rw [readAt_updateAt hroom, hread, if_neg (Nat.lt_irrefl j), if_pos (Nat.lt_succ_self j)]
    · rw [readAt_updateAt_ne hroom hj, hread]
      exact if_congr (by omega) rfl rfl

end Numbers

/-- The pieces of a buffer, one after another. -/
theorem flatMap_pieces (data : List UInt8) (size count : Nat) :
    ((List.range count).flatMap fun i => (data.drop (i * size)).take size) =
      data.take (count * size) := by
  induction count with
  | zero => simp
  | succ count ih =>
    rw [List.range_succ, List.flatMap_append, ih, List.flatMap_singleton, Nat.succ_mul,
      List.take_add]

end Kxc.Lib
