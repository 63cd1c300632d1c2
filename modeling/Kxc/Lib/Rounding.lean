import Mathlib.Algebra.Order.Field.Power
import Mathlib.Algebra.Ring.Int.Parity
import Mathlib.Data.Nat.Factorization.Basic
import Mathlib.Data.Nat.Cast.Field
import Mathlib.Data.Nat.Cast.Order.Field
import Mathlib.Data.Rat.Floor
import Mathlib.Tactic.Linarith
import Mathlib.Tactic.Ring

/-! Numbers of a limited precision, the one of them that is nearest to a rational number, and the
integer part. -/

namespace Kxc.Lib.Rounding

/-- A number of `p` significant bits, none of them below `2 ^ l`. -/
def Representable (p : ℕ) (l : ℤ) (q : ℚ) : Prop :=
  ∃ n k : ℤ, |n| ≤ 2 ^ p ∧ l ≤ k ∧ q = n * 2 ^ k

/-- `r` is a number of limited precision, and none of them is nearer to `v`. -/
structure Nearest (p : ℕ) (l : ℤ) (v r : ℚ) : Prop where
  representable : Representable p l r
  closest : ∀ d, Representable p l d → |r - v| ≤ |d - v|

variable {p : ℕ} {l : ℤ} {v r d : ℚ}

theorem Representable.neg (h : Representable p l r) : Representable p l (-r) := by
  obtain ⟨n, k, hn, hk, rfl⟩ := h
  exact ⟨-n, k, by rwa [abs_neg], hk, by push_cast; ring⟩

theorem representable_int {n : ℤ} (hn : |n| ≤ 2 ^ p) (hl : l ≤ 0) : Representable p l n :=
  ⟨n, 0, hn, hl, by simp⟩

theorem representable_two_pow (k : ℕ) (hl : l ≤ 0) : Representable p l (2 ^ k : ℤ) :=
  ⟨1, k, by simpa using one_le_pow₀ (by norm_num), by omega, by push_cast; simp⟩

theorem Nearest.neg (h : Nearest p l v r) : Nearest p l (-v) (-r) where
  representable := h.representable.neg
  closest d hd := by
    have hclosest := h.closest (-d) hd.neg
    rw [← abs_neg (-r - -v), ← abs_neg (d - -v)]
    simpa [neg_sub, sub_eq_add_neg, add_comm] using hclosest

/-- A number of the precision is rounded to itself. -/
theorem Nearest.eq (h : Nearest p l v r) (hv : Representable p l v) : r = v := by
  have hzero := h.closest v hv
  rw [sub_self, abs_zero] at hzero
  exact sub_eq_zero.mp (abs_nonpos_iff.mp hzero)

theorem nearest_self (hv : Representable p l v) : Nearest p l v v :=
  ⟨hv, fun d _ => by rw [sub_self, abs_zero]; exact abs_nonneg _⟩

/-- Rounding does not pass a number of the precision. -/
theorem Nearest.le_of_le (h : Nearest p l v r) (hd : Representable p l d) (hle : d ≤ v) :
    d ≤ r := by
  have hclosest := h.closest d hd
  rw [abs_of_nonpos (sub_nonpos.mpr hle)] at hclosest
  have := neg_abs_le (r - v)
  linarith

theorem Nearest.ge_of_ge (h : Nearest p l v r) (hd : Representable p l d) (hle : v ≤ d) :
    r ≤ d := by
  have := h.neg.le_of_le hd.neg (neg_le_neg hle)
  linarith

/-! ### Integer parts -/

/-- The integer part, without the sign rounded down. -/
def trunc (v : ℚ) : ℤ := if 0 ≤ v then ⌊v⌋ else ⌈v⌉

@[simp] theorem trunc_int (n : ℤ) : trunc n = n := by
  rw [trunc]
  split <;> simp

theorem trunc_neg (v : ℚ) : trunc (-v) = -trunc v := by
  rcases lt_trichotomy v 0 with h | rfl | h
  · rw [trunc, trunc, if_pos (by linarith), if_neg (by linarith), Int.floor_neg]
  · simp [trunc]
  · rw [trunc, trunc, if_neg (by linarith), if_pos h.le, Int.ceil_neg]

theorem trunc_of_nonneg (h : 0 ≤ v) : trunc v = ⌊v⌋ := if_pos h

/-- The integer part of a number of the precision is one, too. -/
theorem Representable.trunc (h : Representable p l r) (hl : l ≤ 0) :
    Representable p l (trunc r : ℤ) := by
  wlog hr : 0 ≤ r generalizing r
  · have := this h.neg (by linarith)
    rw [trunc_neg] at this
    simpa using this.neg
  obtain ⟨n, k, hn, hk, rfl⟩ := h
  rcases le_total 0 k with hk0 | hk0
  · obtain ⟨j, rfl⟩ := Int.eq_ofNat_of_zero_le hk0
    have hint : (n : ℚ) * 2 ^ (j : ℤ) = ((n * 2 ^ j : ℤ) : ℚ) := by push_cast; simp
    rw [hint, trunc_int, ← hint]
    exact ⟨n, j, hn, hk, rfl⟩
  · obtain ⟨j, rfl⟩ : ∃ j : ℕ, k = -j := ⟨k.natAbs, by omega⟩
    have hdiv : (n : ℚ) * 2 ^ (-(j : ℤ)) = n / ((2 ^ j : ℕ) : ℚ) := by
      rw [zpow_neg, zpow_natCast, div_eq_mul_inv]
      push_cast
      rfl
    have hnonneg : 0 ≤ n := by simpa using hr
    rw [trunc_of_nonneg hr, hdiv, Rat.floor_intCast_div_natCast]
    refine representable_int ?_ hl
    rw [abs_of_nonneg (Int.ediv_nonneg hnonneg (by positivity))]
    exact (Int.ediv_le_self _ hnonneg).trans ((le_abs_self n).trans hn)

/-! ### Quotients of integers -/

/-- A quotient of natural numbers of at most `p` bits does not round up to the next integer. -/
theorem Nearest.lt_succ_div {a b : ℕ} (h : Nearest p l (a / b) r) (hb : b ≠ 0) (ha : a ≤ 2 ^ p)
    (hl : l ≤ -b.log2) : r < (a / b : ℕ) + 1 := by
  have hbpos : 0 < b := Nat.pos_of_ne_zero hb
  -- `s / b` is what is missing to the next integer; `2 ^ -j` is less than twice as much
  let s := b - a % b
  let j := (b / s).log2
  have hmod : a % b < b := Nat.mod_lt a hbpos
  have hs : 0 < s := Nat.sub_pos_of_lt hmod
  have hdiv : b / s ≠ 0 := (Nat.div_pos (Nat.sub_le _ _) hs).ne'
  have hj : 2 ^ j * s ≤ b :=
    (Nat.mul_le_mul_right s (Nat.log2_self_le hdiv)).trans (Nat.div_mul_le_self b s)
  have hj' : b < 2 ^ (j + 1) * s := (Nat.div_lt_iff_lt_mul hs).mp Nat.lt_log2_self
  have hjb : j ≤ b.log2 := by
    refine (Nat.le_log2 hb).mpr ((Nat.log2_self_le hdiv).trans (Nat.div_le_self b s))
  have hnext : (a / b + 1) * b = a + s := by
    have := Nat.div_add_mod a b
    have hcomm : b * (a / b) = a / b * b := Nat.mul_comm _ _
    rw [Nat.add_mul, Nat.one_mul]
    omega
  have hbound : (a / b + 1) * 2 ^ j ≤ 2 ^ p + 1 := by
    have hmul : (a / b + 1) * 2 ^ j * s ≤ (a + 1) * s :=
      calc (a / b + 1) * 2 ^ j * s = (a / b + 1) * (2 ^ j * s) := Nat.mul_assoc _ _ _
        _ ≤ (a / b + 1) * b := Nat.mul_le_mul_left _ hj
        _ = a + s := hnext
        _ ≤ (a + 1) * s := by
          rw [Nat.add_mul, Nat.one_mul]
          exact Nat.add_le_add_right (Nat.le_mul_of_pos_right a hs) s
    have := Nat.le_of_mul_le_mul_right hmul hs
    omega
  have hbq : (0 : ℚ) < b := by exact_mod_cast hbpos
  have hgap : ((a / b : ℕ) + 1 : ℚ) - a / b = s / b := by
    have hcast : ((a / b : ℕ) + 1 : ℚ) * b = a + s := by exact_mod_cast hnext
    field_simp
    linarith
  have hle : (s : ℚ) / b ≤ 1 / 2 ^ j := by
    rw [div_le_div_iff₀ hbq (by positivity), one_mul, mul_comm]
    exact_mod_cast hj
  have hlt : (1 : ℚ) / 2 ^ j < 2 * (s / b) := by
    rw [← mul_div_assoc, div_lt_div_iff₀ (by positivity) hbq, one_mul]
    have : (b : ℚ) < 2 ^ (j + 1) * s := by exact_mod_cast hj'
    rw [pow_succ] at this
    linarith
  by_contra hr
  have hclosest := h.closest ((a / b : ℕ) + 1 - 1 / 2 ^ j) ⟨(a / b + 1 : ℕ) * 2 ^ j - 1, -j, ?_,
    by omega, ?_⟩
  · rw [abs_of_nonneg (by linarith), abs_of_nonpos (by linarith)] at hclosest
    linarith
  · have hpos : 0 < (a / b + 1) * 2 ^ j := by positivity
    have hcast : (((a / b + 1 : ℕ) : ℤ) * 2 ^ j) = (((a / b + 1) * 2 ^ j : ℕ) : ℤ) := by
      push_cast
      rfl
    rw [hcast, abs_of_nonneg (by omega)]
    have : (2 ^ p : ℤ) = ((2 ^ p : ℕ) : ℤ) := by push_cast; rfl
    omega
  · rw [zpow_neg, zpow_natCast, Int.cast_sub, Int.cast_mul, Int.cast_natCast, Nat.cast_add]
    push_cast
    field_simp

/-- A natural number of the precision. -/
theorem representable_nat_iff {a : ℕ} (hl : l ≤ 0) :
    Representable p l a ↔ ∃ m j : ℕ, m ≤ 2 ^ p ∧ a = m * 2 ^ j := by
  constructor
  · rintro ⟨n, k, hn, -, heq⟩
    rcases le_total 0 k with hk | hk
    · obtain ⟨j, rfl⟩ := Int.eq_ofNat_of_zero_le hk
      have hint : (a : ℤ) = n * 2 ^ j := by
        have : (a : ℚ) = ((n * 2 ^ j : ℤ) : ℚ) := by rw [heq]; push_cast; simp
        exact_mod_cast this
      have hnonneg : 0 ≤ n := by
        have : 0 * 2 ^ j ≤ n * 2 ^ j := by rw [← hint]; simp
        exact le_of_mul_le_mul_right this (by positivity)
      obtain ⟨m, rfl⟩ := Int.eq_ofNat_of_zero_le hnonneg
      exact ⟨m, j, by exact_mod_cast (le_abs_self _).trans hn, by exact_mod_cast hint⟩
    · obtain ⟨j, rfl⟩ : ∃ j : ℕ, k = -j := ⟨k.natAbs, by omega⟩
      refine ⟨a, 0, ?_, by simp⟩
      have hn' : (n : ℚ) = a * 2 ^ j := by rw [heq]; simp
      have hint : n = ((a * 2 ^ j : ℕ) : ℤ) := by exact_mod_cast hn'
      have hle : a * 2 ^ j ≤ 2 ^ p := by
        rw [hint, abs_of_nonneg (by positivity)] at hn
        exact_mod_cast hn
      exact (Nat.le_mul_of_pos_right a (by positivity)).trans hle
  · rintro ⟨m, j, hm, rfl⟩
    exact ⟨m, j, by rw [abs_of_nonneg (by positivity)]; exact_mod_cast hm, by omega,
      by push_cast; simp⟩

/-- A divisor of a number of the precision is one, too. -/
theorem representable_of_dvd {q a : ℕ} (ha : Representable p l a) (ha0 : a ≠ 0) (hq : q ∣ a)
    (hl : l ≤ 0) : Representable p l q := by
  obtain ⟨n, j, hn, rfl⟩ := (representable_nat_iff hl).mp ha
  obtain ⟨i, m, hm, rfl⟩ := Nat.exists_eq_two_pow_mul_odd (ne_zero_of_dvd_ne_zero ha0 hq)
  -- the odd part of `q` divides `n`
  have hmn : m ∣ n := by
    refine Nat.Coprime.dvd_of_dvd_mul_right ?_ ((Dvd.intro_left _ rfl).trans hq)
    exact Nat.Coprime.pow_right j (Nat.coprime_two_right.mpr hm)
  have hn0 : 0 < n := Nat.pos_of_ne_zero fun h => ha0 (by rw [h, Nat.zero_mul])
  exact (representable_nat_iff hl).mpr ⟨m, i, (Nat.le_of_dvd hn0 hmn).trans hn, Nat.mul_comm _ _⟩

/-- The integer part of the rounded quotient of natural numbers. -/
theorem Nearest.trunc_div {a b : ℕ} (h : Nearest p l (a / b) r) (hb : b ≠ 0)
    (ha : Representable p l a) (hexact : a ≤ 2 ^ p ∨ b ∣ a) (hl : l ≤ -b.log2) :
    trunc r = (a / b : ℕ) := by
  have hl0 : l ≤ 0 := by omega
  have hzero : Representable p l (0 : ℚ) := ⟨0, 0, by simp, hl0, by simp⟩
  have hnonneg : 0 ≤ r := h.le_of_le hzero (by positivity)
  rcases hexact with ha' | hdvd
  · have hq : ((a / b : ℕ) : ℚ) ≤ a / b := Nat.cast_div_le
    have hrep : Representable p l ((a / b : ℕ) : ℚ) :=
      (representable_nat_iff hl0).mpr ⟨a / b, 0, (Nat.div_le_self a b).trans ha', by simp⟩
    rw [trunc_of_nonneg hnonneg, Int.floor_eq_iff]
    exact ⟨by exact_mod_cast h.le_of_le hrep hq, by exact_mod_cast h.lt_succ_div hb ha' hl⟩
  · have hquot : (a : ℚ) / b = (a / b : ℕ) := (Nat.cast_div hdvd (by exact_mod_cast hb)).symm
    have hrep : Representable p l ((a / b : ℕ) : ℚ) := by
      rcases Nat.eq_zero_or_pos a with rfl | hpos
      · simpa using hzero
      · exact representable_of_dvd ha hpos.ne' (Nat.div_dvd_of_dvd hdvd) hl0
    rw [hquot] at h
    rw [h.eq hrep]
    exact_mod_cast trunc_int _

/-- The integer part of the rounded quotient of integers. -/
theorem Nearest.trunc_tdiv {a b : ℤ} (h : Nearest p l (a / b) r) (hb : b ≠ 0)
    (ha : Representable p l a) (hexact : |a| ≤ 2 ^ p ∨ b ∣ a) (hl : l ≤ -b.natAbs.log2) :
    trunc r = a.tdiv b := by
  have hb' : b.natAbs ≠ 0 := Int.natAbs_ne_zero.mpr hb
  have hexact' : a.natAbs ≤ 2 ^ p ∨ b.natAbs ∣ a.natAbs := by
    refine hexact.imp (fun h => ?_) Int.natAbs_dvd_natAbs.mpr
    rw [Int.abs_eq_natAbs] at h
    exact_mod_cast h
  obtain ⟨m, rfl | rfl⟩ := a.eq_nat_or_neg <;> obtain ⟨n, rfl | rfl⟩ := b.eq_nat_or_neg <;>
    simp only [Int.natAbs_neg, Int.natAbs_natCast] at hb' hexact' hl <;> push_cast at h ha
  · exact h.trunc_div hb' ha hexact' hl
  · have h := h.neg
    rw [div_neg, neg_neg] at h
    rw [Int.tdiv_neg, ← neg_neg r, trunc_neg, h.trunc_div hb' ha hexact' hl]
    rfl
  · have h := h.neg
    rw [neg_div, neg_neg] at h
    rw [Int.neg_tdiv, ← neg_neg r, trunc_neg,
      h.trunc_div hb' (by simpa using ha.neg) hexact' hl]
    rfl
  · rw [neg_div_neg_eq] at h
    rw [Int.neg_tdiv, Int.tdiv_neg, neg_neg, h.trunc_div hb' (by simpa using ha.neg) hexact' hl]
    rfl

/-! ### Integers -/

/-- The nearest integer of `p` significant bits; of two that are as near, the even one. -/
def roundDigits (p : ℕ) (v : ℤ) : ℤ :=
  let unit := 2 ^ (v.natAbs.log2 + 1 - p)
  let quotient := v.natAbs / unit
  let rest := v.natAbs % unit
  let up := unit < 2 * rest ∨ unit = 2 * rest ∧ quotient % 2 = 1
  v.sign * ((if up then quotient + 1 else quotient) * unit : ℕ)

/-- An integer of no more bits is kept. -/
theorem roundDigits_of_lt {p : ℕ} {v : ℤ} (hp : 0 < p) (h : v.natAbs < 2 ^ p) :
    roundDigits p v = v := by
  have hunit : v.natAbs.log2 + 1 - p = 0 := by
    by_cases h0 : v.natAbs = 0
    · rw [h0, Nat.log2_zero]
      omega
    · have := (Nat.log2_lt h0).mpr h
      omega
  rw [roundDigits, hunit, pow_zero, Nat.div_one, Nat.mod_one, mul_zero, mul_one,
    if_neg (by omega), Int.sign_mul_natAbs]

/-- One of more bits stays one. -/
theorem le_natAbs_roundDigits {p : ℕ} {v : ℤ} (hp : 0 < p) (h : 2 ^ p ≤ v.natAbs) :
    2 ^ p ≤ (roundDigits p v).natAbs := by
  have h0 : v.natAbs ≠ 0 := fun h0 => by
    rw [h0] at h
    exact Nat.not_le.mpr (Nat.two_pow_pos p) h
  have hlog : p ≤ v.natAbs.log2 := (Nat.le_log2 h0).mpr h
  have hlow : 2 ^ v.natAbs.log2 ≤ v.natAbs := Nat.log2_self_le h0
  have hpow : 2 ^ p ≤ 2 ^ v.natAbs.log2 := Nat.pow_le_pow_right (by decide) hlog
  rw [roundDigits, Int.natAbs_mul, Int.natAbs_sign_of_ne_zero (Int.natAbs_ne_zero.mp h0), one_mul,
    Int.natAbs_natCast]
  set k := v.natAbs.log2 + 1 - p with hk
  have hquotient : 2 ^ p ≤ v.natAbs / 2 ^ k * 2 ^ k := by
    have hsplit : 2 ^ (p - 1) * 2 ^ k = 2 ^ v.natAbs.log2 := by
      rw [← pow_add]
      congr 1
      omega
    have hle : 2 ^ (p - 1) ≤ v.natAbs / 2 ^ k := by
      rw [Nat.le_div_iff_mul_le (Nat.two_pow_pos k), hsplit]
      exact hlow
    exact hpow.trans (hsplit ▸ Nat.mul_le_mul_right _ hle)
  split
  · exact hquotient.trans (Nat.mul_le_mul_right _ (Nat.le_succ _))
  · exact hquotient

end Kxc.Lib.Rounding
