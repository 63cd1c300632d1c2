import Mathlib
import Kxc.Lib.Rounding

/-! Lean's `Float`, which is the format of a `double`: the number that one stands for, and what the
operations and conversions make of numbers. -/

namespace Kxc.Lib.Binary64

open Float.Model Float.Model.UnpackedFloat Rounding

/-- The numbers that a `double` of any size could stand for. -/
abbrev Double : ℚ → Prop := Representable 53 (-1074)

/-- The `double` nearest to a number, if it is not too large for one. -/
abbrev Rounds : ℚ → ℚ → Prop := Nearest 53 (-1074)

/-! ### Mantissas with residual bits -/

/-- The mantissa and the round bit, as a number of halves. -/
def halves (em : ExtendedMantissa) : ℕ := 2 * em.mantissa + em.roundBit.toNat

/-- `em` is what is left of `v` when it is cut off after the first binary digit. -/
def Cuts (em : ExtendedMantissa) (v : ℚ) : Prop :=
  if em.stickyBit then (halves em : ℚ) < 2 * v ∧ 2 * v < halves em + 1 else 2 * v = halves em

section Cuts

variable {em : ExtendedMantissa} {v : ℚ}

theorem cuts_exact (m : ℕ) : Cuts (.ofMantissaAndAccuracy m .exact) m := by
  show 2 * (m : ℚ) = ((2 * m + 0 : ℕ) : ℚ)
  push_cast
  ring

theorem Cuts.bounds (h : Cuts em v) : (em.mantissa : ℚ) ≤ v ∧ v < em.mantissa + 1 := by
  obtain ⟨m, r, s⟩ := em
  cases r <;> cases s <;>
    simp only [Cuts, halves, Bool.false_eq_true, if_false, if_true, Bool.toNat_false,
      Bool.toNat_true] at h <;> push_cast at h ⊢ <;> constructor <;> linarith

theorem Cuts.shiftRightOne (h : Cuts em v) : Cuts em.shiftRightOne (v / 2) := by
  obtain ⟨m, r, s⟩ := em
  have hhalves : halves (ExtendedMantissa.shiftRightOne ⟨m, r, s⟩) = m := by
    have hbit : (m % 2 != 0).toNat = m % 2 := by
      rcases Nat.mod_two_eq_zero_or_one m with h | h <;> rw [h] <;> rfl
    show 2 * (m / 2) + (m % 2 != 0).toNat = m
    rw [hbit, Nat.div_add_mod]
  rw [Cuts, hhalves, mul_div_cancel₀ v two_ne_zero]
  show if (r || s) = true then _ else _
  cases r <;> cases s <;>
    simp only [Cuts, halves, Bool.false_eq_true, if_false, if_true, Bool.toNat_false,
      Bool.toNat_true, Bool.or_false, Bool.or_true] at h ⊢ <;> push_cast at h ⊢
  · linarith
  all_goals constructor <;> linarith

theorem Cuts.shiftRight (h : Cuts em v) (n : ℕ) : Cuts (em >>> n) (v / 2 ^ n) := by
  induction n with
  | zero =>
    rw [pow_zero, div_one]
    exact h
  | succ n ih =>
    rw [pow_succ, ← div_div]
    exact ih.shiftRightOne

/-- No integer is nearer than the rounded mantissa. -/
theorem Cuts.closest (h : Cuts em v) (n : ℤ) : |(em.roundedMantissa : ℚ) - v| ≤ |n - v| := by
  have hhalf : |(em.roundedMantissa : ℚ) - v| ≤ 1 / 2 := by
    obtain ⟨m, r, s⟩ := em
    have hmod : m % 2 = 0 ∨ m % 2 = 1 := Nat.mod_two_eq_zero_or_one m
    rw [abs_le]
    cases r <;> cases s <;>
      simp only [Cuts, halves, Bool.false_eq_true, if_false, if_true, Bool.toNat_false,
        Bool.toNat_true, ExtendedMantissa.roundedMantissa, ExtendedMantissa.accuracy,
        Accuracy.roundToNearestEven] at h ⊢ <;> push_cast at h ⊢
    case true.false =>
      rcases hmod with hmod | hmod <;> rw [hmod] <;> push_cast <;> constructor <;> linarith
    all_goals constructor <;> linarith
  rcases eq_or_ne n em.roundedMantissa with rfl | hne
  · simp
  · have hone : (1 : ℚ) ≤ |(n : ℚ) - em.roundedMantissa| := by
      have : 1 ≤ |n - em.roundedMantissa| := Int.one_le_abs (sub_ne_zero.mpr hne)
      exact_mod_cast this
    have htri := abs_sub_le (n : ℚ) v em.roundedMantissa
    rw [abs_sub_comm v] at htri
    linarith

/-- Rounding does not pass an integer. -/
theorem Cuts.rounded_le (h : Cuts em v) {n : ℤ} (hn : v ≤ n) : (em.roundedMantissa : ℚ) ≤ n := by
  have hclosest := h.closest n
  rw [abs_of_nonneg (sub_nonneg.mpr hn)] at hclosest
  have := le_abs_self ((em.roundedMantissa : ℚ) - v)
  linarith

theorem Cuts.le_rounded (h : Cuts em v) {n : ℤ} (hn : n ≤ v) : (n : ℚ) ≤ em.roundedMantissa := by
  have hclosest := h.closest n
  rw [abs_of_nonpos (sub_nonpos.mpr hn)] at hclosest
  have := neg_abs_le ((em.roundedMantissa : ℚ) - v)
  linarith

end Cuts

/-! ### Values -/

/-- A magnitude with a sign. -/
def signed : Sign → ℚ → ℚ
  | .positive, v => v
  | .negative, v => -v

/-- The number that a finite one stands for. -/
def value : UnpackedFloat → ℚ
  | .finite s m e _ => signed s (m * 2 ^ e)
  | _ => 0

@[simp] theorem value_zero (s : Sign) : value (.zero s) = 0 := rfl

/-- As the format has them, but for the size of the exponent. -/
def Canonical : UnpackedFloat → Prop
  | .finite _ m e _ => m < 2 ^ 53 ∧ -1074 ≤ e ∧ (2 ^ 52 ≤ m ∨ e = -1074)
  | _ => True

theorem Canonical.double {f : UnpackedFloat} (h : Canonical f) : Double (value f) := by
  have hpos {m : ℕ} {e : ℤ} (hm : m < 2 ^ 53) (he : -1074 ≤ e) : Double (m * 2 ^ e) :=
    ⟨m, e, by rw [abs_of_nonneg (by positivity)]; exact_mod_cast hm.le, he, by simp⟩
  cases f with
  | finite s m e _ =>
    cases s with
    | positive => exact hpos h.1 h.2.1
    | negative => exact (hpos h.1 h.2.1).neg
  | _ => exact ⟨0, 0, by simp, by omega, by simp [value]⟩

/-! ### Rounding -/

theorem targetExponent_eq (m : ℕ) (e : ℤ) :
    Format.binary64.targetExponent (totalExponent m e) = max (m.log2 + e - 52) (-1074) := by
  rw [Format.targetExponent, totalExponent]
  show max _ (3 - 2 ^ (11 - 1) - (53 : ℤ)) = _
  rw [show ((Format.binary64.mantissaBits : ℕ) : ℤ) = 53 from rfl]
  omega

/-- The exponent of a mantissa and an exponent that are rounded. -/
def rounded (m : ℕ) (e : ℤ) : ℤ := max (m.log2 + e - 52) (-1074)

theorem shiftToTargetExponent_eq (m : ℕ) (e : ℤ) (acc : Accuracy) :
    shiftToTargetExponent Format.binary64 m e acc =
      (ExtendedMantissa.ofMantissaAndAccuracy m acc >>> (rounded m e - e).toNat,
        e + (rounded m e - e).toNat) := by
  rw [shiftToTargetExponent, targetExponent_eq]
  rfl

/-- A mantissa of 53 bits, shifted where it is. -/
theorem shift_small {m : ℕ} {e : ℤ} (hm : m < 2 ^ 53) (he : -1074 ≤ e) :
    shiftToTargetExponent Format.binary64 m e .exact = (⟨m, false, false⟩, e) := by
  have hlog : m.log2 ≤ 52 := by
    rcases Nat.eq_zero_or_pos m with rfl | hpos
    · decide
    · exact Nat.le_of_lt_succ ((Nat.log2_lt hpos.ne').mpr hm)
  have hk : (rounded m e - e).toNat = 0 := by
    rw [rounded]
    omega
  rw [shiftToTargetExponent_eq, hk, Nat.cast_zero, add_zero]
  rfl

/-- One of 54 bits is shifted by one, which loses nothing. -/
theorem shift_carry {e : ℤ} (he : -1074 ≤ e) :
    shiftToTargetExponent Format.binary64 (2 ^ 53) e .exact = (⟨2 ^ 52, false, false⟩, e + 1) := by
  have hk : (rounded (2 ^ 53) e - e).toNat = 1 := by
    rw [rounded, Nat.log2_two_pow]
    omega
  rw [shiftToTargetExponent_eq, hk]
  rfl

section Round

variable {m : ℕ} {e : ℤ} {acc : Accuracy} {v : ℚ}

/-- What the second shift leaves of a rounded mantissa. -/
theorem roundWithAccuracy_eq (s : Sign) {r : ℕ} {t : ℤ} {em : ExtendedMantissa}
    (hshift : shiftToTargetExponent Format.binary64 m e acc = (em, t))
    (hr : em.roundedMantissa = r) (hr53 : r ≤ 2 ^ 53) (ht : -1074 ≤ t)
    (hnormal : 2 ^ 52 ≤ r ∨ t = -1074) :
    Canonical (roundWithAccuracy Format.binary64 s m e acc) ∧
      (roundWithAccuracy Format.binary64 s m e acc).isFinite = true ∧
      value (roundWithAccuracy Format.binary64 s m e acc) = signed s (r * 2 ^ t) := by
  rcases hr53.lt_or_eq with hlt | rfl
  · have heq : roundWithAccuracy Format.binary64 s m e acc =
        if h : r = 0 then .zero s else .finite s r t (Nat.pos_of_ne_zero h) := by
      rw [roundWithAccuracy, hshift]
      simp only [hr, shift_small hlt ht]
    rw [heq]
    split
    · rename_i hzero
      subst hzero
      refine ⟨trivial, rfl, ?_⟩
      cases s <;> simp [value, signed]
    · exact ⟨⟨hlt, ht, hnormal⟩, rfl, rfl⟩
  · have heq : roundWithAccuracy Format.binary64 s m e acc =
        .finite s (2 ^ 52) (t + 1) (by decide) := by
      rw [roundWithAccuracy, hshift]
      simp only [hr, shift_carry ht]
      rfl
    have hpow : ((2 ^ 52 : ℕ) : ℚ) * 2 ^ (t + 1) = ((2 ^ 53 : ℕ) : ℚ) * 2 ^ t := by
      rw [zpow_add_one₀ two_ne_zero]
      push_cast
      ring
    rw [heq]
    exact ⟨⟨by decide, by omega, .inl le_rfl⟩, rfl, congrArg (signed s) hpow⟩

theorem Rounds.signed {r : ℚ} (s : Sign) (h : Rounds v r) : Rounds (signed s v) (signed s r) := by
  cases s
  · exact Nearest.neg h
  · exact h

/-- The integer nearest to a mantissa is the mantissa of the nearest number. -/
theorem rounds_scaled {r : ℕ} {u : ℚ} {t : ℤ} (hr : ∀ n : ℤ, |(r : ℚ) - u| ≤ |n - u|)
    (hr53 : r ≤ 2 ^ 53) (ht : -1074 ≤ t) (hnormal : 2 ^ 52 ≤ u ∨ t = -1074) :
    Rounds (u * 2 ^ t) (r * 2 ^ t) where
  representable := ⟨r, t, by rw [abs_of_nonneg (by positivity)]; exact_mod_cast hr53, ht, by simp⟩
  closest d hd := by
    have hpos : (0 : ℚ) < 2 ^ t := by positivity
    have hscale (x : ℚ) : |x * 2 ^ t - u * 2 ^ t| = |x - u| * 2 ^ t := by
      rw [← sub_mul, abs_mul, abs_of_pos hpos]
    obtain ⟨n, j, hn, hj, rfl⟩ := hd
    rw [hscale]
    rcases le_or_gt t j with htj | hjt
    · -- a multiple of the last digit
      obtain ⟨i, hi⟩ := Int.eq_ofNat_of_zero_le (sub_nonneg.mpr htj)
      have hd : (n : ℚ) * 2 ^ j = ((n * 2 ^ i : ℤ) : ℚ) * 2 ^ t := by
        rw [show j = i + t by omega, zpow_add₀ two_ne_zero, zpow_natCast]
        push_cast
        ring
      rw [hd, hscale]
      exact mul_le_mul_of_nonneg_right (hr _) hpos.le
    · -- a number of a smaller exponent is not above the least mantissa
      have hu : 2 ^ 52 ≤ u := hnormal.resolve_right (by omega)
      have hd : (n : ℚ) * 2 ^ j ≤ 2 ^ 52 * 2 ^ t := by
        have hn' : (n : ℚ) ≤ 2 ^ 53 := by exact_mod_cast (le_abs_self n).trans hn
        have hjt' : (2 : ℚ) ^ (j + 1) ≤ 2 ^ t := zpow_le_zpow_right₀ (by norm_num) hjt
        rw [zpow_add_one₀ two_ne_zero] at hjt'
        have := mul_le_mul_of_nonneg_right hn' (by positivity : (0 : ℚ) ≤ 2 ^ j)
        linarith
      have hleast := hr (2 ^ 52)
      rw [Int.cast_pow, Int.cast_ofNat, abs_of_nonpos (sub_nonpos.mpr hu), neg_sub] at hleast
      have hbound := mul_le_mul_of_nonneg_right hleast hpos.le
      rw [sub_mul] at hbound
      have := neg_abs_le ((n : ℚ) * 2 ^ j - u * 2 ^ t)
      linarith

/-- A mantissa that is shifted to its exponent has 53 bits, and not fewer above the least exponent. -/
theorem shifted_bounds {k : ℕ} (hk : e + k = rounded m e) (hmv : m ≤ v) (hvm : v < m + 1) :
    v / 2 ^ k < 2 ^ 53 ∧ (2 ^ 52 ≤ v / 2 ^ k ∨ rounded m e = -1074) := by
  rw [rounded] at hk ⊢
  constructor
  · have hlog : m + 1 ≤ 2 ^ (53 + k) := by
      refine (Nat.lt_log2_self : m < 2 ^ (m.log2 + 1)).trans_le (Nat.pow_le_pow_right (by decide) ?_)
      omega
    rw [div_lt_iff₀ (by positivity), ← pow_add]
    exact hvm.trans_le (by exact_mod_cast hlog)
  · by_cases hleast : max ((m.log2 : ℤ) + e - 52) (-1074) = -1074
    · exact .inr hleast
    · have hlog : m.log2 = 52 + k := by omega
      have hm0 : m ≠ 0 := by
        rintro rfl
        rw [Nat.log2_zero] at hlog
        omega
      rw [le_div_iff₀ (by positivity), ← pow_add, ← hlog]
      exact .inl (le_trans (by exact_mod_cast Nat.log2_self_le hm0) hmv)

/-- What is left of a number when it is cut off is rounded to the nearest one. -/
theorem roundWithAccuracy_rounds (s : Sign) (he : e ≤ rounded m e)
    (hv : Cuts (.ofMantissaAndAccuracy m acc) v) :
    Canonical (roundWithAccuracy Format.binary64 s m e acc) ∧
      (roundWithAccuracy Format.binary64 s m e acc).isFinite = true ∧
      Rounds (signed s (v * 2 ^ e)) (value (roundWithAccuracy Format.binary64 s m e acc)) := by
  obtain ⟨k, hk⟩ := Int.eq_ofNat_of_zero_le (sub_nonneg.mpr he)
  let em := ExtendedMantissa.ofMantissaAndAccuracy m acc >>> k
  have ht : -1074 ≤ rounded m e := le_max_right _ _
  have hcuts : Cuts em (v / 2 ^ k) := hv.shiftRight k
  have hmantissa : (ExtendedMantissa.ofMantissaAndAccuracy m acc).mantissa = m := by
    rcases acc with _ | _ | _ | _ <;> rfl
  obtain ⟨hmv, hvm⟩ := hv.bounds
  rw [hmantissa] at hmv hvm
  obtain ⟨hupper, hlower⟩ := shifted_bounds (by omega : e + k = rounded m e) hmv hvm
  have hr53 : em.roundedMantissa ≤ 2 ^ 53 := by
    have hle : (em.roundedMantissa : ℚ) ≤ ((2 ^ 53 : ℤ) : ℚ) := by
      refine hcuts.rounded_le ?_
      rw [Int.cast_pow, Int.cast_ofNat]
      exact hupper.le
    exact_mod_cast hle
  have hnormal : 2 ^ 52 ≤ em.roundedMantissa ∨ rounded m e = -1074 := by
    refine hlower.imp_left fun hu => ?_
    have hle : ((2 ^ 52 : ℤ) : ℚ) ≤ em.roundedMantissa := by
      refine hcuts.le_rounded ?_
      rw [Int.cast_pow, Int.cast_ofNat]
      exact hu
    exact_mod_cast hle
  have hshift : shiftToTargetExponent Format.binary64 m e acc = (em, rounded m e) := by
    rw [shiftToTargetExponent_eq, hk]
    exact congrArg (Prod.mk em) (by omega)
  obtain ⟨hcanonical, hfinite, hvalue⟩ := roundWithAccuracy_eq s hshift rfl hr53 ht hnormal
  refine ⟨hcanonical, hfinite, ?_⟩
  have hve : v * 2 ^ e = v / 2 ^ k * 2 ^ rounded m e := by
    rw [show rounded m e = e + k by omega, zpow_add₀ two_ne_zero, zpow_natCast]
    field_simp
  rw [hvalue, hve]
  exact (rounds_scaled hcuts.closest hr53 ht hlower).signed s

end Round

/-- `f` is the nearest number to `v`. -/
structure RoundsTo (v : ℚ) (f : UnpackedFloat) : Prop where
  canonical : Canonical f
  isFinite : f.isFinite = true
  rounds : Rounds v (value f)

theorem roundsTo_self {f : UnpackedFloat} (hc : Canonical f) (hf : f.isFinite = true) :
    RoundsTo (value f) f :=
  ⟨hc, hf, nearest_self hc.double⟩

/-- Fewer digits before the last one and as many more after it. -/
theorem shiftLeft_value (m k : ℕ) (e : ℤ) : ((m <<< k : ℕ) : ℚ) * 2 ^ (e - k) = m * 2 ^ e := by
  rw [Nat.shiftLeft_eq, zpow_sub₀ two_ne_zero, zpow_natCast]
  push_cast
  field_simp

theorem log2_shiftLeft {m : ℕ} (hm : 0 < m) (k : ℕ) : (m <<< k).log2 = m.log2 + k := by
  have hne : m <<< k ≠ 0 := by
    rw [Nat.shiftLeft_eq]
    positivity
  rw [Nat.log2_eq_iff hne, Nat.shiftLeft_eq, pow_add]
  have hlow := Nat.log2_self_le hm.ne'
  have hhigh := @Nat.lt_log2_self m
  refine ⟨Nat.mul_le_mul_right _ hlow, ?_⟩
  calc m * 2 ^ k < 2 ^ (m.log2 + 1) * 2 ^ k := Nat.mul_lt_mul_of_pos_right hhigh (by positivity)
    _ = 2 ^ (m.log2 + k + 1) := by rw [← pow_add]; congr 1; omega

theorem round_rounds (s : Sign) {m : ℕ} (hm : 0 < m) (e : ℤ) :
    RoundsTo (signed s (m * 2 ^ e)) (UnpackedFloat.round Format.binary64 s m e) := by
  let k := (e - rounded m e).toNat
  have hrounded : e - k ≤ rounded (m <<< k) (e - k) := by
    have hk : k = (e - rounded m e).toNat := rfl
    rw [rounded] at hk
    rw [rounded, log2_shiftLeft hm]
    omega
  have heq : UnpackedFloat.round Format.binary64 s m e =
      roundWithAccuracy Format.binary64 s (m <<< k) (e - k) .exact := by
    rw [UnpackedFloat.round, targetExponent_eq]
    rfl
  obtain ⟨hc, hf, hr⟩ := roundWithAccuracy_rounds s hrounded (cuts_exact (m <<< k))
  rw [shiftLeft_value] at hr
  rw [heq]
  exact ⟨hc, hf, hr⟩

/-- An integer with an exponent. -/
theorem normalize_rounds (n : ℤ) (e : ℤ) (zeroSign : Sign) :
    RoundsTo (n * 2 ^ e) (normalize Format.binary64 n e zeroSign) := by
  rw [UnpackedFloat.normalize]
  rcases lt_trichotomy n 0 with h | rfl | h
  · rw [Int.compare_eq_lt.mpr h]
    have hcast : signed .negative (((-n).toNat : ℕ) * 2 ^ e) = n * 2 ^ e := by
      have : ((-n).toNat : ℤ) = -n := Int.toNat_of_nonneg (by omega)
      have hq : (((-n).toNat : ℕ) : ℚ) = -n := by exact_mod_cast this
      rw [hq, signed]
      ring
    rw [← hcast]
    exact round_rounds .negative (by omega) e
  · rw [show compare (0 : ℤ) 0 = .eq from rfl]
    have hzero : ((0 : ℤ) : ℚ) * 2 ^ e = value (.zero zeroSign) := by simp [value]
    rw [hzero]
    exact roundsTo_self trivial rfl
  · rw [Int.compare_eq_gt.mpr h]
    have hcast : signed .positive ((n.toNat : ℕ) * 2 ^ e) = n * 2 ^ e := by
      have : (n.toNat : ℤ) = n := Int.toNat_of_nonneg h.le
      have hq : ((n.toNat : ℕ) : ℚ) = n := by exact_mod_cast this
      rw [hq, signed]
    rw [← hcast]
    exact round_rounds .positive (by omega) e

/-! ### Operations -/

section Operations

variable {f g : UnpackedFloat}

/-- A mantissa with its sign, shifted to a smaller exponent. -/
theorem apply_decreaseExponent (s : Sign) (m : ℕ) {e e' : ℤ} (he : e' ≤ e) :
    (s.apply (decreaseExponent m e e').1 : ℤ) * (2 : ℚ) ^ e' = signed s (m * 2 ^ e) := by
  have hk : e' = e - (e - e').toNat := by omega
  have hvalue : ((m <<< (e - e').toNat : ℕ) : ℚ) * 2 ^ e' = m * 2 ^ e := by
    rw [← shiftLeft_value m (e - e').toNat e, ← hk]
  cases s
  · show ((-((m <<< (e - e').toNat : ℕ) : ℤ) : ℤ) : ℚ) * 2 ^ e' = -(m * 2 ^ e)
    rw [Int.cast_neg, Int.cast_natCast, neg_mul, hvalue]
  · exact hvalue

theorem signed_neg (s : Sign) (v : ℚ) : signed (-s) v = -signed s v := by
  cases s
  · exact (neg_neg v).symm
  · rfl

theorem signed_mul (s s' : Sign) (v w : ℚ) : signed (s * s') (v * w) = signed s v * signed s' w := by
  cases s <;> cases s'
  · exact (neg_mul_neg v w).symm
  · exact (neg_mul v w).symm
  · exact (mul_neg v w).symm
  · rfl

theorem add_rounds (hf : Canonical f) (hff : f.isFinite = true) (hg : Canonical g)
    (hgf : g.isFinite = true) :
    RoundsTo (value f + value g) (UnpackedFloat.add Format.binary64 f g) := by
  cases f with
  | notANumber | infinity => cases hff
  | zero s =>
    rw [value_zero, zero_add]
    cases g with
    | notANumber | infinity => cases hgf
    | zero s' =>
      show RoundsTo 0 (if (s == s') = true then .zero s else .zero .positive)
      split <;> exact roundsTo_self (f := .zero _) trivial rfl
    | finite => exact roundsTo_self hg rfl
  | finite s m e hm =>
    cases g with
    | notANumber | infinity => cases hgf
    | zero s' =>
      rw [value_zero, add_zero]
      exact roundsTo_self hf rfl
    | finite s' m' e' hm' =>
      have hsum : value (.finite s m e hm) + value (.finite s' m' e' hm') =
          ((s.apply (decreaseExponent m e (min e e')).1 +
            s'.apply (decreaseExponent m' e' (min e e')).1 : ℤ) : ℚ) * 2 ^ min e e' := by
        rw [Int.cast_add, add_mul, apply_decreaseExponent s m (min_le_left e e'),
          apply_decreaseExponent s' m' (min_le_right e e')]
        rfl
      rw [hsum]
      exact normalize_rounds _ _ _

theorem sub_rounds (hf : Canonical f) (hff : f.isFinite = true) (hg : Canonical g)
    (hgf : g.isFinite = true) :
    RoundsTo (value f - value g) (UnpackedFloat.sub Format.binary64 f g) := by
  cases f with
  | notANumber | infinity => cases hff
  | zero s =>
    rw [value_zero, zero_sub]
    cases g with
    | notANumber | infinity => cases hgf
    | zero s' =>
      show RoundsTo (-0) (if (s == -s') = true then .zero s else .zero .positive)
      rw [neg_zero]
      split <;> exact roundsTo_self (f := .zero _) trivial rfl
    | finite s' m e hm =>
      rw [value, ← signed_neg]
      exact roundsTo_self (f := .finite (-s') m e hm) hg rfl
  | finite s m e hm =>
    cases g with
    | notANumber | infinity => cases hgf
    | zero s' =>
      rw [value_zero, sub_zero]
      exact roundsTo_self hf rfl
    | finite s' m' e' hm' =>
      have hsum : value (.finite s m e hm) - value (.finite s' m' e' hm') =
          ((s.apply (decreaseExponent m e (min e e')).1 -
            s'.apply (decreaseExponent m' e' (min e e')).1 : ℤ) : ℚ) * 2 ^ min e e' := by
        rw [Int.cast_sub, sub_mul, apply_decreaseExponent s m (min_le_left e e'),
          apply_decreaseExponent s' m' (min_le_right e e')]
        rfl
      rw [hsum]
      exact normalize_rounds _ _ _

theorem mul_rounds (hf : Canonical f) (hff : f.isFinite = true) (hg : Canonical g)
    (hgf : g.isFinite = true) :
    RoundsTo (value f * value g) (UnpackedFloat.mul Format.binary64 f g) := by
  cases f with
  | notANumber | infinity => cases hff
  | zero s =>
    rw [value_zero, zero_mul]
    cases g with
    | notANumber | infinity => cases hgf
    | zero | finite => exact roundsTo_self (f := .zero _) trivial rfl
  | finite s m e hm =>
    cases g with
    | notANumber | infinity => cases hgf
    | zero =>
      rw [value_zero, mul_zero]
      exact roundsTo_self (f := .zero _) trivial rfl
    | finite s' m' e' hm' =>
      have hrounded : e + e' ≤ rounded (m * m') (e + e') := by
        have hlog {n k : ℕ} (hn : 2 ^ 52 ≤ n) (hk : 0 < k) : 52 ≤ (n * k).log2 :=
          (Nat.le_log2 (by positivity)).mpr (hn.trans (Nat.le_mul_of_pos_right n hk))
        rw [rounded]
        rcases hf.2.2 with hnormal | hleast
        · have := hlog hnormal hm'
          omega
        · rcases hg.2.2 with hnormal | hleast'
          · have := hlog hnormal hm
            rw [mul_comm] at this
            omega
          · omega
      have hproduct : value (.finite s m e hm) * value (.finite s' m' e' hm') =
          signed (s * s') ((m * m' : ℕ) * 2 ^ (e + e')) := by
        rw [value, value, ← signed_mul, zpow_add₀ two_ne_zero]
        push_cast
        congr 1
        ring
      obtain ⟨hc, hfinite, hr⟩ := roundWithAccuracy_rounds (s * s') hrounded (cuts_exact (m * m'))
      rw [hproduct]
      exact ⟨hc, hfinite, hr⟩

/-- A quotient that is cut off, with what its remainder says of the digits after it. -/
theorem cuts_fraction (a : ℕ) {b : ℕ} (hb : 0 < b) :
    Cuts (.ofMantissaAndAccuracy (a / b) (accuracyOfFraction (a % b) b)) (a / b) := by
  have hbq : (0 : ℚ) < b := by exact_mod_cast hb
  have hdiv : (a : ℚ) / b = (a / b : ℕ) + (a % b : ℕ) / b := by
    have hcast : (b : ℚ) * (a / b : ℕ) + (a % b : ℕ) = a := by exact_mod_cast Nat.div_add_mod a b
    field_simp
    linarith
  have hmod : (((a % b : ℕ) : ℚ)) / b < 1 := by
    rw [div_lt_one hbq]
    exact_mod_cast Nat.mod_lt a hb
  rw [hdiv]
  generalize a / b = q at *
  rw [accuracyOfFraction]
  rcases Nat.eq_zero_or_pos (a % b) with hzero | hpos
  · rw [if_pos hzero, hzero, Nat.cast_zero, zero_div, add_zero]
    exact cuts_exact q
  · rw [if_neg hpos.ne']
    have hposq : (0 : ℚ) < (a % b : ℕ) / b := div_pos (by exact_mod_cast hpos) hbq
    rcases lt_trichotomy (2 * (a % b)) b with h | h | h
    · rw [Nat.compare_eq_lt.mpr h]
      show ((2 * q + 0 : ℕ) : ℚ) < _ ∧ _ < ((2 * q + 0 : ℕ) : ℚ) + 1
      have hlt : 2 * (((a % b : ℕ) : ℚ) / b) < 1 := by
        rw [← mul_div_assoc, div_lt_one hbq]
        exact_mod_cast h
      push_cast
      constructor <;> linarith
    · rw [Nat.compare_eq_eq.mpr h]
      show _ = ((2 * q + 1 : ℕ) : ℚ)
      have heq : 2 * (((a % b : ℕ) : ℚ) / b) = 1 := by
        rw [← mul_div_assoc, div_eq_one_iff_eq hbq.ne']
        exact_mod_cast h
      push_cast
      linarith
    · rw [Nat.compare_eq_gt.mpr h]
      show ((2 * q + 1 : ℕ) : ℚ) < _ ∧ _ < ((2 * q + 1 : ℕ) : ℚ) + 1
      have hgt : 1 < 2 * (((a % b : ℕ) : ℚ) / b) := by
        rw [← mul_div_assoc, one_lt_div hbq]
        exact_mod_cast h
      push_cast
      constructor <;> linarith

/-- A quotient of enough digits. -/
theorem rounded_divCore {m m' : ℕ} {e e' t : ℤ} (hm : 0 < m) (hm' : 0 < m')
    (ht : t = min (e - e') (max (m.log2 + e - (m'.log2 + e') - 53) (-1074))) :
    t ≤ rounded (m <<< (e - e' - t).toNat / m') t := by
  rw [rounded]
  by_cases hleast : t ≤ -1074
  · omega
  · have hlog : 52 ≤ (m <<< (e - e' - t).toNat / m').log2 := by
      have hle : 2 ^ 52 ≤ m <<< (e - e' - t).toNat / m' := by
        rw [Nat.le_div_iff_mul_le hm', Nat.shiftLeft_eq]
        have hlow := Nat.log2_self_le hm.ne'
        have hhigh := @Nat.lt_log2_self m'
        calc 2 ^ 52 * m' ≤ 2 ^ 52 * 2 ^ (m'.log2 + 1) := Nat.mul_le_mul_left _ hhigh.le
          _ ≤ 2 ^ (m.log2 + (e - e' - t).toNat) := by
            rw [← pow_add]
            exact Nat.pow_le_pow_right (by decide) (by omega)
          _ ≤ m * 2 ^ (e - e' - t).toNat := by
            rw [pow_add]
            exact Nat.mul_le_mul_right _ hlow
      exact (Nat.le_log2 (by omega)).mpr hle
    omega

theorem signed_div (s s' : Sign) (v w : ℚ) : signed (s / s') (v / w) = signed s v / signed s' w := by
  cases s <;> cases s'
  · exact (neg_div_neg_eq v w).symm
  · exact (neg_div w v).symm
  · exact (div_neg v).symm
  · rfl

theorem div_rounds (hff : f.isFinite = true) (hgf : g.isFinite = true) (hg0 : value g ≠ 0) :
    RoundsTo (value f / value g) (UnpackedFloat.div Format.binary64 f g) := by
  cases g with
  | notANumber | infinity => cases hgf
  | zero => exact absurd rfl hg0
  | finite s' m' e' hm' =>
    cases f with
    | notANumber | infinity => cases hff
    | zero =>
      rw [value_zero, zero_div]
      exact roundsTo_self (f := .zero _) trivial rfl
    | finite s m e hm =>
      let t := min (e - e') (Format.binary64.targetExponent (totalExponent m e - totalExponent m' e'))
      have ht : t = min (e - e') (max (m.log2 + e - (m'.log2 + e') - 53) (-1074)) := by
        show min (e - e') (max ((m.log2 : ℤ) + 1 + e - (m'.log2 + 1 + e') - 53) (-1074)) = _
        omega
      have hquotient : value (.finite s m e hm) / value (.finite s' m' e' hm') =
          signed (s / s') ((m <<< (e - e' - t).toNat : ℕ) / m' * 2 ^ t) := by
        have hk : t = e - e' - (e - e' - t).toNat := by
          have : t ≤ e - e' := min_le_left _ _
          omega
        have hscaled : ((m <<< (e - e' - t).toNat : ℕ) : ℚ) * 2 ^ t = m * 2 ^ (e - e') := by
          rw [← shiftLeft_value m (e - e' - t).toNat (e - e'), ← hk]
        rw [div_mul_eq_mul_div, hscaled, value, value, ← signed_div, zpow_sub₀ two_ne_zero]
        congr 1
        field_simp
      obtain ⟨hc, hfinite, hr⟩ := roundWithAccuracy_rounds (s / s') (rounded_divCore hm hm' ht)
        (cuts_fraction (m <<< (e - e' - t).toNat) hm')
      rw [hquotient]
      exact ⟨hc, hfinite, hr⟩

/-- Exponents decide before mantissas. -/
theorem lt_of_exponent_lt {m m' : ℕ} {e e' : ℤ} (hm : m < 2 ^ 53) (he : -1074 ≤ e)
    (hm' : 2 ^ 52 ≤ m' ∨ e' = -1074) (hlt : e < e') : (m : ℚ) * 2 ^ e < m' * 2 ^ e' := by
  have hm' : (2 : ℚ) ^ 52 ≤ m' := by exact_mod_cast hm'.resolve_right (by omega)
  have hpow : (2 : ℚ) ^ (e + 1) ≤ 2 ^ e' := zpow_le_zpow_right₀ (by norm_num) hlt
  rw [zpow_add_one₀ two_ne_zero] at hpow
  have hpos : (0 : ℚ) < 2 ^ e := by positivity
  calc (m : ℚ) * 2 ^ e < 2 ^ 53 * 2 ^ e := mul_lt_mul_of_pos_right (by exact_mod_cast hm) hpos
    _ = 2 ^ 52 * (2 ^ e * 2) := by ring
    _ ≤ m' * 2 ^ e' := mul_le_mul hm' hpow (by positivity) (by positivity)

theorem compare_magnitudes {m m' : ℕ} {e e' : ℤ}
    (hc : m < 2 ^ 53 ∧ -1074 ≤ e ∧ (2 ^ 52 ≤ m ∨ e = -1074))
    (hc' : m' < 2 ^ 53 ∧ -1074 ≤ e' ∧ (2 ^ 52 ≤ m' ∨ e' = -1074)) :
    (compare e e').then (compare m m') = compare ((m : ℚ) * 2 ^ e) (m' * 2 ^ e') := by
  rcases lt_trichotomy e e' with h | rfl | h
  · rw [Int.compare_eq_lt.mpr h, compare_lt_iff_lt.mpr (lt_of_exponent_lt hc.1 hc.2.1 hc'.2.2 h)]
    rfl
  · have hpos : (0 : ℚ) < 2 ^ e := by positivity
    rw [Int.compare_eq_eq.mpr rfl]
    show compare m m' = _
    rcases lt_trichotomy m m' with h | rfl | h
    · rw [Nat.compare_eq_lt.mpr h,
        compare_lt_iff_lt.mpr (mul_lt_mul_of_pos_right (by exact_mod_cast h) hpos)]
    · rw [Nat.compare_eq_eq.mpr rfl, compare_eq_iff_eq.mpr rfl]
    · rw [Nat.compare_eq_gt.mpr h,
        compare_gt_iff_gt.mpr (mul_lt_mul_of_pos_right (by exact_mod_cast h) hpos)]
  · rw [Int.compare_eq_gt.mpr h,
      compare_gt_iff_gt.mpr (lt_of_exponent_lt hc'.1 hc'.2.1 hc.2.2 h)]
    rfl

theorem finite_pos {m : ℕ} (hm : 0 < m) (e : ℤ) : (0 : ℚ) < m * 2 ^ e := by
  have : (0 : ℚ) < m := by exact_mod_cast hm
  positivity

theorem compare_eq (hf : Canonical f) (hff : f.isFinite = true) (hg : Canonical g)
    (hgf : g.isFinite = true) : f.compare g = some (compare (value f) (value g)) := by
  have hswap (x y : ℚ) : (compare x y).swap = compare (-x) (-y) := by
    rcases lt_trichotomy x y with h | rfl | h
    · rw [compare_lt_iff_lt.mpr h, compare_gt_iff_gt.mpr (neg_lt_neg h)]
      rfl
    · rw [compare_eq_iff_eq.mpr rfl, compare_eq_iff_eq.mpr rfl]
      rfl
    · rw [compare_gt_iff_gt.mpr h, compare_lt_iff_lt.mpr (neg_lt_neg h)]
      rfl
  cases f with
  | notANumber | infinity => cases hff
  | zero s =>
    cases g with
    | notANumber | infinity => cases hgf
    | zero s' => exact congrArg some (compare_eq_iff_eq.mpr rfl).symm
    | finite s' m' e' hm' =>
      have hpos := finite_pos hm' e'
      cases s'
      · exact congrArg some (compare_gt_iff_gt.mpr (neg_lt_zero.mpr hpos)).symm
      · exact congrArg some (compare_lt_iff_lt.mpr hpos).symm
  | finite s m e hm =>
    have hpos := finite_pos hm e
    cases g with
    | notANumber | infinity => cases hgf
    | zero s' =>
      cases s
      · exact congrArg some (compare_lt_iff_lt.mpr (neg_lt_zero.mpr hpos)).symm
      · exact congrArg some (compare_gt_iff_gt.mpr hpos).symm
    | finite s' m' e' hm' =>
      have hpos' := finite_pos hm' e'
      have hmagnitudes := compare_magnitudes hf hg
      cases s <;> cases s'
      · show some ((compare e e').then (compare m m')).swap = _
        rw [hmagnitudes, hswap]
        rfl
      · exact congrArg some
          (compare_lt_iff_lt.mpr ((neg_lt_zero.mpr hpos).trans hpos')).symm
      · exact congrArg some
          (compare_gt_iff_gt.mpr ((neg_lt_zero.mpr hpos').trans hpos)).symm
      · exact congrArg some hmagnitudes

/-- The integer part. -/
theorem toInt_eq (hff : f.isFinite = true) (low high : ℤ) :
    f.toInt low high = trunc (value f) := by
  cases f with
  | notANumber | infinity => cases hff
  | zero => exact (trunc_int 0).symm
  | finite s m e hm =>
    let a := (e - 0).toNat
    let b := (0 - (e - a)).toNat
    have hvalue : ((m <<< a : ℕ) : ℚ) / 2 ^ b = m * 2 ^ e := by
      rw [← shiftLeft_value m a e, show e - a = -(b : ℤ) by omega, zpow_neg, zpow_natCast,
        div_eq_mul_inv]
    have hcuts := (cuts_exact (m <<< a)).shiftRight b
    rw [hvalue] at hcuts
    have htrunc : trunc (m * 2 ^ e) =
        ((ExtendedMantissa.ofMantissaAndAccuracy (m <<< a) .exact >>> b).mantissa : ℤ) := by
      rw [trunc_of_nonneg (finite_pos hm e).le]
      exact Int.floor_eq_iff.mpr (by exact_mod_cast hcuts.bounds)
    cases s with
    | negative =>
      show _ = trunc (-(m * 2 ^ e))
      rw [trunc_neg, htrunc]
      rfl
    | positive =>
      show _ = trunc (m * 2 ^ e)
      rw [htrunc]
      rfl

end Operations

/-! ### Words -/

theorem unpackSign_packComponents (s : Sign) (e : BitVec 11) (m : BitVec 52) :
    unpackSign (packComponents Format.binary64 s e m) = s.toBitVec := by
  ext i hi
  obtain rfl : i = 0 := by omega
  have hbit : ((s.toBitVec ++ e) ++ m).getLsbD 63 = s.toBitVec.getLsbD 0 := by
    rw [BitVec.getLsbD_append, if_neg (by decide), BitVec.getLsbD_append, if_neg (by decide)]
  simp only [unpackSign, Nat.reduceAdd, Nat.reduceSub, packComponents, BitVec.cast_eq,
    BitVec.getElem_extract, add_zero]
  exact hbit

theorem toNat_implicit (m : BitVec 52) : (1#1 ++ m).toNat = 2 ^ 52 + m.toNat := by
  rw [BitVec.toNat_append, ← Nat.shiftLeft_add_eq_or_of_lt m.isLt]
  rfl

theorem unpack_packComponents (s : Sign) (e : BitVec 11) (m : BitVec 52) :
    UnpackedFloat.unpack Format.binary64 (packComponents Format.binary64 s e m) =
      if e = -1#11 then if m = 0#52 then .infinity s else .notANumber
      else if e = 0#11 then
        if h : 0 < m.toNat then .finite s m.toNat (-1074) h else .zero s
      else .finite s (2 ^ 52 + m.toNat) (e.toNat - 1075) (by positivity) := by
  have hsign : Sign.ofBitVec s.toBitVec = s := by cases s <;> rfl
  have hzero : m = 0#52 ↔ ¬0 < m.toNat := by
    rw [Nat.not_lt, Nat.le_zero, ← BitVec.toNat_inj]
    rfl
  simp only [UnpackedFloat.unpack, unpackMantissa_packComponents, unpackExponent_packComponents,
    unpackSign_packComponents, hsign]
  by_cases he : e = -1#11
  · rw [if_pos he, if_pos he]
  · rw [if_neg he, if_neg he]
    by_cases he0 : e = 0#11
    · rw [if_pos he0, if_pos he0]
      by_cases hm : 0 < m.toNat
      · rw [dif_neg (hzero.not.mpr (not_not.mpr hm)), dif_pos hm, he0]
        rfl
      · rw [dif_pos (hzero.mpr hm), dif_neg hm]
    · rw [if_neg he0, if_neg he0]
      simp only [toNat_implicit]
      congr 1

/-- Words stand for numbers of the format. -/
theorem unpack_canonical (b : BitVec 64) : Canonical (UnpackedFloat.unpack Format.binary64 b) := by
  have hmantissa : (@unpackMantissa Format.binary64 b).toNat < 2 ^ 52 := BitVec.isLt _
  have hbias : ((Format.binary64.exponentBias : ℕ) : ℤ) = 1023 := rfl
  rw [UnpackedFloat.unpack]
  dsimp only
  split_ifs with hones hzero he0 hm0
  · trivial
  · trivial
  · trivial
  · rw [he0]
    exact ⟨by omega, by decide, .inr rfl⟩
  · have hpos : 0 < (@unpackExponent Format.binary64 b).toNat :=
      Nat.pos_of_ne_zero fun h => he0 (BitVec.eq_of_toNat_eq h)
    refine ⟨?_, by omega, .inl ?_⟩ <;> rw [toNat_implicit] <;> omega

section Pack

variable {s : Sign} {m : ℕ} {e : ℤ} {hm : 0 < m}

/-- A number with a first digit of its own, below the exponent of infinity. -/
theorem unpack_pack_normal (hm52 : 2 ^ 52 ≤ m) (hm53 : m < 2 ^ 53) (he : -1074 ≤ e)
    (hlarge : e ≤ 971) :
    UnpackedFloat.unpack Format.binary64 ((UnpackedFloat.finite s m e hm).pack Format.binary64) =
      .finite s m e hm := by
  have hlog : m.log2 + 1 = Format.binary64.mantissaBits :=
    congrArg Nat.succ ((Nat.log2_eq_iff hm.ne').mpr ⟨hm52, hm53⟩)
  have hbias : ((Format.binary64.exponentBias : ℕ) : ℤ) = 1023 := rfl
  rw [UnpackedFloat.pack]
  dsimp only
  generalize hb : (e + Format.binary64.exponentBias + (52 : ℕ)).toNat = b
  have hexp : (BitVec.ofNat 11 b).toNat = b := by
    rw [BitVec.toNat_ofNat, Nat.mod_eq_of_lt (by omega)]
  have hne (k : ℕ) (hk : b ≠ k) (hk11 : k < 2 ^ 11) : BitVec.ofNat 11 b ≠ BitVec.ofNat 11 k := by
    intro h
    have := congrArg BitVec.toNat h
    rw [hexp, BitVec.toNat_ofNat, Nat.mod_eq_of_lt hk11] at this
    exact hk this
  have hones : BitVec.ofNat 11 b ≠ -1#11 := hne 2047 (by omega) (by decide)
  have hzero : BitVec.ofNat 11 b ≠ 0#11 := hne 0 (by omega) (by decide)
  rw [if_neg (fun h : 2 ^ 11 ≤ b + 1 => by omega), if_pos hlog, unpack_packComponents, if_neg hones,
    if_neg hzero]
  have hmod : (BitVec.ofNat 52 m).toNat = m - 2 ^ 52 := by
    rw [BitVec.toNat_ofNat]
    omega
  congr 1
  · rw [hmod]
    omega
  · rw [hexp]
    omega

/-- A number without one. -/
theorem unpack_pack_subnormal (hm52 : m < 2 ^ 52) :
    UnpackedFloat.unpack Format.binary64
        ((UnpackedFloat.finite s m (-1074) hm).pack Format.binary64) = .finite s m (-1074) hm := by
  have hlog : m.log2 + 1 ≠ Format.binary64.mantissaBits := fun h =>
    absurd ((Nat.log2_eq_iff hm.ne').mp (Nat.succ.inj h)).1 (Nat.not_le.mpr hm52)
  have hmod : (BitVec.ofNat 52 m).toNat = m := by
    rw [BitVec.toNat_ofNat, Nat.mod_eq_of_lt hm52]
  rw [UnpackedFloat.pack]
  dsimp only
  rw [if_neg (by decide), if_neg hlog, unpack_packComponents, if_neg (by decide), if_pos rfl,
    dif_pos (hm.trans_eq hmod.symm)]
  congr 1

/-- A number of the format is packed as itself when its exponent is not too large for a word. -/
theorem unpack_pack_finite (hc : Canonical (.finite s m e hm)) (hlarge : e ≤ 971) :
    UnpackedFloat.unpack Format.binary64 ((UnpackedFloat.finite s m e hm).pack Format.binary64) =
      .finite s m e hm := by
  obtain ⟨hm53, he, hnormal⟩ := hc
  rcases Nat.lt_or_ge m (2 ^ 52) with hm52 | hm52
  · obtain rfl : e = -1074 := hnormal.resolve_left (Nat.not_le.mpr hm52)
    exact unpack_pack_subnormal hm52
  · exact unpack_pack_normal hm52 hm53 he hlarge

end Pack

/-- A number of the format is packed as itself, or is too large for a word. -/
theorem unpack_pack {f : UnpackedFloat} (hc : Canonical f) (hf : f.isFinite = true)
    (hfits : (UnpackedFloat.unpack Format.binary64 (f.pack Format.binary64)).isFinite = true) :
    UnpackedFloat.unpack Format.binary64 (f.pack Format.binary64) = f := by
  cases f with
  | notANumber | infinity => cases hf
  | zero s =>
    rw [UnpackedFloat.pack, packedZero]
    exact unpack_packComponents s 0 0
  | finite s m e hm =>
    refine unpack_pack_finite hc ?_
    by_contra hlarge
    have hbias : ((Format.binary64.exponentBias : ℕ) : ℤ) = 1023 := rfl
    have hoverflow : 2 ^ 11 ≤ (e + Format.binary64.exponentBias + (52 : ℕ)).toNat + 1 := by omega
    rw [UnpackedFloat.pack] at hfits
    dsimp only at hfits
    rw [if_pos hoverflow, packedInfinity, unpack_packComponents] at hfits
    cases hfits

/-- A number below the largest power of two is packed as itself. -/
theorem pack_isFinite {f : UnpackedFloat} (hc : Canonical f) (hf : f.isFinite = true)
    (hv : |value f| < 2 ^ 1024) :
    (UnpackedFloat.unpack Format.binary64 (f.pack Format.binary64)).isFinite = true := by
  cases f with
  | notANumber | infinity => cases hf
  | zero s =>
    rw [UnpackedFloat.pack, packedZero]
    exact congrArg UnpackedFloat.isFinite (unpack_packComponents s 0 0)
  | finite s m e hm =>
    rw [unpack_pack_finite hc ?_]
    · rfl
    by_contra hlarge
    obtain ⟨hm53, he, hnormal⟩ := hc
    have hm52 : 2 ^ 52 ≤ m := hnormal.resolve_right (by omega)
    have habs : |value (.finite s m e hm)| = m * 2 ^ e := by
      have hpos : (0 : ℚ) ≤ m * 2 ^ e := by positivity
      cases s
      · exact (abs_neg _).trans (abs_of_nonneg hpos)
      · exact abs_of_nonneg hpos
    have hpow : (2 : ℚ) ^ (972 : ℤ) ≤ 2 ^ e := zpow_le_zpow_right₀ (by norm_num) (by omega)
    have hcast : (2 ^ 52 : ℚ) ≤ m := by exact_mod_cast hm52
    have hle : (2 : ℚ) ^ 52 * 2 ^ (972 : ℤ) ≤ m * 2 ^ e :=
      mul_le_mul hcast hpow (by positivity) (by positivity)
    rw [habs] at hv
    have hsum : (2 : ℚ) ^ 52 * 2 ^ (972 : ℤ) = 2 ^ 1024 := by
      rw [← zpow_natCast, ← zpow_natCast, ← zpow_add₀ (by norm_num)]
      norm_num
    exact absurd hv (not_lt.mpr (hsum ▸ hle))

/-! ### `Float` -/

/-- A `Float` stands for a number. -/
structure Holds (x : Float) (v : ℚ) : Prop where
  isFinite : x.toModel.unpack.isFinite = true
  value : value x.toModel.unpack = v

section Float

variable {x y : Float} {v w : ℚ}

theorem holds_canonical (x : Float) : Canonical x.toModel.unpack :=
  unpack_canonical x.toModel.toBits.toBitVec

theorem Holds.double (h : Holds x v) : Double v := h.value ▸ (holds_canonical x).double

theorem holds_of_isFinite (h : x.isFinite = true) : ∃ v, Holds x v := ⟨_, h, rfl⟩

theorem holds_pack {f : UnpackedFloat} (h : RoundsTo v f)
    (hfits : (Float.ofModel (.pack f)).isFinite = true) :
    ∃ r, Holds (.ofModel (.pack f)) r ∧ Rounds v r := by
  have hunpack : (Float.Model.pack f).unpack = f := unpack_pack h.canonical h.isFinite hfits
  refine ⟨value f, ⟨hfits, ?_⟩, h.rounds⟩
  show value (Float.Model.pack f).unpack = _
  rw [hunpack]

theorem holds_add (hx : Holds x v) (hy : Holds y w) (hfinite : (x + y).isFinite = true) :
    ∃ r, Holds (x + y) r ∧ Rounds (v + w) r := by
  obtain ⟨hxf, rfl⟩ := hx
  obtain ⟨hyf, rfl⟩ := hy
  exact holds_pack (add_rounds (holds_canonical x) hxf (holds_canonical y) hyf) hfinite

theorem holds_sub (hx : Holds x v) (hy : Holds y w) (hfinite : (x - y).isFinite = true) :
    ∃ r, Holds (x - y) r ∧ Rounds (v - w) r := by
  obtain ⟨hxf, rfl⟩ := hx
  obtain ⟨hyf, rfl⟩ := hy
  exact holds_pack (sub_rounds (holds_canonical x) hxf (holds_canonical y) hyf) hfinite

theorem holds_mul (hx : Holds x v) (hy : Holds y w) (hfinite : (x * y).isFinite = true) :
    ∃ r, Holds (x * y) r ∧ Rounds (v * w) r := by
  obtain ⟨hxf, rfl⟩ := hx
  obtain ⟨hyf, rfl⟩ := hy
  exact holds_pack (mul_rounds (holds_canonical x) hxf (holds_canonical y) hyf) hfinite

theorem holds_div (hx : Holds x v) (hy : Holds y w) (hw : w ≠ 0)
    (hfinite : (x / y).isFinite = true) : ∃ r, Holds (x / y) r ∧ Rounds (v / w) r := by
  obtain ⟨hxf, rfl⟩ := hx
  obtain ⟨hyf, rfl⟩ := hy
  exact holds_pack (div_rounds hxf hyf hw) hfinite

theorem beq_iff (hx : Holds x v) (hy : Holds y w) : (x == y) = decide (v = w) := by
  obtain ⟨hxf, rfl⟩ := hx
  obtain ⟨hyf, rfl⟩ := hy
  show (x.toModel.unpack.compare y.toModel.unpack == some .eq) = _
  rw [compare_eq (holds_canonical x) hxf (holds_canonical y) hyf, Bool.eq_iff_iff, beq_iff_eq,
    Option.some.injEq, compare_eq_iff_eq, decide_eq_true_eq]

theorem lt_iff (hx : Holds x v) (hy : Holds y w) : x < y ↔ v < w := by
  obtain ⟨hxf, rfl⟩ := hx
  obtain ⟨hyf, rfl⟩ := hy
  show decide (x.toModel < y.toModel) = true ↔ _
  rw [decide_eq_true_eq]
  show (x.toModel.unpack.compare y.toModel.unpack == some .lt) = true ↔ _
  rw [compare_eq (holds_canonical x) hxf (holds_canonical y) hyf, beq_iff_eq, Option.some.injEq,
    compare_lt_iff_lt]

/-! ### Conversions -/

theorem holds_ofInt {n : ℤ} (hn : |n| ≤ 2 ^ 64) :
    ∃ r, Holds (.ofModel (.ofInt n)) r ∧ Rounds n r := by
  have hrounds : RoundsTo n (UnpackedFloat.ofInt Format.binary64 n) := by
    have h := normalize_rounds n 0 .positive
    rwa [zpow_zero, mul_one] at h
  refine holds_pack hrounds (pack_isFinite hrounds.canonical hrounds.isFinite ?_)
  have hbound : Double ((2 ^ 64 : ℤ) : ℚ) := representable_two_pow 64 (by decide)
  have hnq : |(n : ℚ)| ≤ ((2 ^ 64 : ℤ) : ℚ) := by exact_mod_cast hn
  obtain ⟨hlow, hhigh⟩ := abs_le.mp hnq
  have habs : |value (UnpackedFloat.ofInt Format.binary64 n)| ≤ ((2 ^ 64 : ℤ) : ℚ) :=
    abs_le.mpr ⟨hrounds.rounds.le_of_le hbound.neg hlow, hrounds.rounds.ge_of_ge hbound hhigh⟩
  refine habs.trans_lt ?_
  rw [Int.cast_pow, Int.cast_ofNat]
  exact pow_lt_pow_right₀ (by norm_num : (1 : ℚ) < 2) (by norm_num : 64 < 1024)

theorem holds_ofInt_exact {n : ℤ} (hn : |n| ≤ 2 ^ 53) : Holds (.ofModel (.ofInt n)) n := by
  obtain ⟨r, hr, hrounds⟩ := holds_ofInt (hn.trans (by norm_num))
  rwa [hrounds.eq (representable_int hn (by decide))] at hr

/-- An integer is rounded to one of few digits only if it is that one. -/
theorem rounds_eq_iff {n k : ℤ} {r : ℚ} (hk : |k| < 2 ^ 53) (hr : Rounds n r) : r = k ↔ n = k := by
  have hrepresentable (j : ℤ) (hj : |j| ≤ 2 ^ 53) : Double j := representable_int hj (by decide)
  obtain ⟨hlow, hhigh⟩ := abs_lt.mp hk
  rcases lt_trichotomy n k with h | rfl | h
  · have hle : r ≤ ((k - 1 : ℤ) : ℚ) :=
      hr.ge_of_ge (hrepresentable _ (abs_le.mpr ⟨by omega, by omega⟩))
        (by exact_mod_cast Int.le_sub_one_of_lt h)
    push_cast at hle
    exact iff_of_false (by linarith) h.ne
  · exact iff_of_true (hr.eq (hrepresentable n hk.le)) rfl
  · have hle : ((k + 1 : ℤ) : ℚ) ≤ r :=
      hr.le_of_le (hrepresentable _ (abs_le.mpr ⟨by omega, by omega⟩)) (by exact_mod_cast h)
    push_cast at hle
    exact iff_of_false (by linarith) h.ne'

/-- A conversion of an integer is compared with a literal as the integer is. -/
theorem ofInt_beq_iff {n k : ℤ} {y : Float} (hn : |n| ≤ 2 ^ 64) (hk : |k| < 2 ^ 53)
    (hy : Holds y k) : (Float.ofModel (.ofInt n) == y) = decide (n = k) := by
  obtain ⟨r, hr, hrounds⟩ := holds_ofInt hn
  rw [beq_iff hr hy, decide_eq_decide]
  exact rounds_eq_iff hk hrounds

theorem holds_zero : Holds 0.0 ((0 : ℤ) : ℚ) := ⟨rfl, by rw [Int.cast_zero]; rfl⟩

theorem holds_one : Holds 1.0 ((1 : ℤ) : ℚ) := by
  refine ⟨rfl, ?_⟩
  show ((2 ^ 52 : ℕ) : ℚ) * 2 ^ (-52 : ℤ) = _
  norm_num

end Float

/-- `fmod` of C: the remainder of the division that is rounded towards zero. -/
def fmod (x y : Float) : Float :=
  .ofModel <| .pack <| match x.toModel.unpack, y.toModel.unpack with
    | .notANumber, _ | _, .notANumber | .infinity _, _ | _, .zero _ => .notANumber
    | x, .infinity _ | x@(.zero _), _ => x
    | .finite s m e _, .finite _ m' e' _ =>
      let low := min e e'
      let rest := (decreaseExponent m e low).1 % (decreaseExponent m' e' low).1
      normalize Format.binary64 (s.apply rest) low s

end Kxc.Lib.Binary64
