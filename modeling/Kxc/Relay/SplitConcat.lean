import Mathlib.Tactic.Ring
import Mathlib.Data.List.GetD
import Kxc.Lib.StateExcept
import Kxc.Relay.TypeInfer

/-! `ConcatenateInferType` on what `SplitInferType` returns: along the axis the extents of the fields
add up again, and the other dimensions are the same in all of them. -/

namespace Kxc.Relay

open Lib

/-- The extents of two parts, one after the other. -/
def joinExtent (a b : Int64) : Int64 := if IsKnown a && IsKnown b then a + b else -1

/-- An extent, written as the code writes an unknown one. -/
def canonicalExtent (dim : Int64) : Int64 := if IsKnown dim then dim else -1

/-- The fields of the extents `parts` along an axis. -/
def partFields (shape : List Int64) (dtype : String) (axis : Nat) (parts : List Int64) :
    List (Option RelayType) :=
  parts.map fun part => some (.tensor (shape.set axis part) dtype)

section Concatenate

variable {shape : List Int64} {dtype : String} {axis : Nat} {a b : Int64}

theorem sameOrUnknown_self (d : Int64) : SameOrUnknown d d = true := by
  rw [SameOrUnknown, beq_self_eq_true, Bool.or_true]

theorem concatenateDim_set {dim : Nat} (hdim : dim < shape.length) :
    concatenateDim axis dim ((shape.set axis a).getD dim 0) ((shape.set axis b).getD dim 0) =
      .ok ((shape.set axis (joinExtent a b)).getD dim 0) := by
  have hread (x : Int64) : (shape.set axis x).getD dim 0 =
      if dim = axis then x else shape.getD dim 0 := by
    rw [← List.getElem_eq_getD (h := by rwa [List.length_set]), List.getElem_set,
      List.getElem_eq_getD 0]
    simp only [eq_comm]
  rw [hread, hread, hread, concatenateDim]
  split
  · rfl
  · rw [sameOrUnknown_self]
    rfl

/-- An iteration of `ConcatenateInferType`. -/
theorem concatenateField_set (e : Int64) (i : Nat) :
    concatenateField ⟨shape.set axis e, dtype⟩ axis (shape.set axis a)
      (some (.tensor (shape.set axis b) dtype), i) = .ok (shape.set axis (joinExtent a b)) := by
  have hdims : (List.range (shape.set axis a).length).mapM (fun dim => concatenateDim axis dim
      ((shape.set axis a).getD dim 0) ((shape.set axis b).getD dim 0)) =
        .ok (shape.set axis (joinExtent a b)) := by
    have hrun := except_mapM_ok (fun dim (hdim : dim ∈ List.range (shape.set axis a).length) =>
      @concatenateDim_set shape axis a b dim (by simpa using hdim))
    refine hrun.trans (congrArg Except.ok (List.ext_getElem (by simp) fun k hk hk' => ?_))
    rw [List.getElem_map, List.getElem_range, List.getElem_eq_getD 0]
  show (RequireSameDType "concatenate" _ _ >>= _) = _
  simp only [RequireSameDType]
  rw [throwIf_bind (not_not.mpr rfl), throwIf_bind (by simp)]
  exact hdims

theorem foldlM_concatenateField (e : Int64) (parts : List Int64) (i : Nat) :
    ((partFields shape dtype axis parts).zipIdx i).foldlM
        (concatenateField ⟨shape.set axis e, dtype⟩ axis) (shape.set axis a) =
      .ok (shape.set axis (parts.foldl joinExtent a)) := by
  induction parts generalizing a i with
  | nil => rfl
  | cons part parts ih =>
    rw [partFields, List.map_cons, List.zipIdx_cons, List.foldlM_cons, concatenateField_set]
    exact ih (i + 1)

/-- Fields that differ along the axis only are joined along it. -/
theorem ConcatenateInferType_parts (parts : List Int64) (part : Int64) {concat_axis : Int32}
    (haxis : NormalizeAxis "concatenate" concat_axis.toInt shape.length false = .ok axis) :
    ConcatenateInferType (some (.concat concat_axis))
        [.tuple (partFields shape dtype axis (part :: parts))] =
      .ok (.tensor (shape.set axis (parts.foldl joinExtent part)) dtype) := by
  show (NormalizeAxis "concatenate" concat_axis.toInt (shape.set axis part).length false >>= _) = _
  rw [List.length_set, haxis]
  exact except_bind_eq_ok.mpr ⟨axis, rfl, except_bind_eq_ok.mpr
    ⟨_, foldlM_concatenateField part parts 1, rfl⟩⟩

end Concatenate

/-! ### The extents of the fields -/

section Extents

variable {a b dim : Int64}

theorem isKnown_iff : IsKnown a = true ↔ 0 ≤ a.toInt := by
  rw [IsKnown, decide_eq_true_iff, Int64.le_iff_toInt_le, Int64.toInt_zero]

theorem joinExtent_known (ha : IsKnown a = true) (hb : IsKnown b = true) :
    joinExtent a b = a + b := by
  rw [joinExtent, ha, hb]
  rfl

theorem joinExtent_unknown (h : IsKnown b = false) : joinExtent a b = -1 := by
  rw [joinExtent, h, Bool.and_false]
  rfl

theorem foldl_joinExtent_unknown (parts : List Int64) : parts.foldl joinExtent (-1) = -1 := by
  induction parts with
  | nil => rfl
  | cons part parts ih => exact ih

/-- The difference of extents is one, if the greater one is not before. -/
theorem sub_extent (ha : 0 ≤ a.toInt) (hb : a.toInt ≤ b.toInt) :
    (b - a).toInt = b.toInt - a.toInt := by
  have hlt := b.toInt_lt
  rw [Int64.toInt_sub]
  exact Int.bmod_eq_of_le (by omega) (by omega)

/-- The sum of extents is one, if it fits. -/
theorem add_extent (ha : 0 ≤ a.toInt) (hb : 0 ≤ b.toInt) (hfits : a.toInt + b.toInt < 2 ^ 63) :
    (a + b).toInt = a.toInt + b.toInt := by
  rw [Int64.toInt_add]
  exact Int.bmod_eq_of_le (by omega) (by omega)

/-- Joining an extent to the difference to a greater one. -/
theorem joinExtent_sub (ha : 0 ≤ a.toInt) (hb : a.toInt ≤ b.toInt) : joinExtent a (b - a) = b := by
  have hdiff := sub_extent ha hb
  have hknown : IsKnown (b - a) = true := isKnown_iff.mpr (by omega)
  rw [joinExtent_known (isKnown_iff.mpr ha) hknown, ← Int64.toInt_inj,
    add_extent ha (by omega) (by have := b.toInt_lt; omega)]
  omega

theorem foldl_joinExtent_replicate {part : Int64} (n : Nat) (ha : 0 ≤ a.toInt)
    (hpart : 0 ≤ part.toInt) (hfits : a.toInt + n * part.toInt < 2 ^ 63) :
    ((List.replicate n part).foldl joinExtent a).toInt = a.toInt + n * part.toInt := by
  induction n generalizing a with
  | zero => simp
  | succ n ih =>
    have hrest : 0 ≤ (n : Int) * part.toInt := Int.mul_nonneg (Int.natCast_nonneg n) hpart
    rw [Int.natCast_succ, Int.add_mul, Int.one_mul] at hfits ⊢
    have hsum := add_extent ha hpart (by omega)
    rw [List.replicate_succ, List.foldl_cons,
      joinExtent_known (isKnown_iff.mpr ha) (isKnown_iff.mpr hpart), ih (by omega) (by omega), hsum]
    omega

/-- The fields of `SplitInferType` between points. -/
theorem splitFields_eq_ok {data : TensorTypeNode} {axis : Nat} {previous : Int64}
    {points : List Int64} {fields : List (Option RelayType)} (hprevious : 0 ≤ previous.toInt)
    (hle : IsKnown (data.shape.getD axis 0) = true →
      previous.toInt ≤ (data.shape.getD axis 0).toInt)
    (h : splitFields data axis previous points = .ok fields) :
    ∃ part parts, fields = partFields data.shape data.dtype axis (part :: parts) ∧
      (part :: parts).foldl joinExtent previous = canonicalExtent (data.shape.getD axis 0) ∧
      ∀ p ∈ part :: parts, 0 ≤ p.toInt ∨ p = -1 ∧ IsKnown (data.shape.getD axis 0) = false := by
  induction points generalizing previous fields with
  | nil =>
    obtain rfl := Except.ok.inj h
    refine ⟨_, [], rfl, ?_, List.forall_mem_singleton.mpr ?_⟩
    · rw [List.foldl_cons, List.foldl_nil, canonicalExtent]
      split
      · exact joinExtent_sub hprevious (hle ‹_›)
      · exact joinExtent_unknown rfl
    · split
      · rename_i hknown
        have hle := hle hknown
        have hdiff := sub_extent hprevious hle
        exact .inl (by omega)
      · rename_i hunknown
        exact .inr ⟨rfl, (Bool.not_eq_true _).mp hunknown⟩
  | cons point points ih =>
    rw [splitFields] at h
    obtain ⟨_, hin, h⟩ := except_bind_eq_ok.mp h
    obtain ⟨rest, hrest, h⟩ := except_bind_eq_ok.mp h
    obtain rfl := Except.ok.inj h
    have hin := throwIf_eq_ok.mp hin
    simp only [Int64.lt_iff_toInt_lt, not_or, not_and, Int.not_lt] at hin
    obtain ⟨part, parts, rfl, hsum, hparts⟩ := ih (Int.le_trans hprevious hin.1) hin.2 hrest
    have hdiff := sub_extent hprevious hin.1
    refine ⟨point - previous, part :: parts, rfl, ?_, List.forall_mem_cons.mpr
      ⟨.inl (by omega), hparts⟩⟩
    rw [List.foldl_cons, joinExtent_sub hprevious hin.1, hsum]

theorem joinExtent_zero (h : 0 ≤ a.toInt ∨ a = -1) : joinExtent 0 a = a := by
  rcases h with h | rfl
  · have hsub := @joinExtent_sub 0 a (Int.le_refl 0) h
    rwa [Int64.sub_zero] at hsub
  · rfl

/-- The fields of equal sections. -/
theorem foldl_joinExtent_sections {sections : Int64} (hpos : 0 < sections)
    (hdvd : IsKnown dim = true → dim % sections = 0) (n : Nat) (hn : sections.toInt = n + 1) :
    (List.replicate n (if IsKnown dim then dim / sections else -1)).foldl joinExtent
        (if IsKnown dim then dim / sections else -1) = canonicalExtent dim ∧
      (IsKnown dim = true → 0 ≤ (dim / sections).toInt) := by
  rw [canonicalExtent]
  split
  · rename_i hknown
    have hdim := isKnown_iff.mp hknown
    have hne : sections ≠ -1 := by rintro rfl; exact absurd hpos (by decide)
    have hquotient : (dim / sections).toInt = dim.toInt / sections.toInt := by
      rw [Int64.toInt_div_of_ne_right _ _ hne, Int.tdiv_eq_ediv_of_nonneg hdim]
    have hmod : dim.toInt % sections.toInt = 0 := by
      have hmod := congrArg Int64.toInt (hdvd hknown)
      rwa [Int64.toInt_mod, Int.tmod_eq_emod_of_nonneg hdim] at hmod
    have hpart : 0 ≤ (dim / sections).toInt := by
      rw [hquotient]
      exact Int.ediv_nonneg hdim (by omega)
    have htotal : (dim / sections).toInt + n * (dim / sections).toInt = dim.toInt := by
      have hsum : (dim / sections).toInt + n * (dim / sections).toInt =
          sections.toInt * (dim / sections).toInt := by
        rw [hn, Int.add_mul, Int.one_mul, Int.add_comm]
      rw [hsum, hquotient, Int.mul_ediv_cancel_of_emod_eq_zero hmod]
    refine ⟨Int64.toInt_inj.mp ?_, fun _ => hpart⟩
    rw [foldl_joinExtent_replicate n hpart hpart (htotal ▸ dim.toInt_lt), htotal]
  · exact ⟨foldl_joinExtent_unknown _, fun h => absurd h ‹_›⟩

end Extents

/-! ### Splitting and concatenating -/

section Split

variable {shape : List Int64} {dtype : String} {split : List Int64} {axis : Int32}
  {type : RelayType}

theorem NormalizeAxis_concatenate {k : Nat}
    (h : NormalizeAxis "split" axis.toInt shape.length false = .ok k) :
    NormalizeAxis "concatenate" axis.toInt shape.length false = .ok k := by
  simp only [NormalizeAxis] at h ⊢
  obtain ⟨_, hin, hk⟩ := except_bind_eq_ok.mp h
  exact except_bind_eq_ok.mpr ⟨(), throwIf_eq_ok.mpr (throwIf_eq_ok.mp hin), hk⟩

/-- The fields that `SplitInferType` returns. -/
theorem SplitInferType_eq_ok
    (h : SplitInferType (some (.split split axis)) [.tensor shape dtype] = .ok type) :
    ∃ k part parts, NormalizeAxis "split" axis.toInt shape.length false = .ok k ∧
      type = .tuple (partFields shape dtype k (part :: parts)) ∧
      parts.foldl joinExtent part = canonicalExtent (shape.getD k 0) ∧
      ∀ p ∈ part :: parts, 0 ≤ p.toInt ∨ p = -1 ∧ IsKnown (shape.getD k 0) = false := by
  cases split with
  | nil => cases h
  | cons sections points =>
    obtain ⟨k, hk, h⟩ := except_bind_eq_ok.mp
      (show NormalizeAxis "split" axis.toInt shape.length false >>= _ = .ok type from h)
    cases points with
    | nil =>
      obtain ⟨_, hpos, h⟩ := except_bind_eq_ok.mp h
      obtain ⟨_, hdvd, h⟩ := except_bind_eq_ok.mp h
      obtain rfl := Except.ok.inj h
      have hpos : 0 < sections := Int64.not_le.mp (throwIf_eq_ok.mp hpos)
      have hdvd : IsKnown (shape.getD k 0) = true → shape.getD k 0 % sections = 0 := by
        simpa using throwIf_eq_ok.mp hdvd
      obtain ⟨n, hn⟩ : ∃ n, sections.toInt.toNat = n + 1 := by
        have hpos := Int64.lt_iff_toInt_lt.mp hpos
        rw [Int64.toInt_zero] at hpos
        exact ⟨sections.toInt.toNat - 1, by omega⟩
      obtain ⟨hsum, hpart⟩ := foldl_joinExtent_sections hpos hdvd n (by omega)
      refine ⟨k, _, List.replicate n _, hk, ?_, hsum, fun p hp => ?_⟩
      · rw [hn, partFields, ← List.replicate_succ, List.map_replicate]
      · rw [← List.replicate_succ] at hp
        rw [List.eq_of_mem_replicate hp]
        split
        · exact .inl (hpart ‹_›)
        · exact .inr ⟨rfl, (Bool.not_eq_true _).mp ‹_›⟩
    | cons point points =>
      obtain ⟨fields, hfields, h⟩ := except_bind_eq_ok.mp h
      obtain rfl := Except.ok.inj h
      have hzero : 0 ≤ (0 : Int64).toInt := Int.le_refl 0
      obtain ⟨part, parts, rfl, hsum, hparts⟩ :=
        splitFields_eq_ok hzero (fun hknown => isKnown_iff.mp hknown) hfields
      have hfirst := hparts part List.mem_cons_self
      rw [List.foldl_cons, joinExtent_zero (hfirst.imp_right And.left)] at hsum
      exact ⟨k, part, parts, hk, rfl, hsum, hparts⟩

/-- What is split is concatenated to the type that it was, an unknown extent along the axis being
written as -1. -/
theorem split_concatenates
    (h : SplitInferType (some (.split split axis)) [.tensor shape dtype] = .ok type) :
    ∃ k fields, NormalizeAxis "split" axis.toInt shape.length false = .ok k ∧
      type = .tuple fields ∧
      ConcatenateInferType (some (.concat axis)) [type] =
        .ok (.tensor (shape.set k (canonicalExtent (shape.getD k 0))) dtype) ∧
      (IsKnown (shape.getD k 0) = true ∨ shape.getD k 0 = -1 →
        ConcatenateInferType (some (.concat axis)) [type] = .ok (.tensor shape dtype)) ∧
      ∀ field ∈ fields, ∃ part, field = some (.tensor (shape.set k part) dtype) ∧
        (0 ≤ part ∨ part = -1 ∧ IsKnown (shape.getD k 0) = false) := by
  obtain ⟨k, part, parts, hk, rfl, hsum, hparts⟩ := SplitInferType_eq_ok h
  have hconcat := @ConcatenateInferType_parts shape dtype k parts part axis
    (NormalizeAxis_concatenate hk)
  rw [hsum] at hconcat
  refine ⟨k, _, hk, rfl, hconcat, fun hdim => ?_, fun field hfield => ?_⟩
  · have hsame : canonicalExtent (shape.getD k 0) = shape.getD k 0 := by
      rcases hdim with hknown | hone
      · rw [canonicalExtent, if_pos hknown]
      · rw [hone]
        rfl
    rw [hconcat, hsame]
    refine congrArg (fun s => Except.ok (RelayType.tensor s dtype)) ?_
    refine List.ext_getElem List.length_set fun i hi hi' => ?_
    rw [List.getElem_set]
    split
    · rename_i heq
      subst heq
      exact (List.getElem_eq_getD 0).symm
    · rfl
  · obtain ⟨p, hp, rfl⟩ := List.mem_map.mp hfield
    refine ⟨p, rfl, (hparts p hp).imp_left fun hnonneg => ?_⟩
    rwa [Int64.le_iff_toInt_le, Int64.toInt_zero]

/-- Four columns between the points 1 and 3. -/
theorem split_of_four : ∃ k fields, NormalizeAxis "split" (1 : Int32).toInt 2 false = .ok k ∧
    RelayType.tuple (partFields [-1, 4] "float32" 1 [1, 2, 1]) = .tuple fields ∧
      ConcatenateInferType (some (.concat 1))
          [.tuple (partFields [-1, 4] "float32" 1 [1, 2, 1])] = .ok (.tensor [-1, 4] "float32") := by
  obtain ⟨k, fields, hk, hfields, -, hback, -⟩ := @split_concatenates [-1, 4] "float32" [1, 3] 1
    (.tuple (partFields [-1, 4] "float32" 1 [1, 2, 1])) (by rfl)
  refine ⟨k, fields, hk, hfields, hback (.inl ?_)⟩
  obtain rfl : 1 = k := Except.ok.inj (show Except.ok 1 = _ from hk)
  rfl

/-- An extent of -2 is unknown. -/
theorem split_of_unknown :
    SplitInferType (some (.split [1] 0)) [.tensor [-2, 3] "float32"] =
        .ok (.tuple [some (.tensor [-1, 3] "float32")]) ∧
      ConcatenateInferType (some (.concat 0)) [.tuple [some (.tensor [-1, 3] "float32")]] ≠
        .ok (.tensor [-2, 3] "float32") := by
  have hconcat : ConcatenateInferType (some (.concat 0))
      [.tuple [some (.tensor [-1, 3] "float32")]] = .ok (.tensor [-1, 3] "float32") := by rfl
  refine ⟨by rfl, fun h => ?_⟩
  obtain ⟨hshape, -⟩ := RelayType.tensor.inj (Except.ok.inj (hconcat.symm.trans h))
  exact absurd hshape (by decide)

end Split

end Kxc.Relay
