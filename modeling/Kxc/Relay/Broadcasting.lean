import Kxc.Lib.StateExcept
import Kxc.Relay.TypeInfer
import Kxc.Te.Broadcast

/-! The binary operators on tensors whose types `BroadcastShape` accepts. The code broadcasts as type
inference does unless a dimension that is 1, or that broadcasts, is not a literal. -/

namespace Kxc.Relay

open Lib Lib.MachineNumber Lib.IndexSpace Te Te.Topi

section Inferred

variable {lhs rhs out : List Int64} {op_name : String}

theorem alignedDim_toInt (shape : List Int64) (rank i : Nat) :
    (alignedDim shape rank i).toInt = aligned 1 (shape.map Int64.toInt) rank i := by
  rw [alignedDim, aligned, List.length_map]
  split
  · exact (List.getD_map shape 1 Int64.toInt).symm
  · rfl

/-- Of known dimensions, the inferred one is the one that they broadcast to. -/
theorem broadcastDim_spec {what : String} {ldim rdim dim : Int64} (hl : IsKnown ldim = true)
    (hr : IsKnown rdim = true) (h : broadcastDim what ldim rdim = .ok dim) :
    (ldim.toInt = rdim.toInt ∨ ldim.toInt = 1 ∨ rdim.toInt = 1) ∧
      dim.toInt = broadcastExtent ldim.toInt rdim.toInt := by
  have hone (d : Int64) : d = 1 ↔ d.toInt = 1 := Int64.toInt_inj.symm
  have heq : ldim = rdim ↔ ldim.toInt = rdim.toInt := Int64.toInt_inj.symm
  simp only [broadcastDim, hl, hr, Bool.not_true, Bool.or_self, Bool.false_eq_true, if_false, hone,
    heq] at h
  rw [broadcastExtent]
  split at h
  · obtain rfl := Except.ok.inj h
    refine ⟨.inl ‹_›, ?_⟩
    split <;> omega
  split at h
  · obtain rfl := Except.ok.inj h
    exact ⟨.inr (.inl ‹_›), (if_pos ‹_›).symm⟩
  split at h
  · obtain rfl := Except.ok.inj h
    exact ⟨.inr (.inr ‹_›), (if_neg ‹_›).symm⟩
  · cases h

theorem isKnown_alignedDim {shape : List Int64} (h : ∀ d ∈ shape, IsKnown d = true) {rank i : Nat}
    (hi : i < rank) : IsKnown (alignedDim shape rank i) = true := by
  rw [alignedDim]
  split
  · rw [← List.getElem_eq_getD (h := by omega) 1]
    exact h _ (List.getElem_mem _)
  · rfl

theorem BroadcastShape_spec (hl : ∀ d ∈ lhs, IsKnown d = true) (hr : ∀ d ∈ rhs, IsKnown d = true)
    (h : BroadcastShape op_name lhs rhs = .ok out) :
    Compatible (lhs.map Int64.toInt) (rhs.map Int64.toInt) ∧
      out.map Int64.toInt = broadcastDims (lhs.map Int64.toInt) (rhs.map Int64.toInt) := by
  obtain ⟨hlen, hdims⟩ := (forall₂_iff_getD 0 0).mp (except_mapM_eq_ok h)
  rw [List.length_range] at hlen
  have hrank : Nat.max (lhs.map Int64.toInt).length (rhs.map Int64.toInt).length =
      max lhs.length rhs.length := by simp
  have hspec (i : Nat) (hi : i < max lhs.length rhs.length) := by
    have hdim := hdims i (hlen ▸ hi)
    rw [← List.getElem_eq_getD (h := by simpa using hi), List.getElem_range] at hdim
    have := broadcastDim_spec (isKnown_alignedDim hl hi) (isKnown_alignedDim hr hi) hdim
    simpa only [alignedDim_toInt] using this
  rw [Compatible, hrank]
  refine ⟨fun i hi => (hspec i hi).1, List.ext_getElem ?_ fun i hi hi' => ?_⟩
  · rw [List.length_map, length_broadcastDims, hrank, hlen]
  · have hi : i < max lhs.length rhs.length := by simpa [hlen] using hi
    rw [List.getElem_eq_getD (l := broadcastDims _ _) 0, getD_broadcastDims (hrank ▸ hi), hrank,
      ← (hspec i hi).2, List.getElem_map, List.getElem_eq_getD 0]

theorem known_nonneg {shape : List Int64} (h : ∀ d ∈ shape, IsKnown d = true) :
    ∀ n ∈ shape.map Int64.toInt, 0 ≤ n := by
  intro n hn
  obtain ⟨d, hd, rfl⟩ := List.mem_map.mp hn
  have hknown : (0 : Int64) ≤ d := of_decide_eq_true (h d hd)
  simpa using Int64.le_iff_toInt_le.mp hknown

/-- Tensors of known dimensions that broadcast are combined as type inference says exactly if the
literals among the dimensions decide it. -/
theorem broadcasts_inferred_iff {F : Type} {ops : FloatOps F} {shape shape' : List PrimExpr}
    (h : ∀ inputs, List.Forall₂ (HasExtent ops inputs) shape (lhs.map Int64.toInt))
    (h' : ∀ inputs, List.Forall₂ (HasExtent ops inputs) shape' (rhs.map Int64.toInt))
    (hl : ∀ d ∈ lhs, IsKnown d = true) (hr : ∀ d ∈ rhs, IsKnown d = true)
    (hout : BroadcastShape op_name lhs rhs = .ok out) :
    Broadcasts ops shape shape' (lhs.map Int64.toInt) (rhs.map Int64.toInt)
        (out.map Int64.toInt) ↔
      Decided shape shape' (lhs.map Int64.toInt) (rhs.map Int64.toInt) := by
  obtain ⟨hcompatible, hdims⟩ := BroadcastShape_spec hl hr hout
  rw [hdims]
  exact ⟨broadcasts_decided h h' hcompatible (known_nonneg hl) (known_nonneg hr),
    Decided.broadcasts h h' hcompatible⟩

theorem literal_extents {F : Type} {ops : FloatOps F} (dims : List Int64)
    (inputs : String → List Int → Scalar F) :
    List.Forall₂ (HasExtent ops inputs) (ShapeFromTensorType dims) (dims.map Int64.toInt) :=
  placeholder_hasDims "" dims (.Int 64)

theorem broadcasts_row_and_column :
    Broadcasts FloatOps.zero (ShapeFromTensorType [2, 1]) (ShapeFromTensorType [3])
        [2, 1] [3] [2, 3] ↔
      Decided (ShapeFromTensorType [2, 1]) (ShapeFromTensorType [3]) [2, 1] [3] :=
  @broadcasts_inferred_iff [2, 1] [3] [2, 3] "add" _ _ _ _
    (literal_extents [2, 1]) (literal_extents [3])
    (List.forall_mem_cons.mpr ⟨rfl, List.forall_mem_singleton.mpr rfl⟩) (List.forall_mem_singleton.mpr rfl) (by decide)

/-- A product of ones that broadcasts to 3. -/
theorem broadcasts_product : BroadcastShape "add" [1] [3] = .ok [3] ∧
    ¬ Broadcasts FloatOps.zero [.int 1 * .int 1] (ShapeFromTensorType [3]) [1] [3] [3] := by
  refine ⟨by decide, fun h => ?_⟩
  obtain ⟨hdims, -⟩ := h (fun _ _ => .int 0) .Add
    (.placeholder "a" [.int 1 * .int 1] (.Int 64)) (.placeholder "b" (ShapeFromTensorType [3])
      (.Int 64)) "add" rfl rfl
  obtain ⟨hextent, -⟩ := List.forall₂_cons.mp hdims
  exact absurd (congrArg toIndex (hextent.value fun _ => 0)) (by decide)

end Inferred

end Kxc.Relay
