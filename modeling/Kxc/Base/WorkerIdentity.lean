import Kxc.Base.DiscoPlacement
import Kxc.Lib.DecimalText
import Kxc.Lib.StateExcept
import Mathlib.Algebra.GroupWithZero.Nat
import Mathlib.Data.List.ReduceOption

/-! The workers of a placement are numbered by the identity keys of its virtual devices, in the
order of their first occurrences: two virtual devices share a worker exactly if they share a key. -/

namespace Kxc

/-- The tables of `BuildDiscoPlacement` after the virtual devices `seen`, whose keys are `keys`. -/
structure PlacementState.Numbered (keys : List String) (seen : List VirtualDevice)
    (st : PlacementState) : Prop where
  key_to_worker : ∀ key, st.key_to_worker.lookup key =
    if key ∈ keys then some (Int32.ofNat (keys.idxOf key)) else none
  next_worker_id : st.next_worker_id = Int32.ofNat keys.length
  vd_to_worker : ∀ vd ∈ seen, st.vd_to_worker.lookup vd.ref =
    some (Int32.ofNat (keys.idxOf (VirtualDeviceIdentity vd.node)))
  mem_keys : ∀ vd ∈ seen, VirtualDeviceIdentity vd.node ∈ keys
  length_le : keys.length ≤ seen.length

variable {apis : DeviceAPIManager} {keys : List String} {seen : List VirtualDevice}
  {st st' : PlacementState}

/-- A step either finds the worker of the key or adds a worker for it. -/
theorem placeVirtualDevice_cases {vd : VirtualDevice}
    (h : placeVirtualDevice apis st (some vd) = .ok st') :
    (∃ worker, st.key_to_worker.lookup (VirtualDeviceIdentity vd.node) = some worker ∧
      st' = { st with vd_to_worker := (vd.ref, worker) :: st.vd_to_worker }) ∨
    st.key_to_worker.lookup (VirtualDeviceIdentity vd.node) = none ∧ ∃ target,
      st' = {
        workers := st.workers ++ [some {
          worker_id := st.next_worker_id, group_id := 0, local_rank := st.next_worker_id
          device_obj := vd.node.device_obj, target, virtual_device := some vd }]
        vd_to_worker := (vd.ref, st.next_worker_id) :: st.vd_to_worker
        key_to_worker := (VirtualDeviceIdentity vd.node, st.next_worker_id) :: st.key_to_worker
        next_worker_id := st.next_worker_id + 1 } := by
  simp only [placeVirtualDevice] at h
  split at h
  · rename_i worker hworker
    exact .inl ⟨worker, hworker, (Except.ok.inj h).symm⟩
  · rename_i hnone
    split at h
    · obtain ⟨target, -, h⟩ := Lib.except_bind_eq_ok.mp h
      exact .inr ⟨hnone, target, (Except.ok.inj h).symm⟩
    · obtain ⟨target, -, h⟩ := Lib.except_bind_eq_ok.mp h
      exact .inr ⟨hnone, target, (Except.ok.inj h).symm⟩

/-- The address of a virtual device that was not seen last is looked up as before. -/
theorem lookup_ref_cons {vd vd' : VirtualDevice} {worker : Int32} {table : List (Nat × Int32)}
    (hcoherent : vd'.ref = vd.ref → vd' = vd) (hne : vd' ≠ vd) :
    ((vd.ref, worker) :: table).lookup vd'.ref = table.lookup vd'.ref := by
  have href : vd'.ref ≠ vd.ref := fun h => hne (hcoherent h)
  simp [List.lookup_cons, beq_eq_false_iff_ne.mpr href]

theorem PlacementState.Numbered.step {vd : VirtualDevice} (hst : st.Numbered keys seen)
    (hcoherent : ∀ vd' ∈ seen, vd'.ref = vd.ref → vd' = vd)
    (h : placeVirtualDevice apis st (some vd) = .ok st') :
    ∃ keys', st'.Numbered keys' (seen ++ [vd]) := by
  set key := VirtualDeviceIdentity vd.node with hkey
  rcases placeVirtualDevice_cases h with ⟨worker, hworker, rfl⟩ | ⟨hnone, target, rfl⟩
  · have hmem : key ∈ keys ∧ Int32.ofNat (keys.idxOf key) = worker := by
      rw [hst.key_to_worker] at hworker
      split at hworker
      · exact ⟨‹_›, Option.some.inj hworker⟩
      · cases hworker
    obtain ⟨hmem, rfl⟩ := hmem
    refine ⟨keys, hst.key_to_worker, hst.next_worker_id, ?_, ?_, ?_⟩
    · intro vd' hvd'
      by_cases heq : vd' = vd
      · subst heq
        exact List.lookup_cons_self
      · have hvd' : vd' ∈ seen := by simpa [heq] using hvd'
        rw [lookup_ref_cons (hcoherent vd' hvd') heq, hst.vd_to_worker vd' hvd']
    · rintro vd' hvd'
      rcases List.mem_append.mp hvd' with hvd' | hvd'
      · exact hst.mem_keys vd' hvd'
      · exact List.mem_singleton.mp hvd' ▸ hmem
    · rw [List.length_append]
      exact Nat.le_add_right_of_le hst.length_le
  · have hmem : key ∉ keys := by
      intro hmem
      rw [hst.key_to_worker, if_pos hmem] at hnone
      cases hnone
    have hidx : (keys ++ [key]).idxOf key = keys.length := by
      rw [List.idxOf_append_of_notMem hmem, List.idxOf_cons_self, Nat.add_zero]
    refine ⟨keys ++ [key], fun key' => ?_, ?_, ?_, ?_, ?_⟩
    · by_cases heq : key' = key
      · subst heq
        rw [List.lookup_cons_self, if_pos (by simp), hidx, hst.next_worker_id]
      · rw [List.lookup_cons, beq_eq_false_iff_ne.mpr heq]
        simp only [hst.key_to_worker, List.mem_append, List.mem_singleton, heq, or_false]
        split
        · rw [List.idxOf_append_of_mem ‹_›]
        · rfl
    · simp [hst.next_worker_id, Int32.ofNat_add]
    · intro vd' hvd'
      by_cases heq : vd' = vd
      · subst heq
        rw [List.lookup_cons_self, ← hkey, hidx, hst.next_worker_id]
      · have hvd' : vd' ∈ seen := by simpa [heq] using hvd'
        rw [lookup_ref_cons (hcoherent vd' hvd') heq, hst.vd_to_worker vd' hvd',
          List.idxOf_append_of_mem (hst.mem_keys vd' hvd')]
    · rintro vd' hvd'
      rcases List.mem_append.mp hvd' with hvd' | hvd'
      · exact List.mem_append_left _ (hst.mem_keys vd' hvd')
      · rw [List.mem_singleton.mp hvd']
        exact List.mem_append_right _ (List.mem_singleton_self _)
    · simpa using hst.length_le

/-- Handles to one address are one handle. -/
def HandlesCoherent (virtual_devices : List (Option VirtualDevice)) : Prop :=
  ∀ a b, some a ∈ virtual_devices → some b ∈ virtual_devices → a.ref = b.ref → a = b

theorem PlacementState.Numbered.run {vds : List (Option VirtualDevice)}
    (hst : st.Numbered keys seen) (hcoherent : HandlesCoherent (seen.map some ++ vds))
    (h : vds.foldlM (placeVirtualDevice apis) st = .ok st') :
    ∃ keys', st'.Numbered keys' (seen ++ vds.reduceOption) := by
  induction vds generalizing st keys seen with
  | nil =>
    obtain rfl := Except.ok.inj h
    exact ⟨keys, by simpa [List.reduceOption] using hst⟩
  | cons vd vds ih =>
    rw [List.foldlM_cons] at h
    obtain ⟨st1, hstep, hrun⟩ := Lib.except_bind_eq_ok.mp h
    cases vd with
    | none =>
      obtain rfl := Except.ok.inj hstep
      rw [List.reduceOption_cons_of_none]
      refine ih hst (fun a b ha hb => hcoherent a b ?_ ?_) hrun
      · simpa using ha
      · simpa using hb
    | some vd =>
      obtain ⟨keys1, hst1⟩ := hst.step
        (fun vd' hvd' => hcoherent vd' vd (by simp [hvd']) (by simp)) hstep
      rw [List.reduceOption_cons_of_some, ← List.singleton_append, ← List.append_assoc]
      exact ih hst1 (by simpa using hcoherent) hrun

/-- The worker of a virtual device is the place of its key among the keys. -/
theorem BuildDiscoPlacement_numbered {vds : List (Option VirtualDevice)} {num_groups : Int32}
    {p : DiscoPlacement} (hcoherent : HandlesCoherent vds)
    (h : BuildDiscoPlacement apis vds num_groups = .ok p) :
    ∃ keys : List String, keys.length ≤ vds.length ∧ ∀ vd, some vd ∈ vds →
      VirtualDeviceIdentity vd.node ∈ keys ∧
      p.FindWorker (some vd) = Int32.ofNat (keys.idxOf (VirtualDeviceIdentity vd.node)) := by
  obtain ⟨st, hrun, h⟩ := Lib.except_bind_eq_ok.mp h
  obtain rfl := Except.ok.inj h
  have hinit : PlacementState.Numbered [] [] {} :=
    ⟨by simp, rfl, by simp, by simp, Nat.le_refl _⟩
  obtain ⟨keys, hst⟩ := hinit.run (by simpa using hcoherent) hrun
  refine ⟨keys, Nat.le_trans hst.length_le (List.reduceOption_length_le _), fun vd hvd => ?_⟩
  have hmem : vd ∈ [] ++ vds.reduceOption := by simpa [List.reduceOption_mem_iff] using hvd
  refine ⟨hst.mem_keys vd hmem, ?_⟩
  simp only [DiscoPlacement.FindWorker, hst.vd_to_worker vd hmem]

/-- What the placement reads of a target to identify a virtual device. -/
def VirtualDeviceNode.placementTarget (vd : VirtualDeviceNode) :
    Option (DeviceTypeCode × Int32 × String) :=
  vd.target.map fun t => (t.device_type, t.device_id, t.kind)

/-- The part of the identity key for the device. -/
def deviceText : Option Device → String
  | some dev => s!"dev({dev.device_type.code.toInt},{dev.device_id.toInt})"
  | none => "dev(none)"

/-- The part of the identity key for the target. -/
def targetText : Option Target → String
  | some t => s!"target({t.device_type.code.toInt},{t.device_id.toInt},{t.kind})"
  | none => "target(none)"

theorem VirtualDeviceIdentity_eq (vd : VirtualDeviceNode) : VirtualDeviceIdentity vd =
    "virtual_device:" ++ deviceText vd.device_obj ++ targetText vd.target ++
      s!"scope({vd.memory_scope})" ++ s!"vdid({vd.virtual_device_id.toInt})" := by
  unfold VirtualDeviceIdentity deviceText targetText
  cases vd.device_obj <;> cases vd.target <;> rfl

theorem toString_string (s : String) : toString s = s := rfl

theorem deviceText_append_ne {dev : Device} {xs ys : List Char} :
    (deviceText (some dev)).toList ++ xs ≠ (deviceText none).toList ++ ys := by
  intro h
  simp only [deviceText, toString_string, String.toList_append, List.append_assoc] at h
  exact Lib.repr_int_append_ne (by decide) (by decide) (by decide) (List.append_cancel_left h)

theorem targetText_append_ne {t : Target} {xs ys : List Char} :
    (targetText (some t)).toList ++ xs ≠ (targetText none).toList ++ ys := by
  intro h
  simp only [targetText, toString_string, String.toList_append, List.append_assoc] at h
  exact Lib.repr_int_append_ne (by decide) (by decide) (by decide) (List.append_cancel_left h)

/-- The text of a target shows what the placement reads of it. -/
theorem targetText_inj {a b : VirtualDeviceNode} (h : targetText a.target = targetText b.target) :
    a.placementTarget = b.placementTarget := by
  unfold VirtualDeviceNode.placementTarget
  have happend : (targetText a.target).toList ++ [] = (targetText b.target).toList ++ [] := by
    rw [h]
  cases ha : a.target with
  | none =>
    cases hb : b.target with
    | none => rfl
    | some u =>
      rw [ha, hb] at happend
      exact absurd happend.symm targetText_append_ne
  | some t =>
    cases hb : b.target with
    | none =>
      rw [ha, hb] at happend
      exact absurd happend targetText_append_ne
    | some u =>
      rw [ha, hb] at happend
      simp only [targetText, toString_string, String.toList_append, List.append_assoc,
        List.append_nil] at happend
      obtain ⟨htype, hrest⟩ := Lib.repr_int_append_inj (List.append_cancel_left happend)
      obtain ⟨hid, hrest⟩ := Lib.repr_int_append_inj hrest
      have hkind : t.kind = u.kind := String.toList_injective (List.append_cancel_right hrest)
      have htype : t.device_type = u.device_type := by
        cases htt : t.device_type
        cases huu : u.device_type
        rw [htt, huu] at htype
        exact congrArg _ (Int32.toInt_inj.mp htype)
      rw [Option.map_some, Option.map_some, htype, Int32.toInt_inj.mp hid, hkind]

/-- Of two virtual devices that the multi-device pass treats as one, the identity keys are equal if
either both or neither have a device, and the targets agree. -/
theorem VirtualDeviceIdentity_eq_iff {a b : VirtualDevice}
    (hcoherent : a.ref = b.ref → a = b) (hsame : SameVirtualDevice (some a) (some b) = true) :
    VirtualDeviceIdentity a.node = VirtualDeviceIdentity b.node ↔
      a.node.device_obj.isSome = b.node.device_obj.isSome ∧
        a.node.placementTarget = b.node.placementTarget := by
  simp only [SameVirtualDevice, Bool.or_eq_true, Bool.and_eq_true, beq_iff_eq] at hsame
  rcases hsame with href | ⟨⟨hdev, hscope⟩, hid⟩
  · rw [hcoherent href]
    exact ⟨fun _ => ⟨rfl, rfl⟩, fun _ => rfl⟩
  · have hparts : VirtualDeviceIdentity a.node = VirtualDeviceIdentity b.node ↔
        (deviceText a.node.device_obj).toList ++ (targetText a.node.target).toList =
          (deviceText b.node.device_obj).toList ++ (targetText b.node.target).toList := by
      rw [VirtualDeviceIdentity_eq, VirtualDeviceIdentity_eq, hscope, hid, ← String.toList_inj]
      simp only [String.toList_append, List.append_assoc, List.append_cancel_left_eq]
      simp only [← List.append_assoc, List.append_cancel_right_eq]
    have htarget : a.node.placementTarget = b.node.placementTarget →
        targetText a.node.target = targetText b.node.target := by
      unfold VirtualDeviceNode.placementTarget
      cases a.node.target <;> cases b.node.target <;> simp +contextual [targetText]
    rw [hparts]
    cases hda : a.node.device_obj with
    | none =>
      cases hdb : b.node.device_obj with
      | none =>
        rw [List.append_cancel_left_eq, String.toList_inj]
        exact ⟨fun h => ⟨rfl, targetText_inj h⟩, fun h => htarget h.2⟩
      | some dev => exact ⟨fun h => absurd h.symm deviceText_append_ne, fun h => by cases h.1⟩
    | some dev =>
      cases hdb : b.node.device_obj with
      | none => exact ⟨fun h => absurd h deviceText_append_ne, fun h => by cases h.1⟩
      | some dev' =>
        obtain rfl : dev = dev' := by
          simp only [VirtualDeviceNode.extractDev, hda, hdb, Prod.mk.injEq] at hdev
          cases dev
          cases dev'
          simpa using hdev
        rw [List.append_cancel_left_eq, String.toList_inj]
        exact ⟨fun h => ⟨rfl, targetText_inj h⟩, fun h => htarget h.2⟩

/-- Two virtual devices that the multi-device pass treats as one have one worker exactly if either
both or neither have a device, and their targets agree. (Ids of workers are distinct as long as
they do not wrap around.) -/
theorem BuildDiscoPlacement_sameWorker {apis : DeviceAPIManager}
    {vds : List (Option VirtualDevice)} {num_groups : Int32} {p : DiscoPlacement}
    (hcoherent : HandlesCoherent vds) (hbuild : BuildDiscoPlacement apis vds num_groups = .ok p)
    {a b : VirtualDevice} (ha : some a ∈ vds) (hb : some b ∈ vds)
    (hsame : SameVirtualDevice (some a) (some b) = true) :
    (a.node.device_obj.isSome = b.node.device_obj.isSome ∧
        a.node.placementTarget = b.node.placementTarget →
      p.FindWorker (some a) = p.FindWorker (some b)) ∧
    (vds.length ≤ 2 ^ 32 → p.FindWorker (some a) = p.FindWorker (some b) →
      a.node.device_obj.isSome = b.node.device_obj.isSome ∧
        a.node.placementTarget = b.node.placementTarget) := by
  obtain ⟨keys, hlength, hworker⟩ := BuildDiscoPlacement_numbered hcoherent hbuild
  obtain ⟨hmem_a, hworker_a⟩ := hworker a ha
  obtain ⟨hmem_b, hworker_b⟩ := hworker b hb
  have hlt_a := List.idxOf_lt_length_iff.mpr hmem_a
  have hlt_b := List.idxOf_lt_length_iff.mpr hmem_b
  rw [hworker_a, hworker_b, ← VirtualDeviceIdentity_eq_iff (hcoherent a b ha hb) hsame]
  refine ⟨fun heq => by rw [heq], fun hbound heq => ?_⟩
  have hidx := congrArg (fun i : Int32 => i.toUInt32.toNat) heq
  simp only [Int32.toUInt32_ofNat', UInt32.toNat_ofNat'] at hidx
  rw [Nat.mod_eq_of_lt (by omega), Nat.mod_eq_of_lt (by omega)] at hidx
  exact (List.idxOf_inj hmem_a).mp hidx

theorem handlesCoherent_of_pair {vds : List (Option VirtualDevice)} {x y : VirtualDevice}
    (hmem : ∀ a, some a ∈ vds → a = x ∨ a = y) (hne : x.ref ≠ y.ref) : HandlesCoherent vds := by
  intro a b ha hb href
  rcases hmem a ha with rfl | rfl
  · rcases hmem b hb with rfl | rfl
    · rfl
    · exact absurd href hne
  · rcases hmem b hb with rfl | rfl
    · exact absurd href.symm hne
    · rfl

/-- The device `cpu(0)`, once with its target and once without one. -/
def cpuWithTarget : VirtualDevice where
  ref := 1
  node := {
    device_obj := some ⟨.kCPU, 0⟩
    target := some { kind := "llvm", device_type := .kCPU, device_id := 0 }
    virtual_device_id := 0 }

def cpuWithoutTarget : VirtualDevice where
  ref := 2
  node := { device_obj := some ⟨.kCPU, 0⟩, virtual_device_id := 0 }

/-- The backends of a build with the CPU alone. -/
def cpuApis : DeviceAPIManager := fun type =>
  if type = .kCPU then .ok { GetTargetKind := fun _ => "llvm", GetDeviceAttributes := fun _ => {} }
  else .error "no device API"

/-- The multi-device pass treats both as one device, but each gets a worker of its own. -/
theorem cpuTargets_twoWorkers :
    let vds := [some cpuWithTarget, some cpuWithoutTarget]
    HandlesCoherent vds ∧
      SameVirtualDevice (some cpuWithTarget) (some cpuWithoutTarget) = true ∧
      ∃ p, BuildDiscoPlacement cpuApis vds 1 = .ok p ∧
        p.FindWorker (some cpuWithTarget) = 0 ∧ p.FindWorker (some cpuWithoutTarget) = 1 := by
  refine ⟨?_, by decide, _, rfl, by decide, by decide⟩
  exact handlesCoherent_of_pair (x := cpuWithTarget) (y := cpuWithoutTarget) (by simp) (by decide)

/-- Another node with the same fields has the same worker. -/
theorem cpuWithTarget_oneWorker :
    let other : VirtualDevice := { cpuWithTarget with ref := 3 }
    ∃ p, BuildDiscoPlacement cpuApis [some cpuWithTarget, none, some other] 1 = .ok p ∧
      p.FindWorker (some cpuWithTarget) = p.FindWorker (some other) := by
  intro other
  have hcoherent : HandlesCoherent [some cpuWithTarget, none, some other] :=
    handlesCoherent_of_pair (x := cpuWithTarget) (y := other) (by simp) (by decide)
  obtain ⟨p, hp⟩ : ∃ p, BuildDiscoPlacement cpuApis [some cpuWithTarget, none, some other] 1 =
      .ok p := by
    simp [BuildDiscoPlacement, placeVirtualDevice, other, cpuWithTarget, bind, Except.bind, pure,
      Except.pure]
  refine ⟨p, hp, (BuildDiscoPlacement_sameWorker hcoherent hp ?_ ?_ ?_).1 ⟨rfl, rfl⟩⟩
  · simp
  · simp
  · decide

end Kxc
