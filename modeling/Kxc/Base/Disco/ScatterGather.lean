import Kxc.Base.Disco.Arrays
import Kxc.Base.Disco.GroupPartition
import Mathlib.Tactic.Choose

/-! Gathering what has been scattered: which registers the two collectives change, and when each
worker that handed out its array gets it back. -/

namespace Kxc.Disco

open Relay Lib Lib.RowMajor DiscoSession CpuCCLBackend

/-- The access is to a register of a worker of the session. -/
def Valid (s : ThreadedSession) (worker : Int32) (ref : DRef) : Prop :=
  (0 ≤ worker ∧ worker < s.num_workers) ∧ 0 ≤ ref.reg_id ∧ ref.reg_id < s.reg_count

/-- The same workers, groups and registers, whatever these hold. -/
structure SameCounts (s s' : ThreadedSession) : Prop where
  num_workers : s'.num_workers = s.num_workers
  num_groups : s'.num_groups = s.num_groups
  reg_count : s'.reg_count = s.reg_count

section Registers

variable {s s' s'' : ThreadedSession} {ref src dst : DRef} {worker root per : Int32}

theorem SameCounts.refl (s : ThreadedSession) : SameCounts s s := ⟨rfl, rfl, rfl⟩

theorem SameCounts.trans (h : SameCounts s s') (h' : SameCounts s' s'') : SameCounts s s'' :=
  ⟨h'.num_workers.trans h.num_workers, h'.num_groups.trans h.num_groups,
    h'.reg_count.trans h.reg_count⟩

theorem SameCounts.valid (h : SameCounts s s') : Valid s' worker ref ↔ Valid s worker ref := by
  rw [Valid, Valid, h.num_workers, h.reg_count]

theorem outcome_check {c : Prop} [Decidable c] {e : SessionError} {E : SessionError → Prop}
    {Q : Unit → ThreadedSession → Prop} :
    Outcome (lift (if c then .error e else .ok ())) s E Q ↔ (c → E e) ∧ (¬c → Q () s) := by
  split
  · rename_i h
    exact ⟨fun hE => ⟨fun _ => hE, fun hn => absurd h hn⟩, fun h' => h'.1 h⟩
  · rename_i h
    exact ⟨fun hQ => ⟨fun hc => absurd hc h, fun _ => hQ⟩, fun h' => h'.2 h⟩

/-- A read; it fails only where the worker or the register is out of range. -/
theorem Get_spec {E : SessionError → Prop} (hE : ¬Valid s worker ref → ∀ e, E e) :
    Outcome (Get worker ref) s E fun value s' => value = s.register_file worker ref.reg_id ∧
      s'.register_file = s.register_file ∧ SameCounts s s' := by
  simp only [Get, outcome_bind, outcome_get, ThreadedSession.ValidateWorkerId,
    ThreadedSession.ValidateRegId, outcome_check, outcome_set, outcome_pure]
  refine ⟨fun hworker => hE (fun h => ?_) _, fun _ => ⟨fun hreg => hE (fun h => ?_) _, fun _ =>
    ⟨trivial, rfl, rfl, rfl, rfl⟩⟩⟩
  · exact hworker.elim (Int32.not_lt.mpr h.1.1) (Int32.not_le.mpr h.1.2)
  · exact hreg.elim (Int32.not_lt.mpr h.2.1) (Int32.not_le.mpr h.2.2)

/-- A write; it fails only where the worker or the register is out of range. -/
theorem Set_spec {E : SessionError → Prop} (hE : ¬Valid s worker ref → ∀ e, E e)
    (value : Option NDArray) :
    Outcome (Set worker ref value) s E fun _ s' =>
      s'.register_file worker ref.reg_id = value ∧
        (∀ w r, ¬(w = worker ∧ r = ref.reg_id) → s'.register_file w r = s.register_file w r) ∧
        SameCounts s s' := by
  simp only [DiscoSession.Set, outcome_bind, outcome_get, ThreadedSession.ValidateWorkerId,
    ThreadedSession.ValidateRegId, outcome_check, outcome_set]
  refine ⟨fun hworker => hE (fun h => ?_) _, fun _ => ⟨fun hreg => hE (fun h => ?_) _, fun _ =>
    ⟨by rw [Function.update_self, Function.update_self], fun w r hne => ?_, rfl, rfl, rfl⟩⟩⟩
  · exact hworker.elim (Int32.not_lt.mpr h.1.1) (Int32.not_le.mpr h.1.2)
  · exact hreg.elim (Int32.not_lt.mpr h.2.1) (Int32.not_le.mpr h.2.2)
  · by_cases hw : w = worker
    · subst hw
      rw [Function.update_self, Function.update_of_ne fun hr => hne ⟨rfl, hr⟩]
    · rw [Function.update_of_ne hw]

end Registers

/-! ### Scattering -/

section Scattering

variable {s s' : ThreadedSession} {src dst : DRef} {root : Int32}

/-- The workers of a group hold the pieces of `src`. -/
def HoldsShards (s : ThreadedSession) (root per : Int32) (ref : DRef) (src : Option NDArray)
    (shard : Int64) : Prop :=
  ∀ i ∈ intRange per,
    SliceFirstDim src (i.toInt64 * shard) shard = .ok (s.register_file (root + i) ref.reg_id)

/-- `s'` differs from `s` at most in the registers `ref` of some workers. -/
def ChangesOnly (workers : List Int32) (ref : DRef) (s s' : ThreadedSession) : Prop :=
  ∀ w r, ¬(w ∈ workers ∧ r = ref.reg_id) → s'.register_file w r = s.register_file w r

/-- The loop that hands out the pieces of one array. -/
theorem writeShards_spec (root : Int32) (dst : DRef)
    (value : Int32 → Except SessionError (Option NDArray)) (is : List Int32)
    (s : ThreadedSession) :
    Outcome (is.forM fun i => do Set (root + i) dst (← lift (value i))) s (fun _ => True)
      fun _ s' => (∀ i ∈ is, value i = .ok (s'.register_file (root + i) dst.reg_id)) ∧
        ChangesOnly (is.map (root + ·)) dst s s' ∧ SameCounts s s' := by
  induction is generalizing s with
  | nil => exact ⟨nofun, fun _ _ _ => rfl, .refl s⟩
  | cons i is ih =>
    simp only [List.forM_eq_forM, List.forM_cons, outcome_bind]
    cases hvalue : value i with
    | error e => trivial
    | ok v =>
      refine (Set_spec (fun _ _ => trivial) v).mono fun _ s₁ h₁ => ?_
      obtain ⟨hset, hkeep, hcounts⟩ := h₁
      refine (ih s₁).mono fun _ s₂ h₂ => ?_
      obtain ⟨hshards, hothers, hcounts'⟩ := h₂
      refine ⟨List.forall_mem_cons.mpr ⟨?_, hshards⟩, fun w r hne => ?_, hcounts.trans hcounts'⟩
      · by_cases hagain : i ∈ is
        · exact hshards i hagain
        · have hkept := hothers (root + i) dst.reg_id fun h => by
            obtain ⟨j, hj, heq⟩ := List.mem_map.mp h.1
            exact hagain ((Int32.add_right_inj root).mp heq ▸ hj)
          rw [hkept, hset, hvalue]
      · rw [hothers w r fun h => hne ⟨List.mem_cons_of_mem _ h.1, h.2⟩,
          hkeep w r fun h => hne ⟨h.1 ▸ List.mem_cons_self, h.2⟩]

/-- The array whose pieces the members of a group get. -/
def groupSource (s : ThreadedSession) (src : DRef) (root0 : NDArray) (root : Int32) :
    Option NDArray :=
  (s.register_file root src.reg_id).orElse fun _ => some root0

/-- The loop that hands out the pieces to the groups `is`. -/
theorem scatterGroups_spec (gs : Groups) {root0 : NDArray} {shard : Int64}
    {is : List Int32} (hnodup : is.Nodup)
    (hroot : ∀ g ∈ is, gs.root g ∈ gs.members g)
    (hapart : ∀ g ∈ is, ∀ g' ∈ is, g ≠ g' → ∀ w ∈ gs.members g, w ∉ gs.members g')
    (s : ThreadedSession) :
    Outcome (is.forM fun group => do
        modify fun s => { s with group := some group }
        let root_worker := group * gs.workers_per_group
        let group_src ← Get root_worker src
        let group_src := group_src.orElse fun _ => some root0
        (intRange gs.workers_per_group).forM fun i => do
          DiscoSession.Set (root_worker + i) dst
            (← lift (SliceFirstDim group_src (i.toInt64 * shard) shard))) s (fun _ => True)
      fun _ s' => (∀ g ∈ is, HoldsShards s' (gs.root g) gs.workers_per_group dst
          (groupSource s src root0 (gs.root g)) shard) ∧
        ChangesOnly (is.flatMap gs.members) dst s s' ∧ SameCounts s s' := by
  induction is generalizing s with
  | nil => exact ⟨nofun, fun _ _ _ => rfl, .refl s⟩
  | cons g is ih =>
    obtain ⟨hnew, hnodup⟩ := List.nodup_cons.mp hnodup
    obtain ⟨hrootG, hroots⟩ := List.forall_mem_cons.mp hroot
    simp only [List.forM_eq_forM, List.forM_cons, outcome_bind, outcome_modify]
    refine (Get_spec fun _ _ => trivial).mono fun value s₁ h₁ => ?_
    obtain ⟨rfl, hregisters, hcounts₁⟩ := h₁
    have hcounts : SameCounts s s₁ := ⟨hcounts₁.num_workers, hcounts₁.num_groups, hcounts₁.reg_count⟩
    refine (writeShards_spec _ _ _ _ s₁).mono fun _ s₂ h₂ => ?_
    obtain ⟨hshards, hchanges, hcounts₂⟩ := h₂
    refine (ih hnodup hroots (fun g hg g' hg' => hapart g (List.mem_cons_of_mem _ hg) g'
      (List.mem_cons_of_mem _ hg')) s₂).mono fun _ s₃ h₃ => ?_
    obtain ⟨hrest, hchanges', hcounts₃⟩ := h₃
    -- the later groups leave the pieces of `g` alone, and `g` leaves their sources alone
    have hlater {w : Int32} (hw : w ∈ gs.members g) : w ∉ is.flatMap gs.members := fun h => by
      obtain ⟨g', hg', hw'⟩ := List.mem_flatMap.mp h
      exact hapart g List.mem_cons_self g' (List.mem_cons_of_mem _ hg')
        (fun heq => hnew (heq ▸ hg')) w hw hw'
    have hkept {w r : Int32} (hw : w ∉ gs.members g) : s₂.register_file w r = s.register_file w r :=
      (hchanges w r fun h => hw h.1).trans (congrFun (congrFun hregisters w) r)
    refine ⟨List.forall_mem_cons.mpr ⟨fun i hi => ?_, fun g' hg' => ?_⟩, fun w r hne => ?_,
      (hcounts.trans hcounts₂).trans hcounts₃⟩
    · have hmember : gs.root g + i ∈ gs.members g := List.mem_map.mpr ⟨i, hi, rfl⟩
      rw [hchanges' _ _ fun h => hlater hmember h.1]
      exact hshards i hi
    · have hsource : groupSource s₂ src root0 (gs.root g') =
          groupSource s src root0 (gs.root g') := by
        rw [groupSource, groupSource, hkept fun h => hlater h
          (List.mem_flatMap.mpr ⟨g', hg', hroots g' hg'⟩)]
      exact hsource ▸ hrest g' hg'
    · rw [hchanges' w r fun h => hne ⟨?_, h.2⟩, hchanges w r fun h => hne ⟨?_, h.2⟩, hregisters]
      · exact List.mem_append_left _ h.1
      · exact List.mem_append_right _ h.1

namespace Groups

/-- The workers that hand out and collect arrays. -/
def roots (gs : Groups) (in_group : Bool) : List Int32 :=
  if in_group then (intRange gs.num_groups).map gs.root else [0]

/-- Into how many pieces an array is cut. -/
def receivers (gs : Groups) (in_group : Bool) : Int32 :=
  if in_group then gs.workers_per_group else gs.num_workers

end Groups

/-- The workers hold the pieces of the arrays of the roots, cut as the array of worker 0 is. -/
structure Scattered (src dst : DRef) (in_group : Bool) (s s' : ThreadedSession) : Prop where
  counts : SameCounts s s'
  receivers : s.groups.receivers in_group ≠ 0
  shards : ∃ root0 dim0 dims, s.register_file 0 src.reg_id = some root0 ∧
    root0.shape = dim0 :: dims ∧ dim0 % (s.groups.receivers in_group).toInt64 = 0 ∧
      ∀ root ∈ s.groups.roots in_group, HoldsShards s' root (s.groups.receivers in_group) dst
        (groupSource s src root0 root) (dim0 / (s.groups.receivers in_group).toInt64)

theorem ScatterFromWorker0_spec (hgroups : s.num_groups ≠ 0) (heven : s.groups.Even)
    (in_group : Bool) :
    Outcome (ScatterFromWorker0 src dst in_group) s (fun _ => True) fun _ s' =>
      Scattered src dst in_group s s' := by
  rw [ScatterFromWorker0, outcome_bind]
  refine (Get_spec fun _ _ => trivial).mono fun value s₁ h₁ => ?_
  obtain ⟨rfl, hregisters, hcounts⟩ := h₁
  cases hroot0 : s.register_file 0 src.reg_id with
  | none => trivial
  | some root0 =>
    rw [outcome_bind, outcome_get]
    cases in_group with
    | true =>
      simp only [if_true, Bool.not_true, Bool.false_eq_true, if_false, outcome_bind,
        hcounts.num_workers, hcounts.num_groups]
      refine outcome_intDiv hgroups ?_
      cases hshape : root0.shape with
      | nil => trivial
      | cons dim0 dims =>
        refine outcome_ite.mpr ⟨fun _ => trivial, fun hper => outcome_ite.mpr
          ⟨fun _ => trivial, fun hdiv => ?_⟩⟩
        rw [outcome_bind]
        refine outcome_intDiv hgroups ?_
        simp only [forGroups, outcome_bind, outcome_modify]
        refine (scatterGroups_spec s.groups heven.nodup heven.root_mem heven.apart
          s₁).mono fun _ s₂ h₂ => ?_
        obtain ⟨hshards, -, hcounts'⟩ := h₂
        have hcounts₂ := hcounts.trans hcounts'
        refine ⟨⟨hcounts₂.num_workers, hcounts₂.num_groups, hcounts₂.reg_count⟩, hper, root0, dim0,
          dims, hroot0, hshape, not_not.mp hdiv, fun root hroot => ?_⟩
        obtain ⟨g, hg, rfl⟩ := List.mem_map.mp hroot
        have hsource : groupSource s₁ src root0 (s.groups.root g) =
            groupSource s src root0 (s.groups.root g) := by
          rw [groupSource, groupSource, hregisters]
        exact hsource ▸ hshards g hg
    | false =>
      simp only [Bool.false_eq_true, if_false, Bool.not_false, if_true, outcome_bind, outcome_pure,
        hcounts.num_workers]
      cases hshape : root0.shape with
      | nil => trivial
      | cons dim0 dims =>
        refine outcome_ite.mpr ⟨fun _ => trivial, fun hper => outcome_ite.mpr
          ⟨fun _ => trivial, fun hdiv => ?_⟩⟩
        have hloop := writeShards_spec 0 dst (fun worker =>
          SliceFirstDim (some root0) (worker.toInt64 * (dim0 / s.num_workers.toInt64))
            (dim0 / s.num_workers.toInt64)) (intRange s.num_workers) s₁
        simp only [Int32.zero_add] at hloop
        refine hloop.mono fun _ s₂ h₂ => ?_
        obtain ⟨hshards, -, hcounts'⟩ := h₂
        refine ⟨hcounts.trans hcounts', hper, root0, dim0, dims, hroot0, hshape, not_not.mp hdiv,
          fun root hroot => ?_⟩
        obtain rfl := List.mem_singleton.mp hroot
        intro i hi
        rw [groupSource, hroot0, Int32.zero_add]
        exact hshards i hi

end Scattering

/-! ### Gathering -/

section Gathering

variable {s : ThreadedSession} {src dst : DRef} {root : Int32}

/-- The register is one of the session. -/
def ThreadedSession.HasRegister (s : ThreadedSession) (ref : DRef) : Prop :=
  0 ≤ ref.reg_id ∧ ref.reg_id < s.reg_count

theorem readShards_spec {is : List Int32} (s : ThreadedSession)
    (hvalid : ∀ i ∈ is, Valid s (root + i) src) :
    Outcome (is.mapM fun i => Get (root + i) src) s (fun _ => False) fun shards s' =>
      shards = (is.map fun i => s.register_file (root + i) src.reg_id) ∧
        s'.register_file = s.register_file ∧ SameCounts s s' := by
  induction is generalizing s with
  | nil => exact ⟨rfl, rfl, .refl s⟩
  | cons i is ih =>
    obtain ⟨hi, his⟩ := List.forall_mem_cons.mp hvalid
    simp only [List.mapM_cons, outcome_bind, outcome_pure]
    refine (Get_spec fun h => absurd hi h).mono fun value s₁ h₁ => ?_
    obtain ⟨rfl, hregisters, hcounts⟩ := h₁
    refine (ih s₁ fun j hj => hcounts.valid.mpr (his j hj)).mono fun shards s₂ h₂ => ?_
    obtain ⟨rfl, hregisters', hcounts'⟩ := h₂
    exact ⟨by rw [hregisters, List.map_cons], hregisters'.trans hregisters, hcounts.trans hcounts'⟩

/-- What `per` workers from `root` on hold. -/
def heldFrom (s : ThreadedSession) (root per : Int32) (ref : DRef) : List (Option NDArray) :=
  (intRange per).map fun i => s.register_file (root + i) ref.reg_id

/-- Reads the pieces from a group of workers and puts them together on the first one. -/
theorem gatherGroup_spec (s : ThreadedSession) (root per : Int32) {value : Option NDArray}
    (hvalid : ∀ i ∈ intRange per, Valid s (root + i) src) (hroot : Valid s root dst)
    (hconcat : ConcatFirstDim (heldFrom s root per src) = .ok value) :
    Outcome (do
        let shards ← (intRange per).mapM fun i => Get (root + i) src
        DiscoSession.Set root dst (← lift (ConcatFirstDim shards))) s (fun _ => False)
      fun _ s' => s'.register_file root dst.reg_id = value ∧ ChangesOnly [root] dst s s' ∧
        SameCounts s s' := by
  rw [outcome_bind]
  refine (readShards_spec s hvalid).mono fun shards s₁ h₁ => ?_
  obtain ⟨rfl, hregisters, hcounts⟩ := h₁
  rw [outcome_bind]
  rw [heldFrom] at hconcat
  simp only [hconcat, lift, outcome_pure]
  refine (Set_spec (fun h => absurd (hcounts.valid.mpr hroot) h) value).mono fun _ s₂ h₂ => ?_
  obtain ⟨hset, hkeep, hcounts'⟩ := h₂
  refine ⟨hset, fun w r hne => ?_, hcounts.trans hcounts'⟩
  rw [hkeep w r fun h => hne ⟨List.mem_singleton.mpr h.1, h.2⟩, hregisters]

/-- The loop that gathers in the groups `is`. -/
theorem gatherGroups_spec (gs : Groups) {value : Int32 → Option NDArray} {is : List Int32}
    (hnodup : is.Nodup) (hroot : ∀ g ∈ is, gs.root g ∈ gs.members g)
    (hapart : ∀ g ∈ is, ∀ g' ∈ is, g ≠ g' → ∀ w ∈ gs.members g, w ∉ gs.members g')
    (s : ThreadedSession)
    (hvalid : ∀ g ∈ is, ∀ w ∈ gs.members g, Valid s w src ∧ Valid s w dst)
    (hconcat : ∀ g ∈ is,
      ConcatFirstDim (heldFrom s (gs.root g) gs.workers_per_group src) = .ok (value (gs.root g))) :
    Outcome (is.forM fun group => do
        modify fun s => { s with group := some group }
        let root_worker := group * gs.workers_per_group
        let shards ← (intRange gs.workers_per_group).mapM fun i => Get (root_worker + i) src
        DiscoSession.Set root_worker dst (← lift (ConcatFirstDim shards))) s (fun _ => False)
      fun _ s' => (∀ g ∈ is, s'.register_file (gs.root g) dst.reg_id = value (gs.root g)) ∧
        ChangesOnly (is.map gs.root) dst s s' := by
  induction is generalizing s with
  | nil => exact ⟨nofun, fun _ _ _ => rfl⟩
  | cons g is ih =>
    obtain ⟨hnew, hnodup⟩ := List.nodup_cons.mp hnodup
    obtain ⟨hrootG, hroots⟩ := List.forall_mem_cons.mp hroot
    obtain ⟨hvalidG, hvalids⟩ := List.forall_mem_cons.mp hvalid
    obtain ⟨hconcatG, hconcats⟩ := List.forall_mem_cons.mp hconcat
    have hlater {g' : Int32} (hg' : g' ∈ is) : gs.root g ∉ gs.members g' :=
      hapart g List.mem_cons_self g' (List.mem_cons_of_mem _ hg') (fun heq => hnew (heq ▸ hg')) _
        hrootG
    rw [List.forM_eq_forM, List.forM_cons, outcome_bind, outcome_bind, outcome_modify]
    refine (gatherGroup_spec { s with group := some g } (gs.root g) gs.workers_per_group
      (fun i hi => (hvalidG _ (List.mem_map.mpr ⟨i, hi, rfl⟩)).1) (hvalidG _ hrootG).2
      hconcatG).mono fun _ s₁ h₁ => ?_
    obtain ⟨hset, hchanges, hcounts⟩ := h₁
    have hkept {w r : Int32} (hw : w ≠ gs.root g) : s₁.register_file w r = s.register_file w r :=
      hchanges w r fun h => hw (List.mem_singleton.mp h.1)
    refine (ih hnodup hroots (fun g hg g' hg' => hapart g (List.mem_cons_of_mem _ hg) g'
      (List.mem_cons_of_mem _ hg')) s₁ (fun g' hg' w hw => ?_) fun g' hg' => ?_).mono
        fun _ s₂ h₂ => ?_
    · have hold := hvalids g' hg' w hw
      exact ⟨hcounts.valid.mpr hold.1, hcounts.valid.mpr hold.2⟩
    · rw [← hconcats g' hg', heldFrom, heldFrom]
      congr 1
      refine List.map_congr_left fun i hi => hkept fun heq => hlater hg' ?_
      exact heq ▸ List.mem_map.mpr ⟨i, hi, rfl⟩
    · obtain ⟨hrest, hchanges'⟩ := h₂
      refine ⟨List.forall_mem_cons.mpr ⟨?_, hrest⟩, fun w r hne => ?_⟩
      · rw [hchanges' _ _ fun h => ?_, hset]
        obtain ⟨g', hg', heq⟩ := List.mem_map.mp h.1
        exact hlater hg' (heq ▸ hroots g' hg')
      · rw [hchanges' w r fun h => hne ⟨List.mem_cons_of_mem _ h.1, h.2⟩]
        exact hchanges w r fun h => hne ⟨(List.mem_singleton.mp h.1) ▸ List.mem_cons_self, h.2⟩

theorem GatherToWorker0_spec (hgroups : s.num_groups ≠ 0) (heven : s.groups.Even)
    (hworkers : ∀ w ∈ intRange s.num_workers, 0 ≤ w ∧ w < s.num_workers) (hpos : 0 < s.num_workers)
    (hsrc : s.HasRegister src) (hdst : s.HasRegister dst) (in_group : Bool)
    (value : Int32 → Option NDArray) (hconcat : ∀ root ∈ s.groups.roots in_group,
      ConcatFirstDim (heldFrom s root (s.groups.receivers in_group) src) = .ok (value root)) :
    Outcome (GatherToWorker0 src dst in_group) s (fun _ => False) fun _ s' =>
      ∀ root ∈ s.groups.roots in_group, s'.register_file root dst.reg_id = value root := by
  rw [GatherToWorker0, outcome_bind, outcome_get]
  cases in_group with
  | true =>
    simp only [Bool.not_true, Bool.false_eq_true, if_false, outcome_bind]
    refine outcome_intDiv hgroups ?_
    simp only [forGroups, outcome_bind, outcome_modify]
    refine (gatherGroups_spec s.groups heven.nodup heven.root_mem heven.apart s
      (fun g hg w hw => ?_) fun g hg => hconcat _ (List.mem_map.mpr ⟨g, hg, rfl⟩)).mono
        fun _ s' h => ?_
    · have hw := heven.in_range g hg w hw
      exact ⟨⟨hw, hsrc⟩, hw, hdst⟩
    · intro root hroot
      obtain ⟨g, hg, rfl⟩ := List.mem_map.mp hroot
      exact h.1 g hg
  | false =>
    simp only [Bool.not_false, if_true]
    have hgroup := gatherGroup_spec s 0 s.num_workers
      (fun i hi => ⟨by rw [Int32.zero_add]; exact hworkers i hi, hsrc⟩)
      ⟨⟨Int32.le_refl _, hpos⟩, hdst⟩ (hconcat 0 (List.mem_singleton_self 0))
    simp only [Int32.zero_add] at hgroup
    refine hgroup.mono fun _ s' h root hroot => ?_
    obtain rfl := List.mem_singleton.mp hroot
    exact h.1

end Gathering

/-! ### Scattering and gathering -/

section RoundTrip

variable {s : ThreadedSession}

/-- What a root has after scattering and gathering: the first rows of the array it handed out, as
many as worker 0 has. -/
theorem gathered {src : NDArray} {dim0 : Int64} {R : Nat} (hR : R < 2 ^ 31) (hpos : 0 < R)
    (hdim0 : 0 ≤ dim0) (hdiv : dim0 % Int64.ofNat R = 0) (hsrc : WellFormed src)
    {held : Int32 → Option NDArray}
    (hshards : ∀ i ∈ intRange (Int32.ofNat R),
      SliceFirstDim (some src) (i.toInt64 * (dim0 / Int64.ofNat R)) (dim0 / Int64.ofNat R) =
        .ok (held i)) :
    ∃ r, ConcatFirstDim ((intRange (Int32.ofNat R)).map held) = .ok (some r) ∧
      r.shape = dim0 :: src.shape.tail ∧ r.dtype = src.dtype ∧
      (src.shape.head? = some dim0 → SameTensor r src) := by
  have hnonneg : 0 ≤ dim0.toInt := by simpa using Int64.le_iff_toInt_le.mp hdim0
  obtain ⟨D, hD, rfl⟩ : ∃ D : Nat, D < 2 ^ 63 ∧ dim0 = Int64.ofNat D :=
    ⟨dim0.toInt.toNat, by have := dim0.toInt_lt; omega, by
      rw [← Int64.ofInt_eq_ofNat, Int.toNat_of_nonneg hnonneg, Int64.ofInt_toInt]⟩
  have hR' : R < 2 ^ 63 := Nat.lt_trans hR (by decide)
  rw [← Int64.ofNat_mod hD hR'] at hdiv
  have hmod : D % R = 0 := by
    have hlt : D % R < 2 ^ 63 := Nat.lt_of_le_of_lt (Nat.mod_le D R) hD
    have := congrArg Int64.toInt hdiv
    rw [Int64.toInt_ofNat_of_lt hlt, Int64.toInt_zero] at this
    omega
  have hrows : R * (D / R) = D := Nat.mul_div_cancel' (Nat.dvd_of_mod_eq_zero hmod)
  generalize hlen : D / R = len at hrows
  rw [← Int64.ofNat_div hD hR', hlen] at hshards
  have hshard (a : Nat) (ha : a < R) :
      SliceFirstDim (some src) (Int64.ofNat (a * len)) (Int64.ofNat len) =
        .ok (held (Int32.ofNat a)) := by
    have h := hshards (Int32.ofNat a) ((intRange_ofNat hR).symm ▸
      List.mem_map.mpr ⟨a, List.mem_range.mpr ha, rfl⟩)
    have hmax : (a : Int) ≤ Int32.maxValue.toInt := by
      have : Int32.maxValue.toInt = 2 ^ 31 - 1 := by decide
      omega
    rwa [Int32.toInt64_ofNat' hmax, ← Int64.ofNat_mul] at h
  obtain ⟨d, dims, hshape⟩ : ∃ d dims, src.shape = d :: dims := by
    cases hshape : src.shape with
    | nil =>
      have h := hshard 0 hpos
      rw [SliceFirstDim, hshape] at h
      cases h
    | cons d dims => exact ⟨d, dims, rfl⟩
  have hcut (a : Nat) (ha : a < R) := SliceFirstDim_isShard hsrc hshape
    (Nat.lt_of_le_of_lt (hrows ▸ Nat.mul_le_mul_right len ha) hD) (hshard a ha)
  obtain ⟨-, ⟨dtype_str, hdtype⟩, -⟩ := hcut 0 hpos
  have hexists (a : Nat) : ∃ r, a < R → held (Int32.ofNat a) = some r ∧ IsShard src a len r := by
    by_cases ha : a < R
    · obtain ⟨-, -, r, hr⟩ := hcut a ha
      exact ⟨r, fun _ => hr⟩
    · exact ⟨src, fun h => absurd h ha⟩
  choose shard hheld using hexists
  have hlist : (intRange (Int32.ofNat R)).map held =
      (List.range R).map fun a => some (shard a) := by
    rw [intRange_ofNat hR, List.map_map]
    exact List.map_congr_left fun a ha => (hheld a (List.mem_range.mp ha)).1
  have hlast : R * len ≤ d.toInt.toNat := by
    have h := (hcut (R - 1) (by omega)).1
    rwa [Nat.sub_add_cancel hpos] at h
  have hnumel : numel src.shape = d.toInt.toNat * numel src.shape.tail := by
    rw [hshape, numel_cons (hshape ▸ hsrc.nonneg), List.tail_cons]
  obtain ⟨r, hconcat, hrshape, hrdtype, hcontents⟩ := ConcatFirstDim_shards hsrc hdtype hpos
    (fun a ha => (hheld a ha).2) (hrows ▸ hD) (hnumel ▸ Nat.mul_le_mul_right _ hlast)
  rw [hrows] at hrshape
  refine ⟨r, hlist ▸ hconcat, hrshape, hrdtype, fun hhead => ?_⟩
  have hd : d = Int64.ofNat D := by
    rw [hshape] at hhead
    exact Option.some.inj hhead
  refine ⟨?_, hrdtype, ?_⟩
  · rw [hrshape, hshape, List.tail_cons, hd]
  · have hD' : d.toInt.toNat = D := by rw [hd, Int64.toInt_ofNat_of_lt hD, Int.toNat_natCast]
    rw [hcontents, contents, List.take_take, hnumel, hD', ← hrows]
    simp only [Nat.mul_assoc, Nat.min_self]

/-- Gathering gives every root the array back that it has held before the scattering. -/
def GathersBack (src dst out : DRef) (in_group : Bool) (s s' : ThreadedSession) : Prop :=
  ∃ s'', GatherToWorker0 dst out in_group s' = .ok ((), s'') ∧
    ∀ root ∈ s.groups.roots in_group, ∀ a ∈ s.register_file root src.reg_id,
      ∃ r, s''.register_file root out.reg_id = some r ∧ SameTensor r a

/-- The root of every group that holds an array has as many rows as worker 0. -/
def SameRows (src : DRef) (s : ThreadedSession) : Prop :=
  ∀ group ∈ intRange s.num_groups, ∀ a ∈ s.register_file (s.groups.root group) src.reg_id,
    ∀ root0 ∈ s.register_file 0 src.reg_id, a.shape.head? = root0.shape.head?

/-- Into how many pieces arrays are cut, as a natural number. -/
theorem exists_receivers {N M : Nat} (hN : N < 2 ^ 31) (hM : M < 2 ^ 31) (in_group : Bool)
    (hne : Groups.receivers ⟨Int32.ofNat N, Int32.ofNat M⟩ in_group ≠ 0) :
    ∃ R, 0 < R ∧ R < 2 ^ 31 ∧
      Groups.receivers ⟨Int32.ofNat N, Int32.ofNat M⟩ in_group = Int32.ofNat R := by
  have hpos {R : Nat} (h : Int32.ofNat R ≠ 0) : 0 < R := Nat.pos_of_ne_zero fun h0 => by
    subst h0
    exact h rfl
  cases in_group with
  | true =>
    have hper : Groups.receivers ⟨Int32.ofNat N, Int32.ofNat M⟩ true = Int32.ofNat (N / M) :=
      (Int32.ofNat_div hN hM).symm
    exact ⟨N / M, hpos (hper ▸ hne), Nat.lt_of_le_of_lt (Nat.div_le_self N M) hN, hper⟩
  | false => exact ⟨N, hpos hne, hN, rfl⟩

/-- After a scattering that succeeds, gathering returns, and gives every root the rows that worker 0
has of the array that was cut for its group. -/
theorem Scattered.gather {s' : ThreadedSession} {src dst out : DRef} {in_group : Bool} {N M : Nat}
    (h : Scattered src dst in_group s s') (hN : N < 2 ^ 31) (hM : M < 2 ^ 31) (hpos : 0 < N)
    (hpos' : 0 < M) (hdvd : M ∣ N) (hcounts : s.groups = ⟨Int32.ofNat N, Int32.ofNat M⟩)
    (harrays : ∀ worker, ∀ a ∈ s.register_file worker src.reg_id, WellFormed a)
    (hdst : s.HasRegister dst) (hout : s.HasRegister out) :
    ∃ s'' root0 dim0, GatherToWorker0 dst out in_group s' = .ok ((), s'') ∧
      s.register_file 0 src.reg_id = some root0 ∧ root0.shape.head? = some dim0 ∧
      ∀ root ∈ s.groups.roots in_group, ∃ a r, groupSource s src root0 root = some a ∧
        s''.register_file root out.reg_id = some r ∧ r.shape = dim0 :: a.shape.tail ∧
        (a.shape.head? = some dim0 → SameTensor r a) := by
  obtain ⟨root0, dim0, dims, hroot0, hshape, hdiv, hshards⟩ := h.shards
  have hne := h.receivers
  rw [hcounts] at hne
  obtain ⟨R, hRpos, hR, hreceivers⟩ := exists_receivers hN hM in_group hne
  rw [← hcounts] at hreceivers
  have htoInt64 : (s.groups.receivers in_group).toInt64 = Int64.ofNat R := by
    have : Int32.maxValue.toInt = 2 ^ 31 - 1 := by decide
    rw [hreceivers, Int32.toInt64_ofNat' (by omega)]
  rw [htoInt64] at hdiv hshards
  have hdim0 : 0 ≤ dim0 := (harrays 0 root0 hroot0).nonneg dim0 (hshape ▸ List.mem_cons_self)
  -- what each root will hold
  have hroot (root : Int32) : ∃ r : NDArray, root ∈ s.groups.roots in_group →
      ∃ a, groupSource s src root0 root = some a ∧
        ConcatFirstDim (heldFrom s' root (s.groups.receivers in_group) dst) = .ok (some r) ∧
        r.shape = dim0 :: a.shape.tail ∧ (a.shape.head? = some dim0 → SameTensor r a) := by
    by_cases hmem : root ∈ s.groups.roots in_group
    · obtain ⟨a, ha, hwf⟩ : ∃ a, groupSource s src root0 root = some a ∧ WellFormed a := by
        rw [groupSource]
        cases hheld : s.register_file root src.reg_id with
        | none => exact ⟨root0, rfl, harrays 0 root0 hroot0⟩
        | some a => exact ⟨a, rfl, harrays root a hheld⟩
      have hpieces := hshards root hmem
      rw [ha, HoldsShards, hreceivers] at hpieces
      obtain ⟨r, hconcat, hrshape, -, hsame⟩ := gathered hR hRpos hdim0 hdiv hwf hpieces
      exact ⟨r, fun _ => ⟨a, ha, hreceivers ▸ hconcat, hrshape, hsame⟩⟩
    · exact ⟨root0, fun h => absurd h hmem⟩
  choose value hvalue using hroot
  have hgroups' : s'.groups = s.groups := by
    rw [ThreadedSession.groups, ThreadedSession.groups, h.counts.num_workers, h.counts.num_groups]
  have hworkers : s.num_workers = Int32.ofNat N := congrArg Groups.num_workers hcounts
  have hgroupsEq : s.num_groups = Int32.ofNat M := congrArg Groups.num_groups hcounts
  have hregister {ref : DRef} (href : s.HasRegister ref) : s'.HasRegister ref :=
    ⟨href.1, h.counts.reg_count.symm ▸ href.2⟩
  have hgather := GatherToWorker0_spec (s := s') ?_
    (hgroups' ▸ hcounts ▸ Groups.even_of_dvd hN hM hpos hpos' hdvd) ?_ ?_ (hregister hdst)
    (hregister hout) in_group (fun root => some (value root)) ?_
  · obtain ⟨_, s'', hrun, hheld⟩ := hgather.exists_ok
    refine ⟨s'', root0, dim0, hrun, hroot0, by rw [hshape, List.head?_cons], fun root hmem => ?_⟩
    obtain ⟨a, ha, -, hrshape, hsame⟩ := hvalue root hmem
    exact ⟨a, value root, ha, hheld root (hgroups' ▸ hmem), hrshape, hsame⟩
  · rw [h.counts.num_groups, hgroupsEq]
    exact ofNat_ne_zero hM hpos'
  · intro w hw
    rw [h.counts.num_workers, hworkers] at hw ⊢
    exact (mem_range_ofNat hN w).mp ((intRange_ofNat hN) ▸ hw)
  · rw [h.counts.num_workers, hworkers]
    exact (ofNat_lt_iff (a := 0) (by omega) hN).mpr hpos
  · intro root hmem
    rw [hgroups'] at hmem ⊢
    obtain ⟨a, -, hconcat, -⟩ := hvalue root hmem
    exact hconcat

/-- Gathering undoes a scattering that has succeeded if and only if, for groups, the arrays of the
group roots have as many rows as that of worker 0. -/
theorem gathersBack_iff {s s' : ThreadedSession} {src dst out : DRef} {in_group : Bool}
    (hworkers : 1 ≤ s.num_workers) (hgroups : 1 ≤ s.num_groups)
    (hdvd : s.num_groups.toInt ∣ s.num_workers.toInt)
    (harrays : ∀ worker, ∀ a ∈ s.register_file worker src.reg_id, WellFormed a)
    (hdst : s.HasRegister dst) (hout : s.HasRegister out)
    (hscatter : ScatterFromWorker0 src dst in_group s = .ok ((), s')) :
    GathersBack src dst out in_group s s' ↔ in_group = false ∨ SameRows src s := by
  obtain ⟨N, hN, hnum_workers⟩ := exists_ofNat (Int32.le_trans (by decide) hworkers)
  obtain ⟨M, hM, hnum_groups⟩ := exists_ofNat (Int32.le_trans (by decide) hgroups)
  rw [hnum_workers] at hworkers hdvd
  rw [hnum_groups] at hgroups hdvd
  have hpos : 0 < N := (ofNat_le_iff (a := 1) (by omega) hN).mp hworkers
  have hpos' : 0 < M := (ofNat_le_iff (a := 1) (by omega) hM).mp hgroups
  rw [Int32.toInt_ofNat_of_lt hN, Int32.toInt_ofNat_of_lt hM, Int.natCast_dvd_natCast] at hdvd
  have hcounts : s.groups = ⟨Int32.ofNat N, Int32.ofNat M⟩ := by
    rw [ThreadedSession.groups, hnum_workers, hnum_groups]
  have hscattered := (ScatterFromWorker0_spec (s := s)
    (hnum_groups ▸ ofNat_ne_zero hM hpos') (hcounts ▸ Groups.even_of_dvd hN hM hpos hpos' hdvd)
    in_group).of_ok hscatter
  obtain ⟨s'', root0, dim0, hrun, hroot0, hhead, hroots⟩ :=
    hscattered.gather hN hM hpos hpos' hdvd hcounts harrays hdst hout
  constructor
  · intro hback
    cases in_group with
    | false => exact .inl rfl
    | true =>
      refine .inr fun g hg a ha root0' hroot0' => ?_
      obtain ⟨t, hrun', hsame⟩ := hback
      obtain ⟨rfl⟩ : s'' = t := by
        rw [hrun] at hrun'
        exact (Prod.mk.inj (Except.ok.inj hrun')).2
      have hmem : s.groups.root g ∈ s.groups.roots true := List.mem_map.mpr ⟨g, hg, rfl⟩
      obtain ⟨r, hr, hra⟩ := hsame _ hmem a ha
      obtain ⟨a', r', -, hr', hshape, -⟩ := hroots _ hmem
      obtain rfl : r = r' := Option.some.inj (hr.symm.trans hr')
      obtain rfl : root0 = root0' := Option.some.inj (hroot0.symm.trans hroot0')
      rw [← hra.shape, hshape, hhead, List.head?_cons]
  · intro hcond
    refine ⟨s'', hrun, fun root hmem a ha => ?_⟩
    obtain ⟨a', r, ha', hr, -, hsame⟩ := hroots root hmem
    rw [groupSource, ha] at ha'
    obtain rfl : a = a' := Option.some.inj ha'
    refine ⟨r, hr, hsame ?_⟩
    cases in_group with
    | false =>
      obtain rfl := List.mem_singleton.mp hmem
      obtain rfl : root0 = a := Option.some.inj (hroot0.symm.trans ha)
      exact hhead
    | true =>
      obtain ⟨g, hg, rfl⟩ := List.mem_map.mp hmem
      have hrows : SameRows src s := hcond.resolve_left Bool.false_ne_true.symm
      rw [hrows g hg a ha root0 hroot0, hhead]

/-- `rows` rows of one `int32` each. -/
def countingArray (rows : Nat) : NDArray where
  shape := [Int64.ofNat rows]
  dtype := ⟨kDLInt, 32, 1⟩
  data := (List.range (4 * rows)).map UInt8.ofNat

/-- Four workers in two groups whose roots hold arrays in register 0. -/
def rootsSession (rows₀ rows₂ : Nat) : ThreadedSession :=
  { DiscoSession.ThreadedSession 4 2 with
    reg_count := 2
    register_file := fun worker reg =>
      if reg = 0 then
        if worker = 0 then some (countingArray rows₀)
        else if worker = 2 then some (countingArray rows₂) else none
      else none }

theorem rootsSession_wellFormed {rows₀ rows₂ : Nat} (h₀ : WellFormed (countingArray rows₀))
    (h₂ : WellFormed (countingArray rows₂)) (worker : Int32) :
    ∀ a ∈ (rootsSession rows₀ rows₂).register_file worker 0, WellFormed a := by
  intro a ha
  simp only [rootsSession, if_true] at ha
  split at ha
  · exact Option.some.inj ha ▸ h₀
  · split at ha
    · exact Option.some.inj ha ▸ h₂
    · cases ha

theorem rootsSession_gathersBack :
    ∃ s', ScatterFromWorker0 ⟨0⟩ ⟨1⟩ true (rootsSession 2 2) = .ok ((), s') ∧
      GathersBack ⟨0⟩ ⟨1⟩ ⟨1⟩ true (rootsSession 2 2) s' := by
  have hwf : WellFormed (countingArray 2) :=
    ⟨fun dim h => List.mem_singleton.mp h ▸ by decide, by decide, by decide⟩
  refine ⟨_, rfl, (gathersBack_iff (by decide) (by decide) (by decide)
    (rootsSession_wellFormed hwf hwf) ⟨by decide, by decide⟩ ⟨by decide, by decide⟩ rfl).mpr
    (.inr fun group hgroup a ha root0 hroot0 => ?_)⟩
  obtain rfl : root0 = countingArray 2 := (Option.some.inj hroot0).symm
  obtain rfl | rfl : group = 0 ∨ group = 1 := by
    obtain ⟨n, hn, rfl⟩ := List.mem_map.mp hgroup
    have hn : n < 2 := List.mem_range.mp hn
    rcases n with _ | _ | n
    · exact .inl rfl
    · exact .inr rfl
    · omega
  · obtain rfl : countingArray 2 = a := Option.some.inj ha
    rfl
  · obtain rfl : countingArray 2 = a := Option.some.inj ha
    rfl

/-- The root of the second group has four rows and gets two of them back: the pieces are as long as
those of the array of worker 0. -/
theorem rootsSession_not_gathersBack :
    ∃ s', ScatterFromWorker0 ⟨0⟩ ⟨1⟩ true (rootsSession 2 4) = .ok ((), s') ∧
      ¬GathersBack ⟨0⟩ ⟨1⟩ ⟨1⟩ true (rootsSession 2 4) s' := by
  refine ⟨_, rfl, fun ⟨s'', hrun, hback⟩ => ?_⟩
  obtain ⟨r, hr, hshape⟩ : ∃ r, s''.register_file 2 1 = some r ∧ r.shape = [2] := by
    obtain rfl := (Prod.mk.inj (Except.ok.inj hrun)).2
    exact ⟨_, rfl, rfl⟩
  obtain ⟨r', hr', hsame⟩ := hback 2 (by decide) (countingArray 4) rfl
  obtain rfl : r = r' := Option.some.inj (hr.symm.trans hr')
  exact absurd (hshape.symm.trans hsame.shape) (by decide)

end RoundTrip

end Kxc.Disco
