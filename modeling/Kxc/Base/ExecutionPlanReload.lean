import Kxc.Base.ExecutionPlanRoundTrip
import Kxc.Base.WorkerIdentity

/-! A plan that was read: it is written as before, and its virtual devices have the workers they
had. -/

namespace Kxc

open Relay Lib PlanJson
open Json (J)

/-! ### The text of a plan that was read -/

theorem deviceJ_written (vd : VirtualDeviceNode) :
    deviceJ vd.written.device_obj = deviceJ vd.device_obj := rfl

theorem targetJ_written (t : Option Target) : targetJ (t.map Target.written) = targetJ t := by
  cases t <;> rfl

theorem Renewed.vdJ_eq {lo hi : Nat} {a b : Option VirtualDevice} (h : Renewed lo hi a b) :
    vdJ b = vdJ a := by
  cases a with
  | none =>
    cases b with
    | none => rfl
    | some b => exact h.elim
  | some a =>
    cases b with
    | none => exact h.elim
    | some b =>
      simp only [vdJ, h.1, VirtualDeviceNode.written, targetJ_written]

theorem WorkerRenewed.workerJ_eq {lo hi : Nat} {w w' : WorkerPlacement}
    (h : WorkerRenewed lo hi w w') : workerJ (some w') = workerJ (some w) := by
  simp only [workerJ, h.worker_id, h.group_id, h.local_rank, h.device_obj, h.target,
    targetJ_written, h.virtual_device.vdJ_eq]

/-- The attributes are those that a call of `op_name` is read with. -/
def Attrs.FitsOp (op_name : String) : Option Attrs → Prop
  | some (.deviceCopy ..) => op_name = "device.copy"
  | some (.collective ..) => op_name ≠ "device.copy"
  | _ => False

theorem AttrsRenewed.commAttrsJ_eq {lo hi : Nat} {op_name : String} {attrs : Option Attrs}
    {attrs' : Attrs} (hfits : Attrs.FitsOp op_name attrs)
    (h : AttrsRenewed lo hi op_name attrs attrs') :
    commAttrsJ (some attrs') = commAttrsJ attrs := by
  cases attrs with
  | none => exact hfits.elim
  | some attrs =>
    cases attrs with
    | deviceCopy src dst async in_group =>
      simp only [AttrsRenewed, if_pos (show op_name = "device.copy" from hfits)] at h
      obtain ⟨src', dst', rfl, hsrc, hdst⟩ := h
      simp only [commAttrsJ, hsrc.vdJ_eq, hdst.vdJ_eq]
    | collective kind reduce_kind in_group group_id root_worker =>
      simp only [AttrsRenewed, if_neg (show op_name ≠ "device.copy" from hfits)] at h
      rw [h]
    | _ => exact hfits.elim

/-- The nodes of calls have attributes of their kind. -/
def ExecNode.Fits : ExecNode → Prop
  | .comm op_name attrs _ _ _ _ => Attrs.FitsOp op_name attrs
  | _ => True

theorem NodeRenewed.nodeJ_eq {lo hi : Nat} {n n' : ExecNode} (hfits : n.Fits)
    (h : NodeRenewed lo hi n n') : nodeJ n' = nodeJ n := by
  cases n with
  | comm op_name attrs input_values output_values worker_set origin =>
    obtain ⟨attrs', rfl, hattrs⟩ := h
    simp only [nodeJ, hattrs.commAttrsJ_eq hfits]
  | _ => exact congrArg nodeJ h

theorem map_eq_of_forall₂ {α β γ : Type} {f : α → γ} {g : β → γ} {as : List α} {bs : List β}
    (h : List.Forall₂ (fun a b => g b = f a) as bs) : bs.map g = as.map f := by
  induction h with
  | nil => rfl
  | cons hhead _ ih => rw [List.map_cons, List.map_cons, hhead, ih]

/-- The workers are written in the order of their ids. -/
theorem pairwise_listed {p : DiscoPlacement} {ws : List WorkerPlacement} (h : Listed p ws) :
    (ws.map WorkerPlacement.worker_id).Pairwise (· ≤ ·) := by
  have hsorted := @List.pairwise_mergeSort _ (fun a b => !workerBefore b a)
    (fun a b c hab hbc => by
      cases a <;> cases b <;> cases c <;> simp_all [workerBefore, Int32.not_lt]
      exact Int32.le_trans hab hbc)
    (fun a b => by
      cases a <;> cases b <;> simp [workerBefore, Int32.not_lt]
      exact Int32.le_total _ _)
    p.workers
  rw [show p.workers.mergeSort (fun a b => !workerBefore b a) = ws.map some from h,
    List.pairwise_map] at hsorted
  rw [List.pairwise_map]
  exact hsorted.imp fun hab => by simpa [workerBefore, Int32.not_lt] using hab

theorem sortedWorkers_of_pairwise {p : DiscoPlacement} {ws : List WorkerPlacement}
    (hws : p.workers = ws.map some) (h : (ws.map WorkerPlacement.worker_id).Pairwise (· ≤ ·)) :
    sortedWorkers p.workers = ws.map some := by
  rw [hws, sortedWorkers]
  refine List.mergeSort_of_pairwise ?_
  rw [List.pairwise_map] at h ⊢
  exact h.imp fun hab => by simpa [workerBefore, Int32.not_lt] using hab

theorem PlacementRenewed.placementJ_eq {lo hi : Nat} {p p' : DiscoPlacement}
    {ws : List WorkerPlacement} (hlist : Listed p ws) (hgroups : 0 < p.num_groups)
    (h : PlacementRenewed lo hi p ws p') : placementJ (some p') = placementJ (some p) := by
  obtain ⟨ws', hws', hrenewed⟩ := h.workers
  have hids : ws'.map WorkerPlacement.worker_id = ws.map WorkerPlacement.worker_id :=
    map_eq_of_forall₂ (hrenewed.imp fun _ _ hw => hw.worker_id)
  have hsorted := sortedWorkers_of_pairwise hws' (hids ▸ pairwise_listed hlist)
  have hworkers :
      (sortedWorkers p'.workers).map workerJ = (sortedWorkers p.workers).map workerJ := by
    rw [hsorted, show sortedWorkers p.workers = ws.map some from hlist, List.map_map, List.map_map]
    exact map_eq_of_forall₂ (hrenewed.imp fun _ _ hw => hw.workerJ_eq)
  simp only [placementJ, h.num_groups, if_pos hgroups, hworkers]

theorem OptPlacementRenewed.placementJ_eq {lo hi : Nat} {p p' : Option DiscoPlacement}
    (hgroups : ∀ q ∈ p, 0 < q.num_groups) (h : OptPlacementRenewed lo hi p p') :
    placementJ p' = placementJ p := by
  cases p with
  | none => exact congrArg placementJ h
  | some p =>
    obtain ⟨ws, q, rfl, hlist, hq⟩ := h
    exact hq.placementJ_eq hlist (hgroups p rfl)

/-- Tables with the same ids list them in the same order. -/
theorem mergeSort_eq_of_mem_iff {l l' : List Int} (hl : l.Nodup) (hl' : l'.Nodup)
    (h : ∀ i, i ∈ l ↔ i ∈ l') : l.mergeSort = l'.mergeSort := by
  have hperm : l.mergeSort.Perm l'.mergeSort :=
    ((List.mergeSort_perm l _).trans ((List.perm_ext_iff_of_nodup hl hl').mpr h)).trans
      (List.mergeSort_perm l' _).symm
  have hsorted (l : List Int) : l.mergeSort.Pairwise fun a b => a ≤ b :=
    (List.pairwise_mergeSort (fun a b c hab hbc => by simp_all; omega)
      (fun a b => by simp; omega) l).imp fun hab => by simpa using hab
  exact hperm.eq_of_pairwise (fun a b _ _ hab hba => by omega) (hsorted l) (hsorted l')

theorem Renewed.isSome_eq {lo hi : Nat} {a b : Option VirtualDevice} (h : Renewed lo hi a b) :
    b.isSome = a.isSome := by
  cases a <;> cases b <;> first | rfl | exact h.elim

/-- Plans whose calls have attributes of their kind and whose placement has groups. -/
structure ExecutionPlan.Canonical (plan : ExecutionPlan) : Prop where
  nodes : ∀ n ∈ plan.nodes, n.Fits
  num_groups : ∀ p ∈ plan.pass_ctx.disco_placement, 0 < p.num_groups

theorem PlanRenewed.planJ_eq {lo hi : Nat} {plan plan' : ExecutionPlan} (hplan : plan.Canonical)
    (h : PlanRenewed lo hi plan plan') : planJ plan' = planJ plan := by
  have hnodes : plan'.nodes.map nodeJ = plan.nodes.map nodeJ :=
    map_eq_of_forall₂ (((List.forall₂_and_left _ _).mpr ⟨hplan.nodes, h.nodes⟩).imp
      fun n n' hn => hn.2.nodeJ_eq hn.1)
  have hvdIds : SortedIds plan'.value_virtual_devices = SortedIds plan.value_virtual_devices := by
    refine mergeSort_eq_of_mem_iff (AList.keys_nodup _) (AList.keys_nodup _) fun id => ?_
    rw [← AList.mem_keys, ← AList.mem_keys, ← AList.lookup_isSome, ← AList.lookup_isSome,
      (h.value_virtual_devices id).isSome_eq]
  have hvds : valueVDJ plan'.value_virtual_devices = valueVDJ plan.value_virtual_devices := by
    funext id
    simp only [valueVDJ, (h.value_virtual_devices id).vdJ_eq]
  have hinfoIds : SortedInfoIds plan'.value_shapes plan'.value_dtypes =
      SortedInfoIds plan.value_shapes plan.value_dtypes := by
    refine mergeSort_eq_of_mem_iff (List.nodup_dedup _) (List.nodup_dedup _) fun id => ?_
    have hshape : id ∈ plan'.value_shapes ↔ id ∈ plan.value_shapes ∨ id ∈ plan.value_dtypes := by
      rw [← AList.lookup_isSome, h.value_shapes id]
      split <;> simp_all
    have hdtype : id ∈ plan'.value_dtypes ↔ id ∈ plan.value_shapes ∨ id ∈ plan.value_dtypes := by
      rw [← AList.lookup_isSome, h.value_dtypes id]
      split <;> simp_all
    simp only [List.mem_dedup, List.mem_append, ← AList.mem_keys, hshape, hdtype, or_self]
  have hinfos : infoJ plan'.value_shapes plan'.value_dtypes =
      infoJ plan.value_shapes plan.value_dtypes := by
    funext id
    simp only [infoJ, h.value_shapes id, h.value_dtypes id]
    split
    · rfl
    · rename_i hid
      obtain ⟨hshape, hdtype⟩ := not_or.mp hid
      rw [AList.lookup_eq_none.mpr hshape, AList.lookup_eq_none.mpr hdtype]
  simp only [planJ, h.num_values, h.output_value, hnodes, hvdIds, hvds, h.input_value_ids,
    h.constant_value_ids, hinfoIds, hinfos, h.placement.placementJ_eq hplan.num_groups]

theorem AttrsRenewed.fits {lo hi : Nat} {op_name : String} {attrs : Option Attrs} {attrs' : Attrs}
    (h : AttrsRenewed lo hi op_name attrs attrs') : Attrs.FitsOp op_name (some attrs') := by
  by_cases hop : op_name = "device.copy"
  · have hcopy : ∃ src dst async in_group, attrs' = .deviceCopy src dst async in_group := by
      unfold AttrsRenewed at h
      split at h <;> simp only [if_pos hop] at h
      · obtain ⟨src', dst', hattrs, -⟩ := h
        exact ⟨_, _, _, _, hattrs⟩
      · exact ⟨_, _, _, _, h⟩
      · exact ⟨_, _, _, _, h⟩
    obtain ⟨src, dst, async, in_group, rfl⟩ := hcopy
    exact hop
  · have hcollective : ∃ kind reduce_kind in_group group_id root_worker,
        attrs' = .collective kind reduce_kind in_group group_id root_worker := by
      unfold AttrsRenewed at h
      split at h <;> simp only [if_neg hop] at h
      · exact ⟨_, _, _, _, _, h⟩
      · exact ⟨_, _, _, _, _, h⟩
      · exact ⟨_, _, _, _, _, h⟩
    obtain ⟨kind, reduce_kind, in_group, group_id, root_worker, rfl⟩ := hcollective
    exact hop

/-! ### Plans that were read can be read again -/

theorem VirtualDeviceNode.written_readable {vd : VirtualDeviceNode} (h : vd.Readable) :
    vd.written.Readable := by
  intro t ht
  obtain ⟨t₀, ht₀, rfl⟩ := Option.map_eq_some_iff.mp ht
  obtain ⟨hthreads, hwarp, hshared⟩ := h t₀ ht₀
  exact ⟨hthreads, hwarp, hshared⟩

theorem Renewed.readable {lo hi : Nat} {a b : Option VirtualDevice} (h : Renewed lo hi a b)
    (ha : ∀ vd ∈ a, vd.node.Readable) : ∀ vd ∈ b, vd.node.Readable := by
  rintro vd rfl
  cases a with
  | none => exact h.elim
  | some a =>
    rw [h.1]
    exact VirtualDeviceNode.written_readable (ha a rfl)

theorem WorkerRenewed.readable {lo hi : Nat} {w w' : WorkerPlacement} (h : WorkerRenewed lo hi w w')
    (hw : w.Readable) : w'.Readable := by
  refine ⟨fun t ht => ?_, h.virtual_device.readable hw.2⟩
  rw [h.target] at ht
  obtain ⟨t₀, ht₀, rfl⟩ := Option.map_eq_some_iff.mp ht
  obtain ⟨hthreads, hwarp, hshared⟩ := hw.1 t₀ ht₀
  exact ⟨hthreads, hwarp, hshared⟩

theorem AttrsRenewed.readable {lo hi : Nat} {op_name : String} {attrs : Option Attrs}
    {attrs' : Attrs} (h : AttrsRenewed lo hi op_name attrs attrs')
    (hattrs : ∀ a ∈ attrs, Attrs.Readable a) : Attrs.Readable attrs' := by
  have hnone (async in_group : Bool) : Attrs.Readable (.deviceCopy none none async in_group) := by
    simp [Attrs.Readable]
  unfold AttrsRenewed at h
  by_cases hop : op_name = "device.copy"
  · split at h <;> simp only [if_pos hop] at h
    · obtain ⟨src', dst', rfl, hsrc, hdst⟩ := h
      obtain ⟨hsrc₀, hdst₀⟩ := hattrs _ rfl
      exact ⟨hsrc.readable hsrc₀, hdst.readable hdst₀⟩
    · exact h ▸ hnone _ _
    · exact h ▸ hnone _ _
  · split at h <;> simp only [if_neg hop] at h
    all_goals exact h ▸ trivial

theorem NodeRenewed.readable {lo hi : Nat} {n n' : ExecNode} (h : NodeRenewed lo hi n n')
    (hints : n.HasInts) (hn : n.Readable) : n'.HasInts ∧ n'.Readable ∧ n'.Fits := by
  cases n with
  | comm op_name attrs input_values output_values worker_set origin =>
    obtain ⟨attrs', rfl, hattrs⟩ := h
    refine ⟨hints, ?_, hattrs.fits⟩
    rintro a ⟨⟩
    exact hattrs.readable hn
  | kernel op_name kernel_symbol input_values output_values worker_set =>
    obtain rfl := h
    exact ⟨hints, trivial, trivial⟩
  | barrier tag worker_set =>
    obtain rfl := h
    exact ⟨hints, trivial, trivial⟩

theorem PlanRenewed.readable {lo hi : Nat} {plan plan' : ExecutionPlan}
    (h : PlanRenewed lo hi plan plan') (hplan : plan.Readable) :
    plan'.Readable ∧ plan'.Canonical := by
  obtain ⟨hints, hnodes, hvds, hworkers⟩ := hplan
  have hnode : ∀ n' ∈ plan'.nodes, n'.HasInts ∧ n'.Readable ∧ n'.Fits := by
    intro n' hn'
    obtain ⟨n, hn, hrenewed⟩ := Expr.exists_mem_of_forall₂ h.nodes hn'
    exact hrenewed.readable (hints.nodes n hn) (hnodes n hn)
  have hinfo : ∀ id, id ∈ plan.value_shapes ∨ id ∈ plan.value_dtypes → FitsInt id :=
    fun id hid => hid.elim (hints.value_shapes id) (hints.value_dtypes id)
  refine ⟨⟨?_, fun n hn => (hnode n hn).2.1, fun id => (h.value_virtual_devices id).readable
    (hvds id), ?_⟩, fun n hn => (hnode n hn).2.2, ?_⟩
  · constructor
    case nodes => exact fun n hn => (hnode n hn).1
    case value_virtual_devices =>
      intro id hid
      rw [← AList.lookup_isSome, (h.value_virtual_devices id).isSome_eq, AList.lookup_isSome] at hid
      exact hints.value_virtual_devices id hid
    case input_value_ids => exact h.input_value_ids ▸ hints.input_value_ids
    case constant_value_ids => exact h.constant_value_ids ▸ hints.constant_value_ids
    case value_shapes =>
      intro id hid
      rw [← AList.lookup_isSome, h.value_shapes id] at hid
      split at hid
      · exact hinfo id ‹_›
      · cases hid
    case value_dtypes =>
      intro id hid
      rw [← AList.lookup_isSome, h.value_dtypes id] at hid
      split at hid
      · exact hinfo id ‹_›
      · cases hid
    case num_values => exact h.num_values ▸ hints.num_values
    case output_value => exact h.output_value ▸ hints.output_value
  · intro q hq w hw
    have hp := h.placement
    cases hplacement : plan.pass_ctx.disco_placement with
    | none =>
      rw [hplacement] at hp
      rw [show plan'.pass_ctx.disco_placement = none from hp] at hq
      cases hq
    | some p =>
      rw [hplacement] at hp
      obtain ⟨ws, q', hq', hlist, hrenewed⟩ := hp
      obtain rfl : q = q' := Option.some.inj (hq.symm.trans hq')
      obtain ⟨ws', hws', hall⟩ := hrenewed.workers
      rw [hws'] at hw
      obtain ⟨w', hw', rfl⟩ := List.mem_map.mp hw
      obtain ⟨w₀, hw₀, hwr⟩ := Expr.exists_mem_of_forall₂ hall hw'
      have hmem : some w₀ ∈ p.workers := by
        have hlisted : some w₀ ∈ sortedWorkers p.workers := by
          rw [show sortedWorkers p.workers = ws.map some from hlist]
          exact List.mem_map_of_mem hw₀
        exact List.mem_mergeSort.mp hlisted
      obtain ⟨v, hv, hread⟩ := hworkers p hplacement _ hmem
      obtain rfl := Option.some.inj hv
      exact ⟨w', rfl, hwr.readable hread⟩
  · intro q hq
    have hp := h.placement
    cases hplacement : plan.pass_ctx.disco_placement with
    | none =>
      rw [hplacement] at hp
      rw [show plan'.pass_ctx.disco_placement = none from hp] at hq
      cases hq
    | some p =>
      rw [hplacement] at hp
      obtain ⟨ws, q', hq', hlist, hrenewed⟩ := hp
      obtain rfl : q = q' := Option.some.inj (hq.symm.trans hq')
      rw [hrenewed.num_groups]
      split
      · assumption
      · decide

/-- The tables of `BuildDiscoPlacement` agree: the worker of a key is the one whose virtual device
has the key, and an address that was seen has the worker of its key. -/
structure PlacementState.Keyed (seen : List VirtualDevice) (st : PlacementState) : Prop where
  workers : ∀ w ∈ st.workers, ∃ v vd, w = some v ∧ v.virtual_device = some vd ∧
    st.key_to_worker.lookup (VirtualDeviceIdentity vd.node) = some v.worker_id
  key_to_worker : ∀ key worker, st.key_to_worker.lookup key = some worker →
    ∃ v vd, some v ∈ st.workers ∧ v.virtual_device = some vd ∧
      VirtualDeviceIdentity vd.node = key
  vd_to_worker : ∀ vd ∈ seen, ∃ worker, st.vd_to_worker.lookup vd.ref = some worker ∧
    st.key_to_worker.lookup (VirtualDeviceIdentity vd.node) = some worker

variable {apis : DeviceAPIManager} {seen : List VirtualDevice} {st st' : PlacementState}

theorem PlacementState.Keyed.step {vd : VirtualDevice} (hst : st.Keyed seen)
    (hcoherent : ∀ vd' ∈ seen, vd'.ref = vd.ref → vd' = vd)
    (h : placeVirtualDevice apis st (some vd) = .ok st') : st'.Keyed (seen ++ [vd]) := by
  rcases placeVirtualDevice_cases h with ⟨worker, hworker, rfl⟩ | ⟨hnone, target, rfl⟩
  · refine ⟨hst.workers, hst.key_to_worker, fun vd' hvd' => ?_⟩
    by_cases heq : vd' = vd
    · subst heq
      exact ⟨worker, List.lookup_cons_self, hworker⟩
    · have hvd' : vd' ∈ seen := by simpa [heq] using hvd'
      rw [lookup_ref_cons (hcoherent vd' hvd') heq]
      exact hst.vd_to_worker vd' hvd'
  · -- the key is new, so the workers of the other keys stay
    have hold : ∀ key worker, st.key_to_worker.lookup key = some worker →
        ((VirtualDeviceIdentity vd.node, st.next_worker_id) :: st.key_to_worker).lookup key =
          some worker := by
      intro key worker hkey
      have hne : key ≠ VirtualDeviceIdentity vd.node := by
        rintro rfl
        rw [hnone] at hkey
        cases hkey
      rw [List.lookup_cons, beq_eq_false_iff_ne.mpr hne]
      exact hkey
    refine ⟨fun w hw => ?_, fun key worker hkey => ?_, fun vd' hvd' => ?_⟩
    · rcases List.mem_append.mp hw with hw | hw
      · obtain ⟨v, vd', hv, hvd', hkey⟩ := hst.workers w hw
        exact ⟨v, vd', hv, hvd', hold _ _ hkey⟩
      · obtain rfl := List.mem_singleton.mp hw
        exact ⟨_, vd, rfl, rfl, List.lookup_cons_self⟩
    · by_cases heq : key = VirtualDeviceIdentity vd.node
      · exact ⟨_, vd, List.mem_append_right _ (List.mem_singleton_self _), rfl, heq.symm⟩
      · rw [List.lookup_cons, beq_eq_false_iff_ne.mpr heq] at hkey
        obtain ⟨v, vd', hv, hvd', hkey⟩ := hst.key_to_worker key worker hkey
        exact ⟨v, vd', List.mem_append_left _ hv, hvd', hkey⟩
    · by_cases heq : vd' = vd
      · subst heq
        exact ⟨_, List.lookup_cons_self, List.lookup_cons_self⟩
      · have hvd' : vd' ∈ seen := by simpa [heq] using hvd'
        obtain ⟨worker, hworker, hkey⟩ := hst.vd_to_worker vd' hvd'
        rw [lookup_ref_cons (hcoherent vd' hvd') heq]
        exact ⟨worker, hworker, hold _ _ hkey⟩

theorem PlacementState.Keyed.run {vds : List (Option VirtualDevice)} (hst : st.Keyed seen)
    (hcoherent : HandlesCoherent (seen.map some ++ vds))
    (h : vds.foldlM (placeVirtualDevice apis) st = .ok st') :
    st'.Keyed (seen ++ vds.reduceOption) := by
  induction vds generalizing st seen with
  | nil =>
    obtain rfl := Except.ok.inj h
    simpa [List.reduceOption] using hst
  | cons vd vds ih =>
    rw [List.foldlM_cons] at h
    obtain ⟨st1, hstep, hrun⟩ := except_bind_eq_ok.mp h
    cases vd with
    | none =>
      obtain rfl := Except.ok.inj hstep
      rw [List.reduceOption_cons_of_none]
      refine ih hst (fun a b ha hb => hcoherent a b ?_ ?_) hrun
      · simpa using ha
      · simpa using hb
    | some vd =>
      have hst1 := hst.step
        (fun vd' hvd' => hcoherent vd' vd (by simp [hvd']) (by simp)) hstep
      rw [List.reduceOption_cons_of_some, ← List.singleton_append, ← List.append_assoc]
      exact ih hst1 (by simpa using hcoherent) hrun

/-- However the workers are ordered, the one of a key is found. -/
theorem findWorkerByKey_of_mem {workers : List (Option WorkerPlacement)} {key : String}
    {worker : Int32}
    (hall : ∀ v vd, some v ∈ workers → v.virtual_device = some vd →
      VirtualDeviceIdentity vd.node = key → v.worker_id = worker)
    (hmem : ∃ v vd, some v ∈ workers ∧ v.virtual_device = some vd ∧
      VirtualDeviceIdentity vd.node = key) :
    findWorkerByKey key workers = worker := by
  induction workers with
  | nil =>
    obtain ⟨v, vd, hv, -⟩ := hmem
    exact absurd hv List.not_mem_nil
  | cons w workers ih =>
    have hrest (hw : ∀ v vd, w = some v → v.virtual_device = some vd →
        VirtualDeviceIdentity vd.node ≠ key) : findWorkerByKey key workers = worker := by
      refine ih (fun v vd hv => hall v vd (List.mem_cons_of_mem w hv)) ?_
      obtain ⟨v, vd, hv, hvd, hkey⟩ := hmem
      rcases List.mem_cons.mp hv with rfl | hv
      · exact absurd hkey (hw v vd rfl hvd)
      · exact ⟨v, vd, hv, hvd, hkey⟩
    cases w with
    | none => exact hrest fun v vd hv => by cases hv
    | some v =>
      simp only [findWorkerByKey]
      cases hvd : v.virtual_device with
      | none =>
        refine hrest fun v' vd hv' hvd' => ?_
        obtain rfl := Option.some.inj hv'
        rw [hvd] at hvd'
        cases hvd'
      | some vd =>
        dsimp only
        split
        · exact hall v vd List.mem_cons_self hvd ‹_›
        · refine hrest fun v' vd' hv' hvd' => ?_
          obtain rfl := Option.some.inj hv'
          obtain rfl := Option.some.inj (hvd.symm.trans hvd')
          assumption

/-- A placement that was built has the worker of each of its virtual devices by identity, in
whatever order the workers are written. -/
theorem BuildDiscoPlacement_workerByIdentity {vds : List (Option VirtualDevice)}
    {num_groups : Int32} {p : DiscoPlacement} (hcoherent : HandlesCoherent vds)
    (h : BuildDiscoPlacement apis vds num_groups = .ok p) {vd : VirtualDevice}
    (hvd : some vd ∈ vds) : workerByIdentity (some p) (some vd) = p.FindWorker (some vd) := by
  obtain ⟨st, hrun, h⟩ := except_bind_eq_ok.mp h
  obtain rfl := Except.ok.inj h
  have hinit : PlacementState.Keyed [] {} := by
    constructor <;> simp
  have hst := hinit.run (by simpa using hcoherent) hrun
  have hmem : vd ∈ [] ++ vds.reduceOption := by simpa [List.reduceOption_mem_iff] using hvd
  obtain ⟨worker, hworker, hkey⟩ := hst.vd_to_worker vd hmem
  have hfind : findWorkerByKey (VirtualDeviceIdentity vd.node) (sortedWorkers st.workers) =
      worker := by
    refine findWorkerByKey_of_mem (fun v vd' hv hvd' hident => ?_) ?_
    · obtain ⟨v', vd'', hv', hvd'', hlookup⟩ := hst.workers _ (List.mem_mergeSort.mp hv)
      obtain rfl := Option.some.inj hv'
      obtain rfl := Option.some.inj (hvd'.symm.trans hvd'')
      rw [hident, hkey] at hlookup
      exact (Option.some.inj hlookup).symm
    · obtain ⟨v, vd', hv, hvd', hident⟩ := hst.key_to_worker _ _ hkey
      exact ⟨v, vd', List.mem_mergeSort.mpr hv, hvd', hident⟩
  simp only [workerByIdentity, DiscoPlacement.FindWorker, hworker, hfind]

/-- Every value of a plan that was read has the worker that it has in the plan itself, if the
placement was built from the virtual devices of the plan. -/
theorem DeserializeExecutionPlanFromJson_worker {plan : ExecutionPlan} (h : plan.Readable)
    {vds : List (Option VirtualDevice)} {num_groups : Int32} {p : DiscoPlacement}
    (hcoherent : HandlesCoherent vds) (hbuild : BuildDiscoPlacement apis vds num_groups = .ok p)
    (hp : plan.pass_ctx.disco_placement = some p)
    (hvds : ∀ id vd, plan.value_virtual_devices.lookup id = some vd → some vd ∈ vds) (ref : Nat) :
    ∃ plan' ref', DeserializeExecutionPlanFromJson (SerializeExecutionPlanToJson plan) ref =
        .ok (plan', ref') ∧
      ∀ id, FindWorkerForVirtualDevice plan'.pass_ctx.disco_placement
          (plan'.value_virtual_devices.lookup id) =
        FindWorkerForVirtualDevice plan.pass_ctx.disco_placement
          (plan.value_virtual_devices.lookup id) := by
  obtain ⟨plan', ref', hrun, hrenewed⟩ :=
    DeserializeExecutionPlanFromJson_of_parse h (Parse_serialize h.ints) (planFields plan) ref
  refine ⟨plan', ref', hrun, fun id => ?_⟩
  rw [hrenewed.workers id, hp]
  cases hvd : plan.value_virtual_devices.lookup id with
  | none => rfl
  | some vd => exact BuildDiscoPlacement_workerByIdentity hcoherent hbuild (hvds id vd hvd)

theorem copyPlan_worker :
    ∃ plan' ref', DeserializeExecutionPlanFromJson (SerializeExecutionPlanToJson copyPlan) 2 =
        .ok (plan', ref') ∧
      ∀ id, FindWorkerForVirtualDevice plan'.pass_ctx.disco_placement
          (plan'.value_virtual_devices.lookup id) =
        FindWorkerForVirtualDevice copyPlan.pass_ctx.disco_placement
          (copyPlan.value_virtual_devices.lookup id) := by
  have hcoherent : HandlesCoherent [some cpu0, some gpu1] :=
    handlesCoherent_of_pair (x := cpu0) (y := gpu1) (by simp) (by decide)
  have hbuild : BuildDiscoPlacement (fun _ => .error "no backend") [some cpu0, some gpu1] 1 =
      .ok copyPlacement := rfl
  refine DeserializeExecutionPlanFromJson_worker copyPlan_readable hcoherent hbuild rfl
    (fun id vd hvd => ?_) 2
  rcases copyPlan_vds hvd with rfl | rfl
  · exact List.mem_cons_self
  · exact List.mem_cons_of_mem _ List.mem_cons_self

end Kxc
