import Kxc.Base.ExecutionPlanText
import Kxc.Lib.StateExcept
import Kxc.Relay.Scope

/-! Reading back what was written for an execution plan. -/

namespace Kxc

open Relay Lib PlanJson
open Json (J)

/-! ### What is kept -/

/-- The attributes that are written; the other ones are read back with their defaults. -/
def DeviceAttributes.written (a : DeviceAttributes) : DeviceAttributes :=
  { arch := a.arch, compute_version := a.compute_version
    max_threads_per_block := a.max_threads_per_block, warp_size := a.warp_size
    max_shared_memory_per_block := a.max_shared_memory_per_block }

def Target.written (t : Target) : Target := { t with attrs := t.attrs.written }

theorem validate_written (dev : Option Device) (t : Option Target) :
    ValidateTargetDevicePair dev (t.map Target.written) = ValidateTargetDevicePair dev t := by
  cases dev <;> cases t <;> rfl

theorem defaultId_written (dev : Option Device) (t : Option Target) :
    defaultVirtualDeviceId dev (t.map Target.written) = defaultVirtualDeviceId dev t := by
  cases dev <;> cases t <;> rfl

def VirtualDeviceNode.written (vd : VirtualDeviceNode) : VirtualDeviceNode :=
  { vd with
    target := vd.target.map Target.written
    pair_valid := (validate_written _ _).trans vd.pair_valid
    id_defaulted := fun h => (defaultId_written _ _).trans (vd.id_defaulted h) }

/-- The attributes of a target that are read as an `int` are in its range. -/
structure DeviceAttributes.Readable (a : DeviceAttributes) : Prop where
  max_threads_per_block : FitsInt a.max_threads_per_block.toInt
  warp_size : FitsInt a.warp_size.toInt
  max_shared_memory_per_block : FitsInt a.max_shared_memory_per_block.toInt

def VirtualDeviceNode.Readable (vd : VirtualDeviceNode) : Prop :=
  ∀ t ∈ vd.target, t.attrs.Readable

/-! ### Parts of a value -/

theorem RK_ok {v : J} {k : J.K} (h : v.k = k) (ctx : String) : RK v k ctx = .ok () := if_pos h

theorem RF_ok {o : List (String × J)} {key : String} {v : J} (h : o.lookup key = some v)
    (ctx : String) : RF (.O o) key ctx = .ok v := by
  refine except_bind_eq_ok.mpr ⟨(), RK_ok rfl ctx, ?_⟩
  have hfield : (J.O o).o.lookup key = some v := h
  rw [hfield]
  rfl

theorem RS_ok (s ctx : String) : RS (.S s) ctx = .ok s := rfl

theorem RB_ok (b : Bool) (ctx : String) : RB (.B b) ctx = .ok b := rfl

theorem RI_int64 {i : Int64} (hi : FitsInt i.toInt) (ctx : String) :
    RI (.I i) ctx = .ok (Int32.ofInt i.toInt) := by
  obtain ⟨hmin, hmax⟩ := hi
  refine except_bind_eq_ok.mpr ⟨(), RK_ok rfl ctx, ?_⟩
  have hrange : ¬(i.toInt < Int32.minValue.toInt ∨ Int32.maxValue.toInt < i.toInt) := by omega
  exact if_neg hrange

theorem RI_number {i : Int} (hi : FitsInt i) (ctx : String) :
    RI (numberJ i) ctx = .ok (Int32.ofInt i) := by
  have hto := toInt_ofInt hi
  rw [numberJ, RI_int64 (by rwa [hto]), hto]

theorem RI_int32 (i : Int32) (ctx : String) : RI (numberJ i.toInt) ctx = .ok i := by
  rw [RI_number (fitsInt_toInt i), Int32.ofInt_toInt]

theorem toInt_ofInt32 {i : Int} (hi : FitsInt i) : (Int32.ofInt i).toInt = i := by
  obtain ⟨hmin, hmax⟩ := hi
  have hbounds : Int32.minValue.toInt = -2147483648 ∧ Int32.maxValue.toInt = 2147483647 := by decide
  exact Int32.toInt_ofInt_of_le (by omega) (by omega)

theorem toInt64_ofInt {i : Int64} (hi : FitsInt i.toInt) : (Int32.ofInt i.toInt).toInt64 = i := by
  refine Int64.toInt_inj.mp ?_
  rw [Int32.toInt_toInt64, toInt_ofInt32 hi]

theorem optional_some {α : Type} {read : J → String → Except String α}
    {o : List (String × J)} {key : String} {v : J} {a : α} (h : o.lookup key = some v)
    {k : J.K} (hkind : v.k = k) (hk : k ≠ .N) (hread : ∀ ctx, read v ctx = .ok a) (d : α)
    (ctx : String) :
    optionalField read (.O o) key d ctx = .ok a := by
  have hfield : FF (.O o) key = some v := h
  rw [optionalField, hfield]
  exact (if_neg (hkind ▸ hk)).trans (hread _)

theorem OS_ok {o : List (String × J)} {key s : String} (h : o.lookup key = some (.S s))
    (d ctx : String) : OS (.O o) key d ctx = .ok s :=
  optional_some (k := .S) h rfl (by decide) (RS_ok s) d ctx

theorem OB_ok {o : List (String × J)} {key : String} {b : Bool} (h : o.lookup key = some (.B b))
    (d : Bool) (ctx : String) : OB (.O o) key d ctx = .ok b :=
  optional_some (k := .B) h rfl (by decide) (RB_ok b) d ctx

theorem OI_int64 {o : List (String × J)} {key : String} {i : Int64}
    (h : o.lookup key = some (.I i)) (hi : FitsInt i.toInt) (d : Int32) (ctx : String) :
    OI (.O o) key d ctx = .ok (Int32.ofInt i.toInt) :=
  optional_some (k := .I) h rfl (by decide) (RI_int64 hi) d ctx

theorem OI_ok {o : List (String × J)} {key : String} {i : Int32}
    (h : o.lookup key = some (numberJ i.toInt)) (d : Int32) (ctx : String) :
    OI (.O o) key d ctx = .ok i :=
  optional_some (k := .I) h rfl (by decide) (RI_int32 i) d ctx

/-- The indices of what is written do not matter. -/
theorem forall₂_written {α : Type} {P : α → J × Nat → Prop} {write : α → J} {xs : List α}
    (h : ∀ x ∈ xs, ∀ i, P x (write x, i)) (k : Nat) :
    List.Forall₂ P xs ((xs.map write).zipIdx k) := by
  induction xs generalizing k with
  | nil => exact .nil
  | cons x xs ih =>
    exact .cons (h x List.mem_cons_self k)
      (ih (fun y hy => h y (List.mem_cons_of_mem x hy)) (k + 1))

theorem mapM_ok {α β γ : Type} {f : β → Except String γ} {g : α → γ} {xs : List α} {ys : List β}
    (h : List.Forall₂ (fun x y => f y = .ok (g x)) xs ys) : ys.mapM f = .ok (xs.map g) := by
  induction h with
  | nil => rfl
  | cons hhead _ ih => rw [List.mapM_cons, hhead, ih]; rfl

theorem elements_ok {α β : Type} {read : J → String → Except String β} {write : α → J} {g : α → β}
    {xs : List α} (h : ∀ x ∈ xs, ∀ ctx, read (write x) ctx = .ok (g x)) (ctx : String) :
    elements read (.A (xs.map write)) ctx = .ok (xs.map g) :=
  except_bind_eq_ok.mpr ⟨(), RK_ok rfl ctx, mapM_ok (forall₂_written (fun x hx _ => h x hx _) 0)⟩

theorem AI_ok {arr : List Int} (harr : ∀ i ∈ arr, FitsInt i) (ctx : String) :
    AI (numbersJ arr) ctx = .ok (arr.map Int32.ofInt) :=
  elements_ok (fun i hi ctx => RI_number (harr i hi) ctx) ctx

theorem AI_workers (ws : List Int32) (ctx : String) :
    AI (numbersJ (ws.map Int32.toInt)) ctx = .ok ws := by
  have hints : ∀ i ∈ ws.map Int32.toInt, FitsInt i := by
    intro i hi
    obtain ⟨w, -, rfl⟩ := List.mem_map.mp hi
    exact fitsInt_toInt w
  have hid : (ws.map Int32.toInt).map Int32.ofInt = ws := by
    rw [List.map_map]
    exact List.map_id'' (fun w => Int32.ofInt_toInt w) ws
  rw [AI_ok hints, hid]

theorem AI64_ok (arr : List Int64) (ctx : String) : AI64 (.A (arr.map J.I)) ctx = .ok arr := by
  have hread : elements RI64 (.A (arr.map J.I)) ctx = .ok (arr.map id) :=
    elements_ok (fun i _ _ => rfl) ctx
  rwa [List.map_id] at hread

theorem map_toInt_ofInt {arr : List Int} (harr : ∀ i ∈ arr, FitsInt i) :
    (arr.map Int32.ofInt).map Int32.toInt = arr := by
  rw [List.map_map]
  exact (List.map_congr_left fun i hi => toInt_ofInt32 (harr i hi)).trans (List.map_id arr)

theorem ParseDeviceObj_eq (dev : Option Device) (ctx : String) :
    ParseDeviceObj (deviceJ dev) ctx = .ok dev := by
  cases dev with
  | none => rfl
  | some d =>
    refine except_bind_eq_ok.mpr ⟨(), RK_ok rfl ctx, ?_⟩
    refine except_bind_eq_ok.mpr ⟨_, RF_ok rfl ctx, ?_⟩
    refine except_bind_eq_ok.mpr ⟨_, RI_int32 d.device_type.code _, ?_⟩
    refine except_bind_eq_ok.mpr ⟨_, RF_ok rfl ctx, ?_⟩
    exact except_bind_eq_ok.mpr ⟨_, RI_int32 d.device_id _, rfl⟩

theorem ParseTargetObj_eq {t : Option Target} (ht : ∀ x ∈ t, x.attrs.Readable) (ctx : String) :
    ParseTargetObj (targetJ t) ctx = .ok (t.map Target.written) := by
  cases t with
  | none => rfl
  | some t =>
    obtain ⟨hthreads, hwarp, hshared⟩ := ht t rfl
    have hnot : ¬(attrsJ t.attrs).k = .N := (by decide : ¬J.K.O = J.K.N)
    refine except_bind_eq_ok.mpr ⟨(), RK_ok rfl ctx, ?_⟩
    refine except_bind_eq_ok.mpr ⟨_, OS_ok rfl _ _, ?_⟩
    refine except_bind_eq_ok.mpr ⟨_, OI_ok rfl _ _, ?_⟩
    refine except_bind_eq_ok.mpr ⟨_, OI_ok rfl _ _, ?_⟩
    refine (if_neg hnot).trans ?_
    refine except_bind_eq_ok.mpr ⟨(), RK_ok rfl _, ?_⟩
    refine except_bind_eq_ok.mpr ⟨_, OS_ok rfl _ _, ?_⟩
    refine except_bind_eq_ok.mpr ⟨_, OS_ok rfl _ _, ?_⟩
    refine except_bind_eq_ok.mpr ⟨_, OI_int64 rfl hthreads _ _, ?_⟩
    refine except_bind_eq_ok.mpr ⟨_, OI_int64 rfl hwarp _ _, ?_⟩
    refine except_bind_eq_ok.mpr ⟨_, OI_int64 rfl hshared _ _, ?_⟩
    rw [toInt64_ofInt hthreads, toInt64_ofInt hwarp, toInt64_ofInt hshared]
    rfl

/-! ### Virtual devices -/

/-- What is read for a virtual device: a new one with what was written of its fields. The new
addresses are those from `lo` to `hi`. -/
def Renewed (lo hi : Nat) : Option VirtualDevice → Option VirtualDevice → Prop
  | none, none => True
  | some a, some b => b.node = a.node.written ∧ lo ≤ b.ref ∧ b.ref < hi
  | _, _ => False

theorem Renewed.mono {lo hi lo' hi' : Nat} {a b : Option VirtualDevice} (h : Renewed lo hi a b)
    (hlo : lo' ≤ lo) (hhi : hi ≤ hi') : Renewed lo' hi' a b := by
  cases a with
  | none =>
    cases b with
    | none => trivial
    | some b => exact h
  | some a =>
    cases b with
    | none => exact h
    | some b => exact ⟨h.1, Nat.le_trans hlo h.2.1, Nat.lt_of_lt_of_le h.2.2 hhi⟩

variable {ref : Nat}

/-- A reader succeeds from `ref`: it makes the addresses from there on, and `Q` holds of them and
of what it returns. -/
abbrev Succeeds {α : Type} (read : Reader α) (ref : Nat) (Q : Nat → α → Prop) : Prop :=
  Outcome read ref (fun _ => False) fun a ref' => ref ≤ ref' ∧ Q ref' a

/-- A part that makes no virtual device. -/
theorem succeeds_lift {α β : Type} {x : Except String α} {a : α} {f : α → Reader β}
    {E : String → Prop} {Q : β → Nat → Prop} (hx : x = .ok a) (hf : Outcome (f a) ref E Q) :
    Outcome ((liftM x : Reader α) >>= f) ref E Q := by
  rw [outcome_bind, outcome_liftM, hx]
  exact hf

theorem make_outcome (vd : VirtualDeviceNode) {Q : VirtualDevice → Nat → Prop}
    (hQ : Q ⟨ref, vd⟩ (ref + 1)) :
    Outcome (makeVirtualDevice vd.device_obj vd.target vd.memory_scope vd.virtual_device_id) ref
      (fun _ => False) Q := by
  unfold Outcome makeVirtualDevice
  rw [VirtualDeviceNode.construct_fields]
  exact hQ

theorem ParseVD_succeeds {vd : Option VirtualDevice} (hvd : ∀ v ∈ vd, v.node.Readable)
    (ctx : String) :
    Succeeds (ParseVD (vdJ vd) ctx) ref fun ref' vd' => Renewed ref ref' vd vd' := by
  cases vd with
  | none => exact ⟨Nat.le_refl _, trivial⟩
  | some vd =>
    refine succeeds_lift (RK_ok rfl ctx) ?_
    refine succeeds_lift (OS_ok rfl _ _) ?_
    refine succeeds_lift (OI_ok rfl _ _) ?_
    refine succeeds_lift (ParseDeviceObj_eq vd.node.device_obj _) ?_
    refine succeeds_lift (ParseTargetObj_eq (hvd vd rfl) _) ?_
    refine outcome_bind.mpr (make_outcome vd.node.written ?_)
    exact ⟨Nat.le_succ _, rfl, Nat.le_refl _, Nat.lt_succ_self _⟩

/-! ### Placements -/

def WorkerPlacement.Readable (w : WorkerPlacement) : Prop :=
  (∀ t ∈ w.target, t.attrs.Readable) ∧ ∀ vd ∈ w.virtual_device, vd.node.Readable

/-- What is read for a worker. -/
structure WorkerRenewed (lo hi : Nat) (w w' : WorkerPlacement) : Prop where
  worker_id : w'.worker_id = w.worker_id
  group_id : w'.group_id = w.group_id
  local_rank : w'.local_rank = w.local_rank
  device_obj : w'.device_obj = w.device_obj
  target : w'.target = w.target.map Target.written
  virtual_device : Renewed lo hi w.virtual_device w'.virtual_device

theorem WorkerRenewed.mono {lo hi lo' hi' : Nat} {w w' : WorkerPlacement}
    (h : WorkerRenewed lo hi w w') (hlo : lo' ≤ lo) (hhi : hi ≤ hi') :
    WorkerRenewed lo' hi' w w' :=
  { h with virtual_device := h.virtual_device.mono hlo hhi }

theorem parseWorker_succeeds {w : WorkerPlacement} (hw : w.Readable) (ctx : String) :
    Succeeds (parseWorker (workerJ (some w)) ctx) ref fun ref' w' =>
      WorkerRenewed ref ref' w w' := by
  refine succeeds_lift (RK_ok rfl ctx) ?_
  refine succeeds_lift (RF_ok rfl _) ?_
  refine succeeds_lift (RI_int32 w.worker_id _) ?_
  refine succeeds_lift (OI_ok rfl _ _) ?_
  refine succeeds_lift (OI_ok rfl _ _) ?_
  refine succeeds_lift (ParseDeviceObj_eq w.device_obj _) ?_
  refine succeeds_lift (ParseTargetObj_eq hw.1 _) ?_
  refine outcome_bind.mpr ((ParseVD_succeeds hw.2 _).mono fun vd ref' hvd => ?_)
  exact ⟨hvd.1, rfl, rfl, rfl, rfl, rfl, hvd.2⟩

/-- The workers that are written for a placement, all of them defined. -/
def Listed (p : DiscoPlacement) (ws : List WorkerPlacement) : Prop :=
  sortedWorkers p.workers = ws.map some

/-- What is read for a placement with the workers `ws`. -/
structure PlacementRenewed (lo hi : Nat) (p : DiscoPlacement) (ws : List WorkerPlacement)
    (p' : DiscoPlacement) : Prop where
  num_groups : p'.num_groups = if 0 < p.num_groups then p.num_groups else 1
  workers : ∃ ws', p'.workers = ws'.map some ∧ List.Forall₂ (WorkerRenewed lo hi) ws ws'
  vd_to_worker : ∀ e ∈ p'.vd_to_worker, lo ≤ e.1 ∧ e.1 < hi

/-- The table of a placement holds the virtual devices of its workers. -/
theorem mem_recordWorkers {ws : List WorkerPlacement} {map : List (Nat × Int32)} {e : Nat × Int32}
    (he : e ∈ ws.foldl recordWorker map) :
    e ∈ map ∨ ∃ w ∈ ws, ∃ vd, w.virtual_device = some vd ∧ e = (vd.ref, w.worker_id) := by
  induction ws generalizing map with
  | nil => exact .inl he
  | cons w ws ih =>
    rcases ih he with he | ⟨w', hw', vd, hvd, rfl⟩
    · cases hvd : w.virtual_device with
      | none =>
        rw [recordWorker, hvd] at he
        exact .inl he
      | some vd =>
        rw [recordWorker, hvd] at he
        rcases List.mem_cons.mp he with rfl | he
        · exact .inr ⟨w, List.mem_cons_self, vd, hvd, rfl⟩
        · exact .inl he
    · exact .inr ⟨w', List.mem_cons_of_mem w hw', vd, hvd, rfl⟩

theorem ParsePlacement_succeeds {p : DiscoPlacement} {ws : List WorkerPlacement}
    (hlist : Listed p ws) (hws : ∀ w ∈ ws, w.Readable) (ctx : String) :
    Succeeds (ParsePlacement (placementJ (some p)) ctx) ref fun ref' p' =>
      ∃ q, p' = some q ∧ PlacementRenewed ref ref' p ws q := by
  have hworkers : (sortedWorkers p.workers).map workerJ = ws.map fun w => workerJ (some w) := by
    rw [hlist, List.map_map]
    rfl
  refine succeeds_lift (RK_ok rfl ctx) ?_
  refine succeeds_lift (OI_ok rfl _ _) ?_
  refine succeeds_lift (RF_ok rfl _) ?_
  refine succeeds_lift (RK_ok rfl _) ?_
  simp only [J.a, hworkers]
  refine outcome_bind.mpr ((Outcome.mapM (R := WorkerRenewed)
    (fun _ _ _ _ _ _ h hlo hhi => h.mono hlo hhi)
    (forall₂_written (fun w hw i ref => parseWorker_succeeds (hws w hw) _) 0)).mono ?_)
  rintro ws' ref' ⟨hle, hws'⟩
  refine ⟨hle, _, rfl, rfl, ⟨ws', rfl, hws'⟩, fun e he => ?_⟩
  rcases mem_recordWorkers he with he | ⟨w', hw', vd, hvd, rfl⟩
  · exact absurd he List.not_mem_nil
  · obtain ⟨w, -, hw⟩ := Expr.exists_mem_of_forall₂ hws' hw'
    have hrenewed := hw.virtual_device
    rw [hvd] at hrenewed
    cases hwvd : w.virtual_device with
    | none =>
      rw [hwvd] at hrenewed
      exact hrenewed.elim
    | some v =>
      rw [hwvd] at hrenewed
      exact hrenewed.2

/-! ### Nodes -/

def Attrs.Readable : Attrs → Prop
  | .deviceCopy src_virtual_device dst_virtual_device _ _ =>
    (∀ vd ∈ src_virtual_device, vd.node.Readable) ∧ ∀ vd ∈ dst_virtual_device, vd.node.Readable
  | _ => True

/-- What is read for the attributes of a call of `op_name`: those of the other kind of operation
only keep `in_group`. -/
def AttrsRenewed (lo hi : Nat) (op_name : String) : Option Attrs → Attrs → Prop
  | some (.deviceCopy src dst async in_group), attrs =>
    if op_name = "device.copy" then
      ∃ src' dst', attrs = .deviceCopy src' dst' async in_group ∧ Renewed lo hi src src' ∧
        Renewed lo hi dst dst'
    else attrs = .collective op_name "sum" in_group 0 0
  | some (.collective kind reduce_kind in_group group_id root_worker), attrs =>
    if op_name = "device.copy" then attrs = .deviceCopy none none false in_group
    else attrs = .collective kind reduce_kind in_group group_id root_worker
  | _, attrs =>
    if op_name = "device.copy" then attrs = .deviceCopy none none false true
    else attrs = .collective op_name "sum" true 0 0

theorem AttrsRenewed.mono {lo hi lo' hi' : Nat} {op_name : String} {attrs : Option Attrs}
    {attrs' : Attrs} (h : AttrsRenewed lo hi op_name attrs attrs') (hlo : lo' ≤ lo)
    (hhi : hi ≤ hi') : AttrsRenewed lo' hi' op_name attrs attrs' := by
  cases attrs with
  | none => exact h
  | some attrs =>
    cases attrs with
    | deviceCopy src dst async in_group =>
      unfold AttrsRenewed at h ⊢
      by_cases hop : op_name = "device.copy"
      · simp only [if_pos hop] at h ⊢
        obtain ⟨src', dst', hattrs, hsrc, hdst⟩ := h
        exact ⟨src', dst', hattrs, hsrc.mono hlo hhi, hdst.mono hlo hhi⟩
      · simp only [if_neg hop] at h ⊢
        exact h
    | _ => exact h

/-- Attributes that are written as null, or not at all. -/
theorem ParseCommAttrs_default {op_name : String} {attrs : Option J}
    (h : attrs.filter (·.k ≠ .N) = none) (ctx : String) :
    Succeeds (ParseCommAttrs op_name attrs ctx) ref fun _ attrs' =>
      if op_name = "device.copy" then attrs' = .deviceCopy none none false true
      else attrs' = .collective op_name "sum" true 0 0 := by
  unfold ParseCommAttrs
  rw [h]
  by_cases hop : op_name = "device.copy"
  · simp only [if_pos hop]
    exact ⟨Nat.le_refl _, rfl⟩
  · simp only [if_neg hop]
    exact ⟨Nat.le_refl _, rfl⟩

theorem ParseCommAttrs_succeeds {attrs : Option Attrs} (hattrs : ∀ a ∈ attrs, Attrs.Readable a)
    (op_name ctx : String) :
    Succeeds (ParseCommAttrs op_name (some (commAttrsJ attrs)) ctx) ref fun ref' attrs' =>
      AttrsRenewed ref ref' op_name attrs attrs' := by
  cases attrs with
  | none => exact ParseCommAttrs_default rfl ctx
  | some attrs =>
    cases attrs with
    | deviceCopy src dst async in_group =>
      obtain ⟨hsrc, hdst⟩ := hattrs _ rfl
      refine succeeds_lift (RK_ok rfl ctx) ?_
      by_cases hop : op_name = "device.copy"
      · simp only [if_pos hop]
        refine outcome_bind.mpr ((ParseVD_succeeds hsrc _).mono fun src' ref₁ hsrc => ?_)
        refine outcome_bind.mpr ((ParseVD_succeeds hdst _).mono fun dst' ref₂ hdst => ?_)
        refine succeeds_lift (OB_ok rfl _ _) ?_
        refine succeeds_lift (OB_ok rfl _ _) ?_
        refine ⟨Nat.le_trans hsrc.1 hdst.1, ?_⟩
        simp only [AttrsRenewed, if_pos hop]
        exact ⟨src', dst', rfl, hsrc.2.mono (Nat.le_refl _) hdst.1,
          hdst.2.mono hsrc.1 (Nat.le_refl _)⟩
      · simp only [if_neg hop]
        refine succeeds_lift (a := op_name) rfl ?_
        refine succeeds_lift (a := "sum") rfl ?_
        refine succeeds_lift (OB_ok rfl _ _) ?_
        refine succeeds_lift (a := 0) rfl ?_
        refine succeeds_lift (a := 0) rfl ?_
        refine ⟨Nat.le_refl _, ?_⟩
        simp only [AttrsRenewed, if_neg hop]
    | collective kind reduce_kind in_group group_id root_worker =>
      refine succeeds_lift (RK_ok rfl ctx) ?_
      by_cases hop : op_name = "device.copy"
      · simp only [if_pos hop]
        refine outcome_bind.mpr (outcome_pure (a := none).mpr ?_)
        refine outcome_bind.mpr (outcome_pure (a := none).mpr ?_)
        refine succeeds_lift (a := false) rfl ?_
        refine succeeds_lift (OB_ok rfl _ _) ?_
        refine ⟨Nat.le_refl _, ?_⟩
        simp only [AttrsRenewed, if_pos hop]
      · simp only [if_neg hop]
        refine succeeds_lift (OS_ok rfl _ _) ?_
        refine succeeds_lift (OS_ok rfl _ _) ?_
        refine succeeds_lift (OB_ok rfl _ _) ?_
        refine succeeds_lift (OI_ok rfl _ _) ?_
        refine succeeds_lift (OI_ok rfl _ _) ?_
        refine ⟨Nat.le_refl _, ?_⟩
        simp only [AttrsRenewed, if_neg hop]
    | _ => exact ParseCommAttrs_default rfl ctx

def ExecNode.Readable : ExecNode → Prop
  | .comm _ attrs _ _ _ _ => ∀ a ∈ attrs, Attrs.Readable a
  | _ => True

/-- What is read for a node: only a node of a call changes, by its attributes. -/
def NodeRenewed (lo hi : Nat) : ExecNode → ExecNode → Prop
  | .comm op_name attrs input_values output_values worker_set _, n' =>
    ∃ attrs', n' = .comm op_name (some attrs') input_values output_values worker_set 0 ∧
      AttrsRenewed lo hi op_name attrs attrs'
  | n, n' => n' = n

theorem NodeRenewed.mono {lo hi lo' hi' : Nat} {n n' : ExecNode} (h : NodeRenewed lo hi n n')
    (hlo : lo' ≤ lo) (hhi : hi ≤ hi') : NodeRenewed lo' hi' n n' := by
  cases n with
  | comm op_name attrs input_values output_values worker_set origin =>
    obtain ⟨attrs', hn', hattrs⟩ := h
    exact ⟨attrs', hn', hattrs.mono hlo hhi⟩
  | _ => exact h

theorem parseNode_succeeds {n : ExecNode} (hints : n.HasInts) (hn : n.Readable) (ctx : String) :
    Succeeds (parseNode (nodeJ n) ctx) ref fun ref' n' => NodeRenewed ref ref' n n' := by
  obtain ⟨hin, hout⟩ := hints
  cases n with
  | kernel op_name kernel_symbol input_values output_values worker_set =>
    refine succeeds_lift (RK_ok rfl ctx) ?_
    refine succeeds_lift (RF_ok rfl _) ?_
    refine succeeds_lift (RS_ok "kernel" _) ?_
    refine succeeds_lift (RF_ok rfl _) ?_
    refine succeeds_lift (AI_ok hin _) ?_
    refine succeeds_lift (RF_ok rfl _) ?_
    refine succeeds_lift (AI_ok hout _) ?_
    refine succeeds_lift (RF_ok rfl _) ?_
    refine succeeds_lift (AI_workers worker_set _) ?_
    refine succeeds_lift (RF_ok rfl _) ?_
    refine succeeds_lift (RS_ok op_name _) ?_
    refine succeeds_lift (OS_ok rfl _ _) ?_
    rw [map_toInt_ofInt hin, map_toInt_ofInt hout]
    exact ⟨Nat.le_refl _, rfl⟩
  | comm op_name attrs input_values output_values worker_set origin =>
    refine succeeds_lift (RK_ok rfl ctx) ?_
    refine succeeds_lift (RF_ok rfl _) ?_
    refine succeeds_lift (RS_ok "comm" _) ?_
    refine succeeds_lift (RF_ok rfl _) ?_
    refine succeeds_lift (AI_ok hin _) ?_
    refine succeeds_lift (RF_ok rfl _) ?_
    refine succeeds_lift (AI_ok hout _) ?_
    refine succeeds_lift (RF_ok rfl _) ?_
    refine succeeds_lift (AI_workers worker_set _) ?_
    refine succeeds_lift (RF_ok rfl _) ?_
    refine succeeds_lift (RS_ok op_name _) ?_
    refine outcome_bind.mpr ((ParseCommAttrs_succeeds hn op_name _).mono fun attrs' ref' h => ?_)
    rw [map_toInt_ofInt hin, map_toInt_ofInt hout]
    exact ⟨h.1, attrs', rfl, h.2⟩
  | barrier tag worker_set =>
    refine succeeds_lift (RK_ok rfl ctx) ?_
    refine succeeds_lift (RF_ok rfl _) ?_
    refine succeeds_lift (RS_ok "barrier" _) ?_
    refine succeeds_lift (RF_ok rfl _) ?_
    refine succeeds_lift (AI_ok hin _) ?_
    refine succeeds_lift (RF_ok rfl _) ?_
    refine succeeds_lift (AI_ok hout _) ?_
    refine succeeds_lift (RF_ok rfl _) ?_
    refine succeeds_lift (AI_workers worker_set _) ?_
    refine succeeds_lift (RF_ok rfl _) ?_
    refine succeeds_lift (RS_ok tag _) ?_
    exact ⟨Nat.le_refl _, rfl⟩

/-! ### Tables -/

/-- The entries of `value_virtual_devices` for `ids` are read. -/
theorem parseValueVDs_succeeds {m : Map Int VirtualDevice} {ids : List Int}
    (hids : ∀ id ∈ ids, FitsInt id) (hread : ∀ id, ∀ vd ∈ m.lookup id, vd.node.Readable)
    (ctx : Nat → String) (k : Nat) {acc : Map Int VirtualDevice} (hnodup : ids.Nodup)
    (hnew : ∀ id ∈ ids, id ∉ acc) :
    Succeeds (((ids.map (valueVDJ m)).zipIdx k).foldlM
      (fun acc (item, i) => parseValueVD acc item (ctx i)) acc) ref fun ref' acc' =>
        ∀ id, (id ∈ ids → Renewed ref ref' (m.lookup id) (acc'.lookup id)) ∧
          (id ∉ ids → acc'.lookup id = acc.lookup id) := by
  induction ids generalizing ref acc k with
  | nil => exact ⟨Nat.le_refl _, fun id => ⟨fun h => absurd h List.not_mem_nil, fun _ => rfl⟩⟩
  | cons id ids ih =>
    obtain ⟨hid, hnodup⟩ := List.nodup_cons.mp hnodup
    have hints := hids id List.mem_cons_self
    rw [List.map_cons, List.zipIdx_cons, List.foldlM_cons]
    refine outcome_bind.mpr ?_
    have hentry : Succeeds (parseValueVD acc (valueVDJ m id) (ctx k)) ref fun ref' acc' =>
        Renewed ref ref' (m.lookup id) (acc'.lookup id) ∧
          ∀ other, other ≠ id → acc'.lookup other = acc.lookup other := by
      refine succeeds_lift (RK_ok rfl _) ?_
      refine succeeds_lift (RF_ok rfl _) ?_
      refine succeeds_lift (RI_number hints _) ?_
      refine succeeds_lift (RF_ok rfl _) ?_
      refine outcome_bind.mpr ((ParseVD_succeeds (hread id) _).mono ?_)
      rintro vd ref' ⟨hle, hvd⟩
      cases vd with
      | none =>
        have hnone : acc.lookup id = none := AList.lookup_eq_none.mpr (hnew id List.mem_cons_self)
        exact ⟨hle, by rwa [hnone], fun _ _ => rfl⟩
      | some vd =>
        rw [toInt_ofInt32 hints]
        refine ⟨hle, ?_, fun other hother => AList.lookup_insert_ne hother⟩
        rwa [AList.lookup_insert]
    refine hentry.mono ?_
    rintro acc₁ ref₁ ⟨hle₁, hvd, hothers⟩
    have hnew₁ : ∀ other ∈ ids, other ∉ acc₁ := by
      intro other hother
      have hne : other ≠ id := fun h => hid (h ▸ hother)
      rw [← AList.lookup_eq_none, hothers other hne, AList.lookup_eq_none]
      exact hnew other (List.mem_cons_of_mem id hother)
    refine (ih (fun other h => hids other (List.mem_cons_of_mem id h)) (k + 1) hnodup
      hnew₁).mono ?_
    rintro acc₂ ref₂ ⟨hle₂, hrest⟩
    refine ⟨Nat.le_trans hle₁ hle₂, fun other => ⟨fun hother => ?_, fun hother => ?_⟩⟩
    · rcases List.mem_cons.mp hother with rfl | hother
      · rw [(hrest other).2 hid]
        exact hvd.mono (Nat.le_refl _) hle₂
      · exact ((hrest other).1 hother).mono hle₁ (Nat.le_refl _)
    · rw [(hrest other).2 fun h => hother (List.mem_cons_of_mem id h)]
      exact hothers other fun h => hother (h ▸ List.mem_cons_self)

/-- The entries of `value_info` for `ids` are read. -/
theorem parseInfos_succeeds {shapes : Map Int (List Int64)} {dtypes : Map Int String}
    {ids : List Int} (hids : ∀ id ∈ ids, FitsInt id) (ctx : Nat → String) (k : Nat)
    (acc : Map Int (List Int64) × Map Int String) :
    Succeeds (((ids.map (infoJ shapes dtypes)).zipIdx k).foldlM
      (fun acc (item, i) => parseInfo acc item (ctx i)) acc) ref fun _ acc' =>
        ∀ id, acc'.1.lookup id = (if id ∈ ids then some ((shapes.lookup id).getD [])
            else acc.1.lookup id) ∧
          acc'.2.lookup id = (if id ∈ ids then some ((dtypes.lookup id).getD "")
            else acc.2.lookup id) := by
  induction ids generalizing acc k with
  | nil => exact ⟨Nat.le_refl _, fun id => by simp⟩
  | cons id ids ih =>
    have hints := hids id List.mem_cons_self
    rw [List.map_cons, List.zipIdx_cons, List.foldlM_cons]
    refine outcome_bind.mpr ?_
    refine succeeds_lift (RK_ok rfl _) ?_
    refine succeeds_lift (RF_ok rfl _) ?_
    refine succeeds_lift (RI_number hints _) ?_
    refine succeeds_lift (RF_ok rfl _) ?_
    refine succeeds_lift (AI64_ok _ _) ?_
    refine succeeds_lift (RF_ok rfl _) ?_
    refine succeeds_lift (RS_ok _ _) ?_
    rw [toInt_ofInt32 hints]
    refine (ih (fun other h => hids other (List.mem_cons_of_mem id h)) (k + 1) _).mono ?_
    rintro acc' ref' ⟨hle, hlookup⟩
    refine ⟨hle, fun other => ?_⟩
    obtain ⟨hshape, hdtype⟩ := hlookup other
    rw [hshape, hdtype]
    by_cases hother : other = id
    · subst hother
      simp
    · simp [hother]

/-! ### Workers -/

theorem VirtualDeviceIdentity_written (vd : VirtualDeviceNode) :
    VirtualDeviceIdentity vd.written = VirtualDeviceIdentity vd := by
  obtain ⟨dev, target, scope, id, hpair, hid⟩ := vd
  cases target <;> rfl

theorem findWorkerByKey_renewed {lo hi : Nat} {ws ws' : List WorkerPlacement}
    (h : List.Forall₂ (WorkerRenewed lo hi) ws ws') (key : String) :
    findWorkerByKey key (ws'.map some) = findWorkerByKey key (ws.map some) := by
  induction h with
  | nil => rfl
  | @cons w w' ws ws' hw _ ih =>
    have hrenewed := hw.virtual_device
    simp only [List.map_cons, findWorkerByKey]
    cases hvd : w.virtual_device with
    | none =>
      cases hvd' : w'.virtual_device with
      | none => exact ih
      | some vd' =>
        rw [hvd, hvd'] at hrenewed
        exact hrenewed.elim
    | some vd =>
      cases hvd' : w'.virtual_device with
      | none =>
        rw [hvd, hvd'] at hrenewed
        exact hrenewed.elim
      | some vd' =>
        rw [hvd, hvd'] at hrenewed
        simp only [hrenewed.1, VirtualDeviceIdentity_written, hw.worker_id, ih]

/-- A virtual device that is none of the placement's own is looked up by its identity. -/
theorem PlacementRenewed.findWorker {lo hi : Nat} {p p' : DiscoPlacement}
    {ws : List WorkerPlacement} (h : PlacementRenewed lo hi p ws p') (hlist : Listed p ws)
    {vd : VirtualDevice} (hvd : vd.ref < lo) :
    p'.FindWorker (some vd) =
      findWorkerByKey (VirtualDeviceIdentity vd.node) (sortedWorkers p.workers) := by
  obtain ⟨ws', hws', hrenewed⟩ := h.workers
  have hlookup : p'.vd_to_worker.lookup vd.ref = none := by
    refine List.lookup_eq_none_iff.mpr fun e he => ?_
    have hlo := (h.vd_to_worker e he).1
    exact bne_iff_ne.mpr fun heq => absurd hlo (by omega)
  rw [hlist, ← findWorkerByKey_renewed hrenewed, ← hws']
  simp only [DiscoPlacement.FindWorker, hlookup]

/-! ### Plans -/

/-- Plans that can be read back: every worker is defined, and the attributes of targets that are
read as an `int` are in its range. -/
structure ExecutionPlan.Readable (plan : ExecutionPlan) : Prop where
  ints : plan.HasInts
  nodes : ∀ n ∈ plan.nodes, n.Readable
  value_virtual_devices : ∀ id, ∀ vd ∈ plan.value_virtual_devices.lookup id, vd.node.Readable
  workers : ∀ p ∈ plan.pass_ctx.disco_placement, ∀ w ∈ p.workers, ∃ v, w = some v ∧ v.Readable

/-- What is read for a placement that may be undefined. -/
def OptPlacementRenewed (lo hi : Nat) : Option DiscoPlacement → Option DiscoPlacement → Prop
  | none, p' => p' = none
  | some p, p' => ∃ ws q, p' = some q ∧ Listed p ws ∧ PlacementRenewed lo hi p ws q

/-- The worker that a virtual device has by its identity. -/
def workerByIdentity : Option DiscoPlacement → Option VirtualDevice → Int32
  | some p, some vd => findWorkerByKey (VirtualDeviceIdentity vd.node) (sortedWorkers p.workers)
  | _, _ => -1

/-- What is read for a plan. -/
structure PlanRenewed (lo hi : Nat) (plan plan' : ExecutionPlan) : Prop where
  nodes : List.Forall₂ (NodeRenewed lo hi) plan.nodes plan'.nodes
  value_virtual_devices : ∀ id, Renewed lo hi (plan.value_virtual_devices.lookup id)
    (plan'.value_virtual_devices.lookup id)
  input_value_ids : plan'.input_value_ids = plan.input_value_ids
  constant_value_ids : plan'.constant_value_ids = plan.constant_value_ids
  value_shapes : ∀ id, plan'.value_shapes.lookup id =
    if id ∈ plan.value_shapes ∨ id ∈ plan.value_dtypes then
      some ((plan.value_shapes.lookup id).getD [])
    else none
  value_dtypes : ∀ id, plan'.value_dtypes.lookup id =
    if id ∈ plan.value_shapes ∨ id ∈ plan.value_dtypes then
      some ((plan.value_dtypes.lookup id).getD "")
    else none
  num_values : plan'.num_values = plan.num_values
  output_value : plan'.output_value = plan.output_value
  placement : OptPlacementRenewed lo hi plan.pass_ctx.disco_placement plan'.pass_ctx.disco_placement
  workers : ∀ id,
    FindWorkerForVirtualDevice plan'.pass_ctx.disco_placement
        (plan'.value_virtual_devices.lookup id) =
      workerByIdentity plan.pass_ctx.disco_placement (plan.value_virtual_devices.lookup id)

theorem OptPlacementRenewed.mono {lo hi lo' hi' : Nat} {p p' : Option DiscoPlacement}
    (h : OptPlacementRenewed lo hi p p') (hlo : lo' ≤ lo) (hhi : hi ≤ hi') :
    OptPlacementRenewed lo' hi' p p' := by
  cases p with
  | none => exact h
  | some p =>
    obtain ⟨ws, q, hq, hlist, hgroups, ⟨ws', hws', hrenewed⟩, htable⟩ := h
    refine ⟨ws, q, hq, hlist, hgroups, ⟨ws', hws', ?_⟩, fun e he => ?_⟩
    · exact hrenewed.imp fun w w' hw => hw.mono hlo hhi
    · have := htable e he
      omega

/-- A placement that was read after a virtual device finds it by its identity. -/
theorem OptPlacementRenewed.findWorker {lo mid hi : Nat} {p p' : Option DiscoPlacement}
    {vd vd' : Option VirtualDevice} (hp : OptPlacementRenewed mid hi p p')
    (hvd : Renewed lo mid vd vd') :
    FindWorkerForVirtualDevice p' vd' = workerByIdentity p vd := by
  cases p with
  | none =>
    obtain rfl : p' = none := hp
    rfl
  | some p =>
    obtain ⟨ws, q, rfl, hlist, hq⟩ := hp
    cases vd with
    | none =>
      cases vd' with
      | none => rfl
      | some vd' => exact hvd.elim
    | some vd =>
      cases vd' with
      | none => exact hvd.elim
      | some vd' =>
        refine (hq.findWorker hlist hvd.2.2).trans ?_
        rw [hvd.1, VirtualDeviceIdentity_written]
        rfl

theorem exists_listed {p : DiscoPlacement} {P : WorkerPlacement → Prop}
    (h : ∀ w ∈ p.workers, ∃ v, w = some v ∧ P v) : ∃ ws, Listed p ws ∧ ∀ w ∈ ws, P w := by
  have hsorted : ∀ w ∈ sortedWorkers p.workers, ∃ v, w = some v ∧ P v :=
    fun w hw => h w (List.mem_mergeSort.mp hw)
  unfold Listed
  generalize sortedWorkers p.workers = ws at hsorted
  induction ws with
  | nil => exact ⟨[], rfl, fun w hw => absurd hw List.not_mem_nil⟩
  | cons w ws ih =>
    obtain ⟨v, rfl, hv⟩ := hsorted w List.mem_cons_self
    obtain ⟨vs, hvs, hall⟩ := ih fun x hx => hsorted x (List.mem_cons_of_mem _ hx)
    refine ⟨v :: vs, by rw [hvs]; rfl, fun x hx => ?_⟩
    rcases List.mem_cons.mp hx with rfl | hx
    · exact hv
    · exact hall x hx

theorem ParsePlacement_optional {p : Option DiscoPlacement}
    (h : ∀ q ∈ p, ∀ w ∈ q.workers, ∃ v, w = some v ∧ v.Readable) (ctx : String) :
    Succeeds (ParsePlacement (placementJ p) ctx) ref fun ref' p' =>
      OptPlacementRenewed ref ref' p p' := by
  cases p with
  | none => exact ⟨Nat.le_refl _, rfl⟩
  | some p =>
    obtain ⟨ws, hlist, hws⟩ := exists_listed (h p rfl)
    refine (ParsePlacement_succeeds hlist hws ctx).mono ?_
    rintro p' ref' ⟨hle, q, rfl, hq⟩
    exact ⟨hle, ws, q, rfl, hlist, hq⟩

theorem nodup_sortedIds (m : Map Int VirtualDevice) : (SortedIds m).Nodup :=
  (List.mergeSort_perm _ _).nodup_iff.mpr m.keys_nodup

/-- The fields of the value of a plan. -/
structure PlanFields (plan : ExecutionPlan) (root : J) : Prop where
  kind : root.k = .O
  schema_version : RF root "schema_version" "root" = .ok (.I 1)
  num_values : RF root "num_values" "root" = .ok (numberJ plan.num_values)
  output_value : RF root "output_value" "root" = .ok (numberJ plan.output_value)
  nodes : RF root "nodes" "root" = .ok (.A (plan.nodes.map nodeJ))
  value_virtual_devices : RF root "value_virtual_devices" "root" =
    .ok (.A ((SortedIds plan.value_virtual_devices).map (valueVDJ plan.value_virtual_devices)))
  input_value_ids : RF root "input_value_ids" "root" = .ok (numbersJ plan.input_value_ids)
  constant_value_ids : RF root "constant_value_ids" "root" =
    .ok (numbersJ plan.constant_value_ids)
  value_info : RF root "value_info" "root" =
    .ok (.A ((SortedInfoIds plan.value_shapes plan.value_dtypes).map
      (infoJ plan.value_shapes plan.value_dtypes)))
  disco_placement : RF root "disco_placement" "root" =
    .ok (placementJ plan.pass_ctx.disco_placement)
  reserved : RF root "reserved" "root" = .ok (.O [])

theorem planFields (plan : ExecutionPlan) : PlanFields plan (planJ plan) := by
  constructor
  case kind => rfl
  all_goals exact RF_ok rfl _

theorem planOf_succeeds {plan : ExecutionPlan} (h : plan.Readable) {root : J}
    (hroot : PlanFields plan root) :
    Succeeds (planOf root) ref fun ref' plan' => PlanRenewed ref ref' plan plan' := by
  obtain ⟨hints, hnodes, hvds, hworkers⟩ := h
  have hfilter : ((J.A (plan.nodes.map nodeJ)).a.zipIdx.filter (·.1.k ≠ .N)) =
      (plan.nodes.map nodeJ).zipIdx := by
    refine List.filter_eq_self.mpr fun e he => ?_
    obtain ⟨n, -, hn⟩ := List.mem_map.mp (List.fst_mem_of_mem_zipIdx he)
    rw [← hn]
    cases n <;> rfl
  refine succeeds_lift (RK_ok hroot.kind _) ?_
  refine succeeds_lift hroot.schema_version ?_
  have hversion : RI (.I 1) "root.schema_version" = .ok 1 := by
    rw [RI_int64 (by decide)]
    exact congrArg Except.ok (by decide)
  refine succeeds_lift hversion ?_
  refine outcome_ite.mpr ⟨fun h => absurd rfl h, fun _ => ?_⟩
  refine succeeds_lift hroot.num_values ?_
  refine succeeds_lift (RI_number hints.num_values _) ?_
  refine succeeds_lift hroot.output_value ?_
  refine succeeds_lift (RI_number hints.output_value _) ?_
  refine succeeds_lift hroot.nodes ?_
  refine succeeds_lift (RK_ok rfl _) ?_
  rw [hfilter]
  refine outcome_bind.mpr ((Outcome.mapM (R := NodeRenewed)
    (fun _ _ _ _ _ _ h hlo hhi => h.mono hlo hhi)
    (forall₂_written (fun n hn i ref =>
      parseNode_succeeds (hints.nodes n hn) (hnodes n hn) _) 0)).mono ?_)
  rintro nodes ref₁ ⟨hle₁, hnodes'⟩
  refine succeeds_lift hroot.value_virtual_devices ?_
  refine succeeds_lift (RK_ok rfl _) ?_
  refine outcome_bind.mpr ((parseValueVDs_succeeds
    (fun id hid => hints.value_virtual_devices id (mem_sortedIds.mp hid)) hvds
    (fun i => s!"root.value_virtual_devices[{i}]") 0 (nodup_sortedIds _)
    (fun id _ => AList.notMem_empty id)).mono ?_)
  rintro vds ref₂ ⟨hle₂, hvds'⟩
  refine succeeds_lift hroot.input_value_ids ?_
  refine succeeds_lift (AI_ok hints.input_value_ids _) ?_
  refine succeeds_lift hroot.constant_value_ids ?_
  refine succeeds_lift (AI_ok hints.constant_value_ids _) ?_
  refine succeeds_lift hroot.value_info ?_
  refine succeeds_lift (RK_ok rfl _) ?_
  refine outcome_bind.mpr ((parseInfos_succeeds
    (fun id hid => (mem_sortedInfoIds.mp hid).elim (hints.value_shapes id) (hints.value_dtypes id))
    (fun i => s!"root.value_info[{i}]") 0 (∅, ∅)).mono ?_)
  rintro infos ref₃ ⟨hle₃, hinfos⟩
  refine succeeds_lift hroot.disco_placement ?_
  refine outcome_bind.mpr ((ParsePlacement_optional hworkers _).mono ?_)
  rintro p' ref₄ ⟨hle₄, hp⟩
  refine succeeds_lift hroot.reserved ?_
  refine succeeds_lift (RK_ok rfl _) ?_
  have hshapes : ∀ id, id ∈ SortedInfoIds plan.value_shapes plan.value_dtypes ↔
      id ∈ plan.value_shapes ∨ id ∈ plan.value_dtypes := fun id => mem_sortedInfoIds
  have hvds : ∀ id, Renewed ref₁ ref₂ (plan.value_virtual_devices.lookup id) (vds.lookup id) := by
    intro id
    by_cases hid : id ∈ SortedIds plan.value_virtual_devices
    · exact (hvds' id).1 hid
    · rw [(hvds' id).2 hid, AList.lookup_eq_none.mpr (mem_sortedIds.not.mp hid)]
      trivial
  refine ⟨by omega, ?_⟩
  constructor
  case nodes => exact hnodes'.imp fun n n' hn => hn.mono (Nat.le_refl _) (by omega)
  case value_virtual_devices => exact fun id => (hvds id).mono hle₁ (by omega)
  case input_value_ids => exact map_toInt_ofInt hints.input_value_ids
  case constant_value_ids => exact map_toInt_ofInt hints.constant_value_ids
  case value_shapes =>
    intro id
    rw [(hinfos id).1]
    simp only [hshapes]
    rfl
  case value_dtypes =>
    intro id
    rw [(hinfos id).2]
    simp only [hshapes]
    rfl
  case num_values => exact toInt_ofInt32 hints.num_values
  case output_value => exact toInt_ofInt32 hints.output_value
  case placement => exact hp.mono (by omega) (Nat.le_refl _)
  case workers =>
    exact fun id => hp.findWorker ((hvds id).mono (Nat.le_refl _) hle₃)

/-- Reading any text of the value of a plan. -/
theorem DeserializeExecutionPlanFromJson_of_parse {plan : ExecutionPlan} (h : plan.Readable)
    {text : String} {root : J} (hparse : Json.P.Parse text = .ok root)
    (hroot : PlanFields plan root) (ref : Nat) :
    ∃ plan' ref', DeserializeExecutionPlanFromJson text ref = .ok (plan', ref') ∧
      PlanRenewed ref ref' plan plan' := by
  obtain ⟨plan', ref', hrun, -, hplan⟩ :=
    (succeeds_lift hparse (planOf_succeeds h hroot)).exists_ok
  exact ⟨plan', ref', hrun, hplan⟩

theorem Parse_serialize {plan : ExecutionPlan} (h : plan.HasInts) :
    Json.P.Parse (SerializeExecutionPlanToJson plan) = .ok (planJ plan) := by
  rw [← text_plan h]
  exact Json.Parse_text (distinct_plan plan)

def cpu0 : VirtualDevice :=
  ⟨0, { device_obj := some ⟨.kCPU, 0⟩, target := some { kind := "llvm" }, virtual_device_id := 0 }⟩

def gpu1 : VirtualDevice :=
  ⟨1, { device_obj := some ⟨.kGPU, 1⟩
        target := some { kind := "cuda", attrs := { warp_size := 32 } }
        virtual_device_id := 1 }⟩

/-- The placement of two devices. -/
def copyPlacement : DiscoPlacement where
  workers :=
    [some ⟨0, 0, 0, cpu0.node.device_obj, cpu0.node.target, some cpu0⟩,
      some ⟨1, 0, 1, gpu1.node.device_obj, gpu1.node.target, some gpu1⟩]
  vd_to_worker := [(1, 1), (0, 0)]

/-- A value that is computed on one device and copied to another. -/
def copyPlan : ExecutionPlan where
  nodes :=
    [.kernel "relu" "relu_0" [0] [1] [0],
      .comm "device.copy" (some (.deviceCopy (some cpu0) (some gpu1) false true)) [1] [2] [0, 1] 0,
      .barrier "end" [0, 1]]
  value_virtual_devices := ⟨[⟨1, cpu0⟩, ⟨2, gpu1⟩], by simp [List.NodupKeys, List.keys]⟩
  input_value_ids := [0]
  constant_value_ids := []
  value_shapes := ⟨[⟨0, [2, 3]⟩], by simp⟩
  value_dtypes := ⟨[⟨0, "float32"⟩], by simp⟩
  num_values := 3
  pass_ctx := { defined := true, disco_placement := some copyPlacement }
  output_value := 2

theorem copyPlan_vds {id : Int} {vd : VirtualDevice}
    (h : copyPlan.value_virtual_devices.lookup id = some vd) : vd = cpu0 ∨ vd = gpu1 := by
  have hmem := AList.mem_lookup_iff.mp h
  rcases List.mem_cons.mp hmem with h | hmem
  · cases h
    exact .inl rfl
  · cases List.mem_singleton.mp hmem
    exact .inr rfl

theorem copyPlan_readable : copyPlan.Readable := by
  have hcpu : cpu0.node.Readable := by
    rintro t ⟨⟩
    constructor <;> decide
  have hgpu : gpu1.node.Readable := by
    rintro t ⟨⟩
    constructor <;> decide
  have hsome {vd : VirtualDevice} (h : vd.node.Readable) : ∀ v ∈ some vd, v.node.Readable := by
    rintro v ⟨⟩
    exact h
  constructor
  case ints => constructor <;> decide
  case nodes => simp [copyPlan, ExecNode.Readable, Attrs.Readable, hcpu, hgpu]
  case value_virtual_devices =>
    intro id vd hvd
    rcases copyPlan_vds hvd with rfl | rfl
    · exact hcpu
    · exact hgpu
  case workers =>
    rintro p ⟨⟩ w hw
    rcases List.mem_cons.mp hw with rfl | hw
    · exact ⟨_, rfl, hcpu, hsome hcpu⟩
    · obtain rfl := List.mem_singleton.mp hw
      exact ⟨_, rfl, hgpu, hsome hgpu⟩

end Kxc
