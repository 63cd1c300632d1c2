import Kxc.Base.VirtualDevice

/-! Worker placements (`base/disco_placement.h`): one worker for each virtual device that differs
from the ones before it in its identity key. -/

namespace Kxc

/-- The backend queries that `BuildTarget` makes. `GetDeviceAPI` throws for a device type without a
backend. -/
structure DeviceAPI where
  GetTargetKind : Device → String
  GetDeviceAttributes : Device → DeviceAttributes

abbrev DeviceAPIManager := DeviceTypeCode → Except String DeviceAPI

def BuildTarget (apis : DeviceAPIManager) (device : Device) : Except String Target := do
  let api ← apis device.device_type
  return {
    kind := api.GetTargetKind device
    device_type := device.device_type
    device_id := device.device_id
    attrs := api.GetDeviceAttributes device }

/-- `VirtualDeviceIdentity` of a defined virtual device. -/
def VirtualDeviceIdentity (vd : VirtualDeviceNode) : String :=
  "virtual_device:" ++
    (match vd.device_obj with
      | some dev => s!"dev({dev.device_type.code.toInt},{dev.device_id.toInt})"
      | none => "dev(none)") ++
    (match vd.target with
      | some t => s!"target({t.device_type.code.toInt},{t.device_id.toInt},{t.kind})"
      | none => "target(none)") ++
    s!"scope({vd.memory_scope})" ++ s!"vdid({vd.virtual_device_id.toInt})"

/-- A defined `WorkerPlacement`. -/
structure WorkerPlacement where
  worker_id : Int32
  group_id : Int32
  local_rank : Int32
  device_obj : Option Device
  target : Option Target
  virtual_device : Option VirtualDevice

/-- A defined `DiscoPlacement`; `vd_to_worker` is keyed by the addresses of virtual devices. -/
structure DiscoPlacement where
  workers : List (Option WorkerPlacement) := []
  vd_to_worker : List (Nat × Int32) := []
  num_groups : Int32 := 1

/-- The first worker whose virtual device has the given identity key. -/
def findWorkerByKey (key : String) : List (Option WorkerPlacement) → Int32
  | [] => -1
  | none :: workers => findWorkerByKey key workers
  | some w :: workers =>
    match w.virtual_device with
    | none => findWorkerByKey key workers
    | some vd =>
      if VirtualDeviceIdentity vd.node = key then w.worker_id else findWorkerByKey key workers

/-- `DiscoPlacementNode::FindWorker`: by address first, then by identity key. -/
def DiscoPlacement.FindWorker (p : DiscoPlacement) (virtual_device : Option VirtualDevice) :
    Int32 :=
  match virtual_device with
  | none => -1
  | some vd =>
    match p.vd_to_worker.lookup vd.ref with
    | some worker => worker
    | none => findWorkerByKey (VirtualDeviceIdentity vd.node) p.workers

/-- The variables of the loop in `BuildDiscoPlacement`. -/
structure PlacementState where
  workers : List (Option WorkerPlacement) := []
  vd_to_worker : List (Nat × Int32) := []
  key_to_worker : List (String × Int32) := []
  next_worker_id : Int32 := 0

/-- One iteration of the loop in `BuildDiscoPlacement`. -/
def placeVirtualDevice (apis : DeviceAPIManager) (st : PlacementState) :
    Option VirtualDevice → Except String PlacementState
  | none => .ok st
  | some vd =>
    let key := VirtualDeviceIdentity vd.node
    match st.key_to_worker.lookup key with
    | some worker => .ok { st with vd_to_worker := (vd.ref, worker) :: st.vd_to_worker }
    | none => do
      let target ←
        match vd.node.target, vd.node.device_obj with
        | none, some dev => some <$> BuildTarget apis dev
        | target, _ => .ok target
      let worker_id := st.next_worker_id
      let worker : WorkerPlacement :=
        { worker_id, group_id := 0, local_rank := worker_id, device_obj := vd.node.device_obj
          target, virtual_device := some vd }
      return {
        workers := st.workers ++ [some worker]
        vd_to_worker := (vd.ref, worker_id) :: st.vd_to_worker
        key_to_worker := (key, worker_id) :: st.key_to_worker
        next_worker_id := worker_id + 1 }

def BuildDiscoPlacement (apis : DeviceAPIManager) (virtual_devices : List (Option VirtualDevice))
    (num_groups : Int32) : Except String DiscoPlacement := do
  let st ← virtual_devices.foldlM (placeVirtualDevice apis) {}
  return {
    workers := st.workers
    vd_to_worker := st.vd_to_worker
    num_groups := if 0 < num_groups then num_groups else 1 }

/-- `FindWorkerForVirtualDevice` under a placement that may be undefined. -/
def FindWorkerForVirtualDevice (placement : Option DiscoPlacement)
    (virtual_device : Option VirtualDevice) : Int32 :=
  match placement with
  | none => -1
  | some p => p.FindWorker virtual_device

end Kxc
