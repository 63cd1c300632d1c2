import Mathlib.Data.List.Basic

/-! Devices, targets and virtual devices (`base/device.h`, `base/target.h`,
`base/virtual_device.h`). A C++ `std::string` is a `String` whose characters stand for its bytes,
an `int` an `Int32` and an `int64_t` an `Int64`. A handle is a pointer together with the node that
it points to, and an undefined handle is `none`. -/

namespace Kxc

/-- `enum DeviceTypeCode : int`: the underlying type is fixed, so every `int` is a value. -/
structure DeviceTypeCode where
  code : Int32
  deriving DecidableEq, Repr

namespace DeviceTypeCode

def kCPU : DeviceTypeCode := ⟨0⟩
def kGPU : DeviceTypeCode := ⟨1⟩
def kOpenCL : DeviceTypeCode := ⟨2⟩
def kMetal : DeviceTypeCode := ⟨3⟩
def kUnknown : DeviceTypeCode := ⟨99⟩

end DeviceTypeCode

structure Device where
  device_type : DeviceTypeCode
  device_id : Int32
  deriving DecidableEq, Repr

/-- The device attributes that a target snapshot holds, with their default values. -/
structure DeviceAttributes where
  exists_ : Int32 := 0
  max_threads_per_block : Int64 := 1
  warp_size : Int64 := 1
  max_shared_memory_per_block : Int64 := 0
  compute_version : String := "0.0"
  device_name : String := ""
  max_clock_rate_khz : Int64 := 0
  max_registers_per_block : Int64 := 0
  api_version : Int64 := 0
  driver_version : Int64 := 0
  l2_cache_size_bytes : Int64 := 0
  total_global_memory : Int64 := 0
  available_global_memory : Int64 := 0
  max_shared_memory_per_multiprocessor : Int64 := 0
  max_registers_per_multiprocessor : Int64 := 0
  max_threads_per_multiprocessor : Int64 := 0
  compute_version_major : Int64 := 0
  compute_version_minor : Int64 := 0
  multi_processor_count : Int64 := 1
  arch : String := ""
  deriving DecidableEq, Repr

structure Target where
  kind : String := ""
  device_type : DeviceTypeCode := .kUnknown
  device_id : Int32 := -1
  attrs : DeviceAttributes := {}
  deriving DecidableEq, Repr

def kInvalidVirtualDeviceId : Int32 := -1

/-- `ValidateTargetDevicePair`: a target may leave its device type or id open, else they are those
of the device. -/
def ValidateTargetDevicePair : Option Device → Option Target → Except String Unit
  | some dev, some target =>
    if target.device_type ≠ .kUnknown ∧ target.device_type ≠ dev.device_type then
      .error "VirtualDevice device/target mismatch in device_type"
    else if 0 ≤ target.device_id ∧ target.device_id ≠ dev.device_id then
      .error "VirtualDevice device/target mismatch in device_id"
    else .ok ()
  | _, _ => .ok ()

/-- The id that the constructors give a virtual device whose id is left out. -/
def defaultVirtualDeviceId (device_obj : Option Device) (target : Option Target) : Int32 :=
  match device_obj, target with
  | some dev, _ => dev.device_id
  | none, some t => t.device_id
  | none, none => kInvalidVirtualDeviceId

/-- A virtual device as its constructors build it: a valid pair of device and target, and an id
that is missing only where there is no default for it. -/
structure VirtualDeviceNode where
  device_obj : Option Device := none
  target : Option Target := none
  memory_scope : String := ""
  virtual_device_id : Int32 := kInvalidVirtualDeviceId
  pair_valid : ValidateTargetDevicePair device_obj target = .ok () := by decide
  id_defaulted : virtual_device_id = kInvalidVirtualDeviceId →
    defaultVirtualDeviceId device_obj target = kInvalidVirtualDeviceId := by decide
  deriving DecidableEq

/-- A `VirtualDevice` handle: `ref` is the address of its node. -/
structure VirtualDevice where
  ref : Nat
  node : VirtualDeviceNode
  deriving DecidableEq

namespace VirtualDeviceNode

/-- Both `VirtualDevice` constructors: with a device, and with a target alone. -/
def construct (device_obj : Option Device) (target : Option Target) (memory_scope : String)
    (virtual_device_id : Int32) : Except String VirtualDeviceNode :=
  match h : ValidateTargetDevicePair device_obj target with
  | .error e => .error e
  | .ok () =>
    .ok
      { device_obj, target, memory_scope
        virtual_device_id :=
          if virtual_device_id = kInvalidVirtualDeviceId then
            defaultVirtualDeviceId device_obj target
          else virtual_device_id
        pair_valid := h
        id_defaulted := by split <;> simp_all }

/-- A constructor call with the fields of a virtual device rebuilds it. -/
theorem construct_fields (vd : VirtualDeviceNode) :
    construct vd.device_obj vd.target vd.memory_scope vd.virtual_device_id = .ok vd := by
  obtain ⟨dev, target, scope, id, hpair, hid⟩ := vd
  unfold construct
  split
  · rename_i e he
    rw [hpair] at he
    exact absurd he (by simp)
  · by_cases h : id = kInvalidVirtualDeviceId
    · simp [h, hid h]
    · simp [h]

end VirtualDeviceNode

/-- The device type and id that `SameVirtualDevice` reads off a virtual device. -/
def VirtualDeviceNode.extractDev (vd : VirtualDeviceNode) : DeviceTypeCode × Int32 :=
  match vd.device_obj, vd.target with
  | some dev, _ => (dev.device_type, dev.device_id)
  | none, some t => (t.device_type, t.device_id)
  | none, none => (.kUnknown, kInvalidVirtualDeviceId)

/-- `SameVirtualDevice`: the targets are compared only when there is no device. -/
def SameVirtualDevice : Option VirtualDevice → Option VirtualDevice → Bool
  | some a, some b =>
    a.ref == b.ref ||
      (a.node.extractDev == b.node.extractDev && a.node.memory_scope == b.node.memory_scope &&
        a.node.virtual_device_id == b.node.virtual_device_id)
  | a, b => a.isNone && b.isNone

theorem SameVirtualDevice.refl (vd : Option VirtualDevice) : SameVirtualDevice vd vd = true := by
  cases vd <;> simp [SameVirtualDevice]

theorem SameVirtualDevice.symm {a b : Option VirtualDevice} (h : SameVirtualDevice a b = true) :
    SameVirtualDevice b a = true := by
  cases a <;> cases b
  case some.some a b =>
    simp only [SameVirtualDevice, Bool.or_eq_true, Bool.and_eq_true, beq_iff_eq] at h ⊢
    rcases h with h | ⟨⟨h1, h2⟩, h3⟩
    · exact Or.inl h.symm
    · exact Or.inr ⟨⟨h1.symm, h2.symm⟩, h3.symm⟩
  all_goals simp_all [SameVirtualDevice]

end Kxc
