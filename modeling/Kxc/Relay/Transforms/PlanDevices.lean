import Kxc.Relay.Transforms.ExecPlanSsa

/-! The devices of the values of an execution plan. `deviceVisit` visits a graph as the plan builder
does, but keeps of each value only the virtual device that the builder records for it, and of each
kernel only the devices of its inputs. -/

namespace Kxc.Relay

open Lib

/-- What a kernel node is made from: the virtual device of its expression and those of the values
that it reads. -/
structure KernelDevices where
  own : Option VirtualDevice
  inputs : List (Option VirtualDevice)

/-- The fields of the plan builder with every value replaced by its virtual device. -/
structure DeviceState where
  known : Nat → Option (Option VirtualDevice) := fun _ => none
  bound : Nat → Option VirtualDevice
  kernels : List KernelDevices := []

/-- How `deviceVisit` reads a graph: the device of a node, which nodes the memo table shares, and
the device of the value that a call reads for an argument. -/
structure DeviceReader where
  own : Expr → Option VirtualDevice
  shared : Expr → Bool
  operand : (call arg : Expr) → Option VirtualDevice → Option VirtualDevice

/-- The graph as it is. -/
def Heap.reader (τ : Heap) : DeviceReader :=
  { own := GetVirtualDeviceFromExpr τ, shared := fun _ => true, operand := fun _ _ d => d }

namespace DeviceState

/-- The state in which the body of a function is visited: a variable has its own device. -/
def start (τ : Heap) : DeviceState := { bound := fun v => (τ.ann v).virtual_device_ }

def bind (st : DeviceState) (v : Var) (device : Option VirtualDevice) : DeviceState :=
  { st with bound := Function.update st.bound v.id device }

def emit (st : DeviceState) (own : Option VirtualDevice) (inputs : List (Option VirtualDevice)) :
    DeviceState :=
  { st with kernels := st.kernels ++ [⟨own, inputs⟩] }

def learn (st : DeviceState) (p : Nat) (device : Option VirtualDevice) : DeviceState :=
  { st with known := Function.update st.known p (some device) }

end DeviceState

/-- `memoized` on devices: only the nodes that are shared have entries in the memo table. -/
def rememberDevice (r : DeviceReader) (e : Expr)
    (visit : DeviceState → Option VirtualDevice × DeviceState) (st : DeviceState) :
    Option VirtualDevice × DeviceState :=
  if r.shared e then
    match st.known e.ptr with
    | some device => (device, st)
    | none => ((visit st).1, (visit st).2.learn e.ptr (visit st).1)
  else visit st

section

variable {r : DeviceReader} {e : Expr} {st : DeviceState} {device : Option VirtualDevice}
  {visit : DeviceState → Option VirtualDevice × DeviceState}

theorem rememberDevice_known (hshared : r.shared e = true) (h : st.known e.ptr = some device) :
    rememberDevice r e visit st = (device, st) := by
  simp only [rememberDevice, hshared, h, if_true]

theorem rememberDevice_new (hshared : r.shared e = true) (h : st.known e.ptr = none) :
    rememberDevice r e visit st =
      ((visit st).1, (visit st).2.learn e.ptr (visit st).1) := by
  simp only [rememberDevice, hshared, h, if_true]

theorem rememberDevice_unshared (hshared : r.shared e = false) :
    rememberDevice r e visit st = visit st := by
  simp [rememberDevice, hshared]

end

mutual

/-- `Visit` on devices, for graphs that the builder accepts. -/
def deviceVisit (r : DeviceReader) : Expr → DeviceState → Option VirtualDevice × DeviceState
  | .undef, st => (none, st)
  | .constant id data, st =>
    rememberDevice r (.constant id data) (fun st => (r.own (.constant id data), st)) st
  | .var v, st => rememberDevice r (.var v) (fun st => (st.bound v.id, st)) st
  | .op id name, st => rememberDevice r (.op id name) (fun st => (none, st)) st
  | .call id op args attrs origin, st =>
    rememberDevice r (.call id op args attrs origin) (fun st =>
      let inputs := deviceVisitList r args st
      let own := r.own (.call id op args attrs origin)
      if IsCommunicationOpName (GetCallOpName op) then (own, inputs.2)
      else
        (own, inputs.2.emit own
          (List.zipWith (r.operand (.call id op args attrs origin)) args inputs.1))) st
  | .function id params body, st =>
    rememberDevice r (.function id params body) (fun st => deviceVisit r body st) st
  | .ifE id c t f, st => rememberDevice r (.ifE id c t f) (fun st => (none, st)) st
  | .letE id v value body, st =>
    rememberDevice r (.letE id v value body) (fun st =>
      let new_value := deviceVisit r value st
      let new_body := deviceVisit r body (new_value.2.bind v new_value.1)
      (new_body.1, new_body.2.bind v (r.own (.var v)))) st
  | .tuple id fields, st =>
    rememberDevice r (.tuple id fields) (fun st =>
      let inputs := deviceVisitList r fields st
      (r.own (.tuple id fields), inputs.2.emit (r.own (.tuple id fields)) inputs.1)) st
  | .tupleGetItem id t index, st =>
    rememberDevice r (.tupleGetItem id t index) (fun st =>
      let input := deviceVisit r t st
      let own := r.own (.tupleGetItem id t index)
      (own, input.2.emit own [input.1])) st

/-- `deviceVisit` of the elements of an array, from the first to the last. -/
def deviceVisitList (r : DeviceReader) :
    List Expr → DeviceState → List (Option VirtualDevice) × DeviceState
  | [], st => ([], st)
  | e :: es, st =>
    let new_e := deviceVisit r e st
    let new_es := deviceVisitList r es new_e.2
    (new_e.1 :: new_es.1, new_es.2)

end

theorem deviceVisitList_length (r : DeviceReader) (es : List Expr) (st : DeviceState) :
    (deviceVisitList r es st).1.length = es.length := by
  induction es generalizing st with
  | nil => rfl
  | cons e es ih => simp [deviceVisitList, ih]

/-- In the graph as it is, a call reads the values of its arguments. -/
theorem zipWith_operand (τ : Heap) (call : Expr) (args : List Expr) (st : DeviceState) :
    List.zipWith (τ.reader.operand call) args (deviceVisitList τ.reader args st).1 =
      (deviceVisitList τ.reader args st).1 := by
  induction args generalizing st with
  | nil => rfl
  | cons a args ih => exact congrArg _ (ih _)

/-- The workers that the builder gives to a kernel. -/
def KernelDevices.worker_set (pass_ctx : PassContext) (k : KernelDevices) : List Int32 :=
  WorkerSetFromVirtualDevice pass_ctx (k.own.or (k.inputs.findSome? fun d => d))

namespace RelayToExecPlanBuilder

/-- The devices recorded for the inputs of the kernel nodes, and the workers of each. -/
def kernelDevices (b : PlanBuilder) : List (List (Option VirtualDevice) × List Int32) :=
  b.nodes.filterMap fun
    | .kernel _ _ inputs _ workers => some (inputs.map (recordedDevice b), workers)
    | _ => none

/-- The state `st` on devices is what the builder `b` has recorded. -/
structure Tracks (pass_ctx : PassContext) (τ : Heap) (b : PlanBuilder) (st : DeviceState) :
    Prop where
  known : ∀ p, st.known p = (b.memo p).map (recordedDevice b)
  bound : ∀ v, st.bound v =
    match b.var_bindings v with
    | some x => recordedDevice b x
    | none => (τ.ann v).virtual_device_
  kernels : kernelDevices b = st.kernels.map fun k => (k.inputs, k.worker_set pass_ctx)
  recorded : ∀ x vd, recordedDevice b x = some vd → 0 ≤ x ∧ x < b.next_value_id
  memo : ∀ p x, b.memo p = some x → x < b.next_value_id
  bindings : ∀ v x, b.var_bindings v = some x → x < b.next_value_id
  nodes : ∀ node ∈ b.nodes, ∀ x ∈ node.input_values, x < b.next_value_id
  next : 0 ≤ b.next_value_id

/-- Values keep their devices. -/
structure Extends (b b' : PlanBuilder) : Prop where
  next : b.next_value_id ≤ b'.next_value_id
  recorded : ∀ x < b.next_value_id, recordedDevice b' x = recordedDevice b x

theorem Extends.refl (b : PlanBuilder) : Extends b b := ⟨Int.le_refl _, fun _ _ => rfl⟩

theorem Extends.trans {b b' b'' : PlanBuilder} (h : Extends b b') (h' : Extends b' b'') :
    Extends b b'' :=
  ⟨Int.le_trans h.next h'.next, fun x hx =>
    (h'.recorded x (Int.lt_of_lt_of_le hx h.next)).trans (h.recorded x hx)⟩

/-- The outcome of a visit: a value with the device that the visit on devices finds. -/
structure VisitTracks (pass_ctx : PassContext) (τ : Heap) (b : PlanBuilder)
    (r : Option VirtualDevice × DeviceState) (x : Int) (b' : PlanBuilder) : Prop where
  tracks : Tracks pass_ctx τ b' r.2
  extends_ : Extends b b'
  device : recordedDevice b' x = r.1
  lt : x < b'.next_value_id

theorem kernelDevices_congr {b b' : PlanBuilder} (hnodes : b'.nodes = b.nodes)
    (h : ∀ node ∈ b.nodes, ∀ x ∈ node.input_values, recordedDevice b' x = recordedDevice b x) :
    kernelDevices b' = kernelDevices b := by
  unfold kernelDevices
  rw [hnodes]
  refine List.filterMap_congr fun node hnode => ?_
  cases node with
  | kernel op_name symbol inputs outputs workers =>
    exact congrArg (fun devices => some (devices, workers)) (List.map_congr_left (h _ hnode))
  | comm | barrier => rfl

/-- A builder that only records devices of new values tracks what it tracked before. -/
theorem Tracks.extend {pass_ctx : PassContext} {τ : Heap} {b b' : PlanBuilder} {st : DeviceState}
    (h : Tracks pass_ctx τ b st) (he : Extends b b') (hmemo : b'.memo = b.memo)
    (hbindings : b'.var_bindings = b.var_bindings) (hnodes : b'.nodes = b.nodes)
    (hrecorded : ∀ x vd, recordedDevice b' x = some vd → 0 ≤ x ∧ x < b'.next_value_id) :
    Tracks pass_ctx τ b' st where
  known p := by
    rw [h.known, hmemo]
    exact Option.map_congr fun x hx => (he.recorded x (h.memo p x hx)).symm
  bound v := by
    rw [h.bound, hbindings]
    cases hx : b.var_bindings v with
    | none => rfl
    | some x => exact (he.recorded x (h.bindings v x hx)).symm
  kernels := by
    rw [← h.kernels]
    exact kernelDevices_congr hnodes fun node hnode x hx => he.recorded x (h.nodes node hnode x hx)
  recorded := hrecorded
  memo p x hx := Int.lt_of_lt_of_le (h.memo p x (hmemo ▸ hx)) he.next
  bindings v x hx := Int.lt_of_lt_of_le (h.bindings v x (hbindings ▸ hx)) he.next
  nodes node hnode x hx := Int.lt_of_lt_of_le (h.nodes node (hnodes ▸ hnode) x hx) he.next
  next := Int.le_trans h.next he.next

theorem lookup_setDevice_self {devices : Map Int VirtualDevice} {value_id : Int}
    {device : Option VirtualDevice} (h : devices.lookup value_id = none) :
    (setDevice devices value_id device).lookup value_id = device := by
  cases device with
  | none => exact h
  | some vd => exact AList.lookup_insert _

theorem lookup_setDevice_ne {devices : Map Int VirtualDevice} {value_id x : Int}
    {device : Option VirtualDevice} (h : x ≠ value_id) :
    (setDevice devices value_id device).lookup x = devices.lookup x := by
  cases device with
  | none => rfl
  | some vd => exact AList.lookup_insert_ne h

theorem Extends.of_devices {b b' : PlanBuilder} (hnext : b'.next_value_id = b.next_value_id)
    (hdevices : b'.value_virtual_devices = b.value_virtual_devices) : Extends b b' :=
  ⟨Int.le_of_eq hnext.symm, fun x _ => by rw [recordedDevice, hdevices, recordedDevice]⟩

/-- Writing other fields changes nothing that is tracked. -/
theorem Tracks.congr {pass_ctx : PassContext} {τ : Heap} {b b' : PlanBuilder} {st : DeviceState}
    (h : Tracks pass_ctx τ b st) (hmemo : b'.memo = b.memo)
    (hbindings : b'.var_bindings = b.var_bindings) (hnodes : b'.nodes = b.nodes)
    (hnext : b'.next_value_id = b.next_value_id)
    (hdevices : b'.value_virtual_devices = b.value_virtual_devices) :
    Tracks pass_ctx τ b' st := by
  refine h.extend (.of_devices hnext hdevices) hmemo hbindings hnodes fun x vd hx => ?_
  rw [hnext]
  exact h.recorded x vd (by rw [recordedDevice, ← hdevices]; exact hx)

theorem AllocateValue_tracks {pass_ctx : PassContext} {τ : Heap} {e : Expr} {b : PlanBuilder}
    {st : DeviceState} (h : Tracks pass_ctx τ b st) :
    Ensures (AllocateValue τ e) b
      (VisitTracks pass_ctx τ b (GetVirtualDeviceFromExpr τ e, st)) := by
  simp only [AllocateValue, outcome_bind, outcome_get, outcome_ite, outcome_pure, outcome_throw,
    outcome_set, implies_true, true_and]
  intro _
  have hnext := h.next
  have hnone : recordedDevice b b.next_value_id = none := by
    cases hx : recordedDevice b b.next_value_id with
    | none => rfl
    | some vd => exact absurd (h.recorded _ vd hx).2 (Int.lt_irrefl _)
  generalize hdevices : setDevice b.value_virtual_devices b.next_value_id
    (GetVirtualDeviceFromExpr τ e) = devices
  have hself : devices.lookup b.next_value_id = GetVirtualDeviceFromExpr τ e := by
    rw [← hdevices]
    exact lookup_setDevice_self hnone
  have hother : ∀ x ≠ b.next_value_id, devices.lookup x = recordedDevice b x := by
    intro x hx
    rw [← hdevices]
    exact lookup_setDevice_ne hx
  have he : Extends b { b with
      next_value_id := b.next_value_id + 1, value_virtual_devices := devices } :=
    ⟨Int.le_of_lt (Int.lt_succ _), fun x hx => hother x (Int.ne_of_lt hx)⟩
  refine ⟨h.extend he rfl rfl rfl fun x vd hx => ?_, he, hself, Int.lt_succ _⟩
  by_cases hx' : x = b.next_value_id
  · rw [hx']
    exact ⟨hnext, Int.lt_succ _⟩
  · have hlt := h.recorded x vd ((hother x hx').symm.trans hx)
    exact ⟨hlt.1, Int.lt_trans hlt.2 (Int.lt_succ _)⟩

/-- The workers of a kernel are found from the devices of its expression and its inputs. -/
theorem ResolveComputeWorkerSet_eq (pass_ctx : PassContext) (τ : Heap) (ref : Expr)
    (inputs : List Int) (b : PlanBuilder) :
    ResolveComputeWorkerSet pass_ctx τ ref inputs b =
      KernelDevices.worker_set pass_ctx
        ⟨GetVirtualDeviceFromExpr τ ref, inputs.map (recordedDevice b)⟩ := by
  simp only [ResolveComputeWorkerSet, KernelDevices.worker_set, List.findSome?_map]
  rfl

theorem emitKernel_tracks {pass_ctx : PassContext} {τ : Heap} {ref : Expr} {op_name : String}
    {inputs : List Int} {devices : List (Option VirtualDevice)} {b : PlanBuilder}
    {st : DeviceState} (h : Tracks pass_ctx τ b st)
    (hlt : ∀ x ∈ inputs, x < b.next_value_id)
    (hdevices : inputs.map (recordedDevice b) = devices) :
    Ensures (emitKernel pass_ctx τ ref op_name inputs) b (VisitTracks pass_ctx τ b
      (GetVirtualDeviceFromExpr τ ref, st.emit (GetVirtualDeviceFromExpr τ ref) devices)) := by
  simp only [emitKernel, pushNode, outcome_bind, outcome_get, outcome_modify, outcome_pure]
  refine (AllocateValue_tracks h).mono fun x b1 h1 => ?_
  have hdevices1 : inputs.map (recordedDevice b1) = devices := by
    rw [← hdevices]
    exact List.map_congr_left fun y hy => h1.extends_.recorded y (hlt y hy)
  refine ⟨⟨h1.tracks.known, h1.tracks.bound, ?_, h1.tracks.recorded, h1.tracks.memo,
    h1.tracks.bindings, fun node hnode y hy => ?_, h1.tracks.next⟩,
    ⟨h1.extends_.next, h1.extends_.recorded⟩, h1.device, h1.lt⟩
  · have hkernels := h1.tracks.kernels
    unfold kernelDevices at hkernels ⊢
    rw [List.filterMap_append, DeviceState.emit, List.map_append]
    refine congrArg₂ _ hkernels ?_
    rw [ResolveComputeWorkerSet_eq, hdevices1]
    exact congrArg (fun d => [(d, _)]) hdevices1
  · rcases List.mem_append.mp hnode with hnode | hnode
    · exact h1.tracks.nodes node hnode y hy
    · rw [List.mem_singleton] at hnode
      subst hnode
      exact Int.lt_of_lt_of_le (hlt y hy) h1.extends_.next

theorem emitComm_tracks {pass_ctx : PassContext} {τ : Heap} {ref : Expr} {op_name : String}
    {args : List Expr} {attrs : Option Attrs} {origin : Nat} {inputs : List Int}
    {b : PlanBuilder} {st : DeviceState} (h : Tracks pass_ctx τ b st)
    (hlt : ∀ x ∈ inputs, x < b.next_value_id) :
    Ensures (emitComm pass_ctx τ ref op_name args attrs origin inputs) b
      (VisitTracks pass_ctx τ b (GetVirtualDeviceFromExpr τ ref, st)) := by
  simp only [emitComm, pushNode, outcome_bind, outcome_get, outcome_modify, outcome_pure]
  refine (AllocateValue_tracks h).mono fun x b1 h1 => ?_
  refine ⟨⟨h1.tracks.known, h1.tracks.bound, ?_, h1.tracks.recorded, h1.tracks.memo,
    h1.tracks.bindings, fun node hnode y hy => ?_, h1.tracks.next⟩,
    ⟨h1.extends_.next, h1.extends_.recorded⟩, h1.device, h1.lt⟩
  · have hkernels := h1.tracks.kernels
    unfold kernelDevices at hkernels ⊢
    rw [List.filterMap_append, ← hkernels]
    exact List.append_nil _
  · rcases List.mem_append.mp hnode with hnode | hnode
    · exact h1.tracks.nodes node hnode y hy
    · rw [List.mem_singleton] at hnode
      subst hnode
      exact Int.lt_of_lt_of_le (hlt y hy) h1.extends_.next

/-- A visit around which the memo table is read and written. -/
theorem memoized_tracks {pass_ctx : PassContext} {τ : Heap} {e : Expr} {visit : BuildM Int}
    {deviceVisit : DeviceState → Option VirtualDevice × DeviceState} {b : PlanBuilder}
    {st : DeviceState} (h : Tracks pass_ctx τ b st)
    (hvisit : Ensures visit b (VisitTracks pass_ctx τ b (deviceVisit st))) :
    Ensures (memoized e.ptr visit) b
      (VisitTracks pass_ctx τ b (rememberDevice τ.reader e deviceVisit st)) := by
  have hreader : rememberDevice τ.reader e deviceVisit st =
      match st.known e.ptr with
      | some device => (device, st)
      | none => ((deviceVisit st).1, (deviceVisit st).2.learn e.ptr (deviceVisit st).1) := rfl
  simp only [memoized, outcome_bind, outcome_get, hreader]
  have hknown := h.known e.ptr
  split
  · rename_i x hx
    rw [hx] at hknown
    rw [hknown]
    exact ⟨h, .refl b, rfl, h.memo e.ptr x hx⟩
  · rename_i hx
    rw [hx] at hknown
    rw [hknown]
    simp only [outcome_bind, outcome_modify, outcome_pure, Option.map_none]
    refine hvisit.mono fun x b' h' => ?_
    have ht := h'.tracks
    refine ⟨⟨fun q => ?_, ht.bound, ht.kernels, ht.recorded, fun q y hy => ?_, ht.bindings,
      ht.nodes, ht.next⟩, ⟨h'.extends_.next, h'.extends_.recorded⟩, h'.device, h'.lt⟩
    · by_cases hq : q = e.ptr
      · rw [hq]
        simp only [DeviceState.learn, Function.update_self, Option.map_some, Option.some_inj]
        exact h'.device.symm
      · simp only [DeviceState.learn, Function.update_of_ne hq]
        exact ht.known q
    · by_cases hq : q = e.ptr
      · rw [hq] at hy
        simp only [Function.update_self, Option.some_inj] at hy
        exact hy ▸ h'.lt
      · simp only [Function.update_of_ne hq] at hy
        exact ht.memo q y hy

theorem VisitConstant_tracks {pass_ctx : PassContext} {τ : Heap} {ref : Expr}
    {data : Option NDArray} {b : PlanBuilder} {st : DeviceState} (h : Tracks pass_ctx τ b st) :
    Ensures (VisitConstant τ ref data) b
      (VisitTracks pass_ctx τ b (GetVirtualDeviceFromExpr τ ref, st)) := by
  simp only [VisitConstant, outcome_bind, outcome_modify]
  refine (AllocateValue_tracks h).mono fun x b1 h1 => ?_
  split <;> exact ⟨h1.tracks.congr rfl rfl rfl rfl rfl, ⟨h1.extends_.next, h1.extends_.recorded⟩,
    h1.device, h1.lt⟩

theorem VisitVar_tracks {pass_ctx : PassContext} {τ : Heap} {v : Var} {b : PlanBuilder}
    {st : DeviceState} (h : Tracks pass_ctx τ b st) :
    Ensures (VisitVar τ v) b (VisitTracks pass_ctx τ b (st.bound v.id, st)) := by
  have hbound := h.bound v.id
  simp only [VisitVar, outcome_bind, outcome_get]
  split
  · rename_i x hx
    rw [hx] at hbound
    exact ⟨h, .refl b, hbound.symm, h.bindings v.id x hx⟩
  · rename_i hx
    rw [hx] at hbound
    rw [hbound]
    exact AllocateValue_tracks h

/-- A binding is tracked with the device of its value, and without one with that of the
variable. -/
theorem Tracks.bind {pass_ctx : PassContext} {τ : Heap} {b : PlanBuilder} {st : DeviceState}
    (h : Tracks pass_ctx τ b st) (v : Var) (value : Option Int)
    (hlt : ∀ x ∈ value, x < b.next_value_id) :
    Tracks pass_ctx τ { b with var_bindings := Function.update b.var_bindings v.id value }
      (st.bind v (match value with
        | some x => recordedDevice b x
        | none => GetVirtualDeviceFromExpr τ (.var v))) where
  known := h.known
  bound w := by
    by_cases hw : w = v.id
    · subst hw
      simp only [DeviceState.bind, Function.update_self]
      cases value <;> rfl
    · simp only [DeviceState.bind, Function.update_of_ne hw]
      exact h.bound w
  kernels := h.kernels
  recorded := h.recorded
  memo := h.memo
  bindings w x hx := by
    by_cases hw : w = v.id
    · subst hw
      exact hlt x (by simpa using hx)
    · exact h.bindings w x (by simpa [Function.update_of_ne hw] using hx)
  nodes := h.nodes
  next := h.next

/-- The outcome of the visits of a list: values with the devices that `deviceVisitList` finds. -/
structure VisitListTracks (pass_ctx : PassContext) (τ : Heap) (b : PlanBuilder)
    (r : List (Option VirtualDevice) × DeviceState) (xs : List Int) (b' : PlanBuilder) :
    Prop where
  tracks : Tracks pass_ctx τ b' r.2
  extends_ : Extends b b'
  devices : xs.map (recordedDevice b') = r.1
  lt : ∀ x ∈ xs, x < b'.next_value_id

theorem VisitList_tracks {pass_ctx : PassContext} {τ : Heap} {es : List Expr}
    (hvisit : ∀ e ∈ es, ∀ b st, Tracks pass_ctx τ b st →
      Ensures (Visit pass_ctx τ e) b (VisitTracks pass_ctx τ b (deviceVisit τ.reader e st)))
    {b : PlanBuilder} {st : DeviceState} (h : Tracks pass_ctx τ b st) :
    Ensures (VisitList pass_ctx τ es) b
      (VisitListTracks pass_ctx τ b (deviceVisitList τ.reader es st)) := by
  induction es generalizing b st with
  | nil => exact ⟨h, .refl b, rfl, by simp⟩
  | cons e es ih =>
    simp only [VisitList, outcome_bind, outcome_pure]
    refine (hvisit e (by simp) b st h).mono fun x b1 h1 => ?_
    have hrest := ih (fun a ha => hvisit a (by simp [ha])) h1.tracks
    refine hrest.mono fun xs b2 h2 => ⟨h2.tracks, h1.extends_.trans h2.extends_, ?_, ?_⟩
    · exact congrArg₂ _ ((h2.extends_.recorded x h1.lt).trans h1.device) h2.devices
    · exact List.forall_mem_cons.mpr ⟨Int.lt_of_lt_of_le h1.lt h2.extends_.next, h2.lt⟩

theorem VisitListTracks.then {pass_ctx : PassContext} {τ : Heap} {b b1 b2 : PlanBuilder}
    {r1 : List (Option VirtualDevice) × DeviceState} {r2 : Option VirtualDevice × DeviceState}
    {xs : List Int} {x : Int} (h1 : VisitListTracks pass_ctx τ b r1 xs b1)
    (h2 : VisitTracks pass_ctx τ b1 r2 x b2) : VisitTracks pass_ctx τ b r2 x b2 :=
  ⟨h2.tracks, h1.extends_.trans h2.extends_, h2.device, h2.lt⟩

theorem VisitTracks.then {pass_ctx : PassContext} {τ : Heap} {b b1 b2 : PlanBuilder}
    {r1 r2 : Option VirtualDevice × DeviceState} {x y : Int}
    (h1 : VisitTracks pass_ctx τ b r1 x b1) (h2 : VisitTracks pass_ctx τ b1 r2 y b2) :
    VisitTracks pass_ctx τ b r2 y b2 :=
  ⟨h2.tracks, h1.extends_.trans h2.extends_, h2.device, h2.lt⟩

/-- The builder records for every value the device that the visit on devices finds. -/
theorem Visit_tracks {pass_ctx : PassContext} {τ : Heap} {e : Expr} {b : PlanBuilder}
    {st : DeviceState} (h : Tracks pass_ctx τ b st) :
    Ensures (Visit pass_ctx τ e) b (VisitTracks pass_ctx τ b (deviceVisit τ.reader e st)) := by
  induction e using Expr.induction generalizing b st with
  | undef =>
    refine ⟨h, .refl b, ?_, Int.lt_of_lt_of_le (by decide) h.next⟩
    cases hx : recordedDevice b (-1) with
    | none => rfl
    | some vd => exact absurd (h.recorded _ vd hx).1 (by decide)
  | constant id data =>
    simp only [Visit, deviceVisit]
    exact memoized_tracks (e := .constant id data) h (VisitConstant_tracks h)
  | var v =>
    simp only [Visit, deviceVisit]
    exact memoized_tracks (e := .var v) h (VisitVar_tracks h)
  | op id name =>
    simp only [Visit, deviceVisit]
    exact memoized_tracks (e := .op id name) h trivial
  | call id callee args attrs origin _ iha =>
    simp only [Visit, deviceVisit]
    refine memoized_tracks (e := .call id callee args attrs origin) h ?_
    simp only [outcome_bind, outcome_ite, outcome_throw, implies_true, true_and]
    intro _
    have hargs := VisitList_tracks (fun a ha b st h => iha a ha h) h
    refine hargs.mono fun xs b1 h1 => ⟨fun hcomm => ?_, fun hcomm => ?_⟩
    · simp only [if_pos hcomm]
      exact (emitComm_tracks h1.tracks h1.lt).mono fun x b2 h2 => h1.then h2
    · have hdevices : xs.map (recordedDevice b1) = List.zipWith
          (τ.reader.operand (.call id callee args attrs origin)) args
          (deviceVisitList τ.reader args st).1 := by
        rw [h1.devices]
        exact (zipWith_operand τ _ args st).symm
      simp only [if_neg hcomm]
      exact (emitKernel_tracks h1.tracks h1.lt hdevices).mono fun x b2 h2 => h1.then h2
  | function id params body ih =>
    simp only [Visit, deviceVisit]
    exact memoized_tracks (e := .function id params body) h (ih h)
  | ifE id c t f =>
    simp only [Visit, deviceVisit]
    exact memoized_tracks (e := .ifE id c t f) h trivial
  | letE id v value body ihv ihb =>
    simp only [Visit, deviceVisit]
    refine memoized_tracks (e := .letE id v value body) h ?_
    simp only [bindVar, outcome_bind, outcome_modify, outcome_pure]
    refine (ihv h).mono fun x b1 h1 => ?_
    have hbound := h1.tracks.bind v (some x) (by simpa using h1.lt)
    simp only [h1.device] at hbound
    refine (ihb hbound).mono fun y b2 h2 => ?_
    exact h1.then ⟨h2.tracks.bind v none (by simp), ⟨h2.extends_.next, h2.extends_.recorded⟩,
      h2.device, h2.lt⟩
  | tuple id fields ih =>
    simp only [Visit, deviceVisit]
    refine memoized_tracks (e := .tuple id fields) h ?_
    simp only [outcome_bind]
    refine (VisitList_tracks (fun a ha b st h => ih a ha h) h).mono fun xs b1 h1 => ?_
    exact (emitKernel_tracks h1.tracks h1.lt h1.devices).mono fun x b2 h2 => h1.then h2
  | tupleGetItem id t index ih =>
    simp only [Visit, deviceVisit]
    refine memoized_tracks (e := .tupleGetItem id t index) h ?_
    simp only [outcome_bind]
    refine (ih h).mono fun x b1 h1 => ?_
    have hdevices : [x].map (recordedDevice b1) = [(deviceVisit τ.reader t st).1] :=
      congrArg (fun d => [d]) h1.device
    exact (emitKernel_tracks h1.tracks (by simpa using h1.lt) hdevices).mono fun y b2 h2 =>
      h1.then h2

/-- The parameters are bound to values with their own devices. -/
theorem VisitParams_tracks {pass_ctx : PassContext} {τ : Heap} {params : List Var}
    {b : PlanBuilder} (h : Tracks pass_ctx τ b (.start τ)) :
    Ensures (VisitParams τ params) b fun _ b' => Tracks pass_ctx τ b' (.start τ) := by
  induction params generalizing b with
  | nil => exact h
  | cons param params ih =>
    simp only [VisitParams, bindVar, outcome_bind, outcome_modify]
    refine (AllocateValue_tracks (e := .var param) h).mono fun x b1 h1 => ?_
    have hbound := h1.tracks.bind param (some x) (by simpa using h1.lt)
    simp only [h1.device] at hbound
    have hstart : (DeviceState.start τ).bind param (GetVirtualDeviceFromExpr τ (.var param)) =
        .start τ :=
      congrArg (fun bound => { DeviceState.start τ with bound }) (Function.update_eq_self _ _)
    rw [hstart] at hbound
    unfold CaptureValueInfoFromType
    split <;> exact ih (hbound.congr rfl rfl rfl rfl rfl)

theorem Tracks.empty (pass_ctx : PassContext) (τ : Heap) :
    Tracks pass_ctx τ {} (.start τ) :=
  ⟨fun _ => rfl, fun _ => rfl, rfl, fun x vd hx => (by cases hx), fun p x hx => (by cases hx),
    fun v x hx => (by cases hx), by simp, Int.le_refl _⟩

end RelayToExecPlanBuilder

end Kxc.Relay

namespace Kxc

open Relay Lib Disco

/-- The devices recorded for the inputs of the kernel nodes of a plan, and the workers of each. -/
def ExecutionPlan.kernelDevices (plan : ExecutionPlan) :
    List (List (Option VirtualDevice) × List Int32) :=
  plan.nodes.filterMap fun
    | .kernel _ _ inputs _ workers =>
      some (inputs.map fun x => plan.value_virtual_devices.lookup x, workers)
    | _ => none

/-- The executor finds each input of a kernel node that has a virtual device on a worker that runs
the kernel. -/
def ExecutionPlan.KernelsLocal (plan : ExecutionPlan) : Prop :=
  ∀ op_name symbol inputs outputs workers,
    .kernel op_name symbol inputs outputs workers ∈ plan.nodes →
    ∀ x ∈ inputs, plan.value_virtual_devices.lookup x ≠ none →
      ExecutionPlanExecutor.ResolveWorkerForValue plan x ∈ workers

theorem ExecutionPlan.kernelsLocal_iff {plan : ExecutionPlan} :
    plan.KernelsLocal ↔ ∀ k ∈ plan.kernelDevices, ∀ vd, some vd ∈ k.1 →
      ExecutionPlanExecutor.ResolveWorkerForVirtualDevice plan.pass_ctx vd ∈ k.2 := by
  have hvalue : ∀ x vd, plan.value_virtual_devices.lookup x = some vd →
      ExecutionPlanExecutor.ResolveWorkerForValue plan x =
        ExecutionPlanExecutor.ResolveWorkerForVirtualDevice plan.pass_ctx vd := by
    intro x vd hx
    rw [ExecutionPlanExecutor.ResolveWorkerForValue, hx]
  constructor
  · intro h k hk vd hvd
    obtain ⟨node, hnode, hk⟩ := List.mem_filterMap.mp hk
    cases node with
    | kernel op_name symbol inputs outputs workers =>
      obtain rfl := Option.some_inj.mp hk
      obtain ⟨x, hx, hlookup⟩ := List.mem_map.mp hvd
      rw [← hvalue x vd hlookup]
      exact h _ _ _ _ _ hnode x hx (by rw [hlookup]; exact Option.some_ne_none vd)
    | comm | barrier => cases hk
  · intro h op_name symbol inputs outputs workers hnode x hx hlookup
    obtain ⟨vd, hvd⟩ := Option.ne_none_iff_exists'.mp hlookup
    rw [hvalue x vd hvd]
    exact h _ (List.mem_filterMap.mpr ⟨_, hnode, rfl⟩) vd (List.mem_map.mpr ⟨x, hx, hvd⟩)

namespace Relay

/-- Every input of a kernel is found by the executor on a worker that the builder gives it. -/
def KernelDevices.Local (pass_ctx : PassContext) (k : KernelDevices) : Prop :=
  ∀ vd, some vd ∈ k.inputs →
    ExecutionPlanExecutor.ResolveWorkerForVirtualDevice pass_ctx vd ∈ k.worker_set pass_ctx

/-- The kernel nodes of a plan are the kernels that the visit on devices finds in the body. -/
theorem RelayToExecPlanBuilder.Build_kernelsLocal {pass_ctx : PassContext} {τ : Heap}
    {func : Function} {plan : ExecutionPlan} (h : Build pass_ctx τ func = .ok plan) :
    plan.KernelsLocal ↔
      ∀ k ∈ (deviceVisit τ.reader func.body (.start τ)).2.kernels, k.Local pass_ctx := by
  have hrun : Ensures (do VisitParams τ func.params; Visit pass_ctx τ func.body) {}
      fun _ b => Tracks pass_ctx τ b (deviceVisit τ.reader func.body (.start τ)).2 := by
    simp only [outcome_bind]
    refine (VisitParams_tracks (.empty pass_ctx τ)).mono fun _ b1 h1 => ?_
    exact (Visit_tracks h1).mono fun _ b2 h2 => h2.tracks
  unfold Build at h
  cases hb : (do VisitParams τ func.params; Visit pass_ctx τ func.body :
      BuildM Int).run {} with
  | error e => rw [hb] at h; cases h
  | ok p =>
    rw [hb] at h
    cases h
    have hkernels := (hrun.of_ok hb).kernels
    rw [ExecutionPlan.kernelsLocal_iff]
    change (∀ k ∈ kernelDevices p.2, ∀ vd, some vd ∈ k.1 →
      ExecutionPlanExecutor.ResolveWorkerForVirtualDevice pass_ctx vd ∈ k.2) ↔ _
    rw [hkernels]
    exact List.forall_mem_map

end Relay

end Kxc
