import Kxc.Base.ExecutionPlan

/-! Lowering of a Relay function to an execution plan (`relay/transforms/multi_device.cc`): a
mutator that inserts and normalises communication calls, and a memoising visitor that numbers the
values and emits the nodes of the plan. -/

namespace Kxc.Relay

/-- `ResolveWorkerForVirtualDevice` of the plan builder. -/
def ResolveWorkerForVirtualDevice (pass_ctx : PassContext) (vd : Option VirtualDevice) : Int32 :=
  if vd.isNone then -1
  else if pass_ctx.disco_placement.isSome then
    FindWorkerForVirtualDevice pass_ctx.disco_placement vd
  else
    match pass_ctx.default_device_obj with
    | some dev => dev.device_id
    | none => 0

def WorkerSetFromVirtualDevice (pass_ctx : PassContext) (vd : Option VirtualDevice) :
    List Int32 :=
  let worker := ResolveWorkerForVirtualDevice pass_ctx vd
  if worker < 0 then [0] else [worker]

def PushUniqueWorker (workers : List Int32) (worker_id : Int32) : List Int32 :=
  if worker_id < 0 ∨ worker_id ∈ workers then workers else workers ++ [worker_id]

def DTypeToString (dtype : DLDataType) : String :=
  let unit :=
    if dtype.code = kDLFloat then "float"
    else if dtype.code = kDLInt then "int"
    else if dtype.code = kDLUint then if dtype.bits = 1 then "bool" else "uint"
    else "unknown"
  if unit = "bool" then "bool"
  else if 1 < dtype.lanes then s!"{unit}{dtype.bits.toNat}x{dtype.lanes.toNat}"
  else s!"{unit}{dtype.bits.toNat}"

namespace DeviceCommunicationInserter

/-- The attributes and the virtual device of `NormalizeCommunicationCall`, where `own` is the
virtual device of the call and `arg` that of its first argument. -/
def normalizedAttrs (op_name : String) (attrs : Option Attrs) (own arg : Option VirtualDevice) :
    Attrs × Option VirtualDevice :=
  if op_name = "device.copy" then
    match attrs with
    | some (.deviceCopy src dst async in_group) =>
      (.deviceCopy (src.or arg) (dst.or own) async in_group, dst.or own)
    | _ => (.deviceCopy arg own false true, own)
  else
    match attrs with
    | some (.collective kind reduce_kind in_group group_id root_worker) =>
      (.collective (if kind = "" then op_name else kind) reduce_kind in_group group_id root_worker,
        own)
    | _ => (.collective op_name "sum" true 0 0, own)

/-- The virtual device of the first argument. -/
def firstArgDevice (σ : Heap) (args : List Expr) : Option VirtualDevice :=
  args.head?.bind (GetVirtualDeviceFromExpr σ)

/-- `NormalizeCommunicationCall` of the call `ref`: always a new node. -/
def NormalizeCommunicationCall (op_name : String) (ref op : Expr) (args : List Expr)
    (attrs : Option Attrs) (origin : Nat) (σ : Heap) : Expr × Heap :=
  let normalized := normalizedAttrs op_name attrs (GetVirtualDeviceFromExpr σ ref)
    (firstArgDevice σ args)
  σ.new (fun i => .call i op args (some normalized.1) origin)
    { virtual_device_ := normalized.2 }

/-- Whether `VisitCall` puts a copy between an argument and its consumer. -/
def needsCopy (producer_vd consumer_vd : Option VirtualDevice) : Bool :=
  producer_vd.isSome && !SameVirtualDevice producer_vd consumer_vd

/-- The variables of the loop of `VisitCall` over the arguments. -/
structure CopiedArgs where
  new_args : List Expr
  changed : Bool
  heap : Heap

/-- The copy of `arg` to `consumer_vd` that `VisitCall` makes. -/
def copyCall (consumer_vd : Option VirtualDevice) (arg : Expr) (σ : Heap) : Expr × Heap :=
  σ.new (fun i => .call i (Op.Get σ "device.copy") [arg]
    (some (.deviceCopy (GetVirtualDeviceFromExpr σ arg) consumer_vd false true)) i)
    { virtual_device_ := consumer_vd }

/-- The loop of `VisitCall` over the arguments of a consumer on `consumer_vd`. -/
def copyArgs (consumer_vd : Option VirtualDevice) : List Expr → Heap → CopiedArgs
  | [], σ => ⟨[], false, σ⟩
  | arg :: args, σ =>
    if needsCopy (GetVirtualDeviceFromExpr σ arg) consumer_vd then
      let copy_call := copyCall consumer_vd arg σ
      let rest := copyArgs consumer_vd args copy_call.2
      ⟨copy_call.1 :: rest.new_args, true, rest.heap⟩
    else
      let rest := copyArgs consumer_vd args σ
      ⟨arg :: rest.new_args, rest.changed, rest.heap⟩

/-- `VisitCall` after `RelayPass::VisitCall`. -/
def post : RelayPass.Post := fun _ rewritten σ =>
  match rewritten with
  | .call _ op args attrs origin =>
    let op_name := GetCallOpName op
    if op_name = "" then (rewritten, σ)
    else if IsCommunicationOpName op_name then
      NormalizeCommunicationCall op_name rewritten op args attrs origin σ
    else
      let consumer_vd := GetVirtualDeviceFromExpr σ rewritten
      if consumer_vd.isNone then (rewritten, σ)
      else
        let copied := copyArgs consumer_vd args σ
        if copied.changed then
          copied.heap.new (fun i => .call i op copied.new_args attrs origin)
            { virtual_device_ := consumer_vd }
        else (rewritten, copied.heap)
  | _ => (rewritten, σ)

/-- A copy is a new call of `device.copy` on its argument. -/
theorem copyCall_spec (consumer_vd : Option VirtualDevice) (arg : Expr) (σ : Heap) :
    (copyCall consumer_vd arg σ).1.ptr = σ.next ∧
      (copyCall consumer_vd arg σ).1.children = [Op.Get σ "device.copy", arg] ∧
      (copyCall consumer_vd arg σ).2.next = σ.next + 1 ∧
      σ.Grows (copyCall consumer_vd arg σ).2 :=
  ⟨rfl, rfl, rfl, σ.grows_new _ _⟩

/-- One round of the loop: the argument is copied, or kept on the heap as it is. -/
theorem copyArgs_cons (consumer_vd : Option VirtualDevice) (arg : Expr) (args : List Expr)
    (σ : Heap) :
    (needsCopy (GetVirtualDeviceFromExpr σ arg) consumer_vd = false ∧
        let rest := copyArgs consumer_vd args σ
        copyArgs consumer_vd (arg :: args) σ = ⟨arg :: rest.new_args, rest.changed, rest.heap⟩) ∨
      (needsCopy (GetVirtualDeviceFromExpr σ arg) consumer_vd = true ∧
        let copy_call := copyCall consumer_vd arg σ
        let rest := copyArgs consumer_vd args copy_call.2
        copyArgs consumer_vd (arg :: args) σ = ⟨copy_call.1 :: rest.new_args, true, rest.heap⟩) := by
  cases h : needsCopy (GetVirtualDeviceFromExpr σ arg) consumer_vd with
  | false => exact Or.inl ⟨rfl, by simp [copyArgs, h]⟩
  | true => exact Or.inr ⟨rfl, by simp [copyArgs, h]⟩

theorem copyArgs_unchanged {consumer_vd : Option VirtualDevice} {args : List Expr} {σ : Heap}
    (h : (copyArgs consumer_vd args σ).changed = false) :
    (copyArgs consumer_vd args σ).new_args = args ∧ (copyArgs consumer_vd args σ).heap = σ := by
  induction args generalizing σ with
  | nil => exact ⟨rfl, rfl⟩
  | cons arg args ih =>
    rcases copyArgs_cons consumer_vd arg args σ with ⟨-, heq⟩ | ⟨-, heq⟩
    · rw [heq] at h ⊢
      exact ⟨congrArg _ (ih h).1, (ih h).2⟩
    · rw [heq] at h
      cases h

theorem copyArgs_grows (consumer_vd : Option VirtualDevice) (args : List Expr) (σ : Heap) :
    σ.Grows (copyArgs consumer_vd args σ).heap := by
  induction args generalizing σ with
  | nil => exact .refl σ
  | cons arg args ih =>
    rcases copyArgs_cons consumer_vd arg args σ with ⟨-, heq⟩ | ⟨-, heq⟩
    · rw [heq]; exact ih σ
    · rw [heq]; exact (copyCall_spec consumer_vd arg σ).2.2.2.trans (ih _)

/-- What the inserter does with a call: a communication call is made anew with normalised
attributes, a call whose arguments need copies is made anew with the copies, and any other call is
kept. -/
theorem post_call (ref : Expr) (id : Nat) (op : Expr) (args : List Expr) (attrs : Option Attrs)
    (origin : Nat) (σ : Heap) :
    let rewritten := Expr.call id op args attrs origin
    let own := GetVirtualDeviceFromExpr σ rewritten
    let copied := copyArgs own args σ
    (IsCommunicationOpName (GetCallOpName op) = true ∧
        let normalized := normalizedAttrs (GetCallOpName op) attrs own (firstArgDevice σ args)
        post ref rewritten σ = σ.new (fun i => .call i op args (some normalized.1) origin)
          { virtual_device_ := normalized.2 }) ∨
      (IsCommunicationOpName (GetCallOpName op) = false ∧ GetCallOpName op ≠ "" ∧
        own.isSome = true ∧ copied.changed = true ∧
        post ref rewritten σ = copied.heap.new (fun i => .call i op copied.new_args attrs origin)
          { virtual_device_ := own }) ∨
      (IsCommunicationOpName (GetCallOpName op) = false ∧
        (GetCallOpName op = "" ∨ own.isSome = false ∨ copied.changed = false) ∧
        post ref rewritten σ = (rewritten, σ)) := by
  intro rewritten own copied
  by_cases hname : GetCallOpName op = ""
  · refine Or.inr (Or.inr ⟨by rw [hname]; rfl, Or.inl hname, ?_⟩)
    simp only [post, rewritten, hname, if_true]
  cases hcomm : IsCommunicationOpName (GetCallOpName op) with
  | true =>
    refine Or.inl ⟨rfl, ?_⟩
    simp only [post, rewritten, if_neg hname, if_pos hcomm, NormalizeCommunicationCall, own]
  | false =>
    refine Or.inr ?_
    have hpost : post ref rewritten σ =
        if own.isNone then (rewritten, σ)
        else if copied.changed then
          copied.heap.new (fun i => .call i op copied.new_args attrs origin)
            { virtual_device_ := own }
        else (rewritten, copied.heap) := by
      simp only [post, rewritten, if_neg hname, hcomm, own, copied, Bool.false_eq_true, if_false]
    cases hown : own with
    | none =>
      refine Or.inr ⟨rfl, Or.inr (Or.inl rfl), ?_⟩
      rw [hpost, hown]
      rfl
    | some vd =>
      cases hchanged : copied.changed with
      | true =>
        refine Or.inl ⟨rfl, hname, rfl, rfl, ?_⟩
        rw [hpost, hchanged, hown]
        rfl
      | false =>
        refine Or.inr ⟨rfl, Or.inr (Or.inr rfl), ?_⟩
        rw [hpost, hchanged, hown]
        exact congrArg (Prod.mk rewritten) (copyArgs_unchanged hchanged).2

end DeviceCommunicationInserter

def InsertDeviceCommunicationPass (func : Function) (σ : Heap) : Function × Heap :=
  RelayPass.mutateFunction DeviceCommunicationInserter.post func σ

/-- The fields of `RelayToExecPlanBuilder`. -/
structure PlanBuilder where
  nodes : List ExecNode := []
  value_virtual_devices : Map Int VirtualDevice := ∅
  input_value_ids : List Int := []
  constant_value_ids : List Int := []
  value_shapes : Map Int (List Int64) := ∅
  value_dtypes : Map Int String := ∅
  memo : Nat → Option Int := fun _ => none
  var_bindings : Nat → Option Int := fun _ => none
  next_value_id : Int := 0

namespace RelayToExecPlanBuilder

abbrev BuildM := StateT PlanBuilder (Except String)

/-- The largest `int`. -/
def INT_MAX : Int := 2147483647

/-- `value_virtual_devices_.Set` where the virtual device is defined. -/
def setDevice (devices : Map Int VirtualDevice) (value_id : Int) :
    Option VirtualDevice → Map Int VirtualDevice
  | some vd => devices.insert value_id vd
  | none => devices

/-- `AllocateValue`. Incrementing the largest `int` is undefined behaviour: the model stops. -/
def AllocateValue (σ : Heap) (e : Expr) : BuildM Int := do
  let b ← get
  let value_id := b.next_value_id
  if value_id = INT_MAX then
    throw "signed overflow of next_value_id_"
  set { b with
    next_value_id := value_id + 1
    value_virtual_devices :=
      setDevice b.value_virtual_devices value_id (GetVirtualDeviceFromExpr σ e) }
  return value_id

def CaptureValueInfoFromType (value_id : Int) (type : Option RelayType) : BuildM Unit :=
  match type with
  | some (.tensor shape dtype) =>
    modify fun b => { b with
      value_shapes := b.value_shapes.insert value_id shape
      value_dtypes := b.value_dtypes.insert value_id dtype }
  | _ => pure ()

/-- `value_virtual_devices_.at`, where there is an entry. -/
def recordedDevice (b : PlanBuilder) (value_id : Int) : Option VirtualDevice :=
  b.value_virtual_devices.lookup value_id

def ResolveComputeWorkerSet (pass_ctx : PassContext) (σ : Heap) (ref : Expr)
    (input_values : List Int) (b : PlanBuilder) : List Int32 :=
  WorkerSetFromVirtualDevice pass_ctx <|
    (GetVirtualDeviceFromExpr σ ref).or (input_values.findSome? (recordedDevice b))

/-- The workers that `ResolveCommunicationWorkerSet` finds from the call, before its fall-backs. -/
def communicationWorkers (pass_ctx : PassContext) (σ : Heap) (op_name : String) (ref : Expr)
    (args : List Expr) (attrs : Option Attrs) : List Int32 :=
  let own := GetVirtualDeviceFromExpr σ ref
  if op_name = "device.copy" then
    let arg := DeviceCommunicationInserter.firstArgDevice σ args
    let devices :=
      match attrs with
      | some (.deviceCopy src dst _ _) => (src.or arg, dst.or own)
      | _ => (arg, own)
    PushUniqueWorker
      (PushUniqueWorker [] (ResolveWorkerForVirtualDevice pass_ctx devices.1))
      (ResolveWorkerForVirtualDevice pass_ctx devices.2)
  else if op_name ∈ ["device.allreduce", "device.broadcast_from_worker0",
      "device.scatter_from_worker0", "device.gather_to_worker0"] then
    match pass_ctx.disco_placement with
    | some p => (p.workers.filterMap (·.map (·.worker_id))).foldl PushUniqueWorker []
    | none => []
  else if op_name ∈ ["device.send_to_worker", "device.recv_from_worker"] then
    PushUniqueWorker [] (ResolveWorkerForVirtualDevice pass_ctx own)
  else []

def ResolveCommunicationWorkerSet (pass_ctx : PassContext) (σ : Heap) (op_name : String)
    (ref : Expr) (args : List Expr) (attrs : Option Attrs) (input_values : List Int)
    (b : PlanBuilder) : List Int32 :=
  let workers := communicationWorkers pass_ctx σ op_name ref args attrs
  let workers :=
    if workers = [] then
      (input_values.filterMap (recordedDevice b)).foldl
        (fun ws vd => PushUniqueWorker ws (ResolveWorkerForVirtualDevice pass_ctx (some vd))) []
    else workers
  if workers = [] then [0] else workers

def pushNode (node : ExecNode) : BuildM Unit :=
  modify fun b => { b with nodes := b.nodes ++ [node] }

def VisitVar (σ : Heap) (v : Var) : BuildM Int := do
  match (← get).var_bindings v.id with
  | some value_id => return value_id
  | none => AllocateValue σ (.var v)

def VisitConstant (σ : Heap) (ref : Expr) (data : Option NDArray) : BuildM Int := do
  let value_id ← AllocateValue σ ref
  modify fun b => { b with constant_value_ids := b.constant_value_ids ++ [value_id] }
  match data with
  | some data =>
    modify fun b => { b with
      value_shapes := b.value_shapes.insert value_id data.shape
      value_dtypes := b.value_dtypes.insert value_id (DTypeToString data.dtype) }
  | none => pure ()
  return value_id

/-- `VisitCall`, `VisitTuple` and `VisitTupleGetItem` once the inputs have their values: a new
value for `ref` and the kernel that computes it. -/
def emitKernel (pass_ctx : PassContext) (σ : Heap) (ref : Expr) (op_name : String)
    (inputs : List Int) : BuildM Int := do
  let output ← AllocateValue σ ref
  let worker_set := ResolveComputeWorkerSet pass_ctx σ ref inputs (← get)
  pushNode (.kernel op_name "" inputs [output] worker_set)
  return output

/-- The communication branch of `VisitCall` once the inputs have their values. -/
def emitComm (pass_ctx : PassContext) (σ : Heap) (ref : Expr) (op_name : String)
    (args : List Expr) (attrs : Option Attrs) (origin : Nat) (inputs : List Int) :
    BuildM Int := do
  let output ← AllocateValue σ ref
  let worker_set := ResolveCommunicationWorkerSet pass_ctx σ op_name ref args attrs inputs (← get)
  pushNode (.comm op_name attrs inputs [output] worker_set origin)
  return output

/-- `Visit` around the `VisitX` of the node at address `id`. -/
def memoized (id : Nat) (visit : BuildM Int) : BuildM Int := do
  match (← get).memo id with
  | some value => return value
  | none =>
    let value ← visit
    modify fun b => { b with memo := Function.update b.memo id (some value) }
    return value

def bindVar (v : Var) (value : Option Int) : BuildM Unit :=
  modify fun b => { b with var_bindings := Function.update b.var_bindings v.id value }

mutual

/-- `Visit`. -/
def Visit (pass_ctx : PassContext) (σ : Heap) : Expr → BuildM Int
  | .undef => return -1
  | .constant id data => memoized id (VisitConstant σ (.constant id data) data)
  | .var v => memoized v.id (VisitVar σ v)
  | .op id _ => memoized id
      (throw "LowerRelayToExecPlanPass encountered an unsupported Relay node")
  | .call id op args attrs origin => memoized id do
    let op_name := GetCallOpName op
    if op_name = "" then
      throw "LowerRelayToExecPlanPass only supports Call.op=Op"
    let inputs ← VisitList pass_ctx σ args
    let ref := Expr.call id op args attrs origin
    if IsCommunicationOpName op_name then
      emitComm pass_ctx σ ref op_name args attrs origin inputs
    else
      emitKernel pass_ctx σ ref op_name inputs
  | .function id _ body => memoized id (Visit pass_ctx σ body)
  | .ifE id _ _ _ => memoized id
      (throw "LowerRelayToExecPlanPass does not support IfNode in phase-1")
  | .letE id v value body => memoized id do
    let value_id ← Visit pass_ctx σ value
    bindVar v (some value_id)
    let body_id ← Visit pass_ctx σ body
    bindVar v none
    return body_id
  | .tuple id fields => memoized id do
    let inputs ← VisitList pass_ctx σ fields
    emitKernel pass_ctx σ (.tuple id fields) "__make_tuple__" inputs
  | .tupleGetItem id t index => memoized id do
    let tuple_id ← Visit pass_ctx σ t
    emitKernel pass_ctx σ (.tupleGetItem id t index) s!"__tuple_getitem_{index.toInt}" [tuple_id]

/-- `Visit` of the elements of an array, from the first to the last. -/
def VisitList (pass_ctx : PassContext) (σ : Heap) : List Expr → BuildM (List Int)
  | [] => return []
  | e :: es => do
    let value ← Visit pass_ctx σ e
    let values ← VisitList pass_ctx σ es
    return value :: values

end

/-- The loop of `Build` over the parameters. -/
def VisitParams (σ : Heap) : List Var → BuildM Unit
  | [] => pure ()
  | param :: params => do
    let value_id ← AllocateValue σ (.var param)
    bindVar param (some value_id)
    modify fun b => { b with input_value_ids := b.input_value_ids ++ [value_id] }
    CaptureValueInfoFromType value_id param.type_annotation
    VisitParams σ params

/-- `Build`; the erasure of the parameters' bindings at its end is not observed. -/
def Build (pass_ctx : PassContext) (σ : Heap) (func : Function) : Except String ExecutionPlan := do
  let (out, b) ← (do VisitParams σ func.params; Visit pass_ctx σ func.body).run {}
  return {
    nodes := b.nodes
    value_virtual_devices := b.value_virtual_devices
    input_value_ids := b.input_value_ids
    constant_value_ids := b.constant_value_ids
    value_shapes := b.value_shapes
    value_dtypes := b.value_dtypes
    num_values := b.next_value_id
    pass_ctx
    output_value := out }

end RelayToExecPlanBuilder

/-- The context that `LowerRelayToExecPlanPass` runs in: the current one if it is defined. -/
def lowerContext (apis : DeviceAPIManager) (current : PassContext) (func : Function) (σ : Heap) :
    Except String PassContext :=
  if current.defined then .ok current else BuildDiscoPlacementPass apis func σ

/-- `LowerRelayToExecPlanPass` of a defined function. -/
def LowerRelayToExecPlanPass (apis : DeviceAPIManager) (current : PassContext) (func : Function)
    (σ : Heap) : Except String ExecutionPlan := do
  let pass_ctx ← lowerContext apis current func σ
  let with_comm := InsertDeviceCommunicationPass func σ
  RelayToExecPlanBuilder.Build pass_ctx with_comm.2 with_comm.1

end Kxc.Relay
