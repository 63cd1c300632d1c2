import Kxc.Base.ExecutionPlan
import Kxc.Base.Json
import Mathlib.Data.List.Dedup

/-! The JSON form of execution plans (`base/execution_plan.cc`). A text is the list of its
characters while it is written. The state of the reader is the address that the next virtual device
gets. -/

namespace Kxc.Json.J

/-! The fields of `J`, with their initial values where the kind is another one. -/

def b : J → Bool
  | B b => b
  | _ => false

def i : J → Int64
  | I i => i
  | _ => 0

def s : J → String
  | S s => s
  | _ => ""

def a : J → List J
  | A a => a
  | _ => []

def o : J → List (String × J)
  | O o => o
  | _ => []

end Kxc.Json.J

namespace Kxc.PlanJson

open Relay
open Json (J Esc)

/-! ### Writing -/

/-- The items of an array, with the commas between them. -/
def commas (items : List (List Char)) : List Char := List.intercalate [','] items

/-- `os << i`. -/
def number (i : Int) : List Char := i.repr.toList

/-- `WI`. -/
def WI (arr : List Int) : List Char := ['['] ++ commas (arr.map number) ++ [']']

/-- `WI64`. -/
def WI64 (arr : List Int64) : List Char :=
  ['['] ++ commas (arr.map fun i => number i.toInt) ++ [']']

def escaped (s : String) : List Char := (Esc s).toList

def boolean (b : Bool) : List Char := if b then "true".toList else "false".toList

def WriteDeviceObj : Option Device → List Char
  | none => "null".toList
  | some d =>
    "\x7b\"device_type\":".toList ++ number d.device_type.code.toInt ++
      ",\"device_id\":".toList ++ number d.device_id.toInt ++ "\x7d".toList

def WriteTargetObj : Option Target → List Char
  | none => "null".toList
  | some t =>
    "\x7b".toList ++
    "\"kind\":\"".toList ++ escaped t.kind ++ "\",".toList ++
    "\"device_type\":".toList ++ number t.device_type.code.toInt ++ ",".toList ++
    "\"device_id\":".toList ++ number t.device_id.toInt ++ ",".toList ++
    "\"attrs\":\x7b".toList ++
    "\"arch\":\"".toList ++ escaped t.attrs.arch ++ "\",".toList ++
    "\"compute_version\":\"".toList ++ escaped t.attrs.compute_version ++ "\",".toList ++
    "\"max_threads_per_block\":".toList ++ number t.attrs.max_threads_per_block.toInt ++
    ",".toList ++
    "\"warp_size\":".toList ++ number t.attrs.warp_size.toInt ++ ",".toList ++
    "\"max_shared_memory_per_block\":".toList ++
    number t.attrs.max_shared_memory_per_block.toInt ++
    "\x7d\x7d".toList

def WriteVD : Option VirtualDevice → List Char
  | none => "null".toList
  | some vd =>
    "\x7b".toList ++
    "\"virtual_device_id\":".toList ++ number vd.node.virtual_device_id.toInt ++ ",".toList ++
    "\"memory_scope\":\"".toList ++ escaped vd.node.memory_scope ++ "\",".toList ++
    "\"device\":".toList ++ WriteDeviceObj vd.node.device_obj ++ ",".toList ++
    "\"target\":".toList ++ WriteTargetObj vd.node.target ++ "\x7d".toList

/-- What `WritePlacement` writes for a worker. -/
def writeWorker : Option WorkerPlacement → List Char
  | none => "null".toList
  | some w =>
    "\x7b".toList ++
    "\"worker_id\":".toList ++ number w.worker_id.toInt ++ ",".toList ++
    "\"group_id\":".toList ++ number w.group_id.toInt ++ ",".toList ++
    "\"local_rank\":".toList ++ number w.local_rank.toInt ++ ",".toList ++
    "\"device\":".toList ++ WriteDeviceObj w.device_obj ++ ",".toList ++
    "\"target\":".toList ++ WriteTargetObj w.target ++ ",".toList ++
    "\"virtual_device\":".toList ++ WriteVD w.virtual_device ++ "\x7d".toList

/-- The order in which `WritePlacement` sorts the workers: undefined ones come last. -/
def workerBefore : Option WorkerPlacement → Option WorkerPlacement → Bool
  | none, _ => false
  | some _, none => true
  | some a, some b => a.worker_id < b.worker_id

/-- The workers as `WritePlacement` lists them. -/
def sortedWorkers (workers : List (Option WorkerPlacement)) : List (Option WorkerPlacement) :=
  workers.mergeSort fun a b => !workerBefore b a

def WritePlacement (pass_ctx : PassContext) : List Char :=
  match pass_ctx.disco_placement with
  | none => "null".toList
  | some p =>
    "\x7b".toList ++
    "\"num_groups\":".toList ++ number p.num_groups.toInt ++ ",".toList ++
    "\"workers\":[".toList ++ commas ((sortedWorkers p.workers).map writeWorker) ++
    "]\x7d".toList

def WriteCommAttrs : Option Attrs → List Char
  | some (.deviceCopy src_virtual_device dst_virtual_device async in_group) =>
    "\x7b".toList ++
    "\"src_virtual_device\":".toList ++ WriteVD src_virtual_device ++ ",".toList ++
    "\"dst_virtual_device\":".toList ++ WriteVD dst_virtual_device ++ ",".toList ++
    "\"async\":".toList ++ boolean async ++ ",".toList ++
    "\"in_group\":".toList ++ boolean in_group ++ "\x7d".toList
  | some (.collective kind reduce_kind in_group group_id root_worker) =>
    "\x7b".toList ++
    "\"kind\":\"".toList ++ escaped kind ++ "\",".toList ++
    "\"reduce_kind\":\"".toList ++ escaped reduce_kind ++ "\",".toList ++
    "\"in_group\":".toList ++ boolean in_group ++ ",".toList ++
    "\"group_id\":".toList ++ number group_id.toInt ++ ",".toList ++
    "\"root_worker\":".toList ++ number root_worker.toInt ++ "\x7d".toList
  | _ => "null".toList

def SortedIds (m : Map Int VirtualDevice) : List Int := m.keys.mergeSort

def SortedInfoIds (shapes : Map Int (List Int64)) (dtypes : Map Int String) : List Int :=
  (shapes.keys ++ dtypes.keys).dedup.mergeSort

/-- What `SerializeExecutionPlanToJson` writes for a node. -/
def writeNode : ExecNode → List Char
  | .kernel op_name kernel_symbol input_values output_values worker_set =>
    "\x7b".toList ++
    "\"kind\":\"kernel\",".toList ++
    "\"input_values\":".toList ++ WI input_values ++ ",".toList ++
    "\"output_values\":".toList ++ WI output_values ++ ",".toList ++
    "\"worker_set\":".toList ++ WI (worker_set.map Int32.toInt) ++ ",".toList ++
    "\"op_name\":\"".toList ++ escaped op_name ++ "\",".toList ++
    "\"kernel_symbol\":\"".toList ++ escaped kernel_symbol ++ "\"".toList ++
    "\x7d".toList
  | .comm op_name attrs input_values output_values worker_set _ =>
    "\x7b".toList ++
    "\"kind\":\"comm\",".toList ++
    "\"input_values\":".toList ++ WI input_values ++ ",".toList ++
    "\"output_values\":".toList ++ WI output_values ++ ",".toList ++
    "\"worker_set\":".toList ++ WI (worker_set.map Int32.toInt) ++ ",".toList ++
    "\"op_name\":\"".toList ++ escaped op_name ++ "\",".toList ++
    "\"attrs\":".toList ++ WriteCommAttrs attrs ++
    "\x7d".toList
  | .barrier tag worker_set =>
    "\x7b".toList ++
    "\"kind\":\"barrier\",".toList ++
    "\"input_values\":[],\"output_values\":[],".toList ++
    "\"worker_set\":".toList ++ WI (worker_set.map Int32.toInt) ++ ",".toList ++
    "\"tag\":\"".toList ++ escaped tag ++ "\"".toList ++
    "\x7d".toList

/-! ### Reading -/

def RK (v : J) (k : J.K) (ctx : String) : Except String Unit :=
  if v.k = k then .ok ()
  else .error s!"Expected kind {k.toNat} in {ctx}, got {v.k.toNat}"

def RF (obj : J) (key ctx : String) : Except String J := do
  RK obj .O ctx
  match obj.o.lookup key with
  | some v => return v
  | none => throw s!"Missing required field '{key}' in {ctx}"

def FF (obj : J) (key : String) : Option J := if obj.k ≠ .O then none else obj.o.lookup key

def RI (v : J) (ctx : String) : Except String Int32 := do
  RK v .I ctx
  if v.i.toInt < Int32.minValue.toInt ∨ Int32.maxValue.toInt < v.i.toInt then
    throw s!"int out of range in {ctx}"
  return Int32.ofInt v.i.toInt

def RI64 (v : J) (ctx : String) : Except String Int64 := do
  RK v .I ctx
  return v.i

def RB (v : J) (ctx : String) : Except String Bool := do
  RK v .B ctx
  return v.b

def RS (v : J) (ctx : String) : Except String String := do
  RK v .S ctx
  return v.s

/-- `OI`, `OB` and `OS`: a field that is missing or null has the default `d`. -/
def optionalField {α : Type} (read : J → String → Except String α) (obj : J) (key : String) (d : α)
    (ctx : String) : Except String α :=
  match FF obj key with
  | none => .ok d
  | some v => if v.k = .N then .ok d else read v (ctx ++ "." ++ key)

def OI : J → String → Int32 → String → Except String Int32 := optionalField RI

def OB : J → String → Bool → String → Except String Bool := optionalField RB

def OS : J → String → String → String → Except String String := optionalField RS

/-- `AI` and `AI64`. -/
def elements {α : Type} (read : J → String → Except String α) (arr : J) (ctx : String) :
    Except String (List α) := do
  RK arr .A ctx
  arr.a.zipIdx.mapM fun (v, i) => read v s!"{ctx}[{i}]"

def AI : J → String → Except String (List Int32) := elements RI

def AI64 : J → String → Except String (List Int64) := elements RI64

def ParseDeviceObj (j : J) (ctx : String) : Except String (Option Device) := do
  if j.k = .N then return none
  RK j .O ctx
  let t ← RI (← RF j "device_type" ctx) (ctx ++ ".device_type")
  let id ← RI (← RF j "device_id" ctx) (ctx ++ ".device_id")
  return some ⟨⟨t⟩, id⟩

def ParseTargetObj (j : J) (ctx : String) : Except String (Option Target) := do
  if j.k = .N then return none
  RK j .O ctx
  let kind ← OS j "kind" "" ctx
  let device_type ← OI j "device_type" DeviceTypeCode.kUnknown.code ctx
  let device_id ← OI j "device_id" (-1) ctx
  let t : Target := { kind, device_type := ⟨device_type⟩, device_id }
  match FF j "attrs" with
  | none => return some t
  | some a =>
    if a.k = .N then return some t
    let actx := ctx ++ ".attrs"
    RK a .O actx
    let arch ← OS a "arch" "" actx
    let compute_version ← OS a "compute_version" "0.0" actx
    let max_threads_per_block ← OI a "max_threads_per_block" 1 actx
    let warp_size ← OI a "warp_size" 1 actx
    let max_shared_memory_per_block ← OI a "max_shared_memory_per_block" 0 actx
    return some { t with
      attrs :=
        { arch, compute_version
          max_threads_per_block := max_threads_per_block.toInt64
          warp_size := warp_size.toInt64
          max_shared_memory_per_block := max_shared_memory_per_block.toInt64 } }

/-- A reader that makes virtual devices. -/
abbrev Reader (α : Type) := StateT Nat (Except String) α

/-- `new VirtualDeviceNode`. -/
def makeVirtualDevice (device_obj : Option Device) (target : Option Target)
    (memory_scope : String := "") (virtual_device_id : Int32 := kInvalidVirtualDeviceId) :
    Reader VirtualDevice := fun ref =>
  match VirtualDeviceNode.construct device_obj target memory_scope virtual_device_id with
  | .ok node => .ok (⟨ref, node⟩, ref + 1)
  | .error e => .error e

def ParseVD (j : J) (ctx : String) : Reader (Option VirtualDevice) := do
  if j.k = .N then return none
  RK j .O ctx
  let scope ← OS j "memory_scope" "" ctx
  let vid ← OI j "virtual_device_id" kInvalidVirtualDeviceId ctx
  let dev ←
    match FF j "device" with
    | some d => ParseDeviceObj d (ctx ++ ".device")
    | none => pure none
  let target ←
    match FF j "target" with
    | some t => ParseTargetObj t (ctx ++ ".target")
    | none => pure none
  return some (← makeVirtualDevice dev target scope vid)

/-- What `ParsePlacement` reads for a worker. -/
def parseWorker (item : J) (wctx : String) : Reader WorkerPlacement := do
  RK item .O wctx
  let worker_id ← RI (← RF item "worker_id" wctx) (wctx ++ ".worker_id")
  let group_id ← OI item "group_id" 0 wctx
  let local_rank ← OI item "local_rank" worker_id wctx
  let dev ←
    match FF item "device" with
    | some d => ParseDeviceObj d (wctx ++ ".device")
    | none => pure none
  let target ←
    match FF item "target" with
    | some t => ParseTargetObj t (wctx ++ ".target")
    | none => pure none
  let vd ←
    match FF item "virtual_device" with
    | some v => ParseVD v (wctx ++ ".virtual_device")
    | none =>
      if dev.isSome ∨ target.isSome then some <$> makeVirtualDevice dev target else pure none
  return { worker_id, group_id, local_rank, device_obj := dev, target, virtual_device := vd }

/-- `map.Set(vd, worker_id)` for a worker with a virtual device. -/
def recordWorker (map : List (Nat × Int32)) (w : WorkerPlacement) : List (Nat × Int32) :=
  match w.virtual_device with
  | some vd => (vd.ref, w.worker_id) :: map
  | none => map

def ParsePlacement (j : J) (ctx : String) : Reader (Option DiscoPlacement) := do
  if j.k = .N then return none
  RK j .O ctx
  let num_groups ← OI j "num_groups" 1 ctx
  let workers ← RF j "workers" ctx
  RK workers .A (ctx ++ ".workers")
  let ws ← workers.a.zipIdx.mapM fun (item, i) => parseWorker item s!"{ctx}.workers[{i}]"
  return some
    { workers := ws.map some
      vd_to_worker := ws.foldl recordWorker []
      num_groups := if 0 < num_groups then num_groups else 1 }

/-- `ParseVD` of a field that may be missing. -/
def optionalVD (obj : J) (key ctx : String) : Reader (Option VirtualDevice) :=
  match FF obj key with
  | some v => ParseVD v (ctx ++ "." ++ key)
  | none => pure none

def ParseCommAttrs (op_name : String) (attrs : Option J) (ctx : String) : Reader Attrs := do
  match attrs.filter (·.k ≠ .N) with
  | none =>
    if op_name = "device.copy" then return .deviceCopy none none false true
    else return .collective op_name "sum" true 0 0
  | some attrs =>
    RK attrs .O ctx
    if op_name = "device.copy" then
      let src_vd ← optionalVD attrs "src_virtual_device" ctx
      let dst_vd ← optionalVD attrs "dst_virtual_device" ctx
      let async ← OB attrs "async" false ctx
      let in_group ← OB attrs "in_group" true ctx
      return .deviceCopy src_vd dst_vd async in_group
    else
      let kind ← OS attrs "kind" op_name ctx
      let reduce_kind ← OS attrs "reduce_kind" "sum" ctx
      let in_group ← OB attrs "in_group" true ctx
      let group_id ← OI attrs "group_id" 0 ctx
      let root_worker ← OI attrs "root_worker" 0 ctx
      return .collective kind reduce_kind in_group group_id root_worker

/-- What `DeserializeExecutionPlanFromJson` reads for a node. -/
def parseNode (n : J) (ctx : String) : Reader ExecNode := do
  RK n .O ctx
  let kind ← RS (← RF n "kind" ctx) (ctx ++ ".kind")
  let in_ ← AI (← RF n "input_values" ctx) (ctx ++ ".input_values")
  let out ← AI (← RF n "output_values" ctx) (ctx ++ ".output_values")
  let workers ← AI (← RF n "worker_set" ctx) (ctx ++ ".worker_set")
  if kind = "kernel" then
    let op_name ← RS (← RF n "op_name" ctx) (ctx ++ ".op_name")
    let kernel_symbol ← OS n "kernel_symbol" "" ctx
    return .kernel op_name kernel_symbol (in_.map Int32.toInt) (out.map Int32.toInt) workers
  else if kind = "comm" then
    let op_name ← RS (← RF n "op_name" ctx) (ctx ++ ".op_name")
    let attrs ← ParseCommAttrs op_name (FF n "attrs") (ctx ++ ".attrs")
    return .comm op_name (some attrs) (in_.map Int32.toInt) (out.map Int32.toInt) workers 0
  else if kind = "barrier" then
    let tag ← RS (← RF n "tag" ctx) (ctx ++ ".tag")
    return .barrier tag workers
  else throw s!"Unsupported node kind in ExecutionPlan JSON: {kind}"

/-- An entry of `value_virtual_devices`. -/
def parseValueVD (m : Map Int VirtualDevice) (item : J) (ctx : String) :
    Reader (Map Int VirtualDevice) := do
  RK item .O ctx
  let id ← RI (← RF item "value_id" ctx) (ctx ++ ".value_id")
  match ← ParseVD (← RF item "virtual_device" ctx) (ctx ++ ".virtual_device") with
  | some vd => return m.insert id.toInt vd
  | none => return m

/-- An entry of `value_info`. -/
def parseInfo (m : Map Int (List Int64) × Map Int String) (item : J) (ctx : String) :
    Reader (Map Int (List Int64) × Map Int String) := do
  RK item .O ctx
  let id ← RI (← RF item "value_id" ctx) (ctx ++ ".value_id")
  let shape ← AI64 (← RF item "shape" ctx) (ctx ++ ".shape")
  let dtype ← RS (← RF item "dtype" ctx) (ctx ++ ".dtype")
  return (m.1.insert id.toInt shape, m.2.insert id.toInt dtype)

/-- `DeserializeExecutionPlanFromJson`, after the text has been parsed. -/
def planOf (root : J) : Reader ExecutionPlan := do
  RK root .O "root"
  let schema_version ← RI (← RF root "schema_version" "root") "root.schema_version"
  if schema_version ≠ 1 then
    throw s!"Unsupported ExecutionPlan JSON schema_version: {schema_version.toInt}"
  let num_values ← RI (← RF root "num_values" "root") "root.num_values"
  let output_value ← RI (← RF root "output_value" "root") "root.output_value"
  let nodes_j ← RF root "nodes" "root"
  RK nodes_j .A "root.nodes"
  let nodes ← (nodes_j.a.zipIdx.filter (·.1.k ≠ .N)).mapM fun (n, i) =>
    parseNode n s!"root.nodes[{i}]"
  let value_vd_j ← RF root "value_virtual_devices" "root"
  RK value_vd_j .A "root.value_virtual_devices"
  let value_virtual_devices ← value_vd_j.a.zipIdx.foldlM
    (fun m (item, i) => parseValueVD m item s!"root.value_virtual_devices[{i}]") ∅
  let input_value_ids ← AI (← RF root "input_value_ids" "root") "root.input_value_ids"
  let constant_value_ids ←
    AI (← RF root "constant_value_ids" "root") "root.constant_value_ids"
  let info_j ← RF root "value_info" "root"
  RK info_j .A "root.value_info"
  let (value_shapes, value_dtypes) ← info_j.a.zipIdx.foldlM
    (fun m (item, i) => parseInfo m item s!"root.value_info[{i}]") (∅, ∅)
  let placement ←
    ParsePlacement (← RF root "disco_placement" "root") "root.disco_placement"
  let pass_ctx := PassContext.WithDiscoPlacement {} placement
  RK (← RF root "reserved" "root") .O "root.reserved"
  return {
    nodes, value_virtual_devices
    input_value_ids := input_value_ids.map Int32.toInt
    constant_value_ids := constant_value_ids.map Int32.toInt
    value_shapes, value_dtypes, num_values := num_values.toInt, pass_ctx
    output_value := output_value.toInt }

end Kxc.PlanJson

namespace Kxc

open PlanJson

def SerializeExecutionPlanToJson (plan : ExecutionPlan) : String :=
  let vd_ids := SortedIds plan.value_virtual_devices
  let info_ids := SortedInfoIds plan.value_shapes plan.value_dtypes
  String.ofList (
    "\x7b".toList ++
    "\"schema_version\":1,".toList ++
    "\"num_values\":".toList ++ number plan.num_values ++ ",".toList ++
    "\"output_value\":".toList ++ number plan.output_value ++ ",".toList ++
    "\"nodes\":[".toList ++ commas (plan.nodes.map writeNode) ++ "],".toList ++
    "\"value_virtual_devices\":[".toList ++
    commas (vd_ids.map fun id =>
      "\x7b\"value_id\":".toList ++ number id ++ ",\"virtual_device\":".toList ++
        WriteVD (plan.value_virtual_devices.lookup id) ++ "\x7d".toList) ++
    "],".toList ++
    "\"input_value_ids\":".toList ++ WI plan.input_value_ids ++ ",".toList ++
    "\"constant_value_ids\":".toList ++ WI plan.constant_value_ids ++ ",".toList ++
    "\"value_info\":[".toList ++
    commas (info_ids.map fun id =>
      "\x7b\"value_id\":".toList ++ number id ++ ",\"shape\":".toList ++
        WI64 ((plan.value_shapes.lookup id).getD []) ++ ",\"dtype\":\"".toList ++
        escaped ((plan.value_dtypes.lookup id).getD "") ++ "\"\x7d".toList) ++
    "],".toList ++
    "\"disco_placement\":".toList ++ WritePlacement plan.pass_ctx ++ ",".toList ++
    "\"reserved\":\x7b\x7d".toList ++
    "\x7d".toList)

def DeserializeExecutionPlanFromJson (json_text : String) : Reader ExecutionPlan := do
  planOf (← Json.P.Parse json_text)

end Kxc
