import Kxc.Base.ExecutionPlanJson
import Kxc.Base.JsonText

/-! The text of an execution plan is that of a JSON value. -/

namespace Kxc

open Relay PlanJson
open Json (J Esc quoted)

/-- The values of an `int`. -/
def FitsInt (i : Int) : Prop := Int32.minValue.toInt ≤ i ∧ i ≤ Int32.maxValue.toInt

instance (i : Int) : Decidable (FitsInt i) := inferInstanceAs (Decidable (_ ∧ _))

theorem fitsInt_toInt (i : Int32) : FitsInt i.toInt := ⟨i.minValue_le_toInt, i.toInt_le⟩

/-! ### The values -/

def numberJ (i : Int) : J := .I (Int64.ofInt i)

def numbersJ (arr : List Int) : J := .A (arr.map numberJ)

def deviceJ : Option Device → J
  | none => .N
  | some d =>
    .O [("device_type", numberJ d.device_type.code.toInt), ("device_id", numberJ d.device_id.toInt)]

def attrsJ (a : DeviceAttributes) : J :=
  .O [("arch", .S a.arch), ("compute_version", .S a.compute_version),
    ("max_threads_per_block", .I a.max_threads_per_block), ("warp_size", .I a.warp_size),
    ("max_shared_memory_per_block", .I a.max_shared_memory_per_block)]

def targetJ : Option Target → J
  | none => .N
  | some t =>
    .O [("kind", .S t.kind), ("device_type", numberJ t.device_type.code.toInt),
      ("device_id", numberJ t.device_id.toInt), ("attrs", attrsJ t.attrs)]

def vdJ : Option VirtualDevice → J
  | none => .N
  | some vd =>
    .O [("virtual_device_id", numberJ vd.node.virtual_device_id.toInt),
      ("memory_scope", .S vd.node.memory_scope), ("device", deviceJ vd.node.device_obj),
      ("target", targetJ vd.node.target)]

def workerJ : Option WorkerPlacement → J
  | none => .N
  | some w =>
    .O [("worker_id", numberJ w.worker_id.toInt), ("group_id", numberJ w.group_id.toInt),
      ("local_rank", numberJ w.local_rank.toInt), ("device", deviceJ w.device_obj),
      ("target", targetJ w.target), ("virtual_device", vdJ w.virtual_device)]

def placementJ : Option DiscoPlacement → J
  | none => .N
  | some p =>
    .O [("num_groups", numberJ p.num_groups.toInt),
      ("workers", .A ((sortedWorkers p.workers).map workerJ))]

def commAttrsJ : Option Attrs → J
  | some (.deviceCopy src_virtual_device dst_virtual_device async in_group) =>
    .O [("src_virtual_device", vdJ src_virtual_device),
      ("dst_virtual_device", vdJ dst_virtual_device), ("async", .B async),
      ("in_group", .B in_group)]
  | some (.collective kind reduce_kind in_group group_id root_worker) =>
    .O [("kind", .S kind), ("reduce_kind", .S reduce_kind), ("in_group", .B in_group),
      ("group_id", numberJ group_id.toInt), ("root_worker", numberJ root_worker.toInt)]
  | _ => .N

def nodeJ : ExecNode → J
  | .kernel op_name kernel_symbol input_values output_values worker_set =>
    .O [("kind", .S "kernel"), ("input_values", numbersJ input_values),
      ("output_values", numbersJ output_values),
      ("worker_set", numbersJ (worker_set.map Int32.toInt)), ("op_name", .S op_name),
      ("kernel_symbol", .S kernel_symbol)]
  | .comm op_name attrs input_values output_values worker_set _ =>
    .O [("kind", .S "comm"), ("input_values", numbersJ input_values),
      ("output_values", numbersJ output_values),
      ("worker_set", numbersJ (worker_set.map Int32.toInt)), ("op_name", .S op_name),
      ("attrs", commAttrsJ attrs)]
  | .barrier tag worker_set =>
    .O [("kind", .S "barrier"), ("input_values", .A []), ("output_values", .A []),
      ("worker_set", numbersJ (worker_set.map Int32.toInt)), ("tag", .S tag)]

def valueVDJ (m : Map Int VirtualDevice) (id : Int) : J :=
  .O [("value_id", numberJ id), ("virtual_device", vdJ (m.lookup id))]

def infoJ (shapes : Map Int (List Int64)) (dtypes : Map Int String) (id : Int) : J :=
  .O [("value_id", numberJ id), ("shape", .A (((shapes.lookup id).getD []).map J.I)),
    ("dtype", .S ((dtypes.lookup id).getD ""))]

def planJ (plan : ExecutionPlan) : J :=
  .O [("schema_version", .I 1), ("num_values", numberJ plan.num_values),
    ("output_value", numberJ plan.output_value), ("nodes", .A (plan.nodes.map nodeJ)),
    ("value_virtual_devices",
      .A ((SortedIds plan.value_virtual_devices).map (valueVDJ plan.value_virtual_devices))),
    ("input_value_ids", numbersJ plan.input_value_ids),
    ("constant_value_ids", numbersJ plan.constant_value_ids),
    ("value_info",
      .A ((SortedInfoIds plan.value_shapes plan.value_dtypes).map
        (infoJ plan.value_shapes plan.value_dtypes))),
    ("disco_placement", placementJ plan.pass_ctx.disco_placement), ("reserved", .O [])]

/-! ### What is written -/

/-- A string without characters to escape. -/
theorem quoted_plain {s : String} (h : (s.toList.all fun c => Json.escChar c == [c]) = true)
    (rest : List Char) : quoted s ++ rest = '"' :: (s.toList ++ '"' :: rest) := by
  have hplain : ∀ c ∈ s.toList, Json.escChar c = [c] := by simpa using h
  have hs : s.toList.flatMap Json.escChar = s.toList := by
    rw [List.flatMap_congr hplain, List.flatMap_singleton']
  rw [quoted, hs, List.cons_append, List.append_assoc, List.singleton_append]

theorem text_object (key : String) (v : J) (o : List (String × J)) :
    (J.O ((key, v) :: o)).text = '\x7b' :: (quoted key ++ ':' :: (v.text ++ J.members o)) := by
  rw [J.text]

theorem members_cons (key : String) (v : J) (o : List (String × J)) :
    J.members ((key, v) :: o) = ',' :: (quoted key ++ ':' :: (v.text ++ J.members o)) := by
  rw [J.members]

theorem members_nil : J.members [] = ['\x7d'] := by
  rw [J.members]

theorem text_string (s : String) : (J.S s).text = '"' :: (escaped s ++ ['"']) := by
  rw [J.text, escaped, Json.Esc, String.toList_ofList, quoted]

theorem text_bool (b : Bool) : (J.B b).text = boolean b := by
  rw [J.text, boolean]

theorem text_int64 (i : Int64) : (J.I i).text = number i.toInt := by
  rw [J.text, number]

theorem toInt_ofInt {i : Int} (hi : FitsInt i) : (Int64.ofInt i).toInt = i := by
  obtain ⟨hmin, hmax⟩ := hi
  have hbounds : Int32.minValue.toInt = -2147483648 ∧ Int32.maxValue.toInt = 2147483647 := by decide
  exact Int64.toInt_ofInt_of_le (by omega) (by omega)

theorem text_number {i : Int} (hi : FitsInt i) : (numberJ i).text = number i := by
  rw [numberJ, text_int64, toInt_ofInt hi]

theorem text_int32 (i : Int32) : (numberJ i.toInt).text = number i.toInt :=
  text_number (fitsInt_toInt i)

theorem commas_cons (t : List Char) (ts : List (List Char)) :
    commas (t :: ts) = t ++ ts.flatMap fun t => ',' :: t := by
  unfold commas
  induction ts generalizing t with
  | nil => simp [List.intercalate]
  | cons t' ts ih =>
    rw [List.intercalate_cons_cons, ih t', List.append_assoc]
    rfl

theorem text_array (a : List J) : (J.A a).text = ['['] ++ commas (a.map J.text) ++ [']'] := by
  have helements (a : List J) :
      J.elements a = (a.map J.text).flatMap (fun t => ',' :: t) ++ [']'] := by
    induction a with
    | nil => rfl
    | cons v a ih => rw [J.elements, ih, List.map_cons, List.flatMap_cons, List.append_assoc,
        List.cons_append]
  cases a with
  | nil => rfl
  | cons v a => rw [J.text, helements, List.map_cons, commas_cons, List.append_assoc,
      List.append_assoc, List.singleton_append]

theorem text_numbers {arr : List Int} (harr : ∀ i ∈ arr, FitsInt i) :
    (numbersJ arr).text = WI arr := by
  have htexts : (arr.map numberJ).map J.text = arr.map number := by
    rw [List.map_map]
    exact List.map_congr_left fun i hi => text_number (harr i hi)
  rw [numbersJ, text_array, htexts, WI]

theorem text_workers (ws : List Int32) :
    (numbersJ (ws.map Int32.toInt)).text = WI (ws.map Int32.toInt) := by
  refine text_numbers fun i hi => ?_
  obtain ⟨w, -, rfl⟩ := List.mem_map.mp hi
  exact fitsInt_toInt w

theorem text_device (dev : Option Device) : (deviceJ dev).text = WriteDeviceObj dev := by
  unfold WriteDeviceObj
  cases dev with
  | none => rfl
  | some d =>
    simp (disch := decide) only [deviceJ, text_object, members_cons, members_nil, text_int32,
      List.append_assoc, quoted_plain]
    simp only [String.reduceToList, List.cons_append, List.nil_append]

theorem text_target (t : Option Target) : (targetJ t).text = WriteTargetObj t := by
  unfold WriteTargetObj
  cases t with
  | none => rfl
  | some t =>
    simp (disch := decide) only [targetJ, attrsJ, text_object, members_cons, members_nil,
      text_int32, text_int64, text_string, List.append_assoc, List.cons_append, quoted_plain]
    simp only [String.reduceToList, List.cons_append, List.nil_append]

theorem text_vd (vd : Option VirtualDevice) : (vdJ vd).text = WriteVD vd := by
  unfold WriteVD
  cases vd with
  | none => rfl
  | some vd =>
    simp (disch := decide) only [vdJ, text_object, members_cons, members_nil, text_int32,
      text_string, text_device, text_target, List.append_assoc, List.cons_append, quoted_plain]
    simp only [String.reduceToList, List.cons_append, List.nil_append]

theorem text_worker (w : Option WorkerPlacement) : (workerJ w).text = writeWorker w := by
  unfold writeWorker
  cases w with
  | none => rfl
  | some w =>
    simp (disch := decide) only [workerJ, text_object, members_cons, members_nil, text_int32,
      text_device, text_target, text_vd, List.append_assoc, quoted_plain]
    simp only [String.reduceToList, List.cons_append, List.nil_append]

theorem text_placement (pass_ctx : PassContext) :
    (placementJ pass_ctx.disco_placement).text = WritePlacement pass_ctx := by
  unfold WritePlacement
  cases pass_ctx.disco_placement with
  | none => rfl
  | some p =>
    have hworkers : ((sortedWorkers p.workers).map workerJ).map J.text =
        (sortedWorkers p.workers).map writeWorker := by
      rw [List.map_map]
      exact List.map_congr_left fun w _ => text_worker w
    simp (disch := decide) only [placementJ, text_object, members_cons, members_nil, text_int32,
      text_array, hworkers, List.append_assoc, quoted_plain]
    simp only [String.reduceToList, List.cons_append, List.nil_append]

theorem text_commAttrs (attrs : Option Attrs) : (commAttrsJ attrs).text = WriteCommAttrs attrs := by
  unfold commAttrsJ WriteCommAttrs
  cases attrs with
  | none => rfl
  | some attrs =>
    cases attrs with
    | deviceCopy src_virtual_device dst_virtual_device async in_group =>
      simp (disch := decide) only [text_object, members_cons, members_nil, text_vd, text_bool,
        List.append_assoc, quoted_plain]
      simp only [String.reduceToList, List.cons_append, List.nil_append]
    | collective kind reduce_kind in_group group_id root_worker =>
      simp (disch := decide) only [text_object, members_cons, members_nil, text_int32, text_string,
        text_bool, List.append_assoc, List.cons_append, quoted_plain]
      simp only [String.reduceToList, List.cons_append, List.nil_append]
    | _ => rfl

/-- The ids of values that a node names are those of an `int`. -/
def ExecNode.HasInts (n : ExecNode) : Prop :=
  (∀ i ∈ n.input_values, FitsInt i) ∧ ∀ i ∈ n.output_values, FitsInt i

instance (n : ExecNode) : Decidable n.HasInts := inferInstanceAs (Decidable (_ ∧ _))

theorem text_node {n : ExecNode} (hn : n.HasInts) : (nodeJ n).text = writeNode n := by
  obtain ⟨hin, hout⟩ := hn
  unfold writeNode
  cases n with
  | kernel op_name kernel_symbol input_values output_values worker_set =>
    have hin : (numbersJ input_values).text = WI input_values := text_numbers hin
    have hout : (numbersJ output_values).text = WI output_values := text_numbers hout
    have hkind : (J.S "kernel").text = "\"kernel\"".toList := by decide
    simp (disch := decide) only [nodeJ, text_object, members_cons, members_nil, hkind, text_string
      op_name, text_string kernel_symbol, text_workers, hin, hout, List.append_assoc,
      List.cons_append, quoted_plain]
    simp only [String.reduceToList, List.cons_append, List.nil_append]
  | comm op_name attrs input_values output_values worker_set origin =>
    have hin : (numbersJ input_values).text = WI input_values := text_numbers hin
    have hout : (numbersJ output_values).text = WI output_values := text_numbers hout
    have hkind : (J.S "comm").text = "\"comm\"".toList := by decide
    simp (disch := decide) only [nodeJ, text_object, members_cons, members_nil, hkind, text_string
      op_name, text_workers, text_commAttrs, hin, hout, List.append_assoc, List.cons_append,
      quoted_plain]
    simp only [String.reduceToList, List.cons_append, List.nil_append]
  | barrier tag worker_set =>
    have hkind : (J.S "barrier").text = "\"barrier\"".toList := by decide
    have hempty : (J.A []).text = "[]".toList := by decide
    simp (disch := decide) only [nodeJ, text_object, members_cons, members_nil, hkind, hempty,
      text_string tag, text_workers, List.append_assoc, List.cons_append, quoted_plain]
    simp only [String.reduceToList, List.cons_append, List.nil_append]

/-- The numbers of a plan are those of an `int`. -/
structure ExecutionPlan.HasInts (plan : ExecutionPlan) : Prop where
  nodes : ∀ n ∈ plan.nodes, n.HasInts
  value_virtual_devices : ∀ id ∈ plan.value_virtual_devices, FitsInt id
  input_value_ids : ∀ id ∈ plan.input_value_ids, FitsInt id
  constant_value_ids : ∀ id ∈ plan.constant_value_ids, FitsInt id
  value_shapes : ∀ id ∈ plan.value_shapes, FitsInt id
  value_dtypes : ∀ id ∈ plan.value_dtypes, FitsInt id
  num_values : FitsInt plan.num_values
  output_value : FitsInt plan.output_value

theorem mem_sortedIds {m : Map Int VirtualDevice} {id : Int} : id ∈ SortedIds m ↔ id ∈ m := by
  rw [SortedIds, List.mem_mergeSort, AList.mem_keys]

theorem mem_sortedInfoIds {shapes : Map Int (List Int64)} {dtypes : Map Int String} {id : Int} :
    id ∈ SortedInfoIds shapes dtypes ↔ id ∈ shapes ∨ id ∈ dtypes := by
  rw [SortedInfoIds, List.mem_mergeSort, List.mem_dedup, List.mem_append, AList.mem_keys,
    AList.mem_keys]

theorem text_valueVD {m : Map Int VirtualDevice} {id : Int} (hid : FitsInt id) :
    (valueVDJ m id).text = "\x7b\"value_id\":".toList ++ number id ++
      ",\"virtual_device\":".toList ++ WriteVD (m.lookup id) ++ "\x7d".toList := by
  simp (disch := decide) only [valueVDJ, text_object, members_cons, members_nil, text_number hid,
    text_vd, List.append_assoc, quoted_plain]
  simp only [String.reduceToList, List.cons_append, List.nil_append]

theorem text_info {shapes : Map Int (List Int64)} {dtypes : Map Int String} {id : Int}
    (hid : FitsInt id) :
    (infoJ shapes dtypes id).text = "\x7b\"value_id\":".toList ++ number id ++
      ",\"shape\":".toList ++ WI64 ((shapes.lookup id).getD []) ++ ",\"dtype\":\"".toList ++
      escaped ((dtypes.lookup id).getD "") ++ "\"\x7d".toList := by
  have hshape (shape : List Int64) : (J.A (shape.map J.I)).text = WI64 shape := by
    have htexts : (shape.map J.I).map J.text = shape.map fun i => number i.toInt := by
      rw [List.map_map]
      exact List.map_congr_left fun i _ => text_int64 i
    rw [text_array, htexts, WI64]
  simp (disch := decide) only [infoJ, text_object, members_cons, members_nil, text_number hid,
    hshape, text_string, List.append_assoc, List.cons_append, quoted_plain]
  simp only [String.reduceToList, List.cons_append, List.nil_append]

/-- What is written for a plan is the text of its value. -/
theorem text_plan {plan : ExecutionPlan} (h : plan.HasInts) :
    String.ofList (planJ plan).text = SerializeExecutionPlanToJson plan := by
  have hnodes : (plan.nodes.map nodeJ).map J.text = plan.nodes.map writeNode := by
    rw [List.map_map]
    exact List.map_congr_left fun n hn => text_node (h.nodes n hn)
  have hvds := List.map_congr_left fun id hid =>
    text_valueVD (m := plan.value_virtual_devices)
      (h.value_virtual_devices id (mem_sortedIds.mp hid))
  have hinfos := List.map_congr_left fun id hid =>
    @text_info plan.value_shapes plan.value_dtypes id
      ((mem_sortedInfoIds.mp hid).elim (h.value_shapes id) (h.value_dtypes id))
  unfold SerializeExecutionPlanToJson
  have hversion : (J.I 1).text = "1".toList := by decide
  have hempty : (J.O []).text = "\x7b\x7d".toList := by decide
  simp (disch := decide) only [planJ, text_object, hversion, hempty, members_cons, members_nil,
    text_number h.num_values, text_number h.output_value, text_array, hnodes, List.map_map,
    Function.comp_def, text_numbers h.input_value_ids, text_numbers h.constant_value_ids,
    text_placement, List.append_assoc, hvds, hinfos, quoted_plain]
  simp only [String.reduceToList, List.cons_append, List.nil_append]

/-! ### No value repeats a name -/

theorem distinct_map {α : Type} {f : α → J} (h : ∀ x, (f x).Distinct) (xs : List α) :
    (J.A (xs.map f)).Distinct := by
  refine Json.J.allDistinct_iff.mpr fun v hv => ?_
  obtain ⟨x, -, rfl⟩ := List.mem_map.mp hv
  exact h x

theorem distinct_numbers (arr : List Int) : (numbersJ arr).Distinct :=
  distinct_map (f := numberJ) (fun _ => trivial) arr

theorem distinct_device (dev : Option Device) : (deviceJ dev).Distinct := by
  cases dev <;> simp [deviceJ, numberJ, Json.J.Distinct, Json.J.MembersDistinct]

theorem distinct_target (t : Option Target) : (targetJ t).Distinct := by
  cases t <;> simp [targetJ, attrsJ, numberJ, Json.J.Distinct, Json.J.MembersDistinct]

theorem distinct_vd (vd : Option VirtualDevice) : (vdJ vd).Distinct := by
  cases vd <;> simp [vdJ, numberJ, Json.J.Distinct, Json.J.MembersDistinct, distinct_device,
    distinct_target]

theorem distinct_worker (w : Option WorkerPlacement) : (workerJ w).Distinct := by
  cases w <;> simp [workerJ, numberJ, Json.J.Distinct, Json.J.MembersDistinct, distinct_device,
    distinct_target, distinct_vd]

theorem distinct_placement (p : Option DiscoPlacement) : (placementJ p).Distinct := by
  cases p with
  | none => trivial
  | some p =>
    have hworkers := distinct_map distinct_worker (sortedWorkers p.workers)
    simp [placementJ, numberJ, Json.J.Distinct, Json.J.MembersDistinct] at hworkers ⊢
    exact hworkers

theorem distinct_commAttrs (attrs : Option Attrs) : (commAttrsJ attrs).Distinct := by
  unfold commAttrsJ
  split
  · simp [Json.J.Distinct, Json.J.MembersDistinct, distinct_vd]
  · simp [numberJ, Json.J.Distinct, Json.J.MembersDistinct]
  · trivial

theorem distinct_node (n : ExecNode) : (nodeJ n).Distinct := by
  cases n <;> simp [nodeJ, Json.J.Distinct, Json.J.MembersDistinct, Json.J.AllDistinct,
    distinct_numbers, distinct_commAttrs]

theorem distinct_plan (plan : ExecutionPlan) : (planJ plan).Distinct := by
  have hnodes := distinct_map distinct_node plan.nodes
  have hvds := distinct_map (f := valueVDJ plan.value_virtual_devices)
    (fun id => by
      simp [valueVDJ, numberJ, Json.J.Distinct, Json.J.MembersDistinct, distinct_vd])
    (SortedIds plan.value_virtual_devices)
  have hinfos := distinct_map (f := infoJ plan.value_shapes plan.value_dtypes)
    (fun id => by
      have hshape := distinct_map (f := J.I) (fun _ => trivial)
        ((plan.value_shapes.lookup id).getD [])
      simp [infoJ, numberJ, Json.J.Distinct, Json.J.MembersDistinct] at hshape ⊢
      exact hshape)
    (SortedInfoIds plan.value_shapes plan.value_dtypes)
  simp [planJ, numberJ, Json.J.Distinct, Json.J.MembersDistinct, distinct_numbers,
    distinct_placement] at hnodes hvds hinfos ⊢
  exact ⟨hnodes, hvds, hinfos⟩

end Kxc
