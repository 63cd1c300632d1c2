import Kxc.Base.ExecutionPlan
import Kxc.Lib.Dataflow

/-! The interpreter of execution plans (`base/disco/executor.cc`) over an abstract session and
communication backend. Errors for a use of a value without an entry in the value table are told
apart from all others. -/

namespace Kxc.Disco

open Relay Lib

/-- A valid `DRef`: the register that holds a value on every worker. -/
structure DRef where
  reg_id : Int32
  deriving DecidableEq

/-- The operations of a `DiscoSession` and a `CCLBackend` on session states `S`. -/
structure Backend (S : Type) where
  NewDRef : S → DRef × S
  num_workers : S → Nat
  Get : S → Int32 → DRef → Except String (Option NDArray)
  Set : S → Int32 → DRef → NDArray → Except String S
  Copy : S → (src dst : DRef) → (src_worker dst_worker : Int32) → Except String S
  AllReduce : S → (src dst : DRef) → String → Bool → Except String S
  BroadcastFromWorker0 : S → (src dst : DRef) → Bool → Except String S
  ScatterFromWorker0 : S → (src dst : DRef) → Bool → Except String S
  GatherToWorker0 : S → (src dst : DRef) → Bool → Except String S
  SendToWorker : S → (src dst : DRef) → Int32 → Except String S
  RecvFromWorker : S → (src dst : DRef) → Int32 → Except String S
  SyncWorker : S → Int32 → Except String S

/-- An error of `Execute`, with its text. -/
inductive ExecError where
  | undefinedUse (message : String)
  | failure (message : String)
  deriving DecidableEq

structure ExecState (S : Type) where
  values : Map Int DRef
  session : S

namespace ExecutionPlanExecutor

abbrev ExecM (S : Type) := StateT (ExecState S) (Except ExecError)

variable {S : Type} (backend : Backend S)

/-- A backend call: its errors are not about the value table. -/
def call (op : S → Except String S) : ExecM S Unit := do
  let st ← get
  match op st.session with
  | .ok session => set { st with session }
  | .error message => throw (.failure message)

def setValue (value_id : Int) (ref : DRef) : ExecM S Unit :=
  modify fun st => { st with values := st.values.insert value_id ref }

def EffectiveWorkerSet (worker_set : List Int32) (fallback_worker : Int32) : List Int32 :=
  if worker_set ≠ [] then worker_set
  else [if 0 ≤ fallback_worker then fallback_worker else 0]

/-- `ResolveWorkerForVirtualDevice` of the executor. -/
def ResolveWorkerForVirtualDevice (pass_ctx : PassContext) (vd : VirtualDevice) : Int32 :=
  let worker :=
    if pass_ctx.disco_placement.isSome then
      FindWorkerForVirtualDevice pass_ctx.disco_placement (some vd)
    else -1
  if 0 ≤ worker then worker
  else
    match vd.node.device_obj, vd.node.target with
    | some dev, _ => dev.device_id
    | none, some target => target.device_id
    | none, none => 0

def ResolveWorkerForValue (plan : ExecutionPlan) (value_id : Int) : Int32 :=
  match plan.value_virtual_devices.lookup value_id with
  | none => 0
  | some vd => ResolveWorkerForVirtualDevice plan.pass_ctx vd

/-- One iteration of the loop of `EnsureValue` over the workers. -/
def copyOnWorker (src dst : DRef) (worker : Int32) : ExecM S Unit := do
  match backend.Get (← get).session worker src with
  | .error message => throw (.failure message)
  | .ok none => pure ()
  | .ok (some _) => call fun s => backend.Copy s src dst worker worker

def EnsureValue (value_id : Int) (prototype : Option DRef) : ExecM S DRef := do
  let st ← get
  match st.values.lookup value_id with
  | some ref => return ref
  | none =>
    let (ref, session) := backend.NewDRef st.session
    set { st with session }
    setValue value_id ref
    match prototype with
    | none => return ref
    | some src =>
      ((List.range (backend.num_workers session)).map Int32.ofNat).forM
        (copyOnWorker backend src ref)
      return ref

/-- The array that a kernel without inputs puts on its workers. -/
def scalarArray : NDArray :=
  { shape := [1], dtype := { code := kDLFloat, bits := 32, lanes := 1 }, data := [0, 0, 0, 0] }

def ExecuteKernel (plan : ExecutionPlan) (input_values output_values : List Int)
    (worker_set : List Int32) : ExecM S Unit :=
  match input_values with
  | [] =>
    output_values.forM fun out_id => do
      let out ← EnsureValue backend out_id none
      (EffectiveWorkerSet worker_set 0).forM fun worker =>
        call fun s => backend.Set s worker out scalarArray
  | input_id :: _ =>
    if output_values = [] then pure ()
    else do
      match (← get).values.lookup input_id with
      | none => throw (.undefinedUse "Kernel input value is not available")
      | some input =>
        output_values.forM fun out_id => do
          let output ← EnsureValue backend out_id (some input)
          (EffectiveWorkerSet worker_set (ResolveWorkerForValue plan input_id)).forM fun worker =>
            call fun s => backend.Copy s input output worker worker
          setValue out_id output

/-- The `in_group` and `reduce_kind` of a collective, and its `root_worker`. -/
def collectiveAttrs (attrs : Option Attrs) : Bool × String × Int32 :=
  match attrs with
  | some (.collective _ reduce_kind in_group _ root_worker) => (in_group, reduce_kind, root_worker)
  | _ => (true, "sum", 0)

/-- The workers between which a `device.copy` copies. -/
def copyWorkers (plan : ExecutionPlan) (attrs : Option Attrs) (input_id output_id : Int) :
    Int32 × Int32 :=
  let resolve (vd : Option VirtualDevice) (value_id : Int) :=
    match vd with
    | some vd => ResolveWorkerForVirtualDevice plan.pass_ctx vd
    | none => ResolveWorkerForValue plan value_id
  match attrs with
  | some (.deviceCopy src dst _ _) => (resolve src input_id, resolve dst output_id)
  | _ => (resolve none input_id, resolve none output_id)

/-- The backend call of a communication node. -/
def communicate (plan : ExecutionPlan) (op_name : String) (attrs : Option Attrs)
    (input_id output_id : Int) (src dst : DRef) : ExecM S Unit :=
  let (in_group, reduce_kind, root_worker) := collectiveAttrs attrs
  if op_name = "device.copy" then
    let (src_worker, dst_worker) := copyWorkers plan attrs input_id output_id
    call fun s => backend.Copy s src dst src_worker dst_worker
  else if op_name = "device.allreduce" then
    call fun s => backend.AllReduce s src dst reduce_kind in_group
  else if op_name = "device.broadcast_from_worker0" then
    call fun s => backend.BroadcastFromWorker0 s src dst in_group
  else if op_name = "device.scatter_from_worker0" then
    call fun s => backend.ScatterFromWorker0 s src dst in_group
  else if op_name = "device.gather_to_worker0" then
    call fun s => backend.GatherToWorker0 s src dst in_group
  else if op_name = "device.send_to_worker" then
    call fun s => backend.SendToWorker s src dst root_worker
  else if op_name = "device.recv_from_worker" then
    call fun s => backend.RecvFromWorker s src dst root_worker
  else
    throw (.failure ("Unsupported communication op in executor: " ++ op_name))

def ExecuteComm (plan : ExecutionPlan) (op_name : String) (attrs : Option Attrs)
    (input_values output_values : List Int) : ExecM S Unit :=
  match output_values with
  | [] => pure ()
  | output_id :: more_outputs =>
    match input_values with
    | [] => throw (.failure "Communication node requires at least one input")
    | input_id :: _ => do
      match (← get).values.lookup input_id with
      | none => throw (.undefinedUse "Communication input value is missing")
      | some src =>
        let dst ← EnsureValue backend output_id (some src)
        communicate backend plan op_name attrs input_id output_id src dst
        setValue output_id dst
        more_outputs.forM fun value_id => setValue value_id dst

/-- One iteration of the loop of `Execute`. -/
def ExecuteNode (plan : ExecutionPlan) : ExecNode → ExecM S Unit
  | .kernel _ _ inputs outputs workers => ExecuteKernel backend plan inputs outputs workers
  | .comm op_name attrs inputs outputs _ _ => ExecuteComm backend plan op_name attrs inputs outputs
  | .barrier _ workers =>
    (EffectiveWorkerSet workers 0).forM fun worker => call fun s => backend.SyncWorker s worker

/-- `Execute`, from a state whose values are the initial ones. -/
def Execute (plan : ExecutionPlan) : ExecM S (Map Int DRef) := do
  plan.nodes.forM (ExecuteNode backend plan)
  return (← get).values

/-- `ExecuteForOutput`. -/
def ExecuteForOutput (plan : ExecutionPlan) : ExecM S DRef := do
  let values ← Execute backend plan
  if plan.output_value < 0 then
    throw (.undefinedUse "ExecutionPlan output value is missing after execution")
  match values.lookup plan.output_value with
  | some ref => return ref
  | none => throw (.undefinedUse "ExecutionPlan output value is missing after execution")

/-! ### What a node does to the value table -/

variable {backend}

/-- The value table has an entry for `x`. -/
def Bound (st : ExecState S) (x : Int) : Prop := (st.values.lookup x).isSome

/-- The errors that are not about an entry missing from the value table. -/
def NotUndefinedUse (e : ExecError) : Prop := ∀ message, e ≠ .undefinedUse message

/-- Every entry of `s` has one in `t`. -/
def Keeps (s t : ExecState S) : Prop := ∀ x, Bound s x → Bound t x

theorem Keeps.refl (s : ExecState S) : Keeps s s := fun _ h => h

theorem Keeps.trans {s t u : ExecState S} (h1 : Keeps s t) (h2 : Keeps t u) : Keeps s u :=
  fun x h => h2 x (h1 x h)

theorem keeps_insert (st : ExecState S) (value_id : Int) (ref : DRef) :
    Keeps st { st with values := st.values.insert value_id ref } := by
  intro x hx
  by_cases h : x = value_id
  · subst h; simp [Bound]
  · simpa [Bound, AList.lookup_insert_ne h] using hx

theorem call_spec {op : S → Except String S} {st : ExecState S}
    {Q : Unit → ExecState S → Prop} (h : ∀ session, Q ⟨⟩ { st with session }) :
    Outcome (call op) st NotUndefinedUse Q := by
  simp only [call, outcome_bind, outcome_get]
  split
  · exact h _
  · exact fun m hm => by cases hm

theorem setValue_spec (st : ExecState S) (value_id : Int) (ref : DRef) :
    Outcome (setValue value_id ref) st NotUndefinedUse fun _ t =>
      Keeps st t ∧ Bound t value_id :=
  ⟨keeps_insert st value_id ref, by simp [Bound]⟩

theorem copyOnWorker_spec (st : ExecState S) (src dst : DRef) (worker : Int32) :
    Outcome (copyOnWorker backend src dst worker) st NotUndefinedUse fun _ t => Keeps st t := by
  simp only [copyOnWorker, outcome_bind, outcome_get]
  split
  · exact fun m hm => by cases hm
  · exact Keeps.refl st
  · exact call_spec fun _ => Keeps.refl _

theorem EnsureValue_spec (st : ExecState S) (value_id : Int) (prototype : Option DRef) :
    Outcome (EnsureValue backend value_id prototype) st NotUndefinedUse fun _ t =>
      Keeps st t ∧ Bound t value_id := by
  simp only [EnsureValue, outcome_bind, outcome_get]
  split
  · rename_i ref h
    exact ⟨Keeps.refl st, by simp [Bound, h]⟩
  · simp only [outcome_bind, outcome_set]
    refine (setValue_spec _ value_id _).mono fun _ t ht => ?_
    have hst : Keeps st t := ht.1
    cases prototype with
    | none => exact ⟨hst, ht.2⟩
    | some src =>
      simp only [outcome_bind, outcome_pure]
      refine (Outcome.forM (fun u => Keeps t u) (Keeps.refl t) fun w _ u hu => ?_).mono
        fun _ u hu => ⟨hst.trans hu, hu _ ht.2⟩
      exact (copyOnWorker_spec u src _ w).mono fun _ v hv => hu.trans hv

/-- A loop whose iterations keep the table and bind `x` binds each `x` of the list. -/
theorem forM_binds {xs : List Int} {body : Int → ExecM S Unit} {st : ExecState S}
    (h : ∀ x st, Outcome (body x) st NotUndefinedUse fun _ t => Keeps st t ∧ Bound t x) :
    Outcome (xs.forM body) st NotUndefinedUse fun _ t => Keeps st t ∧ ∀ x ∈ xs, Bound t x := by
  induction xs generalizing st with
  | nil => exact ⟨Keeps.refl st, by simp⟩
  | cons x xs ih =>
    simp only [List.forM_eq_forM, List.forM_cons, outcome_bind]
    refine (h x st).mono fun _ t ht => ?_
    refine ih.mono fun _ u hu => ⟨ht.1.trans hu.1, fun y hy => ?_⟩
    rcases List.mem_cons.mp hy with rfl | hy
    · exact hu.1 _ ht.2
    · exact hu.2 y hy

theorem forM_call_spec {workers : List Int32} {op : Int32 → S → Except String S}
    (st : ExecState S) :
    Outcome (workers.forM fun worker => call (op worker)) st NotUndefinedUse fun _ t =>
      Keeps st t :=
  Outcome.forM (fun t => Keeps st t) (Keeps.refl st) fun _ _ _ ht => call_spec fun _ => ht

theorem ExecuteKernel_spec {plan : ExecutionPlan} {inputs outputs : List Int}
    {workers : List Int32} {st : ExecState S} (hin : ∀ x ∈ inputs, Bound st x) :
    Outcome (ExecuteKernel backend plan inputs outputs workers) st NotUndefinedUse fun _ t =>
      Keeps st t ∧ ∀ x ∈ outputs, Bound t x := by
  cases inputs with
  | nil =>
    refine forM_binds fun x st => ?_
    simp only [outcome_bind]
    exact (EnsureValue_spec st x none).mono fun _ t ht =>
      (forM_call_spec t).mono fun _ u hu => ⟨ht.1.trans hu, hu _ ht.2⟩
  | cons input_id more =>
    simp only [ExecuteKernel, outcome_ite, outcome_pure, outcome_bind, outcome_get]
    refine ⟨fun h => ⟨Keeps.refl st, by simp [h]⟩, fun _ => ?_⟩
    obtain ⟨input, hinput⟩ := Option.isSome_iff_exists.mp (hin input_id (by simp))
    simp only [hinput]
    refine forM_binds fun x st => ?_
    simp only [outcome_bind]
    refine (EnsureValue_spec st x _).mono fun ref t ht => ?_
    refine (forM_call_spec t).mono fun _ u hu => ?_
    exact (setValue_spec u x ref).mono fun _ v hv => ⟨(ht.1.trans hu).trans hv.1, hv.2⟩

theorem communicate_spec {plan : ExecutionPlan} {op_name : String} {attrs : Option Attrs}
    {input_id output_id : Int} {src dst : DRef} (st : ExecState S) :
    Outcome (communicate backend plan op_name attrs input_id output_id src dst) st
      NotUndefinedUse fun _ t => Keeps st t := by
  have hcall : ∀ op : S → Except String S,
      Outcome (call op) st NotUndefinedUse fun _ t => Keeps st t :=
    fun op => call_spec fun _ => Keeps.refl _
  simp only [communicate, outcome_ite, outcome_throw]
  exact ⟨fun _ => hcall _, fun _ => ⟨fun _ => hcall _, fun _ => ⟨fun _ => hcall _, fun _ =>
    ⟨fun _ => hcall _, fun _ => ⟨fun _ => hcall _, fun _ => ⟨fun _ => hcall _, fun _ =>
      ⟨fun _ => hcall _, fun _ m hm => by cases hm⟩⟩⟩⟩⟩⟩⟩

theorem ExecuteComm_spec {plan : ExecutionPlan} {op_name : String} {attrs : Option Attrs}
    {inputs outputs : List Int} {st : ExecState S} (hin : ∀ x ∈ inputs, Bound st x) :
    Outcome (ExecuteComm backend plan op_name attrs inputs outputs) st NotUndefinedUse fun _ t =>
      Keeps st t ∧ ∀ x ∈ outputs, Bound t x := by
  cases outputs with
  | nil => exact ⟨Keeps.refl st, by simp⟩
  | cons output_id more_outputs =>
    cases inputs with
    | nil => exact fun m hm => by cases hm
    | cons input_id more =>
      obtain ⟨src, hsrc⟩ := Option.isSome_iff_exists.mp (hin input_id (by simp))
      simp only [ExecuteComm, outcome_bind, outcome_get, hsrc]
      refine (EnsureValue_spec st output_id _).mono fun dst t ht => ?_
      refine (communicate_spec t).mono fun _ u hu => ?_
      refine (setValue_spec u output_id dst).mono fun _ v hv => ?_
      refine (forM_binds fun x st => setValue_spec st x dst).mono fun _ w hw => ?_
      refine ⟨((ht.1.trans hu).trans hv.1).trans hw.1, fun x hx => ?_⟩
      rcases List.mem_cons.mp hx with rfl | hx
      · exact hw.1 _ hv.2
      · exact hw.2 x hx

/-- A node that finds its inputs in the value table uses no undefined value, and adds its outputs
to the table. -/
theorem ExecuteNode_binds (plan : ExecutionPlan) :
    StepBinds Bound ExecNode.input_values ExecNode.output_values (ExecuteNode backend plan)
      NotUndefinedUse := by
  intro node st hin
  cases node with
  | kernel => exact ExecuteKernel_spec hin
  | comm => exact ExecuteComm_spec hin
  | barrier =>
    exact (forM_call_spec st).mono fun _ t ht => ⟨ht, by simp [ExecNode.output_values]⟩

/-- A run of `ExecuteForOutput` on a plan in order uses no undefined value, when the table holds
`defs` and the output is one of the values that the plan defines. -/
theorem ExecuteForOutput_spec {plan : ExecutionPlan} {defs : List Int} {st : ExecState S}
    (hordered : InOrder ExecNode.input_values ExecNode.output_values defs plan.nodes)
    (hst : ∀ x ∈ defs, Bound st x) (hpos : 0 ≤ plan.output_value)
    (hout : plan.output_value ∈ defs ++ plan.nodes.flatMap ExecNode.output_values) :
    Outcome (ExecuteForOutput backend plan) st NotUndefinedUse fun _ _ => True := by
  simp only [ExecuteForOutput, Execute, outcome_bind, outcome_get, outcome_pure]
  refine (hordered.run (ExecuteNode_binds plan) hst).mono fun _ t ht => ?_
  obtain ⟨ref, href⟩ := Option.isSome_iff_exists.mp (ht _ hout)
  simp only [Int.not_lt.mpr hpos, if_false, outcome_pure, href]

end ExecutionPlanExecutor

end Kxc.Disco
