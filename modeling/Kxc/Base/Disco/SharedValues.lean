import Kxc.Base.Disco.Executor
import Kxc.Lib.FinalState

/-! The interpreter of execution plans over the maps of the heap. `values_` of the executor and the
initial values of the caller are references to one map, so that what a node binds is bound for the
caller as well. -/

namespace Kxc.Disco

open Relay Lib

/-- The maps of the heap, the one that `values_` refers to, and the session. -/
structure SharedState (S : Type) where
  heap : Nat → Map Int DRef
  values_ : Nat
  session : S

/-- The map that `values_` refers to. -/
def SharedState.values {S : Type} (st : SharedState S) : Map Int DRef := st.heap st.values_

/-- What the executor sees of a state. -/
def SharedState.view {S : Type} (st : SharedState S) : ExecState S := ⟨st.values, st.session⟩

@[simp]
theorem SharedState.values_update {S : Type} (st : SharedState S) (bindings : Map Int DRef) :
    SharedState.values { st with heap := Function.update st.heap st.values_ bindings } = bindings :=
  Function.update_self _ _ _

namespace ExecutionPlanExecutor

/-- The backend call of a communication node, if its operator is supported. -/
def commCall {S : Type} (backend : Backend S) (plan : ExecutionPlan) (op_name : String)
    (attrs : Option Attrs) (input_id output_id : Int) (src dst : DRef) :
    Option (S → Except String S) :=
  let (in_group, reduce_kind, root_worker) := collectiveAttrs attrs
  if op_name = "device.copy" then
    let (src_worker, dst_worker) := copyWorkers plan attrs input_id output_id
    some fun s => backend.Copy s src dst src_worker dst_worker
  else if op_name = "device.allreduce" then
    some fun s => backend.AllReduce s src dst reduce_kind in_group
  else if op_name = "device.broadcast_from_worker0" then
    some fun s => backend.BroadcastFromWorker0 s src dst in_group
  else if op_name = "device.scatter_from_worker0" then
    some fun s => backend.ScatterFromWorker0 s src dst in_group
  else if op_name = "device.gather_to_worker0" then
    some fun s => backend.GatherToWorker0 s src dst in_group
  else if op_name = "device.send_to_worker" then
    some fun s => backend.SendToWorker s src dst root_worker
  else if op_name = "device.recv_from_worker" then
    some fun s => backend.RecvFromWorker s src dst root_worker
  else none

/-- The operators that `ExecuteComm` knows. -/
def supportedComms : List String :=
  ["device.copy", "device.allreduce", "device.broadcast_from_worker0",
    "device.scatter_from_worker0", "device.gather_to_worker0", "device.send_to_worker",
    "device.recv_from_worker"]

namespace Shared

abbrev SharedM (S : Type) := ExceptT ExecError (StateM (SharedState S))

variable {S : Type} (backend : Backend S)

/-- A backend call. -/
def call (op : S → Except String S) : SharedM S Unit := do
  let st ← get
  match op st.session with
  | .ok session => set { st with session }
  | .error message => throw (.failure message)

/-- `values_.Set(value_id, ref)`, which changes the map that `values_` refers to. -/
def setValue (value_id : Int) (ref : DRef) : SharedM S Unit :=
  modify fun st =>
    { st with heap := Function.update st.heap st.values_ (st.values.insert value_id ref) }

/-- One iteration of the loop of `EnsureValue` over the workers. -/
def copyOnWorker (src dst : DRef) (worker : Int32) : SharedM S Unit := do
  match backend.Get (← get).session worker src with
  | .error message => throw (.failure message)
  | .ok none => pure ()
  | .ok (some _) => call fun s => backend.Copy s src dst worker worker

def EnsureValue (value_id : Int) (prototype : Option DRef) : SharedM S DRef := do
  let st ← get
  match st.values.lookup value_id with
  | some ref => return ref
  | none =>
    let (ref, session) := backend.NewDRef st.session
    set { st with session }
    setValue value_id ref
    match prototype with
    | none => return ref
    | some src =>
      ((List.range (backend.num_workers session)).map Int32.ofNat).forM
        (copyOnWorker backend src ref)
      return ref

/-- One iteration of the loop of `ExecuteKernel` over the outputs without an input. -/
def fillOutput (workers : List Int32) (out_id : Int) : SharedM S Unit := do
  let out ← EnsureValue backend out_id none
  workers.forM fun worker => call fun s => backend.Set s worker out scalarArray

/-- One iteration of the loop of `ExecuteKernel` over the outputs. -/
def copyOutput (workers : List Int32) (input : DRef) (out_id : Int) : SharedM S Unit := do
  let output ← EnsureValue backend out_id (some input)
  workers.forM fun worker => call fun s => backend.Copy s input output worker worker
  setValue out_id output

def ExecuteKernel (plan : ExecutionPlan) (input_values output_values : List Int)
    (worker_set : List Int32) : SharedM S Unit :=
  match input_values with
  | [] => output_values.forM (fillOutput backend (EffectiveWorkerSet worker_set 0))
  | input_id :: _ =>
    if output_values = [] then pure ()
    else do
      match (← get).values.lookup input_id with
      | none => throw (.undefinedUse "Kernel input value is not available")
      | some input =>
        output_values.forM (copyOutput backend
          (EffectiveWorkerSet worker_set (ResolveWorkerForValue plan input_id)) input)

/-- The backend call of a communication node. -/
def communicate (plan : ExecutionPlan) (op_name : String) (attrs : Option Attrs)
    (input_id output_id : Int) (src dst : DRef) : SharedM S Unit :=
  match commCall backend plan op_name attrs input_id output_id src dst with
  | none => throw (.failure ("Unsupported communication op in executor: " ++ op_name))
  | some op => call op

def ExecuteComm (plan : ExecutionPlan) (op_name : String) (attrs : Option Attrs)
    (input_values output_values : List Int) : SharedM S Unit :=
  match output_values with
  | [] => pure ()
  | output_id :: more_outputs =>
    match input_values with
    | [] => throw (.failure "Communication node requires at least one input")
    | input_id :: _ => do
      match (← get).values.lookup input_id with
      | none => throw (.undefinedUse "Communication input value is missing")
      | some src =>
        let dst ← EnsureValue backend output_id (some src)
        communicate backend plan op_name attrs input_id output_id src dst
        setValue output_id dst
        more_outputs.forM fun value_id => setValue value_id dst

/-- One iteration of the loop of `Execute`. -/
def ExecuteNode (plan : ExecutionPlan) : ExecNode → SharedM S Unit
  | .kernel _ _ inputs outputs workers => ExecuteKernel backend plan inputs outputs workers
  | .comm op_name attrs inputs outputs _ _ => ExecuteComm backend plan op_name attrs inputs outputs
  | .barrier _ workers =>
    (EffectiveWorkerSet workers 0).forM fun worker => call fun s => backend.SyncWorker s worker

/-- `Execute`: `values_` becomes the reference that the caller passes, and is returned. -/
def Execute (plan : ExecutionPlan) (initial_values : Nat) : SharedM S Nat := do
  modify fun st => { st with values_ := initial_values }
  plan.nodes.forM (ExecuteNode backend plan)
  return (← get).values_

end Shared

/-! ### The interpreter over a map of its own -/

section Simulation

open Shared

variable {S : Type} {backend : Backend S} {α β : Type} {st t u : SharedState S}

/-- Only the map of `values_` is another one. -/
structure OthersKept (st t : SharedState S) : Prop where
  values_ : t.values_ = st.values_
  heap : ∀ map, map ≠ st.values_ → t.heap map = st.heap map

theorem OthersKept.refl (st : SharedState S) : OthersKept st st := ⟨rfl, fun _ _ => rfl⟩

theorem OthersKept.trans (h : OthersKept st t) (h' : OthersKept t u) : OthersKept st u :=
  ⟨h'.values_.trans h.values_, fun map hmap =>
    (h'.heap map (h.values_.symm ▸ hmap)).trans (h.heap map hmap)⟩

/-- From `st` on, `m` does to the map of `values_` what `m'` does to a map of its own, and keeps the
other maps. -/
def SharesAt (m : SharedM S α) (m' : ExecM S α) (st : SharedState S) : Prop :=
  Final m st (fun e t => OthersKept st t ∧ m' st.view = .error e)
    fun a t => OthersKept st t ∧ m' st.view = .ok (a, t.view)

theorem SharesAt.pure (a : α) (st : SharedState S) :
    SharesAt (pure a : SharedM S α) (pure a) st :=
  ⟨.refl st, rfl⟩

theorem SharesAt.throw (e : ExecError) (st : SharedState S) :
    SharesAt (throw e : SharedM S α) (throw e) st :=
  ⟨.refl st, rfl⟩

theorem SharesAt.bind {m : SharedM S α} {m' : ExecM S α} {f : α → SharedM S β}
    {f' : α → ExecM S β} (h : SharesAt m m' st) (hf : ∀ a t, SharesAt (f a) (f' a) t) :
    SharesAt (m >>= f) (m' >>= f') st := by
  have hrun : (m' >>= f') st.view = m' st.view >>= fun p => f' p.1 p.2 := rfl
  rw [SharesAt, final_bind, hrun]
  refine h.weaken (fun e t ht => ⟨ht.1, by rw [ht.2]; rfl⟩) fun a t ht => ?_
  rw [ht.2]
  exact (hf a t).weaken (fun e u hu => ⟨ht.1.trans hu.1, hu.2⟩)
    fun b u hu => ⟨ht.1.trans hu.1, hu.2⟩

theorem SharesAt.forM {xs : List β} {body : β → SharedM S Unit} {body' : β → ExecM S Unit}
    (h : ∀ x t, SharesAt (body x) (body' x) t) (st : SharedState S) :
    SharesAt (xs.forM body) (xs.forM body') st := by
  induction xs generalizing st with
  | nil => exact .pure () st
  | cons x xs ih =>
    simp only [List.forM_eq_forM, List.forM_cons]
    exact (h x st).bind fun _ => ih

/-- A read of the state. -/
theorem SharesAt.get {f : SharedState S → SharedM S β} {f' : ExecState S → ExecM S β}
    (h : SharesAt (f st) (f' st.view) st) : SharesAt (get >>= f) (get >>= f') st := h

theorem call_shares (op : S → Except String S) (st : SharedState S) :
    SharesAt (Shared.call op) (ExecutionPlanExecutor.call op) st := by
  refine SharesAt.get ?_
  have hsession : st.view.session = st.session := rfl
  rw [hsession]
  cases op st.session with
  | ok session => exact ⟨⟨rfl, fun _ _ => rfl⟩, rfl⟩
  | error message => exact .throw _ st

theorem setValue_shares (value_id : Int) (ref : DRef) (st : SharedState S) :
    SharesAt (Shared.setValue value_id ref) (ExecutionPlanExecutor.setValue value_id ref) st := by
  refine ⟨⟨rfl, fun map hmap => Function.update_of_ne hmap _ _⟩, congrArg Except.ok ?_⟩
  simp only [SharedState.view, SharedState.values, Function.update_self]

theorem copyOnWorker_shares (src dst : DRef) (worker : Int32) (st : SharedState S) :
    SharesAt (Shared.copyOnWorker backend src dst worker)
      (ExecutionPlanExecutor.copyOnWorker backend src dst worker) st := by
  refine SharesAt.get ?_
  have hsession : st.view.session = st.session := rfl
  rw [hsession]
  cases backend.Get st.session worker src with
  | error message => exact .throw _ st
  | ok array =>
    cases array with
    | none => exact .pure () st
    | some a => exact call_shares _ st

theorem EnsureValue_shares (value_id : Int) (prototype : Option DRef) (st : SharedState S) :
    SharesAt (Shared.EnsureValue backend value_id prototype)
      (ExecutionPlanExecutor.EnsureValue backend value_id prototype) st := by
  refine SharesAt.get ?_
  have hvalues : st.view.values = st.values := rfl
  rw [hvalues]
  cases st.values.lookup value_id with
  | some ref => exact .pure ref st
  | none =>
    have hset : SharesAt (set { st with session := (backend.NewDRef st.session).2 })
        (set { st.view with session := (backend.NewDRef st.session).2 }) st :=
      ⟨⟨rfl, fun _ _ => rfl⟩, rfl⟩
    refine hset.bind fun _ t => (setValue_shares value_id _ t).bind fun _ t => ?_
    cases prototype with
    | none => exact .pure _ t
    | some src =>
      exact (SharesAt.forM (fun worker => copyOnWorker_shares src _ worker) t).bind
        fun _ => .pure _

theorem forM_call_shares (workers : List Int32) (op : Int32 → S → Except String S)
    (st : SharedState S) :
    SharesAt (workers.forM fun worker => Shared.call (op worker))
      (workers.forM fun worker => ExecutionPlanExecutor.call (op worker)) st :=
  .forM (fun worker => call_shares (op worker)) st

theorem ExecuteKernel_shares (plan : ExecutionPlan) (inputs outputs : List Int)
    (workers : List Int32) (st : SharedState S) :
    SharesAt (Shared.ExecuteKernel backend plan inputs outputs workers)
      (ExecutionPlanExecutor.ExecuteKernel backend plan inputs outputs workers) st := by
  cases inputs with
  | nil =>
    exact .forM (fun out_id t => (EnsureValue_shares out_id none t).bind fun _ =>
      forM_call_shares _ _) st
  | cons input_id inputs =>
    simp only [Shared.ExecuteKernel, ExecutionPlanExecutor.ExecuteKernel]
    split
    · exact .pure () st
    · refine SharesAt.get ?_
      have hvalues : st.view.values = st.values := rfl
      rw [hvalues]
      cases st.values.lookup input_id with
      | none => exact .throw _ st
      | some input =>
        exact .forM (fun out_id t => (EnsureValue_shares out_id _ t).bind fun _ t =>
          (forM_call_shares _ _ t).bind fun _ => setValue_shares out_id _) st

theorem communicate_shares (plan : ExecutionPlan) (op_name : String) (attrs : Option Attrs)
    (input_id output_id : Int) (src dst : DRef) (st : SharedState S) :
    SharesAt (Shared.communicate backend plan op_name attrs input_id output_id src dst)
      (ExecutionPlanExecutor.communicate backend plan op_name attrs input_id output_id src dst)
      st := by
  have heq : ExecutionPlanExecutor.communicate backend plan op_name attrs input_id output_id src dst =
      match commCall backend plan op_name attrs input_id output_id src dst with
      | none => throw (.failure ("Unsupported communication op in executor: " ++ op_name))
      | some op => ExecutionPlanExecutor.call op := by
    unfold ExecutionPlanExecutor.communicate commCall
    split_ifs <;> rfl
  rw [heq, Shared.communicate]
  cases commCall backend plan op_name attrs input_id output_id src dst with
  | none => exact .throw _ st
  | some op => exact call_shares op st

theorem ExecuteComm_shares (plan : ExecutionPlan) (op_name : String) (attrs : Option Relay.Attrs)
    (inputs outputs : List Int) (st : SharedState S) :
    SharesAt (Shared.ExecuteComm backend plan op_name attrs inputs outputs)
      (ExecutionPlanExecutor.ExecuteComm backend plan op_name attrs inputs outputs) st := by
  cases outputs with
  | nil => exact .pure () st
  | cons output_id more_outputs =>
    cases inputs with
    | nil => exact .throw _ st
    | cons input_id inputs =>
      refine SharesAt.get ?_
      have hvalues : st.view.values = st.values := rfl
      rw [hvalues]
      cases st.values.lookup input_id with
      | none => exact .throw _ st
      | some src =>
        exact (EnsureValue_shares output_id _ st).bind fun dst t =>
          (communicate_shares plan _ _ _ _ _ dst t).bind fun _ t =>
            (setValue_shares output_id dst t).bind fun _ =>
              .forM fun value_id => setValue_shares value_id dst

theorem ExecuteNode_shares (plan : ExecutionPlan) (node : ExecNode) (st : SharedState S) :
    SharesAt (Shared.ExecuteNode backend plan node)
      (ExecutionPlanExecutor.ExecuteNode backend plan node) st := by
  cases node with
  | kernel => exact ExecuteKernel_shares plan _ _ _ st
  | comm => exact ExecuteComm_shares plan _ _ _ _ st
  | barrier => exact forM_call_shares _ _ st

/-- The interpreter does to the caller's map what it does to a map of its own, returns the caller's
reference, and keeps all other maps. -/
theorem Execute_shares (plan : ExecutionPlan) (initial_values : Nat) (st : SharedState S) :
    Final (Shared.Execute backend plan initial_values) st
      (fun e t => (∀ map, map ≠ initial_values → t.heap map = st.heap map) ∧
        ExecutionPlanExecutor.Execute backend plan ⟨st.heap initial_values, st.session⟩ = .error e)
      fun map t => map = initial_values ∧
        (∀ map, map ≠ initial_values → t.heap map = st.heap map) ∧
        ExecutionPlanExecutor.Execute backend plan ⟨st.heap initial_values, st.session⟩ =
          .ok (t.heap initial_values, ⟨t.heap initial_values, t.session⟩) := by
  have hrun (s : ExecState S) : ExecutionPlanExecutor.Execute backend plan s =
      (plan.nodes.forM (ExecutionPlanExecutor.ExecuteNode backend plan) s).map
        fun p => (p.2.values, p.2) := by
    change Except.bind _ _ = _
    cases plan.nodes.forM (ExecutionPlanExecutor.ExecuteNode backend plan) s <;> rfl
  simp only [Shared.Execute, final_bind, final_modify, final_get, final_pure]
  refine (SharesAt.forM (ExecuteNode_shares plan)
    { st with values_ := initial_values }).weaken (fun e t ht => ?_) fun _ t ht => ?_
  · have hloop : plan.nodes.forM (ExecutionPlanExecutor.ExecuteNode backend plan)
        ⟨st.heap initial_values, st.session⟩ = .error e := ht.2
    exact ⟨ht.1.heap, by rw [hrun, hloop]; rfl⟩
  · have hloop : plan.nodes.forM (ExecutionPlanExecutor.ExecuteNode backend plan)
        ⟨st.heap initial_values, st.session⟩ = .ok ((), ⟨t.heap t.values_, t.session⟩) := ht.2
    have hvalues : t.values_ = initial_values := ht.1.values_
    rw [hvalues] at hloop
    exact ⟨hvalues, ht.1.heap, by rw [hrun, hloop]; rfl⟩

end Simulation

/-! ### Plans that bind nothing -/

section Condition

variable {S : Type} {backend : Backend S} {α β : Type}

/-- The node throws whatever the backend does: an input or an operator is missing. -/
def Stops (bindings : Map Int DRef) : ExecNode → Prop
  | .kernel _ _ inputs outputs _ =>
    outputs ≠ [] ∧ ∃ x ∈ inputs.head?, bindings.lookup x = none
  | .comm op_name _ inputs outputs _ _ =>
    outputs ≠ [] ∧ ∀ x ∈ inputs.head?, bindings.lookup x = none ∨ op_name ∉ supportedComms
  | .barrier _ _ => False

/-- What the node binds is bound already: all outputs, and for a communication node that gets so far
the outputs after the first to the register of the first. -/
def Rebinds (bindings : Map Int DRef) : ExecNode → Prop
  | .kernel _ _ inputs outputs _ =>
    (∀ x ∈ inputs.head?, (bindings.lookup x).isSome) → ∀ x ∈ outputs, (bindings.lookup x).isSome
  | .comm op_name _ inputs outputs _ _ =>
    (∃ x ∈ inputs.head?, (bindings.lookup x).isSome) → ∀ out ∈ outputs.head?,
      ∃ dst, bindings.lookup out = some dst ∧
        (op_name ∈ supportedComms → ∀ x ∈ outputs.tail, bindings.lookup x = some dst)
  | .barrier _ _ => True

/-- Up to the first node that throws whatever the backend does, no node binds anything anew. -/
def OnlyRebinds (bindings : Map Int DRef) : List ExecNode → Prop
  | [] => True
  | node :: nodes => Rebinds bindings node ∧ (Stops bindings node ∨ OnlyRebinds bindings nodes)

/-- The calls that change a session. -/
inductive IsCall (backend : Backend S) : (S → Except String S) → Prop
  | Set (worker : Int32) (ref : DRef) (array : NDArray) :
    IsCall backend fun s => backend.Set s worker ref array
  | Copy (src dst : DRef) (src_worker dst_worker : Int32) :
    IsCall backend fun s => backend.Copy s src dst src_worker dst_worker
  | AllReduce (src dst : DRef) (reduce_kind : String) (in_group : Bool) :
    IsCall backend fun s => backend.AllReduce s src dst reduce_kind in_group
  | BroadcastFromWorker0 (src dst : DRef) (in_group : Bool) :
    IsCall backend fun s => backend.BroadcastFromWorker0 s src dst in_group
  | ScatterFromWorker0 (src dst : DRef) (in_group : Bool) :
    IsCall backend fun s => backend.ScatterFromWorker0 s src dst in_group
  | GatherToWorker0 (src dst : DRef) (in_group : Bool) :
    IsCall backend fun s => backend.GatherToWorker0 s src dst in_group
  | SendToWorker (src dst : DRef) (worker : Int32) :
    IsCall backend fun s => backend.SendToWorker s src dst worker
  | RecvFromWorker (src dst : DRef) (worker : Int32) :
    IsCall backend fun s => backend.RecvFromWorker s src dst worker
  | SyncWorker (worker : Int32) : IsCall backend fun s => backend.SyncWorker s worker

theorem commCall_spec (backend : Backend S) (plan : ExecutionPlan) (op_name : String) (attrs : Option Attrs)
    (input_id output_id : Int) (src dst : DRef) :
    (op_name ∈ supportedComms ∧ ∃ op, IsCall backend op ∧
      commCall backend plan op_name attrs input_id output_id src dst = some op) ∨
    op_name ∉ supportedComms ∧
      commCall backend plan op_name attrs input_id output_id src dst = none := by
  by_cases h : op_name ∈ supportedComms
  · refine .inl ⟨h, ?_⟩
    simp only [supportedComms, List.mem_cons, List.not_mem_nil, or_false] at h
    rcases h with rfl | rfl | rfl | rfl | rfl | rfl | rfl
    · exact ⟨_, .Copy _ _ _ _, rfl⟩
    · exact ⟨_, .AllReduce _ _ _ _, rfl⟩
    · exact ⟨_, .BroadcastFromWorker0 _ _ _, rfl⟩
    · exact ⟨_, .ScatterFromWorker0 _ _ _, rfl⟩
    · exact ⟨_, .GatherToWorker0 _ _ _, rfl⟩
    · exact ⟨_, .SendToWorker _ _ _, rfl⟩
    · exact ⟨_, .RecvFromWorker _ _ _, rfl⟩
  · refine .inr ⟨h, ?_⟩
    simp only [supportedComms, List.mem_cons, List.not_mem_nil, or_false, not_or] at h
    simp only [commCall, h, if_false]

/-- A count of the calls that the backend still takes; where it runs out, calls may fail if
`mayFail`. -/
structure Budget (backend : Backend S) where
  left : Nat → S → Prop
  mayFail : Prop
  call : ∀ op, IsCall backend op → ∀ n s, left (n + 1) s → match op s with
    | .ok s' => left n s'
    | .error _ => mayFail

/-- A budget for all backends. -/
def Budget.any (backend : Backend S) : Budget backend where
  left _ _ := True
  mayFail := True
  call op _ n s _ := by split <;> trivial

/-- The map of `values_` is `map`, and has the entries of `bindings`. -/
structure Keeping (bindings : Map Int DRef) (map : Nat) (st : SharedState S) : Prop where
  values_ : st.values_ = map
  lookup : ∀ x, st.values.lookup x = bindings.lookup x

variable {bindings : Map Int DRef} {map : Nat} {budget : Budget backend} {a : α} {b : β}
  {st : SharedState S}

/-- `m` keeps the bindings for some number of calls, and returns `a` unless a call fails. -/
def Runs (bindings : Map Int DRef) (map : Nat) (budget : Budget backend)
    (m : Shared.SharedM S α) (a : α) : Prop :=
  ∃ calls, ∀ n st, Keeping bindings map st → budget.left (calls + n) st.session →
    Final m st (fun _ t => Keeping bindings map t ∧ budget.mayFail) fun a' t =>
      a' = a ∧ Keeping bindings map t ∧ budget.left n t.session

theorem Runs.pure (a : α) : Runs bindings map budget (pure a) a :=
  ⟨0, fun n st hst hleft => ⟨rfl, hst, by rwa [Nat.zero_add] at hleft⟩⟩

theorem Runs.bind {m : Shared.SharedM S α} {f : α → Shared.SharedM S β}
    (h : Runs bindings map budget m a) (hf : Runs bindings map budget (f a) b) :
    Runs bindings map budget (m >>= f) b := by
  obtain ⟨calls, h⟩ := h
  obtain ⟨calls', hf⟩ := hf
  refine ⟨calls + calls', fun n st hst hleft => ?_⟩
  rw [final_bind]
  rw [Nat.add_assoc] at hleft
  refine (h _ st hst hleft).mono fun a' t ht => ?_
  obtain ⟨rfl, hkeep, hleft'⟩ := ht
  exact hf n t hkeep hleft'

theorem Runs.forM {xs : List β} {body : β → Shared.SharedM S Unit}
    (h : ∀ x ∈ xs, Runs bindings map budget (body x) ()) :
    Runs bindings map budget (xs.forM body) () := by
  induction xs with
  | nil => exact .pure ()
  | cons x xs ih =>
    obtain ⟨hx, hxs⟩ := List.forall_mem_cons.mp h
    exact hx.bind (ih hxs)

/-- A read of the state. -/
theorem Runs.get {f : SharedState S → Shared.SharedM S β}
    (h : ∃ m, (∀ st, Keeping bindings map st → f st = m) ∧ Runs bindings map budget m b) :
    Runs bindings map budget (get >>= f) b := by
  obtain ⟨m, hf, calls, h⟩ := h
  exact ⟨calls, fun n st hst hleft => by
    rw [final_bind, final_get, hf st hst]
    exact h n st hst hleft⟩

theorem runs_call {op : S → Except String S} (hop : IsCall backend op) :
    Runs bindings map budget (Shared.call op) () := by
  refine ⟨1, fun n st hst hleft => ?_⟩
  rw [Nat.add_comm] at hleft
  have hcall := budget.call op hop n st.session hleft
  rw [Shared.call, final_bind, final_get]
  cases hop : op st.session with
  | ok session =>
    rw [hop] at hcall
    exact ⟨rfl, ⟨hst.values_, hst.lookup⟩, hcall⟩
  | error message =>
    rw [hop] at hcall
    exact ⟨hst, hcall⟩

theorem runs_setValue {x : Int} {ref : DRef} (hx : bindings.lookup x = some ref) :
    Runs bindings map budget (Shared.setValue x ref) () := by
  refine ⟨0, fun n st hst hleft => ⟨rfl, ⟨hst.values_, fun y => ?_⟩, by
    rwa [Nat.zero_add] at hleft⟩⟩
  simp only [SharedState.values_update]
  by_cases hy : y = x
  · rw [hy, AList.lookup_insert, hx]
  · rw [AList.lookup_insert_ne hy, hst.lookup]

theorem runs_EnsureValue {x : Int} {ref : DRef} (hx : bindings.lookup x = some ref)
    (prototype : Option DRef) :
    Runs bindings map budget (Shared.EnsureValue backend x prototype) ref := by
  refine Runs.get ⟨Pure.pure ref, fun st hst => ?_, .pure ref⟩
  simp only [hst.lookup, hx]

theorem runs_forM_call {workers : List Int32} {op : Int32 → S → Except String S}
    (hop : ∀ worker, IsCall backend (op worker)) :
    Runs bindings map budget (workers.forM fun worker => Shared.call (op worker)) () :=
  .forM fun worker _ => runs_call (hop worker)

theorem runs_fillOutput {workers : List Int32} {out_id : Int}
    (hout : (bindings.lookup out_id).isSome) :
    Runs bindings map budget (Shared.fillOutput backend workers out_id) () := by
  obtain ⟨ref, href⟩ := Option.isSome_iff_exists.mp hout
  exact (runs_EnsureValue href none).bind (runs_forM_call fun worker => .Set worker ref _)

theorem runs_copyOutput {workers : List Int32} {input : DRef} {out_id : Int}
    (hout : (bindings.lookup out_id).isSome) :
    Runs bindings map budget (Shared.copyOutput backend workers input out_id) () := by
  obtain ⟨ref, href⟩ := Option.isSome_iff_exists.mp hout
  exact (runs_EnsureValue href _).bind
    ((runs_forM_call fun worker => .Copy input ref worker worker).bind (runs_setValue href))

/-- A node that binds nothing anew and does not stop. -/
theorem runs_ExecuteNode (plan : ExecutionPlan) {node : ExecNode} (hrebinds : Rebinds bindings node)
    (hstops : ¬Stops bindings node) :
    Runs bindings map budget (Shared.ExecuteNode backend plan node) () := by
  cases node with
  | barrier tag workers => exact runs_forM_call fun worker => .SyncWorker worker
  | kernel op_name kernel_symbol inputs outputs workers =>
    cases inputs with
    | nil =>
      exact .forM fun out_id hout => runs_fillOutput (hrebinds nofun out_id hout)
    | cons input_id inputs =>
      simp only [Shared.ExecuteNode, Shared.ExecuteKernel]
      split
      · exact .pure ()
      · rename_i houtputs
        obtain ⟨input, hinput⟩ : ∃ input, bindings.lookup input_id = some input :=
          Option.ne_none_iff_exists'.mp fun hnone => hstops ⟨houtputs, input_id, rfl, hnone⟩
        refine Runs.get ⟨_, fun st hst => by simp only [hst.lookup, hinput]; rfl, ?_⟩
        refine .forM fun out_id hout => runs_copyOutput (hrebinds (fun x hx => ?_) out_id hout)
        obtain rfl : input_id = x := Option.some.inj hx
        rw [hinput]
        rfl
  | comm op_name attrs inputs outputs workers origin =>
    simp only [Shared.ExecuteNode]
    cases outputs with
    | nil => exact .pure ()
    | cons output_id more_outputs =>
      cases inputs with
      | nil => exact absurd ⟨List.cons_ne_nil _ _, nofun⟩ hstops
      | cons input_id inputs =>
        have hgoes : ¬(bindings.lookup input_id = none ∨ op_name ∉ supportedComms) := fun h =>
          hstops ⟨List.cons_ne_nil _ _, fun x hx => (Option.some.inj hx : input_id = x) ▸ h⟩
        obtain ⟨hbound, hsupported⟩ := not_or.mp hgoes
        obtain ⟨src, hsrc⟩ := Option.ne_none_iff_exists'.mp hbound
        obtain ⟨dst, hdst, hmore⟩ := hrebinds ⟨input_id, rfl, by rw [hsrc]; rfl⟩ output_id rfl
        refine Runs.get ⟨_, fun st hst => by simp only [hst.lookup, hsrc]; rfl, ?_⟩
        refine (runs_EnsureValue hdst _).bind (Runs.bind (a := ()) ?_ ((runs_setValue hdst).bind
          (.forM fun x hx => runs_setValue (hmore (not_not.mp hsupported) x hx))))
        rcases commCall_spec backend plan op_name attrs input_id output_id src dst with
          ⟨-, op, hop, heq⟩ | ⟨hunsupported, -⟩
        · rw [Shared.communicate, heq]
          exact runs_call hop
        · exact absurd hunsupported hsupported

/-- A node that binds nothing anew and stops. -/
theorem stops_ExecuteNode (plan : ExecutionPlan) {node : ExecNode} (hrebinds : Rebinds bindings node)
    (hstops : Stops bindings node) (hst : Keeping bindings map st) :
    Final (Shared.ExecuteNode backend plan node) st (fun _ t => Keeping bindings map t)
      fun _ _ => False := by
  cases node with
  | barrier tag workers => exact hstops.elim
  | kernel op_name kernel_symbol inputs outputs workers =>
    obtain ⟨houtputs, x, hx, hnone⟩ := hstops
    cases inputs with
    | nil => cases hx
    | cons input_id inputs =>
      obtain rfl : input_id = x := Option.some.inj hx
      simp only [Shared.ExecuteNode, Shared.ExecuteKernel, if_neg houtputs, final_bind, final_get,
        hst.lookup, hnone]
      exact hst
  | comm op_name attrs inputs outputs workers origin =>
    obtain ⟨houtputs, hmissing⟩ := hstops
    cases outputs with
    | nil => exact absurd rfl houtputs
    | cons output_id more_outputs =>
      cases inputs with
      | nil => exact hst
      | cons input_id inputs =>
        simp only [Shared.ExecuteNode, Shared.ExecuteComm, final_bind, final_get, hst.lookup]
        cases hsrc : bindings.lookup input_id with
        | none => exact hst
        | some src =>
          obtain ⟨dst, hdst, -⟩ := hrebinds ⟨input_id, rfl, by rw [hsrc]; rfl⟩ output_id rfl
          have hunsupported : op_name ∉ supportedComms :=
            (hmissing input_id rfl).resolve_left (hsrc ▸ Option.some_ne_none src)
          have hruns : Runs bindings map (.any backend)
            (Shared.EnsureValue backend output_id (some src)) dst := runs_EnsureValue hdst _
          obtain ⟨calls, hensure⟩ := hruns
          simp only [final_bind]
          refine (hensure 0 st hst trivial).weaken (fun _ t ht => ht.1) fun dst' t ht => ?_
          rcases commCall_spec backend plan op_name attrs input_id output_id src dst'
            with ⟨hsupported, -⟩ | ⟨-, heq⟩
          · exact absurd hsupported hunsupported
          · rw [Shared.communicate, heq]
            exact ht.2.1

/-- The loop over nodes that bind nothing anew. -/
theorem keeps_nodes (plan : ExecutionPlan) {nodes : List ExecNode}
    (h : OnlyRebinds bindings nodes) (hst : Keeping bindings map st) :
    Final (nodes.forM (Shared.ExecuteNode backend plan)) st (fun _ t => Keeping bindings map t)
      fun _ t => Keeping bindings map t := by
  induction nodes generalizing st with
  | nil => exact hst
  | cons node nodes ih =>
    obtain ⟨hrebinds, hrest⟩ := h
    simp only [List.forM_eq_forM, List.forM_cons, final_bind]
    by_cases hstops : Stops bindings node
    · exact (stops_ExecuteNode plan hrebinds hstops hst).mono fun _ _ => False.elim
    · have hnode : Runs bindings map (.any backend) (Shared.ExecuteNode backend plan node) () :=
        runs_ExecuteNode plan hrebinds hstops
      obtain ⟨calls, hruns⟩ := hnode
      exact (hruns 0 st hst trivial).weaken (fun _ _ ht => ht.1) fun _ t ht =>
        ih (hrest.resolve_left hstops) ht.2.1

/-- Takes one more call, if any is left. -/
def spend : Nat → Except String Nat
  | 0 => .error "no calls left"
  | n + 1 => .ok n

/-- A backend that takes some number of calls and fails from then on. -/
def fused : Backend Nat where
  NewDRef n := (⟨0⟩, n)
  num_workers _ := 0
  Get _ _ _ := .ok none
  Set n _ _ _ := spend n
  Copy n _ _ _ _ := spend n
  AllReduce n _ _ _ _ := spend n
  BroadcastFromWorker0 n _ _ _ := spend n
  ScatterFromWorker0 n _ _ _ := spend n
  GatherToWorker0 n _ _ _ := spend n
  SendToWorker n _ _ _ := spend n
  RecvFromWorker n _ _ _ := spend n
  SyncWorker n _ := spend n

theorem fused_call {op : Nat → Except String Nat} (hop : IsCall fused op) : op = spend := by
  cases hop <;> rfl

/-- The number of calls that it takes. -/
def Budget.fused : Budget fused where
  left n s := s = n
  mayFail := False
  call op hop n s hs := by
    rw [fused_call hop, hs]
    rfl

/-- No call is left, and the entries of `old` are still there. -/
structure Spent (old : Map Int DRef) (map : Nat) (t : SharedState Nat) : Prop where
  session : t.session = 0
  values_ : t.values_ = map
  lookup : ∀ x ref, old.lookup x = some ref → t.values.lookup x = some ref

section Spent

variable {old : Map Int DRef} {map : Nat} {t : SharedState Nat} {x : Int} {ref : DRef}

theorem spent_call {op : Nat → Except String Nat} (hop : IsCall fused op) (ht : Spent old map t) :
    Final (Shared.call op) t (fun _ t => Spent old map t) fun _ _ => False := by
  rw [Shared.call, final_bind, final_get, fused_call hop, ht.session]
  exact ht

theorem spent_forM_call {workers : List Int32} {op : Int32 → Nat → Except String Nat}
    (hop : ∀ worker, IsCall fused (op worker)) (ht : Spent old map t) :
    Final (workers.forM fun worker => Shared.call (op worker)) t (fun _ t => Spent old map t)
      fun _ t => Spent old map t :=
  Final.forM (Spent old map) ht fun worker _ _ hu =>
    (spent_call (hop worker) hu).mono fun _ _ => False.elim

theorem Spent.insert (ht : Spent old map t) (hx : ∀ r, old.lookup x = some r → r = ref) :
    Spent old map
      { t with heap := Function.update t.heap t.values_ (t.values.insert x ref) } where
  session := ht.session
  values_ := ht.values_
  lookup y r hy := by
    rw [SharedState.values_update]
    by_cases hyx : y = x
    · subst hyx
      rw [AList.lookup_insert, hx r hy]
    · rw [AList.lookup_insert_ne hyx, ht.lookup y r hy]

theorem Spent.self (ht : Spent old map t) : Spent t.values map t :=
  ⟨ht.session, ht.values_, fun _ _ h => h⟩

theorem Spent.trans {u : SharedState Nat} (ht : Spent old map t) (hu : Spent t.values map u) :
    Spent old map u :=
  ⟨hu.session, hu.values_, fun x ref h => hu.lookup x ref (ht.lookup x ref h)⟩

/-- The value has an entry afterwards. -/
theorem spent_EnsureValue (x : Int) (prototype : Option DRef) (ht : Spent old map t) :
    Final (Shared.EnsureValue fused x prototype) t (fun _ t => Spent old map t) fun ref u =>
      Spent old map u ∧ u.values.lookup x = some ref := by
  simp only [Shared.EnsureValue, final_bind, final_get]
  cases hx : t.values.lookup x with
  | some ref => exact ⟨ht, hx⟩
  | none =>
    have hnew : Spent old map { t with
        heap := Function.update t.heap t.values_ (t.values.insert x ⟨0⟩) } :=
      ht.insert fun r hr => by
        rw [ht.lookup x r hr] at hx
        cases hx
    have hlookup : (t.values.insert x ⟨0⟩).lookup x = some ⟨0⟩ := AList.lookup_insert _
    cases prototype with
    | none => exact ⟨hnew, by rw [SharedState.values_update]; exact hlookup⟩
    | some src => exact ⟨hnew, by rw [SharedState.values_update]; exact hlookup⟩

/-- What follows `EnsureValue` in `copyOutput`. -/
theorem spent_copy {workers : List Int32} (input : DRef) {ref : DRef} {out_id : Int}
    (ht : Spent old map t) (hout : t.values.lookup out_id = some ref) :
    Final (do
        workers.forM fun worker => Shared.call fun s => fused.Copy s input ref worker worker
        Shared.setValue out_id ref) t (fun _ t => Spent old map t) fun _ t => Spent old map t := by
  rw [final_bind]
  refine (spent_forM_call (fun worker => .Copy input ref worker worker) ht.self).weaken
    (fun _ u hu => ht.trans hu) fun _ u hu => ?_
  exact ht.trans (hu.insert fun r hr => Option.some.inj (hr.symm.trans hout))

theorem spent_fillOutput (workers : List Int32) (out_id : Int) (ht : Spent old map t) :
    Final (Shared.fillOutput fused workers out_id) t (fun _ t => Spent old map t)
      fun _ t => Spent old map t := by
  rw [Shared.fillOutput, final_bind]
  exact (spent_EnsureValue out_id none ht).mono fun ref u hu =>
    spent_forM_call (fun worker => .Set worker ref _) hu.1

theorem spent_copyOutput (workers : List Int32) (input : DRef) (out_id : Int)
    (ht : Spent old map t) :
    Final (Shared.copyOutput fused workers input out_id) t (fun _ t => Spent old map t)
      fun _ t => Spent old map t := by
  rw [Shared.copyOutput, final_bind]
  exact (spent_EnsureValue out_id _ ht).mono fun ref u hu => spent_copy input hu.1 hu.2

theorem spent_ExecuteNode (plan : ExecutionPlan) (node : ExecNode) (ht : Spent old map t) :
    Final (Shared.ExecuteNode fused plan node) t (fun _ t => Spent old map t)
      fun _ t => Spent old map t := by
  cases node with
  | barrier tag workers => exact spent_forM_call (fun worker => .SyncWorker worker) ht
  | kernel op_name kernel_symbol inputs outputs workers =>
    cases inputs with
    | nil =>
      exact Final.forM (Spent old map) ht fun out_id _ u hu => spent_fillOutput _ out_id hu
    | cons input_id inputs =>
      simp only [Shared.ExecuteNode, Shared.ExecuteKernel]
      split
      · exact ht
      · simp only [final_bind, final_get]
        cases t.values.lookup input_id with
        | none => exact ht
        | some input =>
          exact Final.forM (Spent old map) ht fun out_id _ u hu => spent_copyOutput _ input out_id hu
  | comm op_name attrs inputs outputs workers origin =>
    simp only [Shared.ExecuteNode]
    cases outputs with
    | nil => exact ht
    | cons output_id more_outputs =>
      cases inputs with
      | nil => exact ht
      | cons input_id inputs =>
        simp only [Shared.ExecuteComm, final_bind, final_get]
        cases t.values.lookup input_id with
        | none => exact ht
        | some src =>
          simp only [final_bind]
          refine (spent_EnsureValue output_id _ ht).mono fun dst u hu => ?_
          rcases commCall_spec fused plan op_name attrs input_id output_id src dst with
            ⟨-, op, hop, heq⟩ | ⟨-, heq⟩
          · rw [Shared.communicate, heq]
            exact (spent_call hop hu.1).mono fun _ _ => False.elim
          · rw [Shared.communicate, heq]
            exact hu.1

theorem spent_nodes (plan : ExecutionPlan) (nodes : List ExecNode) (ht : Spent old map t) :
    Final (nodes.forM (Shared.ExecuteNode fused plan)) t (fun _ t => Spent old map t)
      fun _ t => Spent old map t :=
  Final.forM (Spent old map) ht fun node _ _ hu => spent_ExecuteNode plan node hu

/-- No call is left, and some entry is not one of `bindings`. -/
def Changed (bindings : Map Int DRef) (map : Nat) (t : SharedState Nat) : Prop :=
  ∃ x ref, Spent t.values map t ∧ t.values.lookup x = some ref ∧ bindings.lookup x ≠ some ref

variable {bindings : Map Int DRef} {u : SharedState Nat}

theorem Changed.spent (h : Changed bindings map t) : Spent t.values map t := by
  obtain ⟨_, _, hspent, -, -⟩ := h
  exact hspent

theorem Changed.stays (h : Changed bindings map t) (hu : Spent t.values map u) :
    Changed bindings map u := by
  obtain ⟨x, ref, -, hx, hne⟩ := h
  exact ⟨x, ref, hu.self, hu.lookup x ref hx, hne⟩

/-- An entry for a value that had none. -/
theorem new_EnsureValue {x : Int} (hx : bindings.lookup x = none) (prototype : Option DRef)
    (ht : Keeping bindings map t) (hsession : t.session = 0) :
    Final (Shared.EnsureValue fused x prototype) t (fun _ _ => False) fun ref u =>
      Changed bindings map u ∧ u.values.lookup x = some ref := by
  have hlookup : (t.values.insert x ⟨0⟩).lookup x = some (⟨0⟩ : DRef) := AList.lookup_insert _
  have hne : bindings.lookup x ≠ some ⟨0⟩ := hx ▸ (Option.some_ne_none _).symm
  have hnew : Changed bindings map { t with
      heap := Function.update t.heap t.values_ (t.values.insert x ⟨0⟩) } := by
    refine ⟨x, ⟨0⟩, ⟨hsession, ht.values_, fun _ _ h => h⟩, ?_, hne⟩
    rw [SharedState.values_update]
    exact hlookup
  simp only [Shared.EnsureValue, final_bind, final_get, ht.lookup, hx]
  cases prototype with
  | none => exact ⟨hnew, by rw [SharedState.values_update]; exact hlookup⟩
  | some src => exact ⟨hnew, by rw [SharedState.values_update]; exact hlookup⟩

/-- A loop of a kernel over outputs of which one has no entry. -/
theorem changes_outputs {body : Int → Shared.SharedM Nat Unit} {outputs : List Int}
    (hruns : ∀ x, (bindings.lookup x).isSome → Runs bindings map .fused (body x) ())
    (hspent : ∀ x old t, Spent old map t →
      Final (body x) t (fun _ t => Spent old map t) fun _ t => Spent old map t)
    (hnew : ∀ x t, bindings.lookup x = none → Keeping bindings map t → t.session = 0 →
      Final (body x) t (fun _ t => Changed bindings map t) fun _ t => Changed bindings map t)
    (hmissing : ∃ x ∈ outputs, bindings.lookup x = none) :
    ∃ n, ∀ t, Keeping bindings map t → t.session = n →
      Final (outputs.forM body) t (fun _ t => Changed bindings map t)
        fun _ t => Changed bindings map t := by
  induction outputs with
  | nil =>
    obtain ⟨x, hx, -⟩ := hmissing
    cases hx
  | cons x outputs ih =>
    simp only [List.forM_eq_forM, List.forM_cons, final_bind]
    cases hx : bindings.lookup x with
    | none =>
      refine ⟨0, fun t ht hsession => (hnew x t hx ht hsession).mono fun _ u hu => ?_⟩
      exact (Final.forM (Spent u.values map) hu.spent fun y _ _ hv => hspent y _ _ hv).weaken
        (fun _ _ hv => hu.stays hv) fun _ _ hv => hu.stays hv
    | some ref =>
      obtain ⟨y, hy, hnone⟩ := hmissing
      have hrest : y ∈ outputs := (List.mem_cons.mp hy).resolve_left fun heq => by
        rw [heq, hx] at hnone
        cases hnone
      obtain ⟨n, hn⟩ := ih ⟨y, hrest, hnone⟩
      obtain ⟨calls, hbody⟩ := hruns x (by rw [hx]; rfl)
      refine ⟨calls + n, fun t ht hsession => ?_⟩
      exact (hbody n t ht hsession).weaken (fun _ _ h => h.2.elim) fun _ u hu => hn u hu.2.1 hu.2.2

theorem new_fillOutput (workers : List Int32) {x : Int} (hx : bindings.lookup x = none)
    (ht : Keeping bindings map t) (hsession : t.session = 0) :
    Final (Shared.fillOutput fused workers x) t (fun _ t => Changed bindings map t)
      fun _ t => Changed bindings map t := by
  rw [Shared.fillOutput, final_bind]
  refine (new_EnsureValue hx none ht hsession).weaken (fun _ _ => False.elim) fun ref u hu => ?_
  exact (spent_forM_call (fun worker => .Set worker ref _) hu.1.spent).weaken
    (fun _ _ hv => hu.1.stays hv) fun _ _ hv => hu.1.stays hv

theorem new_copyOutput (workers : List Int32) (input : DRef) {x : Int}
    (hx : bindings.lookup x = none) (ht : Keeping bindings map t) (hsession : t.session = 0) :
    Final (Shared.copyOutput fused workers input x) t (fun _ t => Changed bindings map t)
      fun _ t => Changed bindings map t := by
  rw [Shared.copyOutput, final_bind]
  refine (new_EnsureValue hx _ ht hsession).weaken (fun _ _ => False.elim) fun ref u hu => ?_
  exact (spent_copy input hu.1.spent hu.2).weaken (fun _ _ hv => hu.1.stays hv)
    fun _ _ hv => hu.1.stays hv

/-- After the loop all values have the entry. -/
theorem forM_setValue (ref : DRef) (xs : List Int) (t : SharedState Nat) :
    Final (xs.forM fun x => Shared.setValue x ref) t (fun _ _ => False) fun _ u =>
      u.session = t.session ∧ u.values_ = t.values_ ∧
        (∀ x, t.values.lookup x = some ref → u.values.lookup x = some ref) ∧
        ∀ x ∈ xs, u.values.lookup x = some ref := by
  induction xs generalizing t with
  | nil => exact ⟨rfl, rfl, fun _ h => h, nofun⟩
  | cons x xs ih =>
    simp only [List.forM_eq_forM, List.forM_cons, final_bind]
    refine (ih _).mono fun _ u hu => ?_
    obtain ⟨hsession, hvalues, hkeep, hall⟩ := hu
    simp only [SharedState.values_update] at hkeep
    refine ⟨hsession, hvalues, fun y hy => hkeep y ?_, List.forall_mem_cons.mpr
      ⟨hkeep x (AList.lookup_insert _), hall⟩⟩
    by_cases hyx : y = x
    · subst hyx
      exact AList.lookup_insert _
    · rw [AList.lookup_insert_ne hyx, hy]

/-- A communication node that binds something anew. -/
theorem changes_comm (plan : ExecutionPlan) {op_name : String} {attrs : Option Attrs}
    {inputs outputs : List Int} {workers : List Int32} {origin : Nat}
    (h : ¬Rebinds bindings (.comm op_name attrs inputs outputs workers origin)) :
    ∃ n, ∀ t, Keeping bindings map t → t.session = n →
      Final (Shared.ExecuteComm fused plan op_name attrs inputs outputs) t
        (fun _ t => Changed bindings map t) fun _ t => Changed bindings map t := by
  obtain ⟨⟨input_id, hinput, hbound⟩, houtputs⟩ := Classical.not_imp.mp h
  obtain ⟨output_id, houtput, hnew⟩ := not_forall₂.mp houtputs
  obtain ⟨src, hsrc⟩ := Option.isSome_iff_exists.mp hbound
  obtain ⟨inputs, rfl⟩ : ∃ tail, inputs = input_id :: tail := by
    cases inputs with
    | nil => cases hinput
    | cons x tail => exact ⟨tail, by rw [show x = input_id from Option.some.inj hinput]⟩
  obtain ⟨more_outputs, rfl⟩ : ∃ tail, outputs = output_id :: tail := by
    cases outputs with
    | nil => cases houtput
    | cons x tail => exact ⟨tail, by rw [show x = output_id from Option.some.inj houtput]⟩
  simp only [Shared.ExecuteComm, final_bind, final_get]
  cases hout : bindings.lookup output_id with
  | none =>
    refine ⟨0, fun t ht hsession => ?_⟩
    simp only [ht.lookup, hsrc, final_bind]
    refine (new_EnsureValue hout _ ht hsession).weaken (fun _ _ => False.elim) fun dst u hu => ?_
    rcases commCall_spec fused plan op_name attrs input_id output_id src dst with
      ⟨-, op, hop, heq⟩ | ⟨-, heq⟩
    · rw [Shared.communicate, heq]
      exact (spent_call hop hu.1.spent).weaken (fun _ _ hv => hu.1.stays hv) fun _ _ => False.elim
    · rw [Shared.communicate, heq]
      exact hu.1
  | some dst =>
    obtain ⟨hsupported, x, hx, hne⟩ : op_name ∈ supportedComms ∧
        ∃ x ∈ more_outputs, bindings.lookup x ≠ some dst := by
      by_contra hnot
      refine hnew ⟨dst, hout, fun hsupported x hx => ?_⟩
      by_contra hne
      exact hnot ⟨hsupported, x, hx, hne⟩
    rcases commCall_spec fused plan op_name attrs input_id output_id src dst with
      ⟨-, op, hop, heq⟩ | ⟨hunsupported, -⟩
    · have hcomm : Runs bindings map .fused (do
          Shared.communicate fused plan op_name attrs input_id output_id src dst
          Shared.setValue output_id dst) () := by
        rw [Shared.communicate, heq]
        exact (runs_call hop).bind (runs_setValue hout)
      have hensure : Runs bindings map .fused
        (Shared.EnsureValue fused output_id (some src)) dst := runs_EnsureValue hout _
      obtain ⟨calls, hcomm⟩ := hcomm
      obtain ⟨calls', hensure⟩ := hensure
      refine ⟨calls' + (calls + 0), fun t ht hsession => ?_⟩
      simp only [ht.lookup, hsrc, final_bind]
      refine (hensure _ t ht hsession).weaken (fun _ _ hv => hv.2.elim) fun dst' u hu => ?_
      obtain ⟨rfl, hkeep, hleft⟩ := hu
      have hboth := hcomm 0 u hkeep hleft
      rw [final_bind] at hboth
      refine hboth.weaken (fun _ _ hv => hv.2.elim) fun _ v hv => ?_
      refine hv.weaken (fun _ _ hw => hw.2.elim) fun _ w hw => ?_
      obtain ⟨-, hkeep', hspent⟩ := hw
      refine (forM_setValue dst' more_outputs w).weaken (fun _ _ => False.elim) fun _ z hz => ?_
      obtain ⟨hsession', hvalues, -, hall⟩ := hz
      exact ⟨x, dst', ⟨hsession'.trans hspent, hvalues.trans hkeep'.values_, fun _ _ h => h⟩,
        hall x hx, hne⟩
    · exact absurd hsupported hunsupported

/-- A node that binds something anew. -/
theorem changes_ExecuteNode (plan : ExecutionPlan) {node : ExecNode}
    (h : ¬Rebinds bindings node) :
    ∃ n, ∀ t, Keeping bindings map t → t.session = n →
      Final (Shared.ExecuteNode fused plan node) t (fun _ t => Changed bindings map t)
        fun _ t => Changed bindings map t := by
  cases node with
  | barrier tag workers => exact absurd trivial h
  | comm op_name attrs inputs outputs workers origin => exact changes_comm plan h
  | kernel op_name kernel_symbol inputs outputs workers =>
    obtain ⟨hinput, h⟩ := Classical.not_imp.mp h
    have hmissing : ∃ x ∈ outputs, bindings.lookup x = none := by
      by_contra hnot
      refine h fun x hx => Option.isSome_iff_ne_none.mpr fun hnone => hnot ⟨x, hx, hnone⟩
    cases inputs with
    | nil =>
      exact changes_outputs (fun x hx => runs_fillOutput hx)
        (fun x _ _ ht => spent_fillOutput _ x ht) (fun x t hx ht hs => new_fillOutput _ hx ht hs)
        hmissing
    | cons input_id inputs =>
      obtain ⟨input, hinput⟩ := Option.isSome_iff_exists.mp (hinput input_id rfl)
      have houtputs : outputs ≠ [] := by
        rintro rfl
        obtain ⟨x, hx, -⟩ := hmissing
        cases hx
      obtain ⟨n, hn⟩ := changes_outputs (fun x hx => runs_copyOutput hx)
        (fun x _ _ ht => spent_copyOutput (EffectiveWorkerSet workers
          (ResolveWorkerForValue plan input_id)) input x ht)
        (fun x t hx ht hs => new_copyOutput _ input hx ht hs) hmissing
      refine ⟨n, fun t ht hsession => ?_⟩
      simp only [Shared.ExecuteNode, Shared.ExecuteKernel, if_neg houtputs, final_bind, final_get,
        ht.lookup, hinput]
      exact hn t ht hsession

theorem changes_nodes (plan : ExecutionPlan) (map : Nat) {nodes : List ExecNode}
    (h : ¬OnlyRebinds bindings nodes) :
    ∃ n, ∀ t, Keeping bindings map t → t.session = n →
      Final (nodes.forM (Shared.ExecuteNode fused plan)) t (fun _ t => Changed bindings map t)
        fun _ t => Changed bindings map t := by
  induction nodes with
  | nil => exact absurd trivial h
  | cons node nodes ih =>
    simp only [List.forM_eq_forM, List.forM_cons, final_bind]
    by_cases hrebinds : Rebinds bindings node
    · obtain ⟨hstops, hrest⟩ := not_or.mp fun hor => h ⟨hrebinds, hor⟩
      obtain ⟨n, hn⟩ := ih hrest
      have hnode : Runs bindings map .fused (Shared.ExecuteNode fused plan node) () :=
        runs_ExecuteNode plan hrebinds hstops
      obtain ⟨calls, hruns⟩ := hnode
      exact ⟨calls + n, fun t ht hsession => (hruns n t ht hsession).weaken
        (fun _ _ hu => hu.2.elim) fun _ u hu => hn u hu.2.1 hu.2.2⟩
    · obtain ⟨n, hn⟩ := changes_ExecuteNode plan hrebinds
      refine ⟨n, fun t ht hsession => (hn t ht hsession).mono fun _ u hu => ?_⟩
      exact (spent_nodes plan nodes hu.spent).weaken (fun _ _ hv => hu.stays hv)
        fun _ _ hv => hu.stays hv


end Spent

/-- Executing the plan leaves the caller's map with the bindings that it has, whether it returns or
throws, on every session with every backend. -/
def LeavesBindings (plan : ExecutionPlan) (bindings : Map Int DRef) : Prop :=
  ∀ (S : Type) (backend : Backend S) (map : Nat) (st : SharedState S), st.heap map = bindings →
    ∀ x, ((Shared.Execute backend plan map st).2.heap map).lookup x = bindings.lookup x

/-- The caller's map is left as it is if and only if no node binds anything anew. -/
theorem Execute_leavesBindings_iff (plan : ExecutionPlan) (bindings : Map Int DRef) :
    LeavesBindings plan bindings ↔ OnlyRebinds bindings plan.nodes := by
  have hstart {S : Type} (st : SharedState S) (map : Nat) (hmap : st.heap map = bindings) :
      Keeping bindings map { st with values_ := map } := ⟨rfl, fun x => by rw [← hmap]; rfl⟩
  constructor
  · intro h
    by_contra hnot
    obtain ⟨n, hn⟩ := changes_nodes plan 0 hnot
    have hchanged : Changed bindings 0
        (Shared.Execute fused plan 0 ⟨fun _ => bindings, 0, n⟩).2 := by
      refine Final.state (P := Changed bindings 0) ?_
      simp only [Shared.Execute, final_bind, final_modify, final_get, final_pure]
      exact hn _ (hstart ⟨fun _ => bindings, 0, n⟩ 0 rfl) rfl
    obtain ⟨x, ref, hspent, hx, hne⟩ := hchanged
    have hleft := h Nat fused 0 ⟨fun _ => bindings, 0, n⟩ rfl x
    rw [SharedState.values, hspent.values_, hleft] at hx
    exact hne hx
  · intro h S backend map st hmap
    have hkept : Keeping bindings map (Shared.Execute backend plan map st).2 := by
      refine Final.state (P := Keeping bindings map) ?_
      simp only [Shared.Execute, final_bind, final_modify, final_get, final_pure]
      exact keeps_nodes plan h (hstart st map hmap)
    intro x
    rw [← hkept.lookup x, SharedState.values, hkept.values_]

/-- One kernel, from value 0 to value 1. -/
def oneKernelPlan : ExecutionPlan where
  nodes := [.kernel "nn_relu" "" [0] [1] [0]]
  value_virtual_devices := ∅
  input_value_ids := [0]
  constant_value_ids := []
  value_shapes := ∅
  value_dtypes := ∅
  num_values := 2
  pass_ctx := { defined := true }
  output_value := 1

/-- The kernel binds its output for the caller. -/
theorem oneKernelPlan_changesBindings :
    (Shared.Execute fused oneKernelPlan 0 ⟨fun _ => AList.singleton 0 ⟨0⟩, 0, 1⟩).1 = .ok 0 ∧
      ¬LeavesBindings oneKernelPlan (AList.singleton 0 ⟨0⟩) := by
  refine ⟨rfl, fun h => ?_⟩
  have hleft := h Nat fused 0 ⟨fun _ => AList.singleton 0 ⟨0⟩, 0, 1⟩ rfl 1
  exact absurd hleft (by decide)

end Condition

end ExecutionPlanExecutor

end Kxc.Disco
