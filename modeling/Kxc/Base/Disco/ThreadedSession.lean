import Kxc.Base.Disco.Executor
import Kxc.Lib.StateExcept

/-! Threaded sessions (`base/disco/threaded_session.cc`): a register file for each worker. A session
keeps a history of the accesses to its registers, each with the group in whose iteration of a
collective's loop it is made. -/

namespace Kxc.Disco

open Relay Lib

/-- An exception, or a division by zero, which traps. -/
inductive SessionError where
  | runtime (what : String)
  | divideByZero
  deriving DecidableEq

inductive Access where
  | get (worker : Int32) (ref : DRef)
  | set (worker : Int32) (ref : DRef)
  deriving DecidableEq

/-- `ThreadedDiscoSessionNode`, with the history of its accesses. -/
structure ThreadedSession where
  num_workers : Int32
  num_groups : Int32
  reg_count : Int32 := 0
  register_file : Int32 → Int32 → Option NDArray := fun _ _ => none
  group : Option Int32 := none
  history : List (Option Int32 × Access) := []

abbrev SessionM := StateT ThreadedSession (Except SessionError)

/-- Runs a computation that does not use the session. -/
def lift {α : Type} (x : Except SessionError α) : SessionM α :=
  match x with
  | .ok a => pure a
  | .error e => throw e

/-- The constructor: counts below one become one. -/
def DiscoSession.ThreadedSession (num_workers num_groups : Int32) : ThreadedSession where
  num_workers := if 0 < num_workers then num_workers else 1
  num_groups := if 0 < num_groups then num_groups else 1

namespace ThreadedSession

def ValidateWorkerId (s : ThreadedSession) (worker_id : Int32) : Except SessionError Unit :=
  if worker_id < 0 ∨ s.num_workers ≤ worker_id then
    .error (.runtime "DiscoSession worker_id out of range")
  else .ok ()

def ValidateRegId (s : ThreadedSession) (reg_id : Int32) : Except SessionError Unit :=
  if reg_id < 0 ∨ s.reg_count ≤ reg_id then .error (.runtime "DiscoSession reg_id out of range")
  else .ok ()

/-- Adds an access to the history. -/
def record (s : ThreadedSession) (access : Access) : ThreadedSession :=
  { s with history := s.history ++ [(s.group, access)] }

end ThreadedSession

namespace DiscoSession

/-- `AllocateRegister`, and the reference to the new register. -/
def NewDRef : SessionM DRef := do
  let s ← get
  set { s with
    reg_count := s.reg_count + 1
    register_file := fun worker_id =>
      Function.update (s.register_file worker_id) s.reg_count none }
  return ⟨s.reg_count⟩

/-- `GetRegister` of a valid reference. -/
def Get (worker_id : Int32) (ref : DRef) : SessionM (Option NDArray) := do
  let s ← get
  lift (s.ValidateWorkerId worker_id)
  lift (s.ValidateRegId ref.reg_id)
  set (s.record (.get worker_id ref))
  return s.register_file worker_id ref.reg_id

/-- `SetRegister` of a valid reference. -/
def Set (worker_id : Int32) (ref : DRef) (value : Option NDArray) : SessionM Unit := do
  let s ← get
  lift (s.ValidateWorkerId worker_id)
  lift (s.ValidateRegId ref.reg_id)
  set { s.record (.set worker_id ref) with
    register_file := Function.update s.register_file worker_id
      (Function.update (s.register_file worker_id) ref.reg_id value) }

end DiscoSession

/-- The values of `i` in `for (int i = 0; i < n; ++i)`. -/
def intRange (n : Int32) : List Int32 := (List.range n.toInt.toNat).map Int32.ofNat

/-- `a / b` of `int`s. -/
def intDiv (a b : Int32) : SessionM Int32 :=
  if b = 0 then throw .divideByZero else return a / b

/-- A loop of a collective over the groups; the history keeps the group of each iteration. -/
def forGroups (groups : Int32) (body : Int32 → SessionM Unit) : SessionM Unit := do
  (intRange groups).forM fun group => do
    modify fun s => { s with group := some group }
    body group
  modify fun s => { s with group := none }

/-- `ParseDType` of `base/ndarray.cc`. -/
def ParseDType (dtype_str : String) : DLDataType :=
  match dtype_str with
  | "float32" => { code := kDLFloat, bits := 32, lanes := 1 }
  | "int32" => { code := kDLInt, bits := 32, lanes := 1 }
  | "float64" => { code := kDLFloat, bits := 64, lanes := 1 }
  | "int64" => { code := kDLInt, bits := 64, lanes := 1 }
  | "int8" => { code := kDLInt, bits := 8, lanes := 1 }
  | "uint8" => { code := kDLUint, bits := 8, lanes := 1 }
  | "bool" => { code := kDLUint, bits := 1, lanes := 1 }
  | _ => { code := kDLFloat, bits := 32, lanes := 1 }

/-- The constructor of `NDArray`, which fills the buffer with zeros. -/
def zeroArray (shape : List Int64) (dtype_str : String) : NDArray :=
  let dtype := ParseDType dtype_str
  let elements := shape.foldl (· * ·) 1
  let bytes := elements.toUInt64.toNat * ((dtype.bits.toNat + 7) / 8)
  { shape, dtype, data := List.replicate (if bytes = 0 then 1 else bytes) 0 }

/-- `DiscoSession::Empty`. -/
def DiscoSession.Empty (shape : List Int64) (dtype : String) (worker0_only in_group : Bool) :
    SessionM DRef := do
  let ref ← NewDRef
  let s ← get
  if !worker0_only then
    (intRange s.num_workers).forM fun worker => Set worker ref (some (zeroArray shape dtype))
    return ref
  else if !in_group then
    Set 0 ref (some (zeroArray shape dtype))
    return ref
  else
    let workers_per_group ← intDiv s.num_workers s.num_groups
    forGroups s.num_groups fun group =>
      Set (group * workers_per_group) ref (some (zeroArray shape dtype))
    return ref

end Kxc.Disco
