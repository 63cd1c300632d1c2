import Kxc.Base.PassContext
import Mathlib.Data.List.AList

/-! Execution plans (`base/execution_plan.h`): a list of kernel, communication and barrier nodes
over numbered values. -/

namespace Kxc

open Relay

/-- `Map`. -/
abbrev Map (K V : Type) := AList fun _ : K => V

/-- A defined node of a plan; the kernels of this phase carry no `PrimFunc`. As in a Relay call,
the `origin` of a communication node is no field of the source: it names the call of the input
graph that the node executes. -/
inductive ExecNode where
  | kernel (op_name kernel_symbol : String) (input_values output_values : List Int)
      (worker_set : List Int32)
  | comm (op_name : String) (attrs : Option Attrs) (input_values output_values : List Int)
      (worker_set : List Int32) (origin : Nat)
  | barrier (tag : String) (worker_set : List Int32)
  deriving DecidableEq

namespace ExecNode

def input_values : ExecNode → List Int
  | kernel _ _ inputs _ _ => inputs
  | comm _ _ inputs _ _ _ => inputs
  | barrier _ _ => []

def output_values : ExecNode → List Int
  | kernel _ _ _ outputs _ => outputs
  | comm _ _ _ outputs _ _ => outputs
  | barrier _ _ => []

def worker_set : ExecNode → List Int32
  | kernel _ _ _ _ workers => workers
  | comm _ _ _ _ workers _ => workers
  | barrier _ workers => workers

end ExecNode

structure ExecutionPlan where
  nodes : List ExecNode
  value_virtual_devices : Map Int VirtualDevice
  input_value_ids : List Int
  constant_value_ids : List Int
  value_shapes : Map Int (List Int64)
  value_dtypes : Map Int String
  num_values : Int
  pass_ctx : PassContext
  output_value : Int

/-- `IsCommunicationOpName`: the name starts with `device.`. -/
def IsCommunicationOpName (op_name : String) : Bool :=
  "device.".toList.isPrefixOf op_name.toList

end Kxc
