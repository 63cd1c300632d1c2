import Kxc.Base.DiscoPlacement
import Kxc.Relay.Pass

/-! The context of a pass (`base/pass.h`): the virtual devices of a Relay graph and a placement of
them. -/

namespace Kxc

open Relay

/-- `PassContext`; an undefined context has `defined := false`. -/
structure PassContext where
  defined : Bool := false
  is_multi_device : Bool := false
  primary_virtual_device : Option VirtualDevice := none
  virtual_devices : List VirtualDevice := []
  default_target : Option Target := none
  default_device_obj : Option Device := none
  disco_placement : Option DiscoPlacement := none

namespace PassContext

/-- `DeviceIdentityKey`. -/
def DeviceIdentityKey : Option Device → Option Target → String
  | some dev, _ => s!"{dev.device_type.code.toInt}:{dev.device_id.toInt}"
  | none, some t => s!"{t.device_type.code.toInt}:{t.device_id.toInt}"
  | none, none => "unconstrained"

def BuildFromVirtualDevices (apis : DeviceAPIManager) (virtual_devices : List VirtualDevice) :
    Except String PassContext :=
  match virtual_devices with
  | [] => .ok {}
  | primary :: _ => do
    let default_target ←
      match primary.node.target, primary.node.device_obj with
      | none, some dev => some <$> BuildTarget apis dev
      | target, _ => .ok target
    let identities :=
      virtual_devices.map fun vd => DeviceIdentityKey vd.node.device_obj vd.node.target
    let placement ← BuildDiscoPlacement apis (virtual_devices.map some) 1
    return {
      defined := true
      is_multi_device := 1 < identities.dedup.length
      primary_virtual_device := some primary
      virtual_devices
      default_target
      default_device_obj := primary.node.device_obj
      disco_placement := some placement }

/-- The arguments that `CollectRelayVirtualDevices` updates. -/
structure CollectState where
  visited_exprs : List Nat := []
  visited_virtual_devices : List Nat := []
  out_virtual_devices : List VirtualDevice := []

/-- Visits the node `e` itself: records its virtual device unless one with the same address is
recorded already. -/
def CollectState.enter (σ : Heap) (e : Expr) (st : CollectState) : CollectState :=
  let st := { st with visited_exprs := e.ptr :: st.visited_exprs }
  match (σ.annOf e).virtual_device_ with
  | none => st
  | some vd =>
    if vd.ref ∈ st.visited_virtual_devices then st
    else
      { st with
        visited_virtual_devices := vd.ref :: st.visited_virtual_devices
        out_virtual_devices := st.out_virtual_devices ++ [vd] }

/-- Visits a node without children unless it was visited before. -/
def CollectState.visitLeaf (σ : Heap) (e : Expr) (st : CollectState) : CollectState :=
  if e.ptr ∈ st.visited_exprs then st else st.enter σ e

mutual

/-- `CollectRelayVirtualDevices`. -/
def CollectRelayVirtualDevices (σ : Heap) : Expr → CollectState → CollectState
  | .undef, st => st
  | .constant id data, st => st.visitLeaf σ (.constant id data)
  | .var v, st => st.visitLeaf σ (.var v)
  | .op id name, st => st.visitLeaf σ (.op id name)
  | .call id op args attrs origin, st =>
    if id ∈ st.visited_exprs then st
    else
      CollectList σ args
        (CollectRelayVirtualDevices σ op (st.enter σ (.call id op args attrs origin)))
  | .function id params body, st =>
    if id ∈ st.visited_exprs then st
    else
      let st := params.foldl (fun st v => st.visitLeaf σ (.var v))
        (st.enter σ (.function id params body))
      CollectRelayVirtualDevices σ body st
  | .ifE id c t f, st =>
    if id ∈ st.visited_exprs then st
    else
      CollectRelayVirtualDevices σ f (CollectRelayVirtualDevices σ t
        (CollectRelayVirtualDevices σ c (st.enter σ (.ifE id c t f))))
  | .letE id v value body, st =>
    if id ∈ st.visited_exprs then st
    else
      CollectRelayVirtualDevices σ body (CollectRelayVirtualDevices σ value
        ((st.enter σ (.letE id v value body)).visitLeaf σ (.var v)))
  | .tuple id fields, st =>
    if id ∈ st.visited_exprs then st
    else CollectList σ fields (st.enter σ (.tuple id fields))
  | .tupleGetItem id t index, st =>
    if id ∈ st.visited_exprs then st
    else CollectRelayVirtualDevices σ t (st.enter σ (.tupleGetItem id t index))

/-- `CollectRelayVirtualDevices` of the elements of an array. -/
def CollectList (σ : Heap) : List Expr → CollectState → CollectState
  | [], st => st
  | e :: es, st => CollectList σ es (CollectRelayVirtualDevices σ e st)

end

def FromRelay (apis : DeviceAPIManager) (func : Function) (σ : Heap) :
    Except String PassContext :=
  BuildFromVirtualDevices apis
    (CollectRelayVirtualDevices σ func.toExpr {}).out_virtual_devices

def WithDiscoPlacement (base_ctx : PassContext) (placement : Option DiscoPlacement) :
    PassContext :=
  { base_ctx with
    defined := base_ctx.defined || placement.isSome
    disco_placement := placement }

end PassContext

/-- `BuildDiscoPlacementPass`. -/
def BuildDiscoPlacementPass (apis : DeviceAPIManager) (func : Function) (σ : Heap) :
    Except String PassContext := do
  let pass_ctx ← PassContext.FromRelay apis func σ
  if pass_ctx.disco_placement.isSome then
    return pass_ctx
  else
    let placement ← BuildDiscoPlacement apis (pass_ctx.virtual_devices.map some) 1
    return pass_ctx.WithDiscoPlacement (some placement)

end Kxc
