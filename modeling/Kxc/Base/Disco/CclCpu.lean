import Kxc.Base.Disco.ThreadedSession
import Kxc.Lib.Bytes

/-! The collectives of the CPU backend that serve groups of workers (`base/disco/ccl_cpu.cc`). -/

namespace Kxc.Disco

open Relay Lib

namespace CpuCCLBackend

def DTypeToString (dtype : DLDataType) : Except SessionError String :=
  if dtype.lanes ≠ 1 then .error (.runtime "CpuCCLBackend only supports lanes=1")
  else if dtype.code = kDLFloat ∧ dtype.bits = 32 then .ok "float32"
  else if dtype.code = kDLFloat ∧ dtype.bits = 64 then .ok "float64"
  else if dtype.code = kDLInt ∧ dtype.bits = 32 then .ok "int32"
  else if dtype.code = kDLInt ∧ dtype.bits = 64 then .ok "int64"
  else if dtype.code = kDLInt ∧ dtype.bits = 8 then .ok "int8"
  else .error (.runtime "Unsupported dtype in CpuCCLBackend")

/-- `NumElements` of a defined array. -/
def NumElements (array : NDArray) : Int64 := array.shape.foldl (· * ·) 1

/-- `NBytes` of a defined array. -/
def NBytes (array : NDArray) : Nat :=
  let bytes_per_elem : Int64 :=
    Int64.ofNat (array.dtype.bits.toNat / 8) * Int64.ofNat array.dtype.lanes.toNat
  (NumElements array * bytes_per_elem).toUInt64.toNat

def CloneArray : Option NDArray → Except SessionError (Option NDArray)
  | none => .ok none
  | some src => do
    let dst := zeroArray src.shape (← DTypeToString src.dtype)
    return some { dst with data := memcpy dst.data 0 src.data (NBytes src) }

/-- The product of the dimensions after the first. -/
def innerSize (array : NDArray) : Int64 := array.shape.tail.foldl (· * ·) 1

def SliceFirstDim (src : Option NDArray) (shard_start shard_len : Int64) :
    Except SessionError (Option NDArray) :=
  match src with
  | none => .ok none
  | some src =>
    match src.shape with
    | [] => .error (.runtime "Scatter expects rank >= 1 tensor")
    | dim0 :: dims =>
      if shard_start < 0 ∨ shard_len < 0 ∨ dim0 < shard_start + shard_len then
        .error (.runtime "Scatter shard out of bounds")
      else do
        let dst := zeroArray (shard_len :: dims) (← DTypeToString src.dtype)
        let bytes_per_elem := src.dtype.bits.toNat / 8
        let copy_bytes := (shard_len * innerSize src).toUInt64.toNat * bytes_per_elem
        let src_offset := (shard_start * innerSize src).toUInt64.toNat * bytes_per_elem
        return some { dst with data := memcpy dst.data 0 (src.data.drop src_offset) copy_bytes }

/-- The first loop of `ConcatFirstDim`: the sum of the first dimensions. -/
def totalDim0 : List (Option NDArray) → Except SessionError Int64
  | [] => .ok 0
  | none :: _ => .error (.runtime "Gather source contains undefined shard")
  | some arr :: arrays => do
    let rest ← totalDim0 arrays
    return arr.shape.getD 0 0 + rest

/-- The last loop of `ConcatFirstDim`: the bytes of the arrays one after another. -/
def concatBytes (inner : Int64) (bytes_per_elem : Nat) (dst : List UInt8) (offset : Nat) :
    List (Option NDArray) → List UInt8
  | [] => dst
  | none :: arrays => concatBytes inner bytes_per_elem dst offset arrays
  | some arr :: arrays =>
    let bytes := (arr.shape.getD 0 0 * inner).toUInt64.toNat * bytes_per_elem
    concatBytes inner bytes_per_elem (memcpy dst offset arr.data bytes) (offset + bytes) arrays

def ConcatFirstDim (arrays : List (Option NDArray)) : Except SessionError (Option NDArray) :=
  match arrays with
  | [] | none :: _ => .ok none
  | some first :: _ =>
    match first.shape with
    | [] => .error (.runtime "Gather expects rank >= 1 tensor")
    | _ :: dims => do
      let total_dim0 ← totalDim0 arrays
      let dst := zeroArray (total_dim0 :: dims) (← DTypeToString first.dtype)
      let bytes_per_elem := first.dtype.bits.toNat / 8
      return some
        { dst with data := concatBytes (innerSize first) bytes_per_elem dst.data 0 arrays }

open DiscoSession

def BroadcastFromWorker0 (src dst : DRef) (in_group : Bool) : SessionM Unit := do
  match ← Get 0 src with
  | none => throw (.runtime "Broadcast source on worker0 is undefined")
  | some root =>
    let session ← get
    if !in_group then
      (intRange session.num_workers).forM fun worker => do
        Set worker dst (← lift (CloneArray (some root)))
    else
      let workers_per_group ← intDiv session.num_workers session.num_groups
      forGroups session.num_groups fun group => do
        let value ← Get (group * workers_per_group) src
        let value := value.orElse fun _ => some root
        (intRange workers_per_group).forM fun i => do
          Set (group * workers_per_group + i) dst (← lift (CloneArray value))

def ScatterFromWorker0 (src dst : DRef) (in_group : Bool) : SessionM Unit := do
  match ← Get 0 src with
  | none => throw (.runtime "Scatter source on worker0 is undefined")
  | some root =>
    let session ← get
    let receivers ←
      if in_group then intDiv session.num_workers session.num_groups
      else pure session.num_workers
    let indivisible : SessionM Unit :=
      throw (.runtime "Scatter expects first dimension divisible by receiver count")
    match root.shape with
    | [] => indivisible
    | dim0 :: _ =>
      if receivers = 0 then throw .divideByZero
      else if dim0 % receivers.toInt64 ≠ 0 then indivisible
      else
        let shard := dim0 / receivers.toInt64
        if !in_group then
          (intRange session.num_workers).forM fun worker => do
            Set worker dst (← lift (SliceFirstDim (some root) (worker.toInt64 * shard) shard))
        else
          let workers_per_group ← intDiv session.num_workers session.num_groups
          forGroups session.num_groups fun group => do
            let root_worker := group * workers_per_group
            let group_src ← Get root_worker src
            let group_src := group_src.orElse fun _ => some root
            (intRange workers_per_group).forM fun i => do
              Set (root_worker + i) dst
                (← lift (SliceFirstDim group_src (i.toInt64 * shard) shard))

def GatherToWorker0 (src dst : DRef) (in_group : Bool) : SessionM Unit := do
  let session ← get
  if !in_group then
    let shards ← (intRange session.num_workers).mapM fun worker => Get worker src
    Set 0 dst (← lift (ConcatFirstDim shards))
  else
    let workers_per_group ← intDiv session.num_workers session.num_groups
    forGroups session.num_groups fun group => do
      let root_worker := group * workers_per_group
      let shards ← (intRange workers_per_group).mapM fun i => Get (root_worker + i) src
      Set root_worker dst (← lift (ConcatFirstDim shards))

end CpuCCLBackend

end Kxc.Disco
