import Kxc.Lib.Interleaving
import Kxc.Runtime.KernelCache

/-! The adaptive session (`runtime/runtime_session.cc`): clients that run and warm up shapes and
background compilations that put modules into the cache, one atomic step at a time. `KernelCache`
locks every operation, but hands out pointers into the cache. -/

namespace Kxc.Runtime

/-- The Relay function of a session, as far as the extents of its inputs go: the shapes of its
parameters' types, which the passes keep and `RelayToTEConverter` makes placeholders of. -/
structure RelayFunction where
  param_shapes : List Shape

/-- Where a client is in `Run` or `WarmUp` of a shape. -/
inductive Client where
  | idle
  /-- About to call `predictor_.Record`. -/
  | record (sig : ShapeSignature)
  | getExact (sig : ShapeSignature)
  | getFuzzy (sig : ShapeSignature)
  /-- Both lookups missed. -/
  | compile (sig : ShapeSignature)
  | put (sig : ShapeSignature) (module : CompiledModule)
  /-- Looks up the module that it has put. -/
  | lookup (sig : ShapeSignature)
  /-- Runs the module that it has found under `key`; then it may schedule an optimization. -/
  | execute (sig key : ShapeSignature) (module : CompiledModule) (schedules : Bool)
  | schedule (sig : ShapeSignature)
  /-- In `WarmUp`, about to call `cache_.Has`. -/
  | has (sig : ShapeSignature)
  | warmCompile (sig : ShapeSignature)
  | warmPut (sig : ShapeSignature) (module : CompiledModule)
  deriving DecidableEq

/-- A background compilation of a shape. -/
inductive Background where
  | queued (sig : ShapeSignature)
  /-- Compiled, about to call `on_complete`. -/
  | compiled (sig : ShapeSignature) (module : CompiledModule)
  deriving DecidableEq

/-- A session, its clients and its background compilations. -/
structure RuntimeSession where
  relay_func_ : RelayFunction
  cache_ : KernelCache := []
  predictor_ : ShapePredictor := {}
  submitted_shapes_ : List UInt64 := []
  clients : List Client
  background : List Background := []
  /-- How many modules have been compiled. -/
  compiled : Nat := 0

namespace RuntimeSession

/-- The constructor, with clients that have not called anything yet. -/
def construct (relay_func : RelayFunction) (clients : Nat) : RuntimeSession where
  relay_func_ := relay_func
  clients := List.replicate clients .idle

/-- What `Compiler::Compile(relay_func_, internal_config_)` answers with: it is not given a shape. -/
def Compile (s : RuntimeSession) : CompiledModule where
  extents := s.relay_func_.param_shapes
  serial := s.compiled

/-- Client `i` moves to `c`. -/
def setClient (s : RuntimeSession) (i : Nat) (c : Client) : RuntimeSession :=
  { s with clients := s.clients.set i c }

end RuntimeSession

/-- A step puts a module into the cache under a signature, or not. -/
inductive CacheEvent where
  | put (sig : ShapeSignature)
  | other

/-- A step of client `i`. -/
inductive ClientStep (stdHash : Int64 → UInt64) :
    RuntimeSession → Nat → CacheEvent → RuntimeSession → Prop
  | run {s i} (sig : ShapeSignature) (h : s.clients[i]? = some .idle) :
    ClientStep stdHash s i .other (s.setClient i (.record sig))
  | record {s i sig} (h : s.clients[i]? = some (.record sig)) :
    ClientStep stdHash s i .other { s.setClient i (.getExact sig) with
      predictor_ := s.predictor_.Record sig }
  | exactHit {s i sig module} (h : s.clients[i]? = some (.getExact sig))
    (hfound : s.cache_.GetExact sig = some module) :
    ClientStep stdHash s i .other (s.setClient i (.execute sig sig module false))
  | exactMiss {s i sig} (h : s.clients[i]? = some (.getExact sig))
    (hmiss : s.cache_.GetExact sig = none) :
    ClientStep stdHash s i .other (s.setClient i (.getFuzzy sig))
  /-- The map is iterated in some order. -/
  | fuzzyHit {s i sig key module order} (h : s.clients[i]? = some (.getFuzzy sig))
    (horder : List.Perm order s.cache_)
    (hfound : KernelCache.GetFuzzy order sig = some (key, module)) :
    ClientStep stdHash s i .other (s.setClient i (.execute sig key module true))
  | fuzzyMiss {s i sig order} (h : s.clients[i]? = some (.getFuzzy sig))
    (horder : List.Perm order s.cache_) (hmiss : KernelCache.GetFuzzy order sig = none) :
    ClientStep stdHash s i .other (s.setClient i (.compile sig))
  | compile {s i sig} (h : s.clients[i]? = some (.compile sig)) :
    ClientStep stdHash s i .other { s.setClient i (.put sig s.Compile) with
      compiled := s.compiled + 1 }
  /-- `Compile` throws, and so does `Run`. -/
  | compileThrows {s i sig} (h : s.clients[i]? = some (.compile sig)) :
    ClientStep stdHash s i .other (s.setClient i .idle)
  | put {s i sig module} (h : s.clients[i]? = some (.put sig module)) :
    ClientStep stdHash s i (.put sig) { s.setClient i (.lookup sig) with
      cache_ := s.cache_.Put sig module }
  | lookup {s i sig module} (h : s.clients[i]? = some (.lookup sig))
    (hfound : s.cache_.GetExact sig = some module) :
    ClientStep stdHash s i .other (s.setClient i (.execute sig sig module true))
  /-- The kernel has run. -/
  | execute {s i sig key module schedules}
    (h : s.clients[i]? = some (.execute sig key module schedules)) :
    ClientStep stdHash s i .other
      (s.setClient i (if schedules then .schedule sig else .idle))
  /-- `MaybeScheduleOptimization` submits a task. -/
  | schedule {s i sig} (h : s.clients[i]? = some (.schedule sig))
    (hcompile : s.predictor_.ShouldCompile sig 2 0.05 = true)
    (hnew : sig.Hash stdHash ∉ s.submitted_shapes_) :
    ClientStep stdHash s i .other { s.setClient i .idle with
      submitted_shapes_ := sig.Hash stdHash :: s.submitted_shapes_,
      background := s.background ++ [.queued sig] }
  /-- `MaybeScheduleOptimization` returns early. -/
  | scheduleNothing {s i sig} (h : s.clients[i]? = some (.schedule sig))
    (hskip : s.predictor_.ShouldCompile sig 2 0.05 = false ∨
      sig.Hash stdHash ∈ s.submitted_shapes_) :
    ClientStep stdHash s i .other (s.setClient i .idle)
  | warmUp {s i} (sig : ShapeSignature) (h : s.clients[i]? = some .idle) :
    ClientStep stdHash s i .other (s.setClient i (.has sig))
  | alreadyCached {s i sig} (h : s.clients[i]? = some (.has sig))
    (hhas : s.cache_.Has sig = true) : ClientStep stdHash s i .other (s.setClient i .idle)
  | notCached {s i sig} (h : s.clients[i]? = some (.has sig))
    (hhas : s.cache_.Has sig = false) :
    ClientStep stdHash s i .other (s.setClient i (.warmCompile sig))
  | warmCompile {s i sig} (h : s.clients[i]? = some (.warmCompile sig)) :
    ClientStep stdHash s i .other { s.setClient i (.warmPut sig s.Compile) with
      compiled := s.compiled + 1 }
  | warmCompileThrows {s i sig} (h : s.clients[i]? = some (.warmCompile sig)) :
    ClientStep stdHash s i .other (s.setClient i .idle)
  | warmPut {s i sig module} (h : s.clients[i]? = some (.warmPut sig module)) :
    ClientStep stdHash s i (.put sig) { s.setClient i .idle with
      cache_ := s.cache_.Put sig module }

/-- A step of background compilation `k`. -/
inductive BackgroundStep : RuntimeSession → Nat → CacheEvent → RuntimeSession → Prop
  | compile {s k sig} (h : s.background[k]? = some (.queued sig)) :
    BackgroundStep s k .other { s with
      background := s.background.set k (.compiled sig s.Compile),
      compiled := s.compiled + 1 }
  /-- `Compile` throws, and `on_complete` is not called. -/
  | compileThrows {s k sig} (h : s.background[k]? = some (.queued sig)) :
    BackgroundStep s k .other { s with background := s.background.eraseIdx k }
  /-- `on_complete`. -/
  | complete {s k sig module} (h : s.background[k]? = some (.compiled sig module)) :
    BackgroundStep s k (.put sig) { s with
      background := s.background.eraseIdx k,
      cache_ := s.cache_.Put sig module }

/-- A step of any thread of a session. -/
inductive SessionStep (stdHash : Int64 → UInt64) (s : RuntimeSession) (event : CacheEvent)
    (s' : RuntimeSession) : Prop
  | client (i : Nat) (h : ClientStep stdHash s i event s')
  | background (k : Nat) (h : BackgroundStep s k event s')

end Kxc.Runtime
