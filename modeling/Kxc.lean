import Kxc.Base.VirtualDevice
import Kxc.Base.DiscoPlacement
import Kxc.Relay.Expr
import Kxc.Relay.Pass
import Kxc.Base.PassContext
import Kxc.Base.ExecutionPlan
import Kxc.Lib.StateExcept
import Kxc.Lib.Dataflow
import Kxc.Relay.Scope
import Kxc.Relay.Transforms.MultiDevice
import Kxc.Base.Disco.Executor
import Kxc.Relay.Transforms.ExecPlanSsa
import Kxc.Relay.Fresh
import Kxc.Relay.Transforms.CollectiveCount
import Kxc.Relay.Transforms.PlanDevices
import Kxc.Relay.Transforms.KernelPlacement
import Kxc.Relay.Transforms.KernelLocality
import Kxc.Relay.PrintIr
import Kxc.Relay.Memory
import Kxc.Relay.PassUtils
import Kxc.Relay.Transforms.EliminateCommonSubexpr
import Kxc.Relay.Denote
import Kxc.Relay.Term
import Kxc.Relay.Transforms.CseSound
import Kxc.Lib.Rewriting
import Kxc.Relay.Transforms.Pipeline
import Kxc.Relay.Transforms.SideEffects
import Kxc.Relay.Transforms.PassEffects
import Kxc.Relay.Transforms.OptimizeEffects
import Kxc.Lib.Interleaving
import Kxc.Runtime.BackgroundCompiler
import Kxc.Runtime.Conservation
import Kxc.Runtime.Drain
import Kxc.Runtime.Wakeups
import Kxc.Runtime.KernelCache
import Kxc.Runtime.RuntimeSession
import Kxc.Runtime.SessionSafety
import Kxc.Lib.CLanguage
import Kxc.Lib.Llvm
import Kxc.Codegen.CodeGenC
import Kxc.Codegen.CodeGenLLVM
import Kxc.Codegen.Exactness
import Kxc.Codegen.KeepsLLVM
import Kxc.Codegen.KeepsC
import Kxc.Codegen.Agreement
import Kxc.Codegen.GuardedReads
import Kxc.Lib.ExceptCovers
import Kxc.Relay.TypeInfer
import Kxc.Relay.UnknownDims
import Kxc.Relay.Transforms.InferType
import Kxc.Relay.Typing
import Kxc.Relay.Transforms.InferTypeRules
import Kxc.Base.WorkerIdentity
import Kxc.Base.Disco.CclCpu
import Kxc.Base.Disco.GroupPartition
import Kxc.Lib.IndexSpace
import Kxc.Te.Expr
import Kxc.Te.Meaning
import Kxc.Relay.Op
import Kxc.Te.CommReduce
import Kxc.Relay.ReduceAxes
import Kxc.Te.Broadcast
import Kxc.Relay.Broadcasting
import Kxc.Te.Contraction
import Kxc.Relay.Lower
import Kxc.Relay.Products
import Kxc.Te.Window
import Kxc.Lib.RowMajor
import Kxc.Relay.OpTransform
import Kxc.Relay.Reshaping
import Kxc.Lib.Scatter
import Kxc.Relay.Transposing
import Kxc.Relay.StaticReshape
import Kxc.Relay.SplitConcat
import Kxc.Te.Concatenate
import Kxc.Relay.Transforms.TypedRewriting
import Kxc.Relay.MergedReshape
import Kxc.Relay.Transforms.RemoveStandaloneReshapes
import Kxc.Te.Stage
import Kxc.Relay.LowerReduce
import Kxc.Lib.Binary64
import Kxc.Relay.Effects
import Kxc.Relay.Transforms.EliminateDeadLet
import Kxc.Codegen.Refinement
import Kxc.Tir.Pass
import Kxc.Tir.PassUtils
import Kxc.Tir.Transforms.FoldConstant
import Kxc.Codegen.FoldConstant
import Kxc.Codegen.SimplifyExpr
import Kxc.Tir.Transforms.LoopPartition
import Kxc.Tir.Transforms.RemoveNoOp
import Kxc.Tir.Transforms.UnrollLoop
import Kxc.Lib.Action
import Kxc.Tir.Exec
import Kxc.Tir.Refinement
import Kxc.Codegen.Typing
import Kxc.Tir.Arithmetic
import Kxc.Tir.Locality
import Kxc.Runtime.FuzzyLookup
import Kxc.Runtime.Submission
import Kxc.Base.Disco.Arrays
import Kxc.Base.Disco.ScatterGather
import Kxc.Base.Disco.SharedValues
import Kxc.Base.Disco.AllReduce
import Kxc.Lib.Dominators
import Kxc.Relay.Transforms.CapturedDominators
import Kxc.Lib.Scanner
import Kxc.Base.JsonReader
import Kxc.Base.ExecutionPlanReload
