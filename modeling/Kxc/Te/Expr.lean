import Kxc.Tir.Expr

/-! Tensor expressions (`te/te.h`, `te/te.cc`): placeholders, and tensors that are computed element by
element. -/

namespace Kxc.Te

open Tir (DataType BinaryOp Var)

/-- `ReduceType`. -/
inductive ReduceType where
  | kSum
  | kMax
  | kMin
  deriving DecidableEq

mutual

/-- `PrimExpr`, with the nodes that only tensor expressions have. A `Call` has one argument, and a
`Reduce` one source. -/
inductive PrimExpr where
  | IntImm (value : Int64) (dtype : DataType)
  | FloatImm (value : Float) (dtype : DataType)
  | Var (var : Var)
  | Binary (op : BinaryOp) (a b : PrimExpr)
  | Not (value : PrimExpr)
  | Call (dtype : DataType) (name : String) (arg : PrimExpr)
  | Select (condition true_value false_value : PrimExpr)
  | ProducerLoad (tensor : Tensor) (indices : List PrimExpr)
  | Reduce (axis : List IterVar) (source : PrimExpr) (reduce_type : ReduceType)

/-- `IterVarNode`. -/
inductive IterVar where
  | mk (var : Var) (dom_min dom_extent : PrimExpr)

/-- `TensorNode` with its operation, a `PlaceholderOp` or a `ComputeOp` of one body. A placeholder is
told from others by its name. -/
inductive Tensor where
  | placeholder (name : String) (shape : List PrimExpr) (dtype : DataType)
  | compute (name : String) (axis : List Var) (body : PrimExpr) (shape : List PrimExpr)

end

def IterVar.var : IterVar → Var
  | mk var _ _ => var

def Tensor.shape : Tensor → List PrimExpr
  | placeholder _ shape _ | compute _ _ _ shape => shape

mutual

/-- The `dtype` that the constructors give a node. -/
def PrimExpr.dtype : PrimExpr → DataType
  | .IntImm _ dtype | .FloatImm _ dtype | .Call dtype _ _ => dtype
  | .Var var => var.dtype
  | .Binary op a _ => if op.isLogic then .Bool else a.dtype
  | .Not _ => .Bool
  | .Select _ true_value _ => true_value.dtype
  | .ProducerLoad tensor _ => tensor.dtype
  | .Reduce _ source _ => source.dtype

def Tensor.dtype : Tensor → DataType
  | .placeholder _ _ dtype => dtype
  | .compute _ _ body _ => body.dtype

end

namespace PrimExpr

/-- `PrimExpr(int32_t)`. -/
def int (value : Int32) : PrimExpr := .IntImm value.toInt64 (.Int 32)

instance : Add PrimExpr := ⟨.Binary .Add⟩
instance : Sub PrimExpr := ⟨.Binary .Sub⟩
instance : Mul PrimExpr := ⟨.Binary .Mul⟩
instance : Div PrimExpr := ⟨.Binary .Div⟩
instance : Mod PrimExpr := ⟨.Binary .Mod⟩

end PrimExpr

/-- `tir::Var(name_hint)`. -/
def intVar (name_hint : String) : Var := { name_hint, dtype := .Int 32 }

/-- `reduce_axis`. -/
def reduce_axis (dom_min dom_extent : PrimExpr) (name : String) : IterVar :=
  .mk (intVar name) dom_min dom_extent

/-- `AsPrimExpr`. -/
def IterVar.toPrimExpr (iter_var : IterVar) : PrimExpr := .Var iter_var.var

/-- `sum`. -/
def sum (expr : PrimExpr) (axis : List IterVar) : PrimExpr := .Reduce axis expr .kSum

/-- `max`. -/
def max (expr : PrimExpr) (axis : List IterVar) : PrimExpr := .Reduce axis expr .kMax

/-- `min`. -/
def min (expr : PrimExpr) (axis : List IterVar) : PrimExpr := .Reduce axis expr .kMin

/-- `axis` of `compute`. -/
def axisVars (ndim : Nat) : List Var := (List.range ndim).map fun i => intVar s!"ax{i}"

/-- `compute`. -/
def compute (shape : List PrimExpr) (fcompute : List Var → PrimExpr) (name : String) : Tensor :=
  .compute name (axisVars shape.length) (fcompute (axisVars shape.length)) shape

/-- `compute`, where `fcompute` may throw. -/
def computeM (shape : List PrimExpr) (fcompute : List Var → Except String PrimExpr)
    (name : String) : Except String Tensor := do
  let body ← fcompute (axisVars shape.length)
  return .compute name (axisVars shape.length) body shape

/-- `Tensor::operator()`. -/
def Tensor.at (tensor : Tensor) (indices : List PrimExpr) : PrimExpr := .ProducerLoad tensor indices

end Kxc.Te
