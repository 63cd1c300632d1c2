import Kxc.Relay.TypeInfer

/-! `InferTypePass` (`relay/transforms/infer_type.cc`): a traversal of the graph with a memo table
and an environment, both by address, that writes the checked types of the nodes. -/

namespace Kxc.Relay

mutual

/-- `TypeEqual`. -/
def TypeEqual : Option RelayType → Option RelayType → Bool
  | none, none => true
  | some (.tensor shape dtype), some (.tensor shape' dtype') => dtype == dtype' && shape == shape'
  | some (.tuple fields), some (.tuple fields') => TypesEqual fields fields'
  | _, _ => false

/-- The loop of `TypeEqual` over the fields of tuples. -/
def TypesEqual : List (Option RelayType) → List (Option RelayType) → Bool
  | [], [] => true
  | t :: ts, t' :: ts' => TypeEqual t t' && TypesEqual ts ts'
  | _, _ => false

end

/-- `op_node->attrs.find("FInferType")`: what the operators are registered with
(`relay/op/nn/*.cc`, `relay/op/tensor/*.cc`). -/
def registeredInferType (op_name : String) : Option FInferType :=
  match op_name with
  | "nn_dense" => some DenseInferType
  | "nn_gemm" => some GemmInferType
  | "nn_conv2d" => some Conv2DInferType
  | "softmax" => some SoftmaxInferType
  | "nn_relu" | "sqrt" => some UnarySameInferType
  | "nn_max_pool2d" | "nn_avg_pool2d" => some Pool2DInferType
  | "nn_global_avg_pool2d" => some GlobalAvgPool2DInferType
  | "add" => some AddInferType
  | "subtract" => some SubtractInferType
  | "mul" => some MultiplyInferType
  | "divide" => some DivideInferType
  | "matmul" => some MatMulInferType
  | "nn_flatten" => some FlattenInferType
  | "reshape" => some ReshapeInferType
  | "transpose" => some TransposeInferType
  | "cast" => some CastInferType
  | "reduce_mean" => some ReduceMeanInferType
  | _ => none

namespace TypeInferencer

def DTypeToString (dtype : DLDataType) : Except String String :=
  if dtype.lanes ≠ 1 then .error "InferType only supports scalar-lane DLDataType"
  else if dtype.code = kDLFloat ∧ dtype.bits = 32 then .ok "float32"
  else if dtype.code = kDLFloat ∧ dtype.bits = 64 then .ok "float64"
  else if dtype.code = kDLInt ∧ dtype.bits = 8 then .ok "int8"
  else if dtype.code = kDLInt ∧ dtype.bits = 32 then .ok "int32"
  else if dtype.code = kDLInt ∧ dtype.bits = 64 then .ok "int64"
  else if dtype.code = kDLUint ∧ dtype.bits = 1 then .ok "bool"
  else if dtype.code = kDLUint ∧ dtype.bits = 8 then .ok "uint8"
  else .error "Unsupported constant dtype in InferType"

/-- The tables of the traversal, and the heap that it writes to. -/
structure State where
  heap : Heap
  memo : Nat → Option (Option RelayType) := fun _ => none
  var_env : Nat → Option (Option RelayType) := fun _ => none

abbrev InferM := StateT State (Except String)

def ofExcept {α : Type} (x : Except String α) : InferM α :=
  match x with
  | .ok a => pure a
  | .error what => throw what

/-- `SetCheckedType` of the node at address `id`. -/
def SetCheckedType (id : Nat) (type : Option RelayType) : InferM Unit :=
  modify fun s => { s with
    heap := s.heap.setAnn id { s.heap.ann id with checked_type_ := type } }

/-- `SetCheckedType`, if the type is defined. -/
def setDefinedType (id : Nat) : Option RelayType → InferM Unit
  | some type => SetCheckedType id (some type)
  | none => pure ()

/-- `Visit` around the `VisitX` of the node at address `id`. -/
def memoized (id : Nat) (visit : InferM (Option RelayType)) : InferM (Option RelayType) := do
  match (← get).memo id with
  | some type => return type
  | none =>
    let result ← visit
    setDefinedType id result
    modify fun s => { s with memo := Function.update s.memo id (some result) }
    return result

/-- An entry of `var_env_`, and the checked type of the variable. -/
def bindVar (v : Var) (type : Option RelayType) : InferM Unit := do
  modify fun s => { s with var_env := Function.update s.var_env v.id (some type) }
  SetCheckedType v.id type

def VisitConstant : Option NDArray → InferM (Option RelayType)
  | none => throw "InferType found undefined Constant data"
  | some data => do
    let dtype ← ofExcept (DTypeToString data.dtype)
    return some (.tensor data.shape dtype)

def VisitVar (v : Var) : InferM (Option RelayType) := do
  let s ← get
  match s.var_env v.id, v.type_annotation, (s.heap.ann v.id).checked_type_ with
  | some type, _, _ => return type
  | none, some type, _ => return some type
  | none, none, some type => return some type
  | none, none, none => throw s!"InferType requires a type for variable: {v.name_hint}"

/-- The loop of `VisitFunction` over the parameters. -/
def VisitParams : List Var → InferM Unit
  | [] => pure ()
  | param :: params => do
    match param.type_annotation with
    | none =>
      throw s!"InferType requires TensorType annotation on parameter: {param.name_hint}"
    | some (.tuple _) =>
      throw s!"InferType currently supports TensorType parameters only: {param.name_hint}"
    | some type =>
      bindVar param (some type)
      VisitParams params

/-- The end of `VisitCall`. -/
def applyInferType (op_name : String) (attrs : Option Attrs) (input_types : List RelayType) :
    InferM (Option RelayType) := do
  match registeredInferType op_name with
  | none => throw s!"No FInferType registered for op: {op_name}"
  | some infer_rule =>
    let out_type ← ofExcept (infer_rule attrs input_types)
    return some out_type

/-- The condition of `VisitIf` is a scalar of type `bool`. -/
def isScalarBool (type : Option RelayType) : Bool :=
  match AsTensor type with
  | some tensor => tensor.dtype == "bool" && tensor.shape.isEmpty
  | none => false

/-- The annotation of a `Let` variable, if there is one, is the type of its value. -/
def annotationMatches (v : Var) (value_type : Option RelayType) : Bool :=
  v.type_annotation.isNone || TypeEqual v.type_annotation value_type

/-- The field that `VisitTupleGetItem` returns. -/
def tupleField (tuple_type : Option RelayType) (index : Int32) : InferM (Option RelayType) :=
  match AsTuple tuple_type with
  | none => throw s!"TupleGetItem expects TupleType, got {typeText tuple_type}"
  | some fields =>
    if index < 0 ∨ fields.length ≤ index.toInt.toNat then
      throw s!"TupleGetItem index out of range: {index}"
    else return fields.getD index.toInt.toNat none

mutual

/-- `Visit`. -/
def Visit : Expr → InferM (Option RelayType)
  | .undef => return none
  | .constant id data => memoized id (VisitConstant data)
  | .var v => memoized v.id (VisitVar v)
  | .op id _ => memoized id (return none)
  | .call id op args attrs _ => memoized id do
    match op with
    | .op _ op_name =>
      let input_types ← VisitArgs op_name args
      applyInferType op_name attrs input_types
    | _ => throw "InferType currently supports calls to registered Ops only"
  | .function id params body => memoized id do
    VisitParams params
    let body_type ← Visit body
    SetCheckedType id body_type
    return body_type
  | .ifE id cond true_branch false_branch => memoized id do
    let cond_type ← Visit cond
    if !isScalarBool cond_type then
      throw "If condition must be a scalar bool TensorType"
    else
      let true_type ← Visit true_branch
      let false_type ← Visit false_branch
      if !TypeEqual true_type false_type then
        throw s!"If branch type mismatch: {typeText true_type} vs {typeText false_type}"
      else return true_type
  | .letE id v value body => memoized id do
    let value_type ← Visit value
    if !annotationMatches v value_type then
      throw (s!"Let variable annotation mismatch for {v.name_hint}: " ++
        s!"{typeText v.type_annotation} vs {typeText value_type}")
    else
      bindVar v value_type
      Visit body
  | .tuple id fields => memoized id do
    let types ← VisitFields fields
    return some (.tuple types)
  | .tupleGetItem id tuple index => memoized id do
    let tuple_type ← Visit tuple
    tupleField tuple_type index

/-- The loop of `VisitCall` over the arguments. -/
def VisitArgs (op_name : String) : List Expr → InferM (List RelayType)
  | [] => return []
  | arg :: args => do
    match ← Visit arg with
    | none => throw s!"InferType failed to infer argument type for op: {op_name}"
    | some arg_type =>
      let input_types ← VisitArgs op_name args
      return arg_type :: input_types

/-- The loop of `VisitTuple` over the fields. -/
def VisitFields : List Expr → InferM (List (Option RelayType))
  | [] => return []
  | field :: fields => do
    let type ← Visit field
    let types ← VisitFields fields
    return type :: types

end

/-- `Infer` of a defined function. -/
def Infer (func : Function) (σ : Heap) : Except String (Option RelayType × Heap) := do
  let (type, s) ← (Visit func.toExpr).run { heap := σ }
  return (type, s.heap)

end TypeInferencer

/-- `InferTypePass` of a defined function, which it returns: the heap afterwards. -/
def InferTypePass (func : Function) (σ : Heap) : Except String Heap := do
  let (_, τ) ← TypeInferencer.Infer func σ
  return τ

end Kxc.Relay
