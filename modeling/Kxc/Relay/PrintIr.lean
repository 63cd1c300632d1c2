import Kxc.Relay.Pass

/-! The text of Relay expressions (`relay/pass/print_ir.cc`). It shows the operators, the shapes,
the names of variables and the checked types; it shows no attributes and no data of constants. -/

namespace Kxc.Relay

/-- `TensorTypeToString`. -/
def TensorTypeToString (shape : List Int64) (dtype : String) : String :=
  "Tensor[" ++ ", ".intercalate (shape.map fun dim => toString dim.toInt) ++ "; " ++ dtype ++ "]"

mutual

/-- `TypeToString` of a defined type. -/
def TypeToString : RelayType → String
  | .tensor shape dtype => TensorTypeToString shape dtype
  | .tuple fields => "Tuple(" ++ ", ".intercalate (TypesToStrings fields) ++ ")"

/-- `TypeToString` of each field of a tuple. -/
def TypesToStrings : List (Option RelayType) → List String
  | [] => []
  | none :: ts => "<unknown>" :: TypesToStrings ts
  | some t :: ts => TypeToString t :: TypesToStrings ts

end

namespace RelayIRPrinter

def Indent (n : Nat) : String := String.ofList (List.replicate n ' ')

def CheckedTypeSuffix (σ : Heap) (e : Expr) : String :=
  match (σ.annOf e).checked_type_ with
  | some checked_type => " : " ++ TypeToString checked_type
  | none => ""

def DTypeToString (dtype : DLDataType) : String :=
  let bits := toString dtype.bits.toNat
  if dtype.code = kDLFloat then "float" ++ bits
  else if dtype.code = kDLInt then "int" ++ bits
  else if dtype.code = kDLUint then
    if dtype.bits = 1 then "bool" else "uint" ++ bits
  else "dtype(code=" ++ toString dtype.code.toNat ++ ",bits=" ++ bits ++ ")"

/-- The arguments of `Constant(…)`. A constant without an array, whose null pointer the source
follows, is given none. -/
def constantText : Option NDArray → String
  | some data =>
    "shape=[" ++ ", ".intercalate (data.shape.map fun dim => toString dim.toInt) ++
      "], dtype=" ++ DTypeToString data.dtype
  | none => ""

/-- The name of the callee in the text of a call. -/
def calleeText : Expr → String
  | .op _ name => name
  | _ => "<expr-op>"

mutual

/-- `RelayIRPrinter::Print`. -/
def Print (σ : Heap) (indent_spaces : Nat) : Expr → Nat → String
  | .undef, indent => Indent indent ++ "<undef-expr>\n"
  | .var v, indent =>
    Indent indent ++ "Var(" ++ v.name_hint ++ ")" ++ CheckedTypeSuffix σ (.var v) ++ "\n"
  | .constant id data, indent =>
    Indent indent ++ "Constant(" ++ constantText data ++ ")" ++
      CheckedTypeSuffix σ (.constant id data) ++ "\n"
  | .op _ _, indent => Indent indent ++ "<expr>\n"
  | .call id op args attrs origin, indent =>
    Indent indent ++ "Call(op=" ++ calleeText op ++ ", args=" ++ toString args.length ++ ")" ++
      CheckedTypeSuffix σ (.call id op args attrs origin) ++ "\n" ++
      PrintParts σ indent_spaces "arg" 0 args indent
  | .function id params body, indent =>
    Indent indent ++ "Function(params=" ++ toString params.length ++ ")" ++
      CheckedTypeSuffix σ (.function id params body) ++ "\n" ++
      String.join (params.zipIdx.map fun (param, i) => Indent (indent + indent_spaces) ++
        "param[" ++ toString i ++ "]=" ++ param.name_hint ++ "\n") ++
      Indent (indent + indent_spaces) ++ "body:\n" ++
      Print σ indent_spaces body (indent + indent_spaces * 2)
  | .ifE id cond true_branch false_branch, indent =>
    Indent indent ++ "If" ++
      CheckedTypeSuffix σ (.ifE id cond true_branch false_branch) ++ "\n" ++
      Indent (indent + indent_spaces) ++ "cond:\n" ++
      Print σ indent_spaces cond (indent + indent_spaces * 2) ++
      Indent (indent + indent_spaces) ++ "true:\n" ++
      Print σ indent_spaces true_branch (indent + indent_spaces * 2) ++
      Indent (indent + indent_spaces) ++ "false:\n" ++
      Print σ indent_spaces false_branch (indent + indent_spaces * 2)
  | .letE id var value body, indent =>
    Indent indent ++ "Let(var=" ++ var.name_hint ++ ")" ++
      CheckedTypeSuffix σ (.letE id var value body) ++ "\n" ++
      Indent (indent + indent_spaces) ++ "value:\n" ++
      Print σ indent_spaces value (indent + indent_spaces * 2) ++
      Indent (indent + indent_spaces) ++ "body:\n" ++
      Print σ indent_spaces body (indent + indent_spaces * 2)
  | .tuple id fields, indent =>
    Indent indent ++ "Tuple(fields=" ++ toString fields.length ++ ")" ++
      CheckedTypeSuffix σ (.tuple id fields) ++ "\n" ++
      PrintParts σ indent_spaces "field" 0 fields indent
  | .tupleGetItem id tuple index, indent =>
    Indent indent ++ "TupleGetItem(index=" ++ toString index.toInt ++ ")" ++
      CheckedTypeSuffix σ (.tupleGetItem id tuple index) ++ "\n" ++
      Indent (indent + indent_spaces) ++ "tuple:\n" ++
      Print σ indent_spaces tuple (indent + indent_spaces * 2)

/-- The loop over the arguments of a call or the fields of a tuple, from the `i`-th on. -/
def PrintParts (σ : Heap) (indent_spaces : Nat) (label : String) (i : Nat) :
    List Expr → Nat → String
  | [], _ => ""
  | e :: es, indent =>
    Indent (indent + indent_spaces) ++ label ++ "[" ++ toString i ++ "]:\n" ++
      Print σ indent_spaces e (indent + indent_spaces * 2) ++
      PrintParts σ indent_spaces label (i + 1) es indent

end

end RelayIRPrinter

/-- `ToText`. -/
def ToText (σ : Heap) (e : Expr) : String := RelayIRPrinter.Print σ 2 e 0

end Kxc.Relay
