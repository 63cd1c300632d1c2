import Kxc.Te.Expr

/-! The tensor operators that compute functions are built from (`te/topi/utils.h`,
`te/topi/reduction.h`, `te/topi/broadcast.h`, `te/topi/elemwise.h`, `te/topi/transform.h`,
`te/topi/nn.h`). -/

namespace Kxc.Te.Topi

open Tir (DataType BinaryOp Var)

/-! ### `utils.h` -/

/-- The axes of a list, sorted; those beyond the rank are dropped, and an empty list stands for all
axes. -/
def GetRealAxis (ndim : Nat) (axis : List Int) : List Nat :=
  if axis.isEmpty then List.range ndim
  else (axis.filterMap fun a : Int =>
    let a := if a < 0 then a + ndim else a
    if 0 ≤ a ∧ a < ndim then some a.toNat else none).mergeSort

def GetConstInt : PrimExpr → Option Int64
  | .IntImm value _ => some value
  | _ => none

def make_const (t : DataType) (value : Float) : PrimExpr :=
  if t.code = 2 then
    if t.bits = 64 then .FloatImm value t else .FloatImm value.toFloat32.toFloat t
  else if t.code = 0 ∨ t.code = 1 then .IntImm value.toInt64 t
  else .FloatImm value t

/-- `operator<`. -/
def lt (a b : PrimExpr) : PrimExpr := .Binary .LT a b

/-- `operator>=`. -/
def ge (a b : PrimExpr) : PrimExpr := .Not (.Binary .LT a b)

/-- `operator&&`. -/
def and (a b : PrimExpr) : PrimExpr := .Binary .And a b

/-! ### `reduction.h` -/

/-- The output shape of `comm_reduce`, from the dimension `i` on. -/
def reduceShape (reduce_set : List Nat) (keepdims : Bool) (i : Nat) :
    List PrimExpr → List PrimExpr
  | [] => []
  | dim :: dims =>
    if i ∈ reduce_set then
      if keepdims then .int 1 :: reduceShape reduce_set keepdims (i + 1) dims
      else reduceShape reduce_set keepdims (i + 1) dims
    else dim :: reduceShape reduce_set keepdims (i + 1) dims

/-- The reduction axes of `comm_reduce`, from the dimension `i` on, `red_counter` being the number of
those before. -/
def reduceAxes (reduce_set : List Nat) (i red_counter : Nat) : List PrimExpr → List IterVar
  | [] => []
  | dim :: dims =>
    if i ∈ reduce_set then
      reduce_axis (.int 0) dim s!"k{red_counter}" ::
        reduceAxes reduce_set (i + 1) (red_counter + 1) dims
    else reduceAxes reduce_set (i + 1) red_counter dims

/-- The indices of the input in `comm_reduce`, for `n` dimensions from `i` on. -/
def evalIndices (reduce_set : List Nat) (indices : List Var) (reduce_axes : List IterVar) :
    (n i idx_counter red_counter : Nat) → List PrimExpr
  | 0, _, _, _ => []
  | n + 1, i, idx_counter, red_counter =>
    if i ∈ reduce_set then
      (reduce_axes.getD red_counter (reduce_axis (.int 0) (.int 0) "rv")).toPrimExpr ::
        evalIndices reduce_set indices reduce_axes n (i + 1) idx_counter (red_counter + 1)
    else
      .Var (indices.getD idx_counter (intVar "")) ::
        evalIndices reduce_set indices reduce_axes n (i + 1) (idx_counter + 1) red_counter

def comm_reduce (data : Tensor) (axis : List Int) (keepdims : Bool)
    (combiner : PrimExpr → List IterVar → PrimExpr) (name : String) : Tensor :=
  let ndim := data.shape.length
  let reduce_set := GetRealAxis ndim axis
  let reduce_axes := reduceAxes reduce_set 0 0 data.shape
  compute (reduceShape reduce_set keepdims 0 data.shape)
    (fun indices =>
      combiner (data.at (evalIndices reduce_set indices reduce_axes ndim 0 0 0)) reduce_axes)
    name

def sum (data : Tensor) (axis : List Int) (keepdims : Bool) (name : String) : Tensor :=
  comm_reduce data axis keepdims Te.sum name

def max (data : Tensor) (axis : List Int) (keepdims : Bool) (name : String) : Tensor :=
  comm_reduce data axis keepdims Te.max name

def min (data : Tensor) (axis : List Int) (keepdims : Bool) (name : String) : Tensor :=
  comm_reduce data axis keepdims Te.min name

/-! ### `broadcast.h` -/

/-- The index of an operand along one of its dimensions. -/
def broadcastIndex (output_index : Var) (dim : PrimExpr) : PrimExpr :=
  if GetConstInt dim = some 1 then .int 0 else .Var output_index

def GetBroadcastIndices (output_indices : List Var) (input_shape output_shape : List PrimExpr) :
    List PrimExpr :=
  let offset := output_shape.length - input_shape.length
  List.zipWith broadcastIndex (output_indices.drop offset) input_shape

/-- The dimension that two dimensions broadcast to. -/
def broadcastDim (dim1 dim2 : PrimExpr) : PrimExpr :=
  match GetConstInt dim1, GetConstInt dim2 with
  | some v1, some v2 =>
    if v1 = 1 then dim2
    else if v2 = 1 then dim1
    else if v1 = v2 then dim1
    else if v2 < v1 then dim1 else dim2
  | _, _ => dim1

/-- A shape with leading dimensions of 1 up to a rank. -/
def padShape (rank : Nat) (shape : List PrimExpr) : List PrimExpr :=
  List.replicate (rank - shape.length) (.int 1) ++ shape

def InferBroadcastShape (shape1 shape2 : List PrimExpr) : List PrimExpr :=
  let out_ndim := Nat.max shape1.length shape2.length
  List.zipWith broadcastDim (padShape out_ndim shape1) (padShape out_ndim shape2)

/-- `KXC_TOPI_BINARY_BROADCAST_OP`. -/
def binaryBroadcast (op : BinaryOp) (A B : Tensor) (name : String) : Tensor :=
  let output_shape := InferBroadcastShape A.shape B.shape
  compute output_shape
    (fun indices =>
      .Binary op (A.at (GetBroadcastIndices indices A.shape output_shape))
        (B.at (GetBroadcastIndices indices B.shape output_shape)))
    name

def add (A B : Tensor) (name : String) : Tensor := binaryBroadcast .Add A B name

def subtract (A B : Tensor) (name : String) : Tensor := binaryBroadcast .Sub A B name

def multiply (A B : Tensor) (name : String) : Tensor := binaryBroadcast .Mul A B name

def divide (A B : Tensor) (name : String) : Tensor := binaryBroadcast .Div A B name

def maximum (A B : Tensor) (name : String) : Tensor := binaryBroadcast .Max A B name

def minimum (A B : Tensor) (name : String) : Tensor := binaryBroadcast .Min A B name

/-! ### `elemwise.h` -/

def exp (x : Tensor) (name : String) : Tensor :=
  compute x.shape (fun indices => .Call x.dtype "exp" (x.at (indices.map .Var))) name

/-! ### `transform.h` -/

/-- The indices of the input of `transpose`: the axis `axes[i]` has the index `i`. -/
def transposeIndices (ndim : Nat) (axes : List Nat) (indices : List Var) : List PrimExpr :=
  (axes.zip indices).foldl (fun input_indices (axis, index) =>
    input_indices.set axis (.Var index)) (List.replicate ndim (.int 0))

def transpose (x : Tensor) (axes : List Nat) (name : String) : Tensor :=
  let ndim := x.shape.length
  let axes := if axes.isEmpty then (List.range ndim).reverse else axes
  compute (axes.map fun axis => x.shape.getD axis (.int 0))
    (fun indices => x.at (transposeIndices ndim axes indices)) name

/-! ### `nn.h` -/

/-- A dimension of a shape. -/
def dimOf (tensor : Tensor) (i : Nat) : PrimExpr := tensor.shape.getD i (.int 0)

/-- An index of an array of index variables. -/
def indexOf (indices : List Var) (i : Nat) : PrimExpr := .Var (indices.getD i (intVar ""))

def dense (A B : Tensor) (name : String) : Tensor :=
  let k := reduce_axis (.int 0) (dimOf A 1) "k"
  compute [dimOf A 0, dimOf B 0]
    (fun indices =>
      Te.sum (A.at [indexOf indices 0, k.toPrimExpr] * B.at [indexOf indices 1, k.toPrimExpr]) [k])
    (name ++ "_matmul")

def matmul (A B : Tensor) (name : String) : Tensor :=
  let k := reduce_axis (.int 0) (dimOf A 1) "k"
  compute [dimOf A 0, dimOf B 1]
    (fun indices =>
      Te.sum (A.at [indexOf indices 0, k.toPrimExpr] * B.at [k.toPrimExpr, indexOf indices 1]) [k])
    name

/-- `(h_in >= 0) && (h_in < H) && (w_in >= 0) && (w_in < W)`. -/
def inBounds (h_in w_in H W : PrimExpr) : PrimExpr :=
  and (and (and (ge h_in (.int 0)) (lt h_in H)) (ge w_in (.int 0))) (lt w_in W)

def conv2d_nchw (data kernel : Tensor)
    (stride_h stride_w pad_h pad_w dilation_h dilation_w : Int32) (name : String) : Tensor :=
  let N := dimOf data 0
  let C := dimOf data 1
  let H := dimOf data 2
  let W := dimOf data 3
  let O := dimOf kernel 0
  let KH := dimOf kernel 2
  let KW := dimOf kernel 3
  let dil_KH := (KH - .int 1) * .int dilation_h + .int 1
  let dil_KW := (KW - .int 1) * .int dilation_w + .int 1
  let OH := (H + .int (2 * pad_h) - dil_KH) / .int stride_h + .int 1
  let OW := (W + .int (2 * pad_w) - dil_KW) / .int stride_w + .int 1
  let rc := reduce_axis (.int 0) C "rc"
  let rh := reduce_axis (.int 0) KH "rh"
  let rw := reduce_axis (.int 0) KW "rw"
  compute [N, O, OH, OW]
    (fun indices =>
      let n := indexOf indices 0
      let o := indexOf indices 1
      let h_in := indexOf indices 2 * .int stride_h + rh.toPrimExpr * .int dilation_h - .int pad_h
      let w_in := indexOf indices 3 * .int stride_w + rw.toPrimExpr * .int dilation_w - .int pad_w
      let in_val := PrimExpr.Select (inBounds h_in w_in H W)
        (data.at [n, rc.toPrimExpr, h_in, w_in]) (make_const data.dtype 0)
      Te.sum (in_val * kernel.at [o, rc.toPrimExpr, rh.toPrimExpr, rw.toPrimExpr]) [rc, rh, rw])
    name

/-- The paddings of `pool2d`: top, left, bottom and right. -/
def poolPadding : List Int32 → Int32 × Int32 × Int32 × Int32
  | pad_top :: pad_left :: pad_bottom :: pad_right :: _ => (pad_top, pad_left, pad_bottom, pad_right)
  | pad_top :: pad_left :: _ => (pad_top, pad_left, pad_top, pad_left)
  | _ => (0, 0, 0, 0)

/-- The output extent of `pool2d` in a direction. -/
def poolExtent (H : PrimExpr) (pad_before pad_after KH SH : Int32) (ceil_mode : Bool) : PrimExpr :=
  let numerator := H + .int pad_before + .int pad_after - .int KH
  if ceil_mode then (numerator + .int SH - .int 1) / .int SH + .int 1
  else numerator / .int SH + .int 1

/-- A reduction of the windows of `pool2d`; the elements beyond the input are `outside`. -/
def poolReduce (data : Tensor) (KH KW SH SW pad_top pad_left : Int32) (OH OW outside : PrimExpr)
    (combiner : PrimExpr → List IterVar → PrimExpr) (name : String) : Tensor :=
  let rh := reduce_axis (.int 0) (.int KH) "rh"
  let rw := reduce_axis (.int 0) (.int KW) "rw"
  compute [dimOf data 0, dimOf data 1, OH, OW]
    (fun indices =>
      let n := indexOf indices 0
      let c := indexOf indices 1
      let h_in := indexOf indices 2 * .int SH + rh.toPrimExpr - .int pad_top
      let w_in := indexOf indices 3 * .int SW + rw.toPrimExpr - .int pad_left
      combiner (.Select (inBounds h_in w_in (dimOf data 2) (dimOf data 3))
        (data.at [n, c, h_in, w_in]) outside) [rh, rw])
    name

def pool2d (data : Tensor) (kernel_size stride padding : List Int32) (pool_type : String)
    (ceil_mode : Bool) (name : String) : Except String Tensor :=
  match kernel_size, stride with
  | KH :: KW :: _, SH :: SW :: _ =>
    let (pad_top, pad_left, pad_bottom, pad_right) := poolPadding padding
    let OH := poolExtent (dimOf data 2) pad_top pad_bottom KH SH ceil_mode
    let OW := poolExtent (dimOf data 3) pad_left pad_right KW SW ceil_mode
    if pool_type = "max" then
      .ok (poolReduce data KH KW SH SW pad_top pad_left OH OW (make_const data.dtype (-1e30)) Te.max
        name)
    else if pool_type = "avg" then
      let sum_out := poolReduce data KH KW SH SW pad_top pad_left OH OW (make_const data.dtype 0)
        Te.sum (name ++ "_sum")
      .ok (compute sum_out.shape
        (fun indices =>
          sum_out.at (indices.map .Var) / make_const sum_out.dtype (KH * KW).toFloat)
        name)
    else .error "topi::pool2d only supports pool_type=max/avg"
  | _ :: _ :: _, _ => .error "topi::pool2d expects stride with at least 2 elements"
  | _, _ => .error "topi::pool2d expects kernel_size with at least 2 elements"

end Kxc.Te.Topi
