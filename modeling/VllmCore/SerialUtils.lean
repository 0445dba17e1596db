import VllmCore.Support.Dict
import VllmCore.Support.Msgpack
import Mathlib.Algebra.BigOperators.Ring.List
/-!
# Serialization of multi-modal inputs

Models `vllm/v1/serial_utils.py` and the data classes of
`vllm/multimodal/inputs.py` that it sends: the encoder turns tensors, nested
tensors, fields and items into msgpack values and stashes the large tensors in
auxiliary buffers, the decoder tells tensors, lists and slices apart by the shape
of the untyped lists it gets.
-/

namespace VllmCore.SerialUtils

open VllmCore.Support

/-! ## What is sent -/

structure Torch where
  itemsize : String → Option Nat
  itemsize_pos : ∀ dtype n, itemsize dtype = some n → 0 < n

/-- A tensor in CPU memory: its element type, its shape and the contiguous bytes of
its elements (`tensor_data`). -/
structure Tensor (T : Torch) where
  dtype : String
  shape : List Nat
  data : List UInt8
  itemsize : Nat
  known : T.itemsize dtype = some itemsize
  length_data : data.length = itemsize * shape.prod

def Tensor.nbytes {T : Torch} (t : Tensor T) : Nat := t.data.length

/-- A Python sequence is a list or a tuple. -/
inductive SeqKind
  | list
  | tuple
  deriving DecidableEq

/-- `NestedTensors`; scalars occur although the type does not list them. -/
inductive NestedTensors (F : Type) (T : Torch)
  | tensor (t : Tensor T)
  | bool (b : Bool)
  | int (n : Int)
  | float (x : F)
  | seq (kind : SeqKind) (xs : List (NestedTensors F T))

/-- `slice(start, stop, step)`. -/
structure Slice where
  start : Option Int
  stop : Option Int
  step : Option Int
  deriving DecidableEq

inductive NestedSlices
  | slice (s : Slice)
  | seq (kind : SeqKind) (xs : List NestedSlices)

/-- The subclasses of `BaseMultiModalField`. -/
inductive MultiModalField
  | batched (keepOnCpu : Bool)
  | flat (keepOnCpu : Bool) (slices : NestedSlices) (dim : Int)
  | shared (keepOnCpu : Bool) (batchSize : Int)

structure MultiModalFieldElem (F : Type) (T : Torch) where
  data : Option (NestedTensors F T)
  field : MultiModalField

/-- What the hooks of the encoder return: native values, and slices, for which the
encoder calls its hook again. -/
inductive Obj (F : Type)
  | none
  | bool (b : Bool)
  | int (n : Int)
  | float (x : F)
  | str (s : String)
  | ext (code : Nat) (data : List UInt8)
  | seq (kind : SeqKind) (xs : List (Obj F))
  | dict (kvs : List (String × Obj F))
  | slice (s : Slice)

variable {F W : Type} {T : Torch}

/-- One value of the tuple that `enc_hook` returns for a slice. -/
def sliceValue : Option Int → Msg F
  | some v => .int v
  | none => .nil

mutual

/-- What msgpack makes of a native value: tuples become arrays, and the hook turns a
slice into its three values. -/
def Obj.toMsg : Obj F → Msg F
  | .none => .nil
  | .bool b => .bool b
  | .int n => .int n
  | .float x => .float x
  | .str s => .str s
  | .ext code data => .ext code data
  | .seq _ xs => .array (Obj.toMsgs xs)
  | .dict kvs => .map (Obj.toEntries kvs)
  | .slice s => .array [sliceValue s.start, sliceValue s.stop, sliceValue s.step]

def Obj.toMsgs : List (Obj F) → List (Msg F)
  | [] => []
  | x :: xs => x.toMsg :: Obj.toMsgs xs

def Obj.toEntries : List (String × Obj F) → List (String × Msg F)
  | [] => []
  | (k, x) :: kvs => (k, x.toMsg) :: Obj.toEntries kvs

end

/-! ## `MsgpackEncoder` -/

def customTypeRawView : Nat := 3

/-- `_encode_tensor`, without an out-of-band consumer. -/
def encodeTensor (sizeThreshold : Int) (obj : Tensor T) : Stash W (Obj F) := do
  let shape := Obj.seq .tuple (obj.shape.map fun n : Nat => .int n)
  if obj.nbytes < sizeThreshold then
    -- smaller tensors are encoded inline
    return .seq .tuple [.str obj.dtype, shape, .ext customTypeRawView obj.data]
  else
    let aux ← get
    set (aux ++ [Frame.raw obj.data])
    return .seq .tuple [.str obj.dtype, shape, .int aux.length]

mutual

def encodeNestedTensors (sizeThreshold : Int) : NestedTensors F T → Stash W (Obj F)
  | .tensor t => encodeTensor sizeThreshold t
  | .bool b => return .bool b
  | .int n => return .int n
  | .float x => return .float x
  | .seq _ xs => do
    let ys ← encodeNestedTensorsList sizeThreshold xs
    return .seq .list ys

def encodeNestedTensorsList (sizeThreshold : Int) :
    List (NestedTensors F T) → Stash W (List (Obj F))
  | [] => return []
  | x :: xs => do
    let y ← encodeNestedTensors sizeThreshold x
    let ys ← encodeNestedTensorsList sizeThreshold xs
    return y :: ys

end

mutual

/-- The value of the `slices` of a flat field, as Python holds it. -/
def NestedSlices.toObj : NestedSlices → Obj F
  | .slice s => .slice s
  | .seq kind xs => .seq kind (NestedSlices.toObjs xs)

def NestedSlices.toObjs : List NestedSlices → List (Obj F)
  | [] => []
  | x :: xs => x.toObj :: NestedSlices.toObjs xs

end

/-- `encode(obj)`, where `hook` is what `enc_hook` does with the object. -/
def encode (M : Msgpack F W) (hook : Stash W (Obj F)) : List (Frame W) :=
  let (obj, bufs) := hook.run [.raw []]
  bufs.set 0 (.packed (M.encode obj.toMsg))

/-- `ext_hook`, without insecure serialization. -/
def extHook (code : Nat) (data : List UInt8) : Py (List UInt8) :=
  if code = customTypeRawView then .ok data
  else .error (.notImplementedError "Extension type code is not supported")

def decodeShape : Msg F → Py (List Nat)
  | .array xs => xs.mapM fun
      | .int (.ofNat n) => .ok n
      | _ => .error (.typeError "shape")
  | _ => .error (.typeError "shape")

/-- `buf` as a tensor of the element type and the shape that were sent. -/
def tensorOfBuffer (dtype : String) (shape : List Nat) (buf : List UInt8) : Py (Tensor T) :=
  match h : T.itemsize dtype with
  | none => .error (.attributeError dtype)
  | some itemsize =>
    if buf.length = 0 then
      -- torch.frombuffer doesn't like empty buffers
      if h0 : 0 ∈ shape then
        .ok ⟨dtype, shape, [], itemsize, h, by simp [List.prod_eq_zero h0]⟩
      else .error (.assertionError "0 in shape")
    else if hlen : buf.length = itemsize * shape.prod then
      .ok ⟨dtype, shape, buf, itemsize, h, hlen⟩
    else .error (.runtimeError "shape is invalid for input of size")

/-- `_decode_tensor`, without an out-of-band provider. -/
def decodeTensor (bufs : List (Frame W)) : List (Msg F) → Py (Tensor T)
  | [.str dtype, shape, data] => do
    let buf ← match data with
      | .map _ => throw (.assertionError
          "Received OOB tensor but tensor provider is not set")
      | .int i => do
        match ← pyGet bufs i with
        | .raw buf => pure buf
        | .packed _ => throw (.typeError "the packed value is no tensor")
      | .ext code buf => extHook code buf
      | _ => throw (.typeError "a bytes-like object is required")
    let shape ← decodeShape shape
    tensorOfBuffer dtype shape buf
  | _ => throw (.valueError "values to unpack")

mutual

def decodeNestedTensors (bufs : List (Frame W)) : Msg F → Py (NestedTensors F T)
  | .bool b => return .bool b
  | .int n => return .int n
  | .float x => return .float x
  | .array xs =>
    match xs.head? with
    | some (.str _) => do return .tensor (← decodeTensor bufs xs)
    | _ => do return .seq .list (← decodeNestedTensorsList bufs xs)
  | _ => throw (.typeError "Unexpected NestedTensors contents")

def decodeNestedTensorsList (bufs : List (Frame W)) : List (Msg F) → Py (List (NestedTensors F T))
  | [] => return []
  | x :: xs => do
    let y ← decodeNestedTensors bufs x
    let ys ← decodeNestedTensorsList bufs xs
    return y :: ys

end

/-- One argument of `slice(*obj)`. -/
def decodeSliceValue : Msg F → Py (Option Int)
  | .nil => .ok none
  | .int n => .ok (some n)
  | _ => .error (.typeError "slice indices must be integers")

/-- The arguments of `slice(*obj)`. -/
def decodeSliceArgs (xs : List (Msg F)) : Py (List (Option Int)) := xs.mapM decodeSliceValue

mutual

def decodeNestedSlices : Msg F → Py NestedSlices
  | .array xs =>
    match xs.head? with
    | none | some (.array _) => do return .seq .list (← decodeNestedSlicesList xs)
    | some _ => do
      match ← decodeSliceArgs xs with
      | [stop] => return .slice ⟨none, stop, none⟩
      | [start, stop] => return .slice ⟨start, stop, none⟩
      | [start, stop, step] => return .slice ⟨start, stop, step⟩
      | _ => throw (.typeError "slice expected at most 3 arguments")
  | _ => throw (.assertionError "isinstance(obj, (list, tuple))")

def decodeNestedSlicesList : List (Msg F) → Py (List NestedSlices)
  | [] => return []
  | x :: xs => do
    let y ← decodeNestedSlices x
    let ys ← decodeNestedSlicesList xs
    return y :: ys

end

/-- `decode(bufs)`, where `hook` is what `dec_hook` does for the expected type. -/
def decode {α : Type} (M : Msgpack F W) (hook : List (Frame W) → Msg F → Py α)
    (bufs : List (Frame W)) : Py α :=
  match bufs.head? with
  | some (.packed w) => do hook bufs (← M.decode w)
  | _ => throw (.valueError "no packed value")

end VllmCore.SerialUtils
