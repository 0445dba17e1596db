import VllmCore.Support.Bytes
import VllmCore.Support.Dict
import VllmCore.Support.PySlice
import VllmCore.Support.Transition
/-!
# The ring buffer in shared memory

One writer allocates chunks of a shared buffer and frees them in the order of their
allocation (`shm_object_storage.py`).  A chunk is `[4-byte id][4-byte size][data]`.  The
addresses go on behind the end of the buffer, and a chunk that does not fit before the end
begins at its start; the tail that is left over is free again when the chunk before it is.

An operation that raises keeps what it has changed before, so the state is returned beside
the exception.
-/

namespace VllmCore

open Support

inductive RingError
  | assertionError (msg : String)
  | memoryError (msg : String)
  | overflowError (msg : String)
  | valueError (msg : String)
  deriving DecidableEq, Repr

/-- The ring buffer in the process of the writer, with the shared memory `buf`. -/
structure SingleWriterShmRingBuffer where
  dataBufferSize : Nat
  buf : List UInt8
  monotonicIdStart : Nat := 0
  monotonicIdEnd : Nat := 0
  dataBufferStart : Int := 0
  dataBufferEnd : Int := 0
  metadata : Dict Nat Int := .empty

namespace SingleWriterShmRingBuffer

/-- `ID_NBYTES`, and `SIZE_NBYTES`. -/
def idNbytes : Nat := 4

/-- `ID_MAX`, which is not an id. -/
def idMax : Nat := 2 ^ 31

/-- `MD_SIZE`: the bytes of the id and of the size. -/
def mdSize : Nat := 8

def int2byte (integer : Nat) : Except RingError (List UInt8) :=
  if integer < 2 ^ 31 then .ok (littleEndian integer idNbytes)
  else .error (.overflowError "int too big to convert")

def byte2int (byteData : List UInt8) : Int := fromBytesLittleSigned byteData

/-- A new ring buffer over `buf`. -/
def create (dataBufferSize : Nat) (buf : List UInt8) : SingleWriterShmRingBuffer where
  dataBufferSize := dataBufferSize
  buf := buf

def clear (s : SingleWriterShmRingBuffer) : SingleWriterShmRingBuffer :=
  { s with
    metadata := .empty
    monotonicIdEnd := 0
    monotonicIdStart := 0
    dataBufferStart := 0
    dataBufferEnd := 0 }

/-- Where a chunk of `size` bytes begins: behind the last one, or at the start of the
buffer when there is not enough contiguous space. -/
def bufferEndReset (s : SingleWriterShmRingBuffer) (size : Nat) : Int :=
  if (s.dataBufferSize : Int) < s.dataBufferEnd % s.dataBufferSize + size then
    (s.dataBufferEnd / s.dataBufferSize + 1) * s.dataBufferSize
  else s.dataBufferEnd

/-- Assign an integer to four bytes of the shared memory. -/
def store (s : SingleWriterShmRingBuffer) (start integer : Nat) :
    Except RingError SingleWriterShmRingBuffer :=
  match int2byte integer with
  | .error e => .error e
  | .ok bs =>
    match (Store.slice start (start + idNbytes) bs).run s.buf with
    | .error _ => .error (.valueError "memoryview assignment: lvalue and rvalue differ")
    | .ok buf => .ok { s with buf := buf }

/-- `allocate_buf`: the address and the id. -/
def allocateBuf (s : SingleWriterShmRingBuffer) (size : Nat) :
    Except RingError (Int × Nat) × SingleWriterShmRingBuffer :=
  if size = 0 then (.error (.assertionError "Size must be greater than 0"), s)
  else
    let size := size + mdSize
    let bufferEndReset := s.bufferEndReset size
    if (s.dataBufferSize : Int) < bufferEndReset + size - s.dataBufferStart then
      (.error (.memoryError ("Not enough space in the data buffer, " ++
        "try calling free_buf() to free up space")), s)
    else
      let s := { s with dataBufferEnd := bufferEndReset }
      let bufIdx := (s.dataBufferEnd % s.dataBufferSize).toNat
      match s.store bufIdx s.monotonicIdEnd with
      | .error e => (.error e, s)
      | .ok s =>
        match s.store (bufIdx + idNbytes) size with
        | .error e => (.error e, s)
        | .ok s =>
          let currentBufferEnd := s.dataBufferEnd
          let currentIdEnd := s.monotonicIdEnd
          (.ok (currentBufferEnd, currentIdEnd),
            { s with
              metadata := s.metadata.set (s.monotonicIdEnd % idMax) s.dataBufferEnd
              dataBufferEnd := s.dataBufferEnd + size
              monotonicIdEnd := (s.monotonicIdEnd + 1) % idMax })

/-- `access_buf`: the data, and the id and the size from the metadata. -/
def accessBuf (s : SingleWriterShmRingBuffer) (address : Int) : List UInt8 × (Int × Int) :=
  let bufIdx := address % s.dataBufferSize
  let metadataBuff := pySlice s.buf bufIdx (bufIdx + mdSize)
  let id := byte2int (pySlice metadataBuff 0 idNbytes)
  let size := byte2int (pySlice metadataBuff idNbytes mdSize)
  (pySlice s.buf (bufIdx + mdSize) (bufIdx + size), (id, size))

/-- The loop of `free_buf`; every turn removes an entry of the metadata. -/
def freeLoop (isFreeFn : Nat → List UInt8 → Bool) (nbytes : Int) :
    Nat → SingleWriterShmRingBuffer → Int → SingleWriterShmRingBuffer
  | 0, s, _ => s
  | fuel + 1, s, freedBytes =>
    match s.metadata.get? s.monotonicIdStart with
    | none => s
    | some address =>
      if freedBytes < nbytes then
        let (dataBuff, metadata) := s.accessBuf address
        if isFreeFn s.monotonicIdStart dataBuff then
          let s := { s with
            metadata := s.metadata.erase s.monotonicIdStart
            monotonicIdStart := (s.monotonicIdStart + 1) % idMax }
          match s.metadata.get? s.monotonicIdStart with
          | some next =>
            freeLoop isFreeFn nbytes fuel
              { s with
                dataBufferStart := s.dataBufferStart +
                  (next - s.dataBufferStart) % s.dataBufferSize }
              (freedBytes + metadata.2)
          | none =>
            freeLoop isFreeFn nbytes fuel { s with dataBufferStart := 0, dataBufferEnd := 0 }
              (freedBytes + metadata.2)
        else s
      else s

/-- Move the addresses back by the size of the buffer, once the start is behind its end. -/
def rebase (s : SingleWriterShmRingBuffer) : SingleWriterShmRingBuffer :=
  if (s.dataBufferSize : Int) ≤ s.dataBufferStart then
    { s with
      dataBufferStart := s.dataBufferStart - s.dataBufferSize
      dataBufferEnd := s.dataBufferEnd - s.dataBufferSize }
  else s

/-- The ids from `before` up to `after`, around `ID_MAX`. -/
def idRange (before after : Nat) : List Nat :=
  if before ≤ after then List.range' before (after - before)
  else List.range' before (idMax - before) ++ List.range after

/-- `free_buf`: the ids that were freed. -/
def freeBuf (s : SingleWriterShmRingBuffer) (isFreeFn : Nat → List UInt8 → Bool)
    (nbytes : Option Int) : List Nat × SingleWriterShmRingBuffer :=
  let monotonicIdBefore := s.monotonicIdStart
  let nbytes := nbytes.getD s.dataBufferSize
  let s := freeLoop isFreeFn nbytes (s.metadata.keys.length + 1) s 0
  let s := s.rebase
  (idRange monotonicIdBefore s.monotonicIdStart, s)

/-- An assignment to the data that `access_buf` yields, from `offset` on. -/
def writeData (s : SingleWriterShmRingBuffer) (address : Int) (offset : Nat) (bs : List UInt8) :
    SingleWriterShmRingBuffer :=
  let start := (address % s.dataBufferSize).toNat + mdSize + offset
  match (Store.slice start (start + bs.length) bs).run s.buf with
  | .error _ => s
  | .ok buf => { s with buf := buf }

end SingleWriterShmRingBuffer

end VllmCore
