import VllmCore.Support.Bytes
import VllmCore.Support.Transition
import Mathlib.Algebra.BigOperators.Fin
/-!
# The broadcast queue in shared memory

One writer and `n` local readers share a ring of chunks (`shm_broadcast.py`).  Each chunk
has a written flag and a read flag for each reader.  A message that does not fit into a
chunk is sent over a socket, and the chunk only says so.

Every read and every write of a flag is a step of its own, and so is every assignment to
the data of a chunk.  The socket is a queue for each reader.  Time is left open: a wait
may time out whenever there is something to wait for.
-/

namespace VllmCore.ShmBroadcast

open Function Support

/-! ## Messages -/

/-- `pickle`: the pickled object and the buffers that the callback keeps out of it. -/
structure Pickle (Obj : Type) where
  dumps : Obj → Py (List UInt8 × List (List UInt8))
  loads : List UInt8 → List (List UInt8) → Py Obj
  loads_dumps : ∀ {obj main oob}, dumps obj = .ok (main, oob) → loads main oob = .ok obj

/-- `pickle.loads(all_buffers[0], buffers=all_buffers[1:])`. -/
def Pickle.loadsAll {Obj : Type} (P : Pickle Obj) : List (List UInt8) → Py Obj
  | [] => throw (.indexError "list index out of range")
  | main :: oob => P.loads main oob

structure Config where
  maxChunkBytes : Nat
  maxChunks : Nat
  maxChunks_pos : 0 < maxChunks

structure Message (Obj : Type) where
  obj : Obj
  main : List UInt8
  oob : List (List UInt8)

namespace Message

variable {Obj : Type}

def allBuffers (m : Message Obj) : List (List UInt8) := m.main :: m.oob

/-- `total_bytes`: 2 bytes for oob buffer count, 4 for main buffer size. -/
def totalBytes (m : Message Obj) : Nat := 6 + (m.oob.map fun buf => buf.length + 4).sum

def overflow (config : Config) (m : Message Obj) : Bool :=
  config.maxChunkBytes ≤ m.totalBytes + m.main.length

def body (config : Config) (m : Message Obj) : List (Py Store) :=
  if m.overflow config then [.ok (.byte 0 1)]
  else
    .ok (.byte 0 0) :: (do return .slice 1 3 (← toBytesBig m.allBuffers.length 2)) ::
      frameStores 3 m.allBuffers

end Message

/-- What a reader makes of a chunk; `none` when the message is on the socket. -/
def readChunk {Obj : Type} (P : Pickle Obj) (buf : List UInt8) : Py (Option Obj) := do
  let first ← pyGet buf 0
  if first = 1 then return none
  else
    let bufCount := fromBytesBig (slice buf 1 3)
    let obj ← P.loadsAll (readFrames buf 3 bufCount)
    return some obj

/-! ## The processes -/

structure Chunk (n : Nat) where
  written : Bool := false
  read : Fin n → Bool := fun _ => false
  data : List UInt8

inductive WriterState (Obj : Type)
  | idle
  /-- `sum(metadata_buffer[1:])`: the flags before `i` are added up -/
  | counting (m : Message Obj) (i : Nat) (readCount : Nat)
  /-- before the read of the written flag -/
  | counted (m : Message Obj) (readCount : Nat)
  /-- before the written flag is reset -/
  | acquired (m : Message Obj)
  /-- inside the block: the assignments to do -/
  | filling (m : Message Obj) (todo : List (Py Store))
  /-- the read flags before `i` are reset -/
  | clearing (m : Message Obj) (i : Nat)
  /-- before the written flag is set -/
  | publishing (m : Message Obj)
  /-- before the message goes to the socket -/
  | sending (m : Message Obj)

inductive ReaderPc (Obj : Type)
  | idle
  /-- before the read of its read flag -/
  | polling
  /-- before the read of the written flag -/
  | polled (readFlag : Bool)
  /-- inside the block -/
  | reading
  /-- before its read flag is set; the object, if the chunk holds it -/
  | marking (obj : Option Obj)
  /-- before the message is taken from the socket -/
  | receiving

/-- A reader, the messages on its socket, and the objects it has dequeued. -/
structure Reader (Obj : Type) where
  pc : ReaderPc Obj := .idle
  currentIdx : Nat := 0
  inbox : List (List (List UInt8)) := []
  dequeued : List Obj := []

/-- The ring and the processes; `enqueued` are the messages marked as written. -/
structure System (Obj : Type) (n : Nat) where
  chunks : Nat → Chunk n
  writer : WriterState Obj := .idle
  currentIdx : Nat := 0
  readers : Fin n → Reader Obj := fun _ => {}
  enqueued : List (Message Obj) := []

/-- A step.  A wait ends with an exception when `timeout` is set: the time is over, or the
reader is cancelled. -/
inductive Op (Obj : Type) (n : Nat)
  | enqueue (obj : Obj)
  | writer (timeout : Bool)
  | dequeue (r : Fin n)
  | reader (r : Fin n) (timeout : Bool)

namespace System

variable {Obj : Type} {n : Nat}

def modifyChunk (s : System Obj n) (f : Chunk n → Chunk n) : Nat → Chunk n :=
  update s.chunks s.currentIdx (f (s.chunks s.currentIdx))

/-- `enqueue`, up to the first flag. -/
def enqueue (P : Pickle Obj) (s : System Obj n) (obj : Obj) : Py (System Obj n) :=
  match s.writer with
  | .idle =>
    match P.dumps obj with
    | .ok (main, oob) => return { s with writer := .counting ⟨obj, main, oob⟩ 0 0 }
    | .error _ => return s
  | _ => throw (.runtimeError "busy")

/-- `acquire_write` and `enqueue`, a step. -/
def stepWriter (config : Config) (s : System Obj n) (timeout : Bool) : Py (System Obj n) :=
  let chunk := s.chunks s.currentIdx
  match s.writer with
  | .idle => throw (.runtimeError "idle")
  | .counting m i readCount =>
    if h : i < n then
      return { s with
        writer := .counting m (i + 1) (readCount + (chunk.read ⟨i, h⟩).toNat) }
    else return { s with writer := .counted m readCount }
  | .counted m readCount =>
    if chunk.written ∧ readCount ≠ n then
      return { s with writer := if timeout then .idle else .counting m 0 0 }
    else return { s with writer := .acquired m }
  | .acquired m =>
    -- mark the block as not written
    return { s with
      chunks := s.modifyChunk fun chunk => { chunk with written := false }
      writer := .filling m (m.body config) }
  | .filling m [] => return { s with writer := .clearing m 0 }
  | .filling m (store :: todo) =>
    match store >>= Store.run chunk.data with
    | .ok data =>
      return { s with
        chunks := s.modifyChunk fun chunk => { chunk with data := data }
        writer := .filling m todo }
    | .error _ => return { s with writer := .idle }
  | .clearing m i =>
    if h : i < n then
      return { s with
        chunks := s.modifyChunk fun chunk =>
          { chunk with read := update chunk.read ⟨i, h⟩ false }
        writer := .clearing m (i + 1) }
    else return { s with writer := .publishing m }
  | .publishing m =>
    -- mark the block as written
    return { s with
      chunks := s.modifyChunk fun chunk => { chunk with written := true }
      currentIdx := (s.currentIdx + 1) % config.maxChunks
      writer := if m.overflow config then .sending m else .idle
      enqueued := s.enqueued ++ [m] }
  | .sending m =>
    return { s with
      readers := fun r =>
        { s.readers r with inbox := (s.readers r).inbox ++ [m.allBuffers] }
      writer := .idle }

def setReader (s : System Obj n) (r : Fin n) (x : Reader Obj) : System Obj n :=
  { s with readers := update s.readers r x }

/-- `acquire_read` and `dequeue`, a step. -/
def stepReader (config : Config) (P : Pickle Obj) (s : System Obj n) (r : Fin n)
    (timeout : Bool) : Py (System Obj n) :=
  let reader := s.readers r
  let chunk := s.chunks reader.currentIdx
  match reader.pc with
  | .idle => throw (.runtimeError "idle")
  | .polling => return s.setReader r { reader with pc := .polled (chunk.read r) }
  | .polled readFlag =>
    if chunk.written = false ∨ readFlag = true then
      return s.setReader r { reader with pc := if timeout then .idle else .polling }
    else return s.setReader r { reader with pc := .reading }
  | .reading =>
    match readChunk P chunk.data with
    | .ok obj => return s.setReader r { reader with pc := .marking obj }
    | .error _ => return s.setReader r { reader with pc := .idle }
  | .marking obj =>
    -- set the read flag
    let s := { s with
      chunks := update s.chunks reader.currentIdx
        { chunk with read := update chunk.read r true } }
    let reader := { reader with currentIdx := (reader.currentIdx + 1) % config.maxChunks }
    match obj with
    | some obj =>
      return s.setReader r { reader with pc := .idle, dequeued := reader.dequeued ++ [obj] }
    | none => return s.setReader r { reader with pc := .receiving }
  | .receiving =>
    match reader.inbox with
    | [] => return s.setReader r { reader with pc := if timeout then .idle else .receiving }
    | allBuffers :: inbox =>
      match P.loadsAll allBuffers with
      | .ok obj =>
        return s.setReader r
          { reader with pc := .idle, inbox := inbox, dequeued := reader.dequeued ++ [obj] }
      | .error _ => return s.setReader r { reader with pc := .idle, inbox := inbox }

def run (config : Config) (P : Pickle Obj) (s : System Obj n) : Op Obj n → Py (System Obj n)
  | .enqueue obj => s.enqueue P obj
  | .writer timeout => s.stepWriter config timeout
  | .dequeue r =>
    match (s.readers r).pc with
    | .idle => return s.setReader r { s.readers r with pc := .polling }
    | _ => throw (.runtimeError "busy")
  | .reader r timeout => s.stepReader config P r timeout

def init (config : Config) : System Obj n where
  chunks := fun _ => { data := List.replicate config.maxChunkBytes 0 }

end System

end VllmCore.ShmBroadcast
