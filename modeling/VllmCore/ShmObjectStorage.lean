import VllmCore.Support.Dict
import VllmCore.Support.Transition
import Mathlib.Algebra.BigOperators.Fin
/-!
# The shared memory object storage

The front end stores the items of its requests in shared memory and sends references;
`n` worker processes read them (`shm_object_storage.py`, and the two caches over it in
`multimodal/cache.py`).  An object may be freed when its reader counter, which is in
shared memory, has reached `n` times the writer's count of its references.

Objects are known by their monotonic ids.  The ring buffer is followed as the range of
ids that live in it: how many of the oldest objects an allocation frees, and whether it
finds room, is left open.  The memory of an object keeps its counter once the object is
freed.
-/

namespace VllmCore.ShmObjectStorage

open Function Support

abbrev MmHash := Nat

/-! ## `SingleWriterShmObjectStorage` -/

/-- The storage: the indices of the writer, and the reader counters in shared memory. -/
structure Storage where
  nReaders : Nat
  keyIndex : Dict MmHash Nat := .empty
  idIndex : Dict Nat MmHash := .empty
  writerFlag : Dict Nat Nat := .empty
  monotonicIdStart : Nat := 0
  monotonicIdEnd : Nat := 0
  readerCount : Nat → Nat := fun _ => 0

namespace Storage

def incrementWriterFlag (s : Storage) (id : Nat) : Storage :=
  { s with writerFlag := s.writerFlag.set id ((s.writerFlag.get? id).getD 0 + 1) }

/-- `increment_reader_flag`: four bytes, signed. -/
def incrementReaderFlag (s : Storage) (id : Nat) : Py Storage :=
  if s.readerCount id + 1 < 2 ^ 31 then
    .ok { s with readerCount := update s.readerCount id (s.readerCount id + 1) }
  else .error (.overflowError "int too big to convert")

def defaultIsFreeCheck (s : Storage) (id : Nat) : Py Bool := do
  let writerCount ← s.writerFlag.get id
  return writerCount * s.nReaders ≤ s.readerCount id

/-- `free_unused`, where `free_buf` comes to free `k` objects: each of them passes. -/
def freeUnused (s : Storage) : Nat → Py Storage
  | 0 => return s
  | k + 1 => do
    let id := s.monotonicIdStart
    require (id < s.monotonicIdEnd) (.runtimeError "no object to free")
    let free ← s.defaultIsFreeCheck id
    require free (.runtimeError "still in use")
    let key ← s.idIndex.get id
    freeUnused
      { s with
        monotonicIdStart := id + 1
        keyIndex := s.keyIndex.erase key
        idIndex := s.idIndex.erase id
        writerFlag := s.writerFlag.erase id } k

def isCached (s : Storage) (key : MmHash) : Bool := s.keyIndex.contains key

def getCached (s : Storage) (key : MmHash) : Py (Nat × Storage) := do
  let id ← s.keyIndex.get key
  return (id, s.incrementWriterFlag id)

/-- How an allocation goes: it may free some of the oldest objects first, and it may find
no room after that. -/
structure Room where
  freed : Nat
  found : Bool

/-- `put`; `none` when it raises and the sender keeps the item. -/
def put (s : Storage) (key : MmHash) (room : Room) : Py (Option Nat × Storage) :=
  if s.isCached key then return (none, s)
  else do
    let s ← s.freeUnused room.freed
    if room.found then
      let id := s.monotonicIdEnd
      let s := { s with
        monotonicIdEnd := id + 1
        readerCount := update s.readerCount id 0 }
      let s := s.incrementWriterFlag id
      return (some id, { s with
        keyIndex := s.keyIndex.set key id
        idIndex := s.idIndex.set id key })
    else return (none, s)

/-- `touch` of the writer. -/
def touchWriter (s : Storage) (key : MmHash) : Storage :=
  match s.keyIndex.get? key with
  | none => s
  | some id => s.incrementWriterFlag id

/-- `touch` of a reader. -/
def touchReader (s : Storage) (id : Nat) : Py Storage :=
  if s.nReaders ≤ s.readerCount id then s.incrementReaderFlag id else return s

/-- `get` of a reader. -/
def get (s : Storage) (id : Nat) : Py Storage := s.incrementReaderFlag id

end Storage

/-! ## The processes -/

/-- An item of a request as it is sent: a reference into the storage, or its own data.
`touched` tells whether the writer counted its touch of the item; it is not sent. -/
structure Feature where
  ref : Option Nat
  touched : Bool
  deriving DecidableEq

/-- Where the writer is in a request. -/
inductive WriterState
  | idle
  /-- touching the hashes of the request: those done, with the object found, those to do -/
  | touching (done : List (MmHash × Option Nat)) (todo : List MmHash)
  /-- merging: the items done, the hashes to do -/
  | merging (done : List Feature) (todo : List (MmHash × Option Nat))
  deriving DecidableEq

/-- Where a reader is: the requests it has started, and what is left of the last. -/
structure ReaderState where
  started : Nat := 0
  toTouch : List Feature := []
  toGet : List Feature := []

/-- The front end, the requests sent so far, and the readers. -/
structure System (n : Nat) where
  storage : Storage
  writer : WriterState := .idle
  sent : List (List Feature) := []
  readers : Fin n → ReaderState := fun _ => {}

inductive Op (n : Nat)
  | request (hashes : List MmHash)
  | touchSender
  | merge (room : Storage.Room)
  | send (features : List Feature)
  | start (r : Fin n)
  | touch (r : Fin n)
  | get (r : Fin n)

namespace System

variable {n : Nat}

/-- `get_and_update_item` of the sender; `hasItem` tells whether the item is given, and
without a reference in the answer it is sent itself. -/
def getAndUpdateItem (s : Storage) (hasItem : Bool) (mmHash : MmHash) (room : Storage.Room) :
    Py (Option Nat × Storage) :=
  if s.isCached mmHash then do
    let (id, s) ← s.getCached mmHash
    return (some id, s)
  else do
    pyAssert hasItem "Expected a cached item"
    s.put mmHash room

/-- `_merge_mm_kwargs`, step by step.  An item is given where its hash was not cached
(`_get_cache_missing_items`), and nothing changes the index before the first merge. -/
def stepWriter (s : System n) : Op n → Py (System n)
  | .request hashes =>
    match s.writer with
    | .idle => return { s with writer := .touching [] hashes }
    | _ => throw (.runtimeError "busy")
  | .touchSender =>
    match s.writer with
    | .touching done (key :: todo) =>
      return { s with
        storage := s.storage.touchWriter key
        writer := .touching (done ++ [(key, s.storage.keyIndex.get? key)]) todo }
    | .touching done [] => return { s with writer := .merging [] done }
    | _ => throw (.runtimeError "nothing to touch")
  | .merge room =>
    match s.writer with
    | .merging done ((key, found) :: todo) => do
      let (ref, storage) ← getAndUpdateItem s.storage found.isNone key room
      return { s with
        storage := storage
        writer := .merging (done ++ [⟨ref, found.isSome⟩]) todo }
    | _ => throw (.runtimeError "nothing to merge")
  | .send features =>
    match s.writer with
    | .merging done [] => do
      require (features.Perm done) (.runtimeError "other features")
      return { s with writer := .idle, sent := s.sent ++ [features] }
    | _ => throw (.runtimeError "nothing to send")
  | _ => throw (.runtimeError "not a step of the writer")

def startNext (r : ReaderState) (features : List Feature) : ReaderState where
  started := r.started + 1
  toTouch := features
  toGet := features

/-- `touch_receiver_cache_item`. -/
def touchReceiver (s : Storage) (f : Feature) : Py Storage :=
  match f.ref with
  | some id => s.touchReader id
  | none => return s

/-- `get_and_update_item` of a receiver. -/
def getReceiver (s : Storage) (f : Feature) : Py Storage :=
  match f.ref with
  | some id => s.get id
  | none => return s

/-- `get_and_update_features` of a reader, step by step. -/
def stepReader (s : System n) : Op n → Py (System n)
  | .start r =>
    match (s.readers r).toTouch, (s.readers r).toGet, s.sent[(s.readers r).started]? with
    | [], [], some features =>
      return { s with
        readers := update s.readers r (startNext (s.readers r) features) }
    | _, _, _ => throw (.runtimeError "busy, or nothing sent")
  | .touch r =>
    match (s.readers r).toTouch with
    | f :: rest => do
      let storage ← touchReceiver s.storage f
      return { s with
        storage := storage
        readers := update s.readers r { s.readers r with toTouch := rest } }
    | [] => throw (.runtimeError "nothing to touch")
  | .get r =>
    match (s.readers r).toTouch, (s.readers r).toGet with
    | [], f :: rest => do
      let storage ← getReceiver s.storage f
      return { s with
        storage := storage
        readers := update s.readers r { s.readers r with toGet := rest } }
    | _, _ => throw (.runtimeError "nothing to get")
  | _ => throw (.runtimeError "not a step of a reader")

def run (s : System n) (op : Op n) : Py (System n) :=
  match op with
  | .start _ | .touch _ | .get _ => s.stepReader op
  | _ => s.stepWriter op

def init (n : Nat) : System n := { storage := { nReaders := n } }

end System

end VllmCore.ShmObjectStorage
