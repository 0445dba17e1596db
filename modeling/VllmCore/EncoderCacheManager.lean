import VllmCore.Request
import VllmCore.Support.Dict
/-!
# The encoder cache managers

Encoder outputs are cached by the hash of their item.  Each entry knows the requests
that refer to it; an entry without references stays until its space is needed.
Encoder-decoder models only use the manager to account for space.

Input ids are visited in increasing order where the source iterates over a set of
them.
-/

namespace VllmCore

open Support

abbrev MmHash := String

/-- `request.mm_features[input_id].identifier`. -/
def Request.mmHash {D : Type} (r : Request D) (inputId : Nat) : Py MmHash :=
  match r.mmFeatures[inputId]? with
  | some f => pure f.identifier
  | none => throw (.indexError "list index out of range")

structure EncoderCacheManager where
  cacheSize : Int
  numFreeSlots : Int
  numFreeableSlots : Int
  cached : Dict MmHash (List ReqId)
  freeable : Dict MmHash Nat
  freed : List MmHash

namespace EncoderCacheManager

variable {D : Type}

/-- `__init__`. -/
def create (cacheSize : Nat) : EncoderCacheManager where
  cacheSize := cacheSize
  numFreeSlots := cacheSize
  numFreeableSlots := cacheSize
  cached := .empty
  freeable := .empty
  freed := []

def reset (m : EncoderCacheManager) : EncoderCacheManager :=
  { m with
    cached := .empty
    freeable := .empty
    freed := []
    numFreeSlots := m.cacheSize
    numFreeableSlots := m.cacheSize }

/-- `set.add`. -/
def addReference (ids : List ReqId) (requestId : ReqId) : List ReqId :=
  if requestId ∈ ids then ids else ids ++ [requestId]

def checkAndUpdateCache (m : EncoderCacheManager) (r : Request D) (inputId : Nat) :
    Py (Bool × EncoderCacheManager) := do
  let mmHash ← r.mmHash inputId
  match m.cached.get? mmHash with
  | none => pure (false, m)
  | some ids =>
    -- Cached, but possibly not referenced by any request.
    let m ← (if ids.isEmpty then do
        let numEncoderEmbeds ← m.freeable.get mmHash
        pure { m with
          freeable := m.freeable.erase mmHash
          numFreeableSlots := m.numFreeableSlots - numEncoderEmbeds }
      else pure m : Py EncoderCacheManager)
    pure (true, { m with cached := m.cached.set mmHash (addReference ids r.requestId) })

/-- The eviction loop of `can_allocate`: entries are evicted, the oldest first, until
`numEmbeds` fit.  Without a further entry to evict it raises. -/
def evict (numEmbeds : Int) : List (MmHash × Nat) → EncoderCacheManager →
    Py EncoderCacheManager
  | [], m =>
    if numEmbeds ≤ m.numFreeSlots then pure m
    else throw (.keyError "dictionary is empty")
  | (mmHash, numFreeEmbeds) :: rest, m =>
    if numEmbeds ≤ m.numFreeSlots then pure m
    else do
      require (m.cached.contains mmHash) (.keyError mmHash)
      evict numEmbeds rest
        { m with
          freeable := m.freeable.erase mmHash
          cached := m.cached.erase mmHash
          freed := m.freed ++ [mmHash]
          numFreeSlots := m.numFreeSlots + numFreeEmbeds }

def canAllocate (m : EncoderCacheManager) (r : Request D) (inputId : Nat)
    (encoderComputeBudget numEmbedsToSchedule : Int) : Py (Bool × EncoderCacheManager) := do
  let numEmbeds ← r.getNumEncoderEmbeds inputId
  if encoderComputeBudget < numEmbeds then pure (false, m)
  else
    let numEmbeds := (numEmbeds : Int) + numEmbedsToSchedule
    if numEmbeds ≤ m.numFreeSlots then pure (true, m)
    else if m.numFreeableSlots < numEmbeds then pure (false, m)
    else
      let m ← evict numEmbeds m.freeable.entries m
      pure (true, m)

def allocate (m : EncoderCacheManager) (r : Request D) (inputId : Nat) :
    Py EncoderCacheManager := do
  let mmHash ← r.mmHash inputId
  let numEncoderEmbeds ← r.getNumEncoderEmbeds inputId
  pyAssert ((numEncoderEmbeds : Int) ≤ m.numFreeSlots)
    "self.num_free_slots >= num_encoder_embeds"
  pyAssert ((numEncoderEmbeds : Int) ≤ m.numFreeableSlots)
    "self.num_freeable_slots >= num_encoder_embeds"
  pure { m with
    cached := m.cached.set mmHash
      (addReference ((m.cached.get? mmHash).getD []) r.requestId)
    numFreeSlots := m.numFreeSlots - numEncoderEmbeds
    numFreeableSlots := m.numFreeableSlots - numEncoderEmbeds }

def getCachedInputIds (m : EncoderCacheManager) (r : Request D) : List Nat :=
  (List.range r.mmFeatures.length).filter fun inputId =>
    match r.mmFeatures[inputId]? with
    | some f => m.cached.contains f.identifier
    | none => false

def freeEncoderInput (r : Request D) (m : EncoderCacheManager) (inputId : Nat) :
    Py EncoderCacheManager := do
  let mmHash ← r.mmHash inputId
  let ids := (m.cached.get? mmHash).getD []
  if ids.isEmpty then pure m
  else
    let ids := ids.filter (· ≠ r.requestId)
    let m := { m with cached := m.cached.set mmHash ids }
    if ids.isEmpty then
      let numEncoderEmbeds ← r.getNumEncoderEmbeds inputId
      pure { m with
        freeable := m.freeable.set mmHash numEncoderEmbeds
        numFreeableSlots := m.numFreeableSlots + numEncoderEmbeds }
    else pure m

def free (m : EncoderCacheManager) (r : Request D) : Py EncoderCacheManager :=
  (m.getCachedInputIds r).foldlM (freeEncoderInput r) m

def getFreedMmHashes (m : EncoderCacheManager) : List MmHash × EncoderCacheManager :=
  (m.freed, { m with freed := [] })

end EncoderCacheManager

structure EncoderDecoderCacheManager where
  cacheSize : Int
  numFreeSlots : Int
  allocated : List MmHash
  toFree : List MmHash

namespace EncoderDecoderCacheManager

variable {D : Type}

/-- `__init__`. -/
def create (cacheSize : Nat) : EncoderDecoderCacheManager where
  cacheSize := cacheSize
  numFreeSlots := cacheSize
  allocated := []
  toFree := []

def reset (m : EncoderDecoderCacheManager) : EncoderDecoderCacheManager :=
  { m with numFreeSlots := m.cacheSize, allocated := [], toFree := [] }

def canAllocate (m : EncoderDecoderCacheManager) (r : Request D) (inputId : Nat)
    (encoderComputeBudget numEmbedsToSchedule : Int) : Py Bool := do
  let numEncoderEmbeds ← r.getNumEncoderEmbeds inputId
  if encoderComputeBudget < numEncoderEmbeds then pure false
  else pure ((numEncoderEmbeds : Int) + numEmbedsToSchedule ≤ m.numFreeSlots)

def allocate (m : EncoderDecoderCacheManager) (r : Request D) (inputId : Nat) :
    Py EncoderDecoderCacheManager := do
  let numEncoderEmbeds ← r.getNumEncoderEmbeds inputId
  let mmHash ← r.mmHash inputId
  pure { m with
    numFreeSlots := m.numFreeSlots - numEncoderEmbeds
    allocated := m.allocated ++ [mmHash] }

def freeEncoderInput (r : Request D) (m : EncoderDecoderCacheManager) (inputId : Nat) :
    Py EncoderDecoderCacheManager := do
  let numEncoderEmbeds ← r.getNumEncoderEmbeds inputId
  pure { m with numFreeSlots := m.numFreeSlots + numEncoderEmbeds }

def free (m : EncoderDecoderCacheManager) (r : Request D) : Py EncoderDecoderCacheManager :=
  (List.range r.mmFeatures.length).foldlM (freeEncoderInput r) m

/-- `get_freed_mm_hashes`: what was allocated is freed one call later. -/
def getFreedMmHashes (m : EncoderDecoderCacheManager) :
    List MmHash × EncoderDecoderCacheManager :=
  (m.toFree, { m with toFree := m.allocated, allocated := [] })

end EncoderDecoderCacheManager

/-- The manager of the model: one of the two classes. -/
inductive EncoderCache
  | encoder (m : EncoderCacheManager)
  | encoderDecoder (m : EncoderDecoderCacheManager)

namespace EncoderCache

variable {D : Type}

def create (isEncoderDecoder : Bool) (cacheSize : Nat) : EncoderCache :=
  if isEncoderDecoder then .encoderDecoder (.create cacheSize) else .encoder (.create cacheSize)

def reset : EncoderCache → EncoderCache
  | .encoder m => .encoder m.reset
  | .encoderDecoder m => .encoderDecoder m.reset

def checkAndUpdateCache (r : Request D) (inputId : Nat) :
    EncoderCache → Py (Bool × EncoderCache)
  | .encoder m => do
    let (hit, m) ← m.checkAndUpdateCache r inputId
    pure (hit, .encoder m)
  | .encoderDecoder m => pure (false, .encoderDecoder m)

def canAllocate (r : Request D) (inputId : Nat)
    (encoderComputeBudget numEmbedsToSchedule : Int) :
    EncoderCache → Py (Bool × EncoderCache)
  | .encoder m => do
    let (fits, m) ← m.canAllocate r inputId encoderComputeBudget numEmbedsToSchedule
    pure (fits, .encoder m)
  | .encoderDecoder m => do
    let fits ← m.canAllocate r inputId encoderComputeBudget numEmbedsToSchedule
    pure (fits, .encoderDecoder m)

def allocate (r : Request D) : EncoderCache → Nat → Py EncoderCache
  | .encoder m, inputId => .encoder <$> m.allocate r inputId
  | .encoderDecoder m, inputId => .encoderDecoder <$> m.allocate r inputId

def getCachedInputIds (r : Request D) : EncoderCache → List Nat
  | .encoder m => m.getCachedInputIds r
  | .encoderDecoder _ => List.range r.mmFeatures.length

def freeEncoderInput (r : Request D) : EncoderCache → Nat → Py EncoderCache
  | .encoder m, inputId => .encoder <$> m.freeEncoderInput r inputId
  | .encoderDecoder m, inputId => .encoderDecoder <$> m.freeEncoderInput r inputId

def free (r : Request D) : EncoderCache → Py EncoderCache
  | .encoder m => .encoder <$> m.free r
  | .encoderDecoder m => .encoderDecoder <$> m.free r

def getFreedMmHashes : EncoderCache → List MmHash × EncoderCache
  | .encoder m => (m.getFreedMmHashes.1, .encoder m.getFreedMmHashes.2)
  | .encoderDecoder m => (m.getFreedMmHashes.1, .encoderDecoder m.getFreedMmHashes.2)

end EncoderCache

end VllmCore
