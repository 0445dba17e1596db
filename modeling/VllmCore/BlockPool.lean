import VllmCore.BlockHash
import VllmCore.Support.Dict
/-!
# The block pool

Blocks are numbered from zero; block `0` is the null block.  The pool keeps the
metadata of every block, the queue of free blocks in eviction order, and the
map from block hashes to cached blocks.

Registered and handed-out blocks are also recorded in `history`.  No function
of the source reads it: it only serves to state what happened to a block.
-/

namespace VllmCore

open Function Support

abbrev BlockId := Nat

/-- The key of a cached block: its hash and its KV cache group. -/
structure BlockHashWithGroupId (D : Type) where
  blockHash : BlockHash D
  groupId : Nat
  deriving DecidableEq

structure KVCacheBlock (D : Type) where
  refCnt : Int := 0
  blockHash : Option (BlockHashWithGroupId D) := none
  isNull : Bool := false

/-! ## The free queue -/

/-- The free blocks in eviction order, with the counter the source keeps beside
the linked list. -/
structure FreeKVCacheBlockQueue where
  blocks : List BlockId
  numFreeBlocks : Int

namespace FreeKVCacheBlockQueue

/-- A queue of the blocks `0, …, n - 1`. -/
def create (n : Nat) : FreeKVCacheBlockQueue := ⟨List.range n, n⟩

def popleft (q : FreeKVCacheBlockQueue) : Py (BlockId × FreeKVCacheBlockQueue) :=
  match q.blocks with
  | [] => .error (.valueError "No free blocks available")
  | b :: rest => .ok (b, ⟨rest, q.numFreeBlocks - 1⟩)

/-- `popleft_n`.  A negative count pops nothing but still moves the counter. -/
def popleftN (q : FreeKVCacheBlockQueue) (n : Int) :
    Py (List BlockId × FreeKVCacheBlockQueue) := do
  if n = 0 then pure ([], q)
  else
    pyAssert (n ≤ q.numFreeBlocks) "self.num_free_blocks >= n"
    pyAssert (n.toNat ≤ q.blocks.length) "curr_block is not None"
    pure (q.blocks.take n.toNat, ⟨q.blocks.drop n.toNat, q.numFreeBlocks - n⟩)

def remove (q : FreeKVCacheBlockQueue) (b : BlockId) : Py FreeKVCacheBlockQueue :=
  if b ∈ q.blocks then .ok ⟨q.blocks.erase b, q.numFreeBlocks - 1⟩
  else .error (.runtimeError "remove() called on an invalid block")

def appendN (q : FreeKVCacheBlockQueue) (bs : List BlockId) : FreeKVCacheBlockQueue :=
  ⟨q.blocks ++ bs, q.numFreeBlocks + bs.length⟩

end FreeKVCacheBlockQueue

/-! ## The hash map -/

/-- The blocks cached under one key: a single block, or a dict from block numbers
to blocks. -/
inductive CachedBlocks
  | single (b : BlockId)
  | dict (bs : Dict BlockId BlockId)

structure BlockHashToBlockMap (D : Type) where
  cache : BlockHashWithGroupId D → Option CachedBlocks

namespace BlockHashToBlockMap

variable {D : Type} [DecidableEq D]

def empty : BlockHashToBlockMap D := ⟨fun _ => none⟩

/-- `get_one_block`: any block stored under the key, the oldest one of a dict. -/
def getOneBlock (m : BlockHashToBlockMap D) (key : BlockHashWithGroupId D) :
    Option BlockId :=
  match m.cache key with
  | none => none
  | some (.single b) => some b
  | some (.dict bs) => bs.values.head?

def insert (m : BlockHashToBlockMap D) (key : BlockHashWithGroupId D) (b : BlockId) :
    BlockHashToBlockMap D :=
  match m.cache key with
  | none => ⟨update m.cache key (some (.single b))⟩
  | some (.single b') =>
    -- Merge the original block and the new one into a dict.
    ⟨update m.cache key (some (.dict ((Dict.empty.set b' b').set b b)))⟩
  | some (.dict bs) => ⟨update m.cache key (some (.dict (bs.set b b)))⟩

/-- `pop`: the block stored under the key with number `blockId`, if any, and the
map without it. -/
def pop (m : BlockHashToBlockMap D) (key : BlockHashWithGroupId D) (blockId : BlockId) :
    Option BlockId × BlockHashToBlockMap D :=
  match m.cache key with
  | none => (none, m)
  | some (.single b) =>
    if b = blockId then (some b, ⟨update m.cache key none⟩) else (none, m)
  | some (.dict bs) =>
    let rest := bs.erase blockId
    (bs.get? blockId,
      ⟨update m.cache key
        (if rest.entries.isEmpty then none else some (.dict rest))⟩)

end BlockHashToBlockMap

/-! ## Events -/

/-- The medium a KV cache event is about. -/
inductive Medium
  | gpu
  | cpu
  deriving DecidableEq, Repr

/-- The payload of a `BlockStored` event. -/
structure BlockStored (D : Type) where
  blockHashes : List (BlockHash D)
  parentBlockHash : Option (BlockHash D)
  tokenIds : List Token
  blockSize : Nat
  loraId : Option Int
  medium : Medium
  loraName : Option String
  extraKeys : Option (List (Option (List ExtraKey)))
  deriving DecidableEq

inductive KVCacheEvent (D : Type)
  | blockStored (e : BlockStored D)
  | blockRemoved (blockHashes : List (BlockHash D)) (medium : Medium)
  | allBlocksCleared
  deriving DecidableEq

/-- What the history of a pool records: that a block was registered as block
`idx` of a group on behalf of a request, or that it was handed out. -/
inductive BlockRecord (D : Type)
  | registered (b : BlockId) (groupId idx : Nat) (request : Request D)
  | handedOut (b : BlockId)

/-! ## The pool -/

structure BlockPool (D : Type) where
  numGpuBlocks : Nat
  enableCaching : Bool
  hashBlockSize : Nat
  blocks : BlockId → KVCacheBlock D
  freeBlockQueue : FreeKVCacheBlockQueue
  cachedBlockHashToBlock : BlockHashToBlockMap D
  nullBlock : BlockId
  enableKvCacheEvents : Bool
  kvEventQueue : List (KVCacheEvent D)
  history : List (BlockRecord D)

namespace BlockPool

variable {D : Type} [DecidableEq D]

def setBlock (p : BlockPool D) (b : BlockId) (blk : KVCacheBlock D) : BlockPool D :=
  { p with blocks := update p.blocks b blk }

/-- `BlockPool.__init__`: the first block of the queue becomes the null block. -/
def create (numGpuBlocks : Nat) (enableCaching : Bool) (hashBlockSize : Nat)
    (enableKvCacheEvents : Bool := false) : Py (BlockPool D) := do
  pyAssert (0 < numGpuBlocks) "isinstance(num_gpu_blocks, int) and num_gpu_blocks > 0"
  let (nullBlock, queue) ← (FreeKVCacheBlockQueue.create numGpuBlocks).popleft
  pure
    { numGpuBlocks := numGpuBlocks
      enableCaching := enableCaching
      hashBlockSize := hashBlockSize
      blocks := update (fun _ => {}) nullBlock { isNull := true }
      freeBlockQueue := queue
      cachedBlockHashToBlock := .empty
      nullBlock := nullBlock
      enableKvCacheEvents := enableKvCacheEvents
      kvEventQueue := []
      history := [] }

def getNumFreeBlocks (p : BlockPool D) : Int := p.freeBlockQueue.numFreeBlocks

/-- `get_usage`, over the rationals. -/
def getUsage (p : BlockPool D) : Rat :=
  let totalGpuBlocks : Int := p.numGpuBlocks - 1
  if totalGpuBlocks = 0 then 0 else 1 - (p.getNumFreeBlocks : Rat) / totalGpuBlocks

/-- `get_cached_block`: one cached block for each group, or none if any group
misses. -/
def getCachedBlock (p : BlockPool D) (blockHash : BlockHash D) (groupIds : List Nat) :
    Option (List BlockId) :=
  groupIds.mapM fun groupId => p.cachedBlockHashToBlock.getOneBlock ⟨blockHash, groupId⟩

/-- The extra keys that `cache_full_blocks` reports for the non-null blocks of
`[idx, idx + left)`. -/
def eventExtraKeys (fns : HashFns D) (p : BlockPool D) (r : Request D)
    (blocks : List BlockId) (blockSize : Nat) :
    Nat → Nat → Int → List (Option (List ExtraKey))
  | 0, _, _ => []
  | left + 1, idx, currMmIdx =>
    match blocks[idx]? with
    | none => []
    | some b =>
      if (p.blocks b).isNull then
        eventExtraKeys fns p r blocks blockSize left (idx + 1) currMmIdx
      else
        let extra := generateBlockHashExtraKeys fns r (idx * blockSize)
          (idx * blockSize + blockSize) currMmIdx
        extra.1 :: eventExtraKeys fns p r blocks blockSize left (idx + 1) extra.2

/-- One iteration of the registration loop: block `b` becomes block `idx` of the
group.  Null blocks are skipped. -/
def cacheFullBlock (r : Request D) (hashes : BlockHashListWithBlockSize D) (groupId : Nat)
    (st : BlockPool D × List (BlockHash D)) (e : Nat × BlockId) :
    Py (BlockPool D × List (BlockHash D)) := do
  let (p, newHashes) := st
  let (idx, b) := e
  let blk := p.blocks b
  if blk.isNull then pure (p, newHashes)
  else
    pyAssert (blk.blockHash = none) "blk.block_hash is None"
    let blockHash ← hashes.getValueAt idx
    let key : BlockHashWithGroupId D := ⟨blockHash, groupId⟩
    let p := p.setBlock b { blk with blockHash := some key }
    pure
      ({ p with
          cachedBlockHashToBlock := p.cachedBlockHashToBlock.insert key b
          history := p.history ++ [.registered b groupId idx r] },
        newHashes ++ [blockHash])

/-- The numbered blocks `[start, stop)` of a table. -/
def numberedSlice (blocks : List BlockId) (start stop : Nat) : List (Nat × BlockId) :=
  (((blocks.take stop).drop start).zipIdx start).map fun e => (e.2, e.1)

def cacheFullBlocks (fns : HashFns D) (p : BlockPool D) (r : Request D)
    (blocks : List BlockId) (numCachedBlocks numFullBlocks blockSize groupId : Nat) :
    Py (BlockPool D) := do
  if numFullBlocks ≤ numCachedBlocks then pure p
  else
    pyAssert (numFullBlocks ≤ r.blockHashes.length)
      "len(request.block_hashes) >= num_full_blocks"
    let hashes ← convertBlockHashes r.blockHashes p.hashBlockSize blockSize
    let (p, newHashes) ← (numberedSlice blocks numCachedBlocks numFullBlocks).foldlM
      (cacheFullBlock r hashes groupId) (p, [])
    if p.enableKvCacheEvents then
      let parentBlockHash ←
        (if numCachedBlocks = 0 then pure none
          else some <$> hashes.getValueAt (numCachedBlocks - 1) : Py (Option (BlockHash D)))
      require (numFullBlocks ≤ blocks.length) (.indexError "list index out of range")
      let extraKeys := eventExtraKeys fns p r blocks blockSize
        (numFullBlocks - numCachedBlocks) numCachedBlocks 0
      pure { p with
        kvEventQueue := p.kvEventQueue ++ [.blockStored
          { blockHashes := newHashes
            parentBlockHash := parentBlockHash
            tokenIds := tokenSlice r (numCachedBlocks * blockSize)
              (numFullBlocks * blockSize)
            blockSize := blockSize
            loraId := r.loraRequest.map (·.adapterId)
            medium := .gpu
            loraName := r.loraRequest.map (·.loraName)
            extraKeys := if extraKeys = [] then none else some extraKeys }] }
    else pure p

/-- `_maybe_evict_cached_block`: drop the hash of a cached block.  The second
component says whether there was one to drop. -/
def maybeEvictCachedBlock (p : BlockPool D) (b : BlockId) : BlockPool D × Bool :=
  match (p.blocks b).blockHash with
  | none => (p, false)
  | some key =>
    match p.cachedBlockHashToBlock.pop key b with
    | (none, _) => (p, false)
    | (some _, cache) =>
      let p := p.setBlock b { p.blocks b with blockHash := none }
      let p := { p with cachedBlockHashToBlock := cache }
      (if p.enableKvCacheEvents then
        { p with kvEventQueue := p.kvEventQueue ++ [.blockRemoved [key.blockHash] .gpu] }
      else p, true)

/-- One iteration of the loop of `get_new_blocks`. -/
def claimBlock (p : BlockPool D) (b : BlockId) : Py (BlockPool D) := do
  let p := if p.enableCaching then (p.maybeEvictCachedBlock b).1 else p
  pyAssert ((p.blocks b).refCnt = 0) "block.ref_cnt == 0"
  let p := p.setBlock b { p.blocks b with refCnt := (p.blocks b).refCnt + 1 }
  pure { p with history := p.history ++ [.handedOut b] }

def getNewBlocks (p : BlockPool D) (numBlocks : Int) : Py (List BlockId × BlockPool D) := do
  require (numBlocks ≤ p.getNumFreeBlocks)
    (.valueError s!"Cannot get {numBlocks} free blocks from the pool")
  let (ret, queue) ← p.freeBlockQueue.popleftN numBlocks
  let p ← ret.foldlM claimBlock { p with freeBlockQueue := queue }
  pure (ret, p)

/-- One iteration of the loop of `touch`. -/
def touchBlock (p : BlockPool D) (b : BlockId) : Py (BlockPool D) := do
  let blk := p.blocks b
  -- A block without references is in the free queue, as an eviction candidate.
  let queue ← (if blk.refCnt = 0 ∧ blk.isNull = false then p.freeBlockQueue.remove b
    else pure p.freeBlockQueue : Py FreeKVCacheBlockQueue)
  let p := p.setBlock b { blk with refCnt := blk.refCnt + 1 }
  pure { p with freeBlockQueue := queue }

def touch (p : BlockPool D) (blocks : List BlockId) : Py (BlockPool D) :=
  blocks.foldlM touchBlock p

/-- One iteration of the first loop of `free_blocks`. -/
def dropRef (p : BlockPool D) (b : BlockId) : BlockPool D :=
  p.setBlock b { p.blocks b with refCnt := (p.blocks b).refCnt - 1 }

/-- `free_blocks`: drop one reference for each listed block, then queue those
that have none left. -/
def freeBlocks (p : BlockPool D) (orderedBlocks : List BlockId) : BlockPool D :=
  let p := orderedBlocks.foldl dropRef p
  let freed := orderedBlocks.filter fun b =>
    decide ((p.blocks b).refCnt = 0) && !(p.blocks b).isNull
  { p with freeBlockQueue := p.freeBlockQueue.appendN freed }

/-- One iteration of the loop of `evict_blocks`. -/
def evictBlock (p : BlockPool D) (b : BlockId) : Py (BlockPool D) := do
  pyAssert (b < p.numGpuBlocks) "Invalid block_id"
  pure (p.maybeEvictCachedBlock b).1

/-- `evict_blocks`, for the given iteration order of the set. -/
def evictBlocks (p : BlockPool D) (blockIds : List BlockId) : Py (BlockPool D) :=
  blockIds.foldlM evictBlock p

/-- `reset_prefix_cache`: drop all hashes, unless a block other than the null
block is in use. -/
def resetPrefixCache (p : BlockPool D) : BlockPool D × Bool :=
  let numUsedBlocks := (p.numGpuBlocks : Int) - p.getNumFreeBlocks
  if numUsedBlocks ≠ 1 then (p, false)
  else
    let p := { p with
      cachedBlockHashToBlock := .empty
      blocks := fun b => { p.blocks b with blockHash := none } }
    (if p.enableKvCacheEvents then
      { p with kvEventQueue := p.kvEventQueue ++ [.allBlocksCleared] }
    else p, true)

def takeEvents (p : BlockPool D) : List (KVCacheEvent D) × BlockPool D :=
  if p.enableKvCacheEvents then (p.kvEventQueue, { p with kvEventQueue := [] })
  else ([], p)

/-- The part of `SinkFullAttentionManager.__init__` that takes its sink blocks
out of the queue for good. -/
def reserveSinkBlocks (p : BlockPool D) (n : Nat) : Py (List BlockId × BlockPool D) := do
  let (ret, queue) ← p.freeBlockQueue.popleftN n
  pure (ret, { p with freeBlockQueue := queue })

end BlockPool

end VllmCore
