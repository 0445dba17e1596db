import VllmCore.BlockPool
import VllmCore.KVCacheSpec
/-!
# Single-type KV cache managers

The manager of one KV cache group keeps the block table of every request.  The
classes of the source differ only in a few methods; one record serves them all,
and each method branches on the kind of attention where a class overrides it.

Every method that reads or changes the shared pool takes it and returns it.
Token counts are integers, as the arithmetic of the source subtracts them.
-/

namespace VllmCore

open Support

/-- `SingleTypeKVCacheManager`.  The last four fields belong to `MambaManager` and
`SinkFullAttentionManager`. -/
structure SingleTypeKVCacheManager (D : Type) where
  spec : KVCacheSpec
  blockSize : Nat
  enableCaching : Bool
  kvCacheGroupId : Nat
  nullBlock : BlockId
  reqToBlocks : Dict ReqId (List BlockId) := .empty
  numCachedBlock : Dict ReqId Nat := .empty
  newBlockIds : List BlockId := []
  cachedBlocksThisStep : List (BlockHashWithGroupId D) := []
  lastStateBlockIdx : Dict ReqId Int := .empty
  allocatedBlockReqs : List ReqId := []
  sinkBlocks : List BlockId := []

namespace SingleTypeKVCacheManager

variable {D : Type} [DecidableEq D]

/-- The block table of a request; `defaultdict` reads an absent one as empty. -/
def blocksOf (m : SingleTypeKVCacheManager D) (requestId : ReqId) : List BlockId :=
  (m.reqToBlocks.get? requestId).getD []

def setBlocks (m : SingleTypeKVCacheManager D) (requestId : ReqId) (blocks : List BlockId) :
    SingleTypeKVCacheManager D :=
  { m with reqToBlocks := m.reqToBlocks.set requestId blocks }

/-- The constructors of the manager classes: a sink manager takes its blocks out
of the pool. -/
def create (spec : KVCacheSpec) (p : BlockPool D) (enableCaching : Bool)
    (kvCacheGroupId : Nat) (dcpWorldSize pcpWorldSize : Nat) :
    Py (SingleTypeKVCacheManager D × BlockPool D) := do
  let blockSize :=
    if 1 < dcpWorldSize * pcpWorldSize then spec.blockSize * (dcpWorldSize * pcpWorldSize)
    else spec.blockSize
  let m : SingleTypeKVCacheManager D :=
    { spec := spec
      blockSize := blockSize
      enableCaching := enableCaching
      kvCacheGroupId := kvCacheGroupId
      nullBlock := p.nullBlock }
  match spec.kind with
  | .sinkFullAttention _ _ _ _ sinkLen =>
    match sinkLen with
    | none => throw (.assertionError "sink_len is not None")
    | some len =>
      pyAssert (0 < len ∧ len % blockSize = 0)
        "sink_len > 0 and sink_len % self.block_size == 0"
      let (sinkBlocks, p) ← p.reserveSinkBlocks (len / blockSize)
      pure ({ m with sinkBlocks := sinkBlocks }, p)
  | _ => pure (m, p)

def getNumEvictableBlocks (p : BlockPool D) (blocks : List BlockId) : Int :=
  (blocks.filter fun b =>
    decide ((p.blocks b).refCnt = 0) && !(p.blocks b).isNull).length

def getNumSkippedTokens (m : SingleTypeKVCacheManager D) (numComputedTokens : Int) : Int :=
  match m.spec.kind with
  | .slidingWindow _ window _ => max 0 (numComputedTokens - window + 1)
  | .chunkedLocalAttention _ chunkSize _ => numComputedTokens / chunkSize * chunkSize
  | .mamba .. => numComputedTokens - 1
  | _ => 0

/-- `get_num_blocks_to_allocate` of the base class. -/
def getNumBlocksToAllocateBase (m : SingleTypeKVCacheManager D) (p : BlockPool D)
    (requestId : ReqId) (numTokens : Int) (newComputedBlocks : List BlockId)
    (totalComputedTokens : Int) : Py Int := do
  let numRequiredBlocks := cdiv numTokens m.blockSize
  let numReqBlocks : Int := (m.blocksOf requestId).length
  if m.numCachedBlock.contains requestId then
    pyAssert (newComputedBlocks.length = 0) "len(new_computed_blocks) == 0"
    pure (max (numRequiredBlocks - numReqBlocks) 0)
  else
    let numSkippedBlocks := m.getNumSkippedTokens totalComputedTokens / m.blockSize
    let numLocalComputedBlocks := newComputedBlocks.length + numReqBlocks
    let numNewBlocks :=
      max (numRequiredBlocks - max numSkippedBlocks numLocalComputedBlocks) 0
    let numSkippedNewComputedBlocks := max 0 (numSkippedBlocks - numReqBlocks)
    pure (numNewBlocks + getNumEvictableBlocks p
      (newComputedBlocks.drop numSkippedNewComputedBlocks.toNat))

/-- `MambaManager.get_num_blocks_to_allocate` in the align mode. -/
def getNumBlocksToAllocateAlign (m : SingleTypeKVCacheManager D) (p : BlockPool D)
    (requestId : ReqId) (newComputedBlocks : List BlockId) (numTokensMainModel : Int)
    (numSpeculativeBlocks : Nat) : Int :=
  let numRequiredBlocks := cdiv numTokensMainModel m.blockSize + numSpeculativeBlocks
  let numNewBlocks :=
    numRequiredBlocks - newComputedBlocks.length - (m.blocksOf requestId).length
  let numNewBlocks :=
    if 0 < numNewBlocks then
      -- An old request reuses the speculative blocks of the previous step.
      if requestId ∈ m.allocatedBlockReqs then 1 else 1 + (numSpeculativeBlocks : Int)
    else numNewBlocks
  numNewBlocks + getNumEvictableBlocks p newComputedBlocks

def getNumBlocksToAllocate (m : SingleTypeKVCacheManager D) (p : BlockPool D)
    (requestId : ReqId) (numTokens : Int) (newComputedBlocks : List BlockId)
    (totalComputedTokens numTokensMainModel : Int) : Py Int :=
  match m.spec.kind with
  | .mamba _ _ _ _ cacheMode numSpeculativeBlocks =>
    if (newComputedBlocks.getLast?.bind fun b => (p.blocks b).blockHash).any
        (· ∈ m.cachedBlocksThisStep) then
      -- A hit on a block of the current step has to wait for the next one.
      pure (p.numGpuBlocks + 1)
    else if cacheMode = .align then
      pure (m.getNumBlocksToAllocateAlign p requestId newComputedBlocks
        numTokensMainModel numSpeculativeBlocks)
    else
      m.getNumBlocksToAllocateBase p requestId
        (numTokens + m.spec.blockSize * numSpeculativeBlocks) newComputedBlocks
        totalComputedTokens
  | _ => m.getNumBlocksToAllocateBase p requestId numTokens newComputedBlocks
      totalComputedTokens

def allocateNewComputedBlocks (m : SingleTypeKVCacheManager D) (p : BlockPool D)
    (requestId : ReqId) (newComputedBlocks : List BlockId)
    (numLocalComputedTokens numExternalComputedTokens : Int) :
    Py (SingleTypeKVCacheManager D × BlockPool D) := do
  if m.spec.isCrossAttention || m.numCachedBlock.contains requestId then
    pyAssert (newComputedBlocks.length = 0) "len(new_computed_blocks) == 0"
    pure (m, p)
  else
    pyAssert ((m.blocksOf requestId).length = 0) "len(req_blocks) == 0"
    let numTotalComputedTokens := numLocalComputedTokens + numExternalComputedTokens
    let numSkippedTokens := m.getNumSkippedTokens numTotalComputedTokens
    let numSkippedBlocks := numSkippedTokens / m.blockSize
    let newComputedBlocks := newComputedBlocks.drop numSkippedBlocks.toNat
    let numExternalComputedTokens :=
      if 0 < numSkippedBlocks then
        min (numTotalComputedTokens - numSkippedTokens) numExternalComputedTokens
      else numExternalComputedTokens
    let p ← (if m.enableCaching then p.touch newComputedBlocks
      else do
        pyAssert (newComputedBlocks = [])
          "Computed blocks should be empty when prefix caching is disabled"
        pure p : Py (BlockPool D))
    let reqBlocks := List.replicate numSkippedBlocks.toNat m.nullBlock ++ newComputedBlocks
    let m := { m.setBlocks requestId reqBlocks with
      numCachedBlock := m.numCachedBlock.set requestId reqBlocks.length }
    if 0 < numExternalComputedTokens then
      let (allocatedBlocks, p) ← p.getNewBlocks
        (cdiv numTotalComputedTokens m.blockSize - reqBlocks.length)
      let m := m.setBlocks requestId (reqBlocks ++ allocatedBlocks)
      pure ({ m with
          newBlockIds := if m.spec.isPlainFullAttention then m.newBlockIds ++ allocatedBlocks
            else m.newBlockIds }, p)
    else pure (m, p)

/-! ## Adding new blocks -/

/-- `allocate_new_blocks` of the base class, with the blocks it adds. -/
def allocateNewBlocksBase (m : SingleTypeKVCacheManager D) (p : BlockPool D)
    (requestId : ReqId) (numTokens : Int) :
    Py (List BlockId × SingleTypeKVCacheManager D × BlockPool D) := do
  let reqBlocks := m.blocksOf requestId
  let numNewBlocks := cdiv numTokens m.blockSize - reqBlocks.length
  if numNewBlocks ≤ 0 then pure ([], m.setBlocks requestId reqBlocks, p)
  else
    let (newBlocks, p) ← p.getNewBlocks numNewBlocks
    let m := m.setBlocks requestId (reqBlocks ++ newBlocks)
    pure (newBlocks,
      { m with
        newBlockIds := if m.spec.isPlainFullAttention then m.newBlockIds ++ newBlocks
          else m.newBlockIds }, p)

/-- The loop that moves the speculative blocks of the previous step to the end of
the table, leaving null blocks behind. -/
def reuseSpeculativeBlocks (nullBlock : BlockId) (numSkippedBlocks : Int) :
    Nat → Int → List BlockId → Py (List BlockId)
  | 0, _, blocks => pure blocks
  | left + 1, blockIdx, blocks =>
    if blockIdx < numSkippedBlocks then do
      let b ← pyGet blocks blockIdx
      let blocks ← pySet (blocks ++ [b]) blockIdx nullBlock
      reuseSpeculativeBlocks nullBlock numSkippedBlocks left (blockIdx + 1) blocks
    else pure blocks

/-- `MambaManager.allocate_new_blocks` in the align mode. -/
def allocateNewBlocksAlign (m : SingleTypeKVCacheManager D) (p : BlockPool D)
    (requestId : ReqId) (numTokensMainModel : Int) (numSpeculativeBlocks : Nat) :
    Py (List BlockId × SingleTypeKVCacheManager D × BlockPool D) := do
  let reqBlocks := m.blocksOf requestId
  let numRequiredBlocks := cdiv numTokensMainModel m.blockSize + numSpeculativeBlocks
  if numRequiredBlocks = reqBlocks.length then
    pure ([], m.setBlocks requestId reqBlocks, p)
  else
    pyAssert (reqBlocks.length < numRequiredBlocks) "num_required_blocks < len(req_blocks)"
    let prevBlockLen := reqBlocks.length
    let blocksAllocated : Bool := requestId ∈ m.allocatedBlockReqs
    let lastStateBlockIdx :=
      if blocksAllocated then
        m.lastStateBlockIdx.set requestId ((prevBlockLen : Int) - 1 - numSpeculativeBlocks)
      else if 0 < prevBlockLen then
        -- The last block of a prefix cache hit holds the state.
        m.lastStateBlockIdx.set requestId ((prevBlockLen : Int) - 1)
      else m.lastStateBlockIdx
    let numSkippedBlocks := numRequiredBlocks - numSpeculativeBlocks - 1
    let reqBlocks :=
      reqBlocks ++ List.replicate (numSkippedBlocks - prevBlockLen).toNat m.nullBlock
    let reqBlocks ← (if blocksAllocated then
        reuseSpeculativeBlocks m.nullBlock numSkippedBlocks numSpeculativeBlocks
          ((prevBlockLen : Int) - numSpeculativeBlocks) reqBlocks
      else pure reqBlocks : Py (List BlockId))
    let numNewBlocks := numRequiredBlocks - reqBlocks.length
    pyAssert (numNewBlocks ≤ if blocksAllocated then 1 else (numSpeculativeBlocks : Int) + 1)
      "num_new_blocks <= 1 or num_new_blocks <= self.num_speculative_blocks + 1"
    let (newBlocks, p) ← p.getNewBlocks numNewBlocks
    let m := m.setBlocks requestId (reqBlocks ++ newBlocks)
    pure ((reqBlocks ++ newBlocks).drop prevBlockLen,
      { m with
        lastStateBlockIdx := lastStateBlockIdx
        allocatedBlockReqs := m.allocatedBlockReqs.insert requestId }, p)

def allocateNewBlocks (m : SingleTypeKVCacheManager D) (p : BlockPool D)
    (requestId : ReqId) (numTokens numTokensMainModel : Int) :
    Py (List BlockId × SingleTypeKVCacheManager D × BlockPool D) :=
  match m.spec.kind with
  | .mamba _ _ _ _ cacheMode numSpeculativeBlocks =>
    if cacheMode = .align then
      m.allocateNewBlocksAlign p requestId numTokensMainModel numSpeculativeBlocks
    else
      m.allocateNewBlocksBase p requestId (numTokens + m.blockSize * numSpeculativeBlocks)
  | _ => m.allocateNewBlocksBase p requestId numTokens

/-- `cache_blocks` of the base class. -/
def cacheBlocksBase (fns : HashFns D) (m : SingleTypeKVCacheManager D) (p : BlockPool D)
    (r : Request D) (numTokens : Int) : Py (SingleTypeKVCacheManager D × BlockPool D) := do
  let numCachedBlocks := (m.numCachedBlock.get? r.requestId).getD 0
  let numFullBlocks := (numTokens / m.blockSize).toNat
  if numFullBlocks ≤ numCachedBlocks then pure (m, p)
  else
    let p ← p.cacheFullBlocks fns r (m.blocksOf r.requestId) numCachedBlocks numFullBlocks
      m.blockSize m.kvCacheGroupId
    pure ({ m.setBlocks r.requestId (m.blocksOf r.requestId) with
      numCachedBlock := m.numCachedBlock.set r.requestId numFullBlocks }, p)

/-- The hashes of the listed blocks that are not null blocks. -/
def hashesOf (p : BlockPool D) : List BlockId → Py (List (BlockHashWithGroupId D))
  | [] => pure []
  | b :: bs =>
    if (p.blocks b).isNull then hashesOf p bs
    else
      match (p.blocks b).blockHash with
      | none => throw (.assertionError "block.block_hash is not None")
      | some key => (key :: ·) <$> hashesOf p bs

def cacheBlocks (fns : HashFns D) (m : SingleTypeKVCacheManager D) (p : BlockPool D)
    (r : Request D) (numTokens : Int) : Py (SingleTypeKVCacheManager D × BlockPool D) :=
  match m.spec.kind with
  | .crossAttention _ =>
    throw (.valueError "Should not be called as prefix caching is disabled.")
  | .mamba .. => do
    let before := (m.numCachedBlock.get? r.requestId).getD 0
    let (m, p) ← m.cacheBlocksBase fns p r numTokens
    let after := (m.numCachedBlock.get? r.requestId).getD 0
    let keys ← hashesOf p (((m.blocksOf r.requestId).take after).drop before)
    pure ({ m with cachedBlocksThisStep := m.cachedBlocksThisStep ++ keys }, p)
  | _ => m.cacheBlocksBase fns p r numTokens

/-! ## Releasing blocks -/

def free (m : SingleTypeKVCacheManager D) (p : BlockPool D) (requestId : ReqId) :
    SingleTypeKVCacheManager D × BlockPool D :=
  ({ m with
      reqToBlocks := m.reqToBlocks.erase requestId
      numCachedBlock := m.numCachedBlock.erase requestId
      allocatedBlockReqs := m.allocatedBlockReqs.filter (· ≠ requestId)
      lastStateBlockIdx := m.lastStateBlockIdx.erase requestId },
    p.freeBlocks (m.blocksOf requestId).reverse)

/-- The loop of `remove_skipped_blocks` over the first blocks of a table, from the
last one down to the first null block: the table and the removed blocks. -/
def removeSkippedLoop (nullBlock : BlockId) : Nat → List BlockId → List BlockId × List BlockId
  | 0, blocks => (blocks, [])
  | i + 1, blocks =>
    match blocks[i]? with
    | none => (blocks, [])
    | some b =>
      if b = nullBlock then (blocks, [])
      else
        let rest := removeSkippedLoop nullBlock i (blocks.set i nullBlock)
        (rest.1, b :: rest.2)

/-- `remove_skipped_blocks` of the base class. -/
def removeSkippedBlocksBase (m : SingleTypeKVCacheManager D) (p : BlockPool D)
    (requestId : ReqId) (totalComputedTokens : Int) :
    SingleTypeKVCacheManager D × BlockPool D :=
  let numSkippedTokens := m.getNumSkippedTokens totalComputedTokens
  if numSkippedTokens ≤ 0 then (m, p)
  else
    let blocks := m.blocksOf requestId
    let numSkippedBlocks := min (numSkippedTokens / m.blockSize) blocks.length
    let removed := removeSkippedLoop m.nullBlock numSkippedBlocks.toNat blocks
    (m.setBlocks requestId removed.1, p.freeBlocks removed.2)

/-- The part of `MambaManager.remove_skipped_blocks` for the align mode: the state
block of two steps ago is released. -/
def removeLastStateBlock (m : SingleTypeKVCacheManager D) (p : BlockPool D)
    (requestId : ReqId) (numComputedTokens : Int) :
    Py (SingleTypeKVCacheManager D × BlockPool D) :=
  match m.lastStateBlockIdx.get? requestId with
  | none => pure (m, p)
  | some idx =>
    if idx < cdiv numComputedTokens m.blockSize - 1 then do
      let blocks := m.blocksOf requestId
      let b ← pyGet blocks idx
      if b = m.nullBlock then pure (m, p)
      else
        let blocks ← pySet blocks idx m.nullBlock
        pure (m.setBlocks requestId blocks, p.freeBlocks [b])
    else pure (m, p)

def removeSkippedBlocks (m : SingleTypeKVCacheManager D) (p : BlockPool D)
    (requestId : ReqId) (totalComputedTokens : Int) :
    Py (SingleTypeKVCacheManager D × BlockPool D) :=
  match m.spec.kind with
  | .mamba _ _ _ _ cacheMode numSpeculativeBlocks =>
    -- As if all draft tokens of the previous step were rejected.
    let numComputedTokens := max 0 (totalComputedTokens - numSpeculativeBlocks)
    let (m, p) := m.removeSkippedBlocksBase p requestId numComputedTokens
    if cacheMode = .align then m.removeLastStateBlock p requestId numComputedTokens
    else pure (m, p)
  | _ => pure (m.removeSkippedBlocksBase p requestId totalComputedTokens)

/-! ## Other methods -/

/-- `get_num_common_prefix_blocks`: the leading blocks that every request with a
table refers to, for full attention only. -/
def getNumCommonPrefixBlocks (m : SingleTypeKVCacheManager D) (p : BlockPool D)
    (runningRequestId : ReqId) : Nat :=
  if m.spec.isFullAttention then
    ((m.blocksOf runningRequestId).takeWhile fun b =>
      decide ((p.blocks b).refCnt = m.reqToBlocks.entries.length)).length
  else 0

def takeNewBlockIds (m : SingleTypeKVCacheManager D) :
    List BlockId × SingleTypeKVCacheManager D :=
  (m.newBlockIds, { m with newBlockIds := [] })

def newStepStarts (m : SingleTypeKVCacheManager D) : SingleTypeKVCacheManager D :=
  { m with cachedBlocksThisStep := [] }

/-! ## Cache hits

The hits of all listed groups are found together.  They are kept here as rows,
one cached block for each group, and turned into one list for each group at the
end. -/

/-- Whether a hit of `n` blocks ends at a multiple of `alignmentTokens`. -/
def Aligned (blockSize alignmentTokens n : Nat) : Prop :=
  blockSize = alignmentTokens ∨ n * blockSize % alignmentTokens = 0

instance (blockSize alignmentTokens n : Nat) : Decidable (Aligned blockSize alignmentTokens n) := by
  unfold Aligned
  infer_instance

/-- The loop that pops blocks until the hit is aligned: the length it keeps. -/
def alignedLength (blockSize alignmentTokens : Nat) : Nat → Nat
  | 0 => 0
  | n + 1 =>
    if Aligned blockSize alignmentTokens (n + 1) then n + 1
    else alignedLength blockSize alignmentTokens n

/-- One list of blocks for each of `n` groups. -/
def columns (n : Nat) (nullBlock : BlockId) (rows : List (List BlockId)) :
    List (List BlockId) :=
  (List.range n).map fun j => rows.map fun row => row.getD j nullBlock

/-- Hits from block `i` on, up to the first miss, among the next `left` blocks that
have a hash. -/
def scanForward (p : BlockPool D) (hashes : BlockHashListWithBlockSize D)
    (groupIds : List Nat) : Nat → Nat → Py (List (List BlockId))
  | 0, _ => pure []
  | left + 1, i => do
    let blockHash ← hashes.getValueAt i
    match p.getCachedBlock blockHash groupIds with
    | none => pure []
    | some cached => (cached :: ·) <$> scanForward p hashes groupIds left (i + 1)

/-- `FullAttentionManager.find_longest_cache_hit`. -/
def findLongestCacheHitFull (p : BlockPool D) (hashes : BlockHashListWithBlockSize D)
    (maxLength : Nat) (groupIds : List Nat) (blockSize : Nat) (useEagle : Bool)
    (alignmentTokens : Nat) : Py (List (List BlockId)) := do
  let maxNumBlocks := maxLength / blockSize
  let rows ← scanForward p hashes groupIds (min maxNumBlocks hashes.length) 0
  let rows := if useEagle then rows.dropLast else rows
  pure (columns groupIds.length p.nullBlock
    (rows.take (alignedLength blockSize alignmentTokens rows.length)))

/-- The right-to-left search of `SlidingWindowManager.find_longest_cache_hit` over
the first `n` blocks: the rows, the length of the current run of hits, and
whether the run is long enough. -/
def scanWindow (p : BlockPool D) (hashes : BlockHashListWithBlockSize D)
    (groupIds : List Nat) (blockSize alignmentTokens : Nat) (needed : Int) :
    Nat → Nat → List (List BlockId) → Py (List (List BlockId) × Nat × Bool)
  | 0, numContiguous, rows => pure (rows, numContiguous, false)
  | i + 1, numContiguous, rows => do
    let blockHash ← hashes.getValueAt i
    match p.getCachedBlock blockHash groupIds with
    | none => scanWindow p hashes groupIds blockSize alignmentTokens needed i 0 rows
    | some cached =>
      if numContiguous = 0 ∧ ¬Aligned blockSize alignmentTokens (i + 1) then
        scanWindow p hashes groupIds blockSize alignmentTokens needed i numContiguous rows
      else
        let rows := rows.set i cached
        if needed ≤ numContiguous + 1 then
          pure (rows.take (i + (numContiguous + 1)), numContiguous + 1, true)
        else
          scanWindow p hashes groupIds blockSize alignmentTokens needed i
            (numContiguous + 1) rows

/-- `SlidingWindowManager.find_longest_cache_hit`. -/
def findLongestCacheHitSlidingWindow (p : BlockPool D)
    (hashes : BlockHashListWithBlockSize D) (maxLength : Nat) (groupIds : List Nat)
    (blockSize window : Nat) (useEagle : Bool) (alignmentTokens : Nat) :
    Py (List (List BlockId)) := do
  let needed := cdiv ((window : Int) - 1) blockSize + if useEagle then 1 else 0
  let maxNumBlocks := maxLength / blockSize
  let nullRows :=
    List.replicate maxNumBlocks (List.replicate groupIds.length p.nullBlock)
  let (rows, numContiguous, matchFound) ←
    scanWindow p hashes groupIds blockSize alignmentTokens needed maxNumBlocks 0 nullRows
  let rows :=
    if matchFound then rows
    else
      -- The first blocks are a hit even if they do not fill the window.
      let rows := rows.take numContiguous
      rows.take (alignedLength blockSize alignmentTokens rows.length)
  if useEagle ∧ rows ≠ [] then
    pyAssert (blockSize = alignmentTokens) "aligned_length is not compatible with eagle now"
    pure (columns groupIds.length p.nullBlock rows.dropLast)
  else pure (columns groupIds.length p.nullBlock rows)

/-- `ChunkedLocalAttentionManager.find_longest_cache_hit`. -/
def findLongestCacheHitChunkedLocal (p : BlockPool D)
    (hashes : BlockHashListWithBlockSize D) (maxLength : Nat) (groupIds : List Nat)
    (blockSize chunkSize : Nat) (useEagle : Bool) (alignmentTokens : Nat) :
    Py (List (List BlockId)) := do
  pyAssert (useEagle = false)
    "Hybrid KV cache is not supported for eagle + chunked local attention."
  pyAssert (blockSize = alignmentTokens) ("KV cache groups with different block sizes are " ++
    "not compatible with chunked local attention now")
  let maxNumBlocks := maxLength / blockSize
  let localAttentionStartIdx :=
    if 0 < maxLength then maxLength / chunkSize * chunkSize else 0
  let localAttentionStartBlockIdx := localAttentionStartIdx / blockSize
  let rows ← scanForward p hashes groupIds (maxNumBlocks - localAttentionStartBlockIdx)
    localAttentionStartBlockIdx
  pure (columns groupIds.length p.nullBlock
    (List.replicate localAttentionStartBlockIdx
      (List.replicate groupIds.length p.nullBlock) ++ rows))

/-- The right-to-left search of `MambaManager.find_longest_cache_hit`: the last
aligned hit, after null blocks. -/
def scanLast (p : BlockPool D) (hashes : BlockHashListWithBlockSize D)
    (groupIds : List Nat) (blockSize alignmentTokens : Nat) :
    Nat → Py (List (List BlockId))
  | 0 => pure []
  | i + 1 => do
    let blockHash ← hashes.getValueAt i
    match p.getCachedBlock blockHash groupIds with
    | none => scanLast p hashes groupIds blockSize alignmentTokens i
    | some cached =>
      if Aligned blockSize alignmentTokens (i + 1) then
        pure (List.replicate i (List.replicate groupIds.length p.nullBlock) ++ [cached])
      else scanLast p hashes groupIds blockSize alignmentTokens i

/-- `find_longest_cache_hit` of the manager class of `spec`: one list of blocks for
each of the listed groups. -/
def findLongestCacheHit (p : BlockPool D) (hashes : BlockHashListWithBlockSize D)
    (maxLength : Nat) (groupIds : List Nat) (spec : KVCacheSpec) (useEagle : Bool)
    (alignmentTokens dcpWorldSize pcpWorldSize : Nat) : Py (List (List BlockId)) := do
  let noContextParallel (msg : String) : Py Unit :=
    pyAssert (dcpWorldSize = 1 ∧ pcpWorldSize = 1) msg
  match spec.kind with
  | .fullAttention .. | .mlaAttention .. | .sinkFullAttention .. =>
    let blockSize :=
      if 1 < dcpWorldSize * pcpWorldSize then spec.blockSize * (dcpWorldSize * pcpWorldSize)
      else spec.blockSize
    findLongestCacheHitFull p hashes maxLength groupIds blockSize useEagle alignmentTokens
  | .slidingWindow _ window _ => do
    noContextParallel "DCP and PCP not support sliding window attn now."
    findLongestCacheHitSlidingWindow p hashes maxLength groupIds spec.blockSize window
      useEagle alignmentTokens
  | .chunkedLocalAttention _ chunkSize _ => do
    noContextParallel "DCP and PCP not support chunked local attn now."
    findLongestCacheHitChunkedLocal p hashes maxLength groupIds spec.blockSize chunkSize
      useEagle alignmentTokens
  | .mamba .. => do
    noContextParallel "DCP and PCP not support mamba now."
    let rows ← scanLast p hashes groupIds spec.blockSize alignmentTokens
      (maxLength / spec.blockSize)
    pure (columns groupIds.length p.nullBlock rows)
  | .crossAttention _ =>
    throw (.notImplementedError "CrossAttentionManager does not support caching")

end SingleTypeKVCacheManager

end VllmCore
