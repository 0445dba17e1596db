import VllmCore.SingleTypeKVCacheManager
/-!
# The KV cache coordinator and manager

The coordinator runs the managers of all KV cache groups over one block pool.
Which of its three classes is used depends on the configuration; they differ in
how they look for prefix cache hits.  The KV cache manager is the interface to
the scheduler.
-/

namespace VllmCore

open Support

/-- The part of `KVCacheConfig` that the managers read. -/
structure KVCacheConfig where
  numBlocks : Nat
  kvCacheGroups : List KVCacheSpec
  deriving DecidableEq

inductive CoordinatorKind
  | noPrefixCache
  | unitary
  | hybrid
  deriving DecidableEq, Repr

abbrev AttentionGroup := KVCacheSpec × List Nat

structure KVCacheCoordinator (D : Type) where
  kind : CoordinatorKind
  kvCacheConfig : KVCacheConfig
  enableCaching : Bool
  useEagle : Bool
  dcpWorldSize : Nat
  pcpWorldSize : Nat
  hashBlockSize : Nat
  blockPool : BlockPool D
  singleTypeManagers : List (SingleTypeKVCacheManager D)
  attentionGroups : List AttentionGroup
  lcmBlockSize : Nat

/-- `KVCacheBlocks`: the blocks of each group. -/
abbrev KVCacheBlocks := List (List BlockId)

variable {D : Type} [DecidableEq D]

def forEachManager {α : Type}
    (f : Nat → SingleTypeKVCacheManager D → BlockPool D →
      Py (α × SingleTypeKVCacheManager D × BlockPool D)) :
    Nat → List (SingleTypeKVCacheManager D) → BlockPool D →
      Py (List α × List (SingleTypeKVCacheManager D) × BlockPool D)
  | _, [], p => pure ([], [], p)
  | i, m :: ms, p => do
    let (a, m, p) ← f i m p
    let (as, ms, p) ← forEachManager f (i + 1) ms p
    pure (a :: as, m :: ms, p)

namespace KVCacheCoordinator

/-! ## Construction -/

/-- Insert group `i` into the list of groups by specification. -/
def addAttentionGroup (groups : List AttentionGroup) (e : KVCacheSpec × Nat) :
    List AttentionGroup :=
  if groups.any (·.1 = e.1) then
    groups.map fun g => if g.1 = e.1 then (g.1, g.2 ++ [e.2]) else g
  else groups ++ [(e.1, [e.2])]

/-- `verify_and_split_kv_cache_groups`: the groups by specification, those with
full attention first. -/
def splitKVCacheGroups (specs : List KVCacheSpec) : List AttentionGroup :=
  let groups := (specs.zipIdx).foldl addAttentionGroup []
  groups.filter (·.1.isFullAttention) ++ groups.filter fun g => !g.1.isFullAttention

def createManagers (enableCaching : Bool) (dcpWorldSize pcpWorldSize : Nat) :
    Nat → List KVCacheSpec → BlockPool D → Py (List (SingleTypeKVCacheManager D) × BlockPool D)
  | _, [], p => pure ([], p)
  | i, spec :: specs, p => do
    let (m, p) ← SingleTypeKVCacheManager.create spec p enableCaching i dcpWorldSize
      pcpWorldSize
    let (ms, p) ← createManagers enableCaching dcpWorldSize pcpWorldSize (i + 1) specs p
    pure (m :: ms, p)

/-- `get_kv_cache_coordinator`, with the constructor of the class it selects. -/
def create (config : KVCacheConfig) (useEagle enableCaching enableKvCacheEvents : Bool)
    (dcpWorldSize pcpWorldSize hashBlockSize : Nat) : Py (KVCacheCoordinator D) := do
  let p ← BlockPool.create config.numBlocks enableCaching hashBlockSize enableKvCacheEvents
  let (managers, p) ←
    createManagers enableCaching dcpWorldSize pcpWorldSize 0 config.kvCacheGroups p
  let base : KVCacheCoordinator D :=
    { kind := .noPrefixCache
      kvCacheConfig := config
      enableCaching := enableCaching
      useEagle := useEagle
      dcpWorldSize := dcpWorldSize
      pcpWorldSize := pcpWorldSize
      hashBlockSize := hashBlockSize
      blockPool := p
      singleTypeManagers := managers
      attentionGroups := []
      lcmBlockSize := 1 }
  if enableCaching = false then pure base
  else
    match config.kvCacheGroups with
    | [spec] =>
      pyAssert (hashBlockSize = spec.blockSize * dcpWorldSize * pcpWorldSize)
        "UnitaryKVCacheCoordinator assumes hash_block_size == block_size"
      pure { base with kind := .unitary }
    | groups =>
      pyAssert (∀ g ∈ groups, g.blockSize % hashBlockSize = 0)
        "block_size must be divisible by hash_block_size"
      pyAssert (dcpWorldSize = 1) "DCP not support hybrid attn now."
      pyAssert (pcpWorldSize = 1) "PCP not support hybrid attn now."
      let attentionGroups := splitKVCacheGroups groups
      pyAssert (1 < attentionGroups.length)
        "HybridKVCacheCoordinator requires at least two attention groups."
      pure
        { base with
          kind := .hybrid
          attentionGroups := attentionGroups
          lcmBlockSize := (attentionGroups.map (·.1.blockSize)).foldl Nat.lcm 1 }

/-! ## Calls to all managers -/

def update (c : KVCacheCoordinator D)
    (res : List (SingleTypeKVCacheManager D) × BlockPool D) : KVCacheCoordinator D :=
  { c with singleTypeManagers := res.1, blockPool := res.2 }

/-- `get_num_blocks_to_allocate` for the managers from `i` on. -/
def sumBlocksToAllocate (p : BlockPool D) (requestId : ReqId) (numTokens : Int)
    (newComputedBlocks : KVCacheBlocks) (numEncoderTokens totalComputedTokens
    numTokensMainModel : Int) : Nat → List (SingleTypeKVCacheManager D) → Py Int
  | _, [] => pure 0
  | i, m :: ms => do
    let n ← (if m.spec.isCrossAttention then
        m.getNumBlocksToAllocate p requestId numEncoderTokens [] 0 numEncoderTokens
      else do
        let blocks ← pyGet newComputedBlocks i
        m.getNumBlocksToAllocate p requestId numTokens blocks totalComputedTokens
          numTokensMainModel : Py Int)
    (n + ·) <$> sumBlocksToAllocate p requestId numTokens newComputedBlocks
      numEncoderTokens totalComputedTokens numTokensMainModel (i + 1) ms

def getNumBlocksToAllocate (c : KVCacheCoordinator D) (requestId : ReqId) (numTokens : Int)
    (newComputedBlocks : KVCacheBlocks) (numEncoderTokens totalComputedTokens
    numTokensMainModel : Int) : Py Int :=
  sumBlocksToAllocate c.blockPool requestId numTokens newComputedBlocks numEncoderTokens
    totalComputedTokens numTokensMainModel 0 c.singleTypeManagers

def allocateNewComputedBlocks (c : KVCacheCoordinator D) (requestId : ReqId)
    (newComputedBlocks : KVCacheBlocks)
    (numLocalComputedTokens numExternalComputedTokens : Int) : Py (KVCacheCoordinator D) := do
  let res ← forEachManager (fun i m p => do
    let blocks ← pyGet newComputedBlocks i
    let (m, p) ← m.allocateNewComputedBlocks p requestId blocks numLocalComputedTokens
      numExternalComputedTokens
    pure ((), m, p)) 0 c.singleTypeManagers c.blockPool
  pure (c.update res.2)

def allocateNewBlocks (c : KVCacheCoordinator D) (requestId : ReqId)
    (numTokens numTokensMainModel numEncoderTokens : Int) :
    Py (KVCacheBlocks × KVCacheCoordinator D) := do
  let res ← forEachManager (fun _ m p =>
    m.allocateNewBlocks p requestId
      (if m.spec.isCrossAttention then numEncoderTokens else numTokens)
      numTokensMainModel) 0 c.singleTypeManagers c.blockPool
  pure (res.1, c.update res.2)

def cacheBlocks (fns : HashFns D) (c : KVCacheCoordinator D) (r : Request D)
    (numComputedTokens : Int) : Py (KVCacheCoordinator D) := do
  let res ← forEachManager (fun _ m p => do
    let (m, p) ← m.cacheBlocks fns p r numComputedTokens
    pure ((), m, p)) 0 c.singleTypeManagers c.blockPool
  pure (c.update res.2)

def free (c : KVCacheCoordinator D) (requestId : ReqId) : Py (KVCacheCoordinator D) := do
  let res ← forEachManager (fun _ m p => do
    let (m, p) := m.free p requestId
    pure ((), m, p)) 0 c.singleTypeManagers c.blockPool
  pure (c.update res.2)

def removeSkippedBlocks (c : KVCacheCoordinator D) (requestId : ReqId)
    (totalComputedTokens : Int) : Py (KVCacheCoordinator D) := do
  let res ← forEachManager (fun _ m p => do
    let (m, p) ← m.removeSkippedBlocks p requestId totalComputedTokens
    pure ((), m, p)) 0 c.singleTypeManagers c.blockPool
  pure (c.update res.2)

def getNumCommonPrefixBlocks (c : KVCacheCoordinator D) (runningRequestId : ReqId) :
    List Nat :=
  c.singleTypeManagers.map fun m =>
    if c.kind = .noPrefixCache then 0
    else m.getNumCommonPrefixBlocks c.blockPool runningRequestId

def getBlocks (c : KVCacheCoordinator D) (requestId : ReqId) : KVCacheBlocks :=
  c.singleTypeManagers.map (·.blocksOf requestId)

def newStepStarts (c : KVCacheCoordinator D) : KVCacheCoordinator D :=
  { c with singleTypeManagers := c.singleTypeManagers.map (·.newStepStarts) }

/-! ## Cache hits -/

/-- The hits found so far, by group; `none` where a group was not searched yet. -/
abbrev HitBlocks := List (Option (List BlockId))

/-- One turn of the inner loop of the hybrid search: group `g` accepts the current
length or reduces it. -/
def searchGroup (c : KVCacheCoordinator D) (blockHashes : List D) (st : Nat × HitBlocks)
    (g : AttentionGroup) : Py (Nat × HitBlocks) := do
  let (currHitLength, hits) := st
  let (spec, groupIds) := g
  let cachedBlocks : Option (List BlockId) := (groupIds.head?.bind (hits[·]?)).join
  if spec.isFullAttention ∧ cachedBlocks.isSome then
    pure (currHitLength / spec.blockSize * spec.blockSize, hits)
  else
    let hashes ← convertBlockHashes blockHashes c.hashBlockSize spec.blockSize
    let hitBlocks ← SingleTypeKVCacheManager.findLongestCacheHit c.blockPool hashes
      currHitLength groupIds spec c.useEagle c.lcmBlockSize 1 1
    let length ← (match hitBlocks with
      | [] => throw (.indexError "tuple index out of range")
      | blocks :: _ => pure blocks.length : Py Nat)
    pure (length * spec.blockSize,
      (groupIds.zip hitBlocks).foldl (fun hits e => hits.set e.1 (some e.2)) hits)

/-- The outer loop of the hybrid search.  The length decreases with every turn but
the last, so that more fuel than the length changes nothing. -/
def searchLoop (c : KVCacheCoordinator D) (blockHashes : List D) (isSimpleHybrid : Bool) :
    Nat → Nat → HitBlocks → Py (Nat × HitBlocks)
  | 0, hitLength, hits => pure (hitLength, hits)
  | fuel + 1, hitLength, hits => do
    let (currHitLength, hits) ←
      c.attentionGroups.foldlM (searchGroup c blockHashes) (hitLength, hits)
    if hitLength ≤ currHitLength then pure (hitLength, hits)
    else if isSimpleHybrid then pure (currHitLength, hits)
    else searchLoop c blockHashes isSimpleHybrid fuel currHitLength hits

/-- Cut the blocks of the first attention group, if it has full attention, to the
length of the hit. -/
def truncateFullAttention (c : KVCacheCoordinator D) (hitLength : Nat) (hits : HitBlocks) :
    HitBlocks :=
  match c.attentionGroups with
  | [] => hits
  | (spec, groupIds) :: _ =>
    if spec.isFullAttention then
      groupIds.foldl
        (fun hits g => hits.modify g (Option.map (·.take (hitLength / spec.blockSize)))) hits
    else hits

/-- `HybridKVCacheCoordinator.find_longest_cache_hit`. -/
def findLongestCacheHitHybrid (c : KVCacheCoordinator D) (blockHashes : List D)
    (maxCacheHitLength : Nat) : Py (KVCacheBlocks × Nat) := do
  let isSimpleHybrid := c.attentionGroups.length = 2 ∧
    (c.attentionGroups.head?.any fun g => g.1.isFullAttention)
  let (hitLength, hits) ← searchLoop c blockHashes isSimpleHybrid (maxCacheHitLength + 1)
    maxCacheHitLength (List.replicate c.kvCacheConfig.kvCacheGroups.length none)
  let hits := c.truncateFullAttention hitLength hits
  pure (hits.map (·.getD []), hitLength)

def findLongestCacheHit (c : KVCacheCoordinator D) (blockHashes : List D)
    (maxCacheHitLength : Nat) : Py (KVCacheBlocks × Nat) :=
  match c.kind with
  | .noPrefixCache => pure (c.singleTypeManagers.map fun _ => [], 0)
  | .unitary => do
    match c.kvCacheConfig.kvCacheGroups with
    | [] => throw (.indexError "list index out of range")
    | spec :: _ =>
      let blockSize := spec.blockSize * c.dcpWorldSize * c.pcpWorldSize
      let hitBlocks ← SingleTypeKVCacheManager.findLongestCacheHit c.blockPool
        ⟨blockHashes, 1⟩ maxCacheHitLength [0] spec c.useEagle blockSize c.dcpWorldSize
        c.pcpWorldSize
      match hitBlocks with
      | [] => throw (.indexError "tuple index out of range")
      | blocks :: _ => pure (hitBlocks, blocks.length * blockSize)
  | .hybrid => c.findLongestCacheHitHybrid blockHashes maxCacheHitLength

end KVCacheCoordinator

/-! ## The KV cache manager -/

structure KVCacheManager (D : Type) where
  maxModelLen : Nat
  enableCaching : Bool
  coordinator : KVCacheCoordinator D

/-- The arguments of `allocate_slots`, besides the request and the cache hits. -/
structure SlotArgs where
  numNewTokens : Int
  numLookaheadTokens : Int := 0
  numExternalComputedTokens : Int := 0
  delayCacheBlocks : Bool := false
  numEncoderTokens : Int := 0
  deriving DecidableEq, Repr

namespace KVCacheManager

def blockPool (kv : KVCacheManager D) : BlockPool D := kv.coordinator.blockPool

def withCoordinator (kv : KVCacheManager D) (c : KVCacheCoordinator D) : KVCacheManager D :=
  { kv with coordinator := c }

def withPool (kv : KVCacheManager D) (p : BlockPool D) : KVCacheManager D :=
  { kv with coordinator := { kv.coordinator with blockPool := p } }

/-- `KVCacheManager.__init__`. -/
def create (config : KVCacheConfig) (maxModelLen hashBlockSize : Nat) (enableCaching useEagle
    enableKvCacheEvents : Bool) (dcpWorldSize pcpWorldSize : Nat) : Py (KVCacheManager D) := do
  let c ← KVCacheCoordinator.create config useEagle enableCaching enableKvCacheEvents
    dcpWorldSize pcpWorldSize hashBlockSize
  pure { maxModelLen := maxModelLen, enableCaching := enableCaching, coordinator := c }

def emptyKVCacheBlocks (kv : KVCacheManager D) : KVCacheBlocks :=
  kv.coordinator.kvCacheConfig.kvCacheGroups.map fun _ => []

/-- `create_kv_cache_blocks`: empty results share one object. -/
def createKVCacheBlocks (kv : KVCacheManager D) (blocks : KVCacheBlocks) : KVCacheBlocks :=
  if blocks.any (!·.isEmpty) then blocks else kv.emptyKVCacheBlocks

/-- `get_computed_blocks`.  A request has at least one token. -/
def getComputedBlocks (kv : KVCacheManager D) (r : Request D) : Py (KVCacheBlocks × Nat) :=
  if kv.enableCaching = false ∨ r.skipReadingPrefixCache then
    pure (kv.emptyKVCacheBlocks, 0)
  else do
    let (computedBlocks, numNewComputedTokens) ←
      kv.coordinator.findLongestCacheHit r.blockHashes (r.numTokens - 1)
    pure (kv.createKVCacheBlocks computedBlocks, numNewComputedTokens)

def canFitFullSequence (kv : KVCacheManager D) (r : Request D) (numNewComputedTokens : Int)
    (newComputedBlocks : KVCacheBlocks) (numExternalComputedTokens numEncoderTokens : Int) :
    Py Bool := do
  let numLocalComputedTokens := r.numComputedTokens + numNewComputedTokens
  let totalComputedTokens :=
    min (numLocalComputedTokens + numExternalComputedTokens) kv.maxModelLen
  let fullNumTokens : Int := min r.numTokens kv.maxModelLen
  let numBlocksToAllocate ← kv.coordinator.getNumBlocksToAllocate r.requestId fullNumTokens
    newComputedBlocks numEncoderTokens totalComputedTokens fullNumTokens
  pure (numBlocksToAllocate ≤ kv.blockPool.getNumFreeBlocks)

/-- `total_computed_tokens`: the tokens computed locally, in this lookup or before,
and externally. -/
def totalComputedTokens (kv : KVCacheManager D) (r : Request D) (numNewComputedTokens : Int)
    (a : SlotArgs) : Int :=
  min (r.numComputedTokens + numNewComputedTokens + a.numExternalComputedTokens) kv.maxModelLen

/-- `num_tokens_main_model`: all tokens but the lookahead. -/
def numTokensMainModel (kv : KVCacheManager D) (r : Request D) (numNewComputedTokens : Int)
    (a : SlotArgs) : Int :=
  kv.totalComputedTokens r numNewComputedTokens a + a.numNewTokens

def numTokensNeedSlot (kv : KVCacheManager D) (r : Request D) (numNewComputedTokens : Int)
    (a : SlotArgs) : Int :=
  min (kv.numTokensMainModel r numNewComputedTokens a + a.numLookaheadTokens) kv.maxModelLen

/-- The two calls of `allocate_slots` that take blocks from the pool.  Cache hits that
are all empty are the shared empty object, which is not passed on to the groups. -/
def allocateBlocks (kv : KVCacheManager D) (c : KVCacheCoordinator D) (r : Request D)
    (numNewComputedTokens : Int) (newComputedBlocks : KVCacheBlocks) (a : SlotArgs) :
    Py (KVCacheBlocks × KVCacheCoordinator D) := do
  let c ← (if newComputedBlocks.any (!·.isEmpty) ∨ 0 < a.numExternalComputedTokens then
      c.allocateNewComputedBlocks r.requestId newComputedBlocks
        (r.numComputedTokens + numNewComputedTokens) a.numExternalComputedTokens
    else pure c : Py (KVCacheCoordinator D))
  c.allocateNewBlocks r.requestId (kv.numTokensNeedSlot r numNewComputedTokens a)
    (kv.numTokensMainModel r numNewComputedTokens a) a.numEncoderTokens

/-- `allocate_slots`.  Without enough free blocks the result is `none`, and only the
skipped blocks were released. -/
def allocateSlots (fns : HashFns D) (kv : KVCacheManager D) (r : Request D)
    (numNewComputedTokens : Int) (newComputedBlocks : KVCacheBlocks) (a : SlotArgs) :
    Py (KVCacheManager D × Option KVCacheBlocks) := do
  require (¬(a.numNewTokens = 0 ∧ a.numExternalComputedTokens = 0))
    (.valueError ("num_new_tokens must be greater than 0 when there are no " ++
      "external computed tokens"))
  let totalComputedTokens := kv.totalComputedTokens r numNewComputedTokens a
  let c ← kv.coordinator.removeSkippedBlocks r.requestId totalComputedTokens
  let numBlocksToAllocate ← c.getNumBlocksToAllocate r.requestId
    (kv.numTokensNeedSlot r numNewComputedTokens a) newComputedBlocks a.numEncoderTokens
    (r.numComputedTokens + numNewComputedTokens + a.numExternalComputedTokens)
    (kv.numTokensMainModel r numNewComputedTokens a)
  if c.blockPool.getNumFreeBlocks < numBlocksToAllocate then
    pure (kv.withCoordinator c, none)
  else
    let (newBlocks, c) ← kv.allocateBlocks c r numNewComputedTokens newComputedBlocks a
    let c ← (if kv.enableCaching = false ∨ a.delayCacheBlocks then pure c
      else c.cacheBlocks fns r (min (totalComputedTokens + a.numNewTokens) r.numTokens) :
        Py (KVCacheCoordinator D))
    pure (kv.withCoordinator c, some (kv.createKVCacheBlocks newBlocks))

def free (kv : KVCacheManager D) (requestId : ReqId) : Py (KVCacheManager D) :=
  kv.withCoordinator <$> kv.coordinator.free requestId

def removeSkippedBlocks (kv : KVCacheManager D) (requestId : ReqId)
    (totalComputedTokens : Int) : Py (KVCacheManager D) :=
  kv.withCoordinator <$> kv.coordinator.removeSkippedBlocks requestId totalComputedTokens

def evictBlocks (kv : KVCacheManager D) (blockIds : List BlockId) : Py (KVCacheManager D) :=
  kv.withPool <$> kv.blockPool.evictBlocks blockIds

def resetPrefixCache (kv : KVCacheManager D) : KVCacheManager D × Bool :=
  (kv.withPool kv.blockPool.resetPrefixCache.1, kv.blockPool.resetPrefixCache.2)

def getNumCommonPrefixBlocks (kv : KVCacheManager D) (runningRequestId : ReqId) : List Nat :=
  kv.coordinator.getNumCommonPrefixBlocks runningRequestId

def takeEvents (kv : KVCacheManager D) : List (KVCacheEvent D) × KVCacheManager D :=
  (kv.blockPool.takeEvents.1, kv.withPool kv.blockPool.takeEvents.2)

def getBlocks (kv : KVCacheManager D) (requestId : ReqId) : KVCacheBlocks :=
  kv.createKVCacheBlocks (kv.coordinator.getBlocks requestId)

def cacheBlocks (fns : HashFns D) (kv : KVCacheManager D) (r : Request D)
    (numComputedTokens : Int) : Py (KVCacheManager D) :=
  if kv.enableCaching then
    kv.withCoordinator <$> kv.coordinator.cacheBlocks fns r numComputedTokens
  else pure kv

def takeNewBlockIds (kv : KVCacheManager D) : List BlockId × KVCacheManager D :=
  let c := kv.coordinator
  (c.singleTypeManagers.flatMap (·.takeNewBlockIds.1),
    kv.withCoordinator
      { c with singleTypeManagers := c.singleTypeManagers.map (·.takeNewBlockIds.2) })

def newStepStarts (kv : KVCacheManager D) : KVCacheManager D :=
  kv.withCoordinator kv.coordinator.newStepStarts

end KVCacheManager

end VllmCore
