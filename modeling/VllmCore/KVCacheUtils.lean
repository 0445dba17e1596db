import VllmCore.KVCacheInterface
import VllmCore.Support.Slices
/-!
# The configuration of the KV cache

The layers of all workers are merged and split into groups that have pages of one size.
Each worker gets the part of the groups that it has layers of, with tensors as large as its
memory allows, and in the end all workers shrink to the smallest number of blocks.
-/

namespace VllmCore.KVCacheUtils

open Support

variable {N : Type} [DecidableEq N]

/-! ## Groups -/

def createKvCacheGroupSpecs (kvCacheSpec : Dict N KVCacheSpec) (groupedLayerNames : List (List N)) :
    Py (List (KVCacheGroupSpec N)) :=
  groupedLayerNames.mapM fun layerNames => do
    let layerSpecs ← layerNames.mapM kvCacheSpec.get
    let merged ← KVCacheSpec.merge layerSpecs
    return { layerNames := layerNames, kvCacheSpec := .single merged }

/-- `is_kv_cache_spec_uniform`.  Only an assertion that fails means no. -/
def isKvCacheSpecUniform (kvCacheSpec : Dict N KVCacheSpec) : Py Bool :=
  if kvCacheSpec.entries.isEmpty then .ok true
  else
    match KVCacheSpec.merge kvCacheSpec.values with
    | .ok _ => .ok true
    | .error (.assertionError _) => .ok false
    | .error e => .error e

def isUniform (kvCacheSpec : Dict N KVCacheSpec) : Py Bool := do
  if ← isKvCacheSpecUniform kvCacheSpec then return true
  isUniformType kvCacheSpec

/-- A layer as `unify_hybrid_kv_cache_specs` turns it into full attention. -/
def asFullAttention (s : KVCacheSpec) : KVCacheSpec :=
  match s.kind with
  | .slidingWindow shape window _ =>
    { s with kind := .fullAttention shape shape.headSize (some window) none }
  | .chunkedLocalAttention shape chunkSize _ =>
    { s with kind := .fullAttention shape shape.headSize none (some chunkSize) }
  | _ => s

/-- Whether a layer is one that `unify_hybrid_kv_cache_specs` turns into full attention. -/
def isLocalAttention (s : KVCacheSpec) : Bool :=
  match s.kind with
  | .slidingWindow .. | .chunkedLocalAttention .. => true
  | _ => false

def unifyHybridKvCacheSpecs (kvCacheSpec : Dict N KVCacheSpec) : Py (Dict N KVCacheSpec) := do
  if ← isUniform kvCacheSpec then return kvCacheSpec
  let hasFullAttention := kvCacheSpec.values.any KVCacheSpec.isFullAttention
  let hasLocalAttention := kvCacheSpec.values.any isLocalAttention
  let kvCacheSpec :=
    if hasFullAttention && hasLocalAttention then kvCacheSpec.mapValues asFullAttention
    else kvCacheSpec
  if ← isUniform kvCacheSpec then return kvCacheSpec
  throw (.valueError ("Hybrid KV cache manager is disabled but failed to convert the KV cache " ++
    "specs to one unified type."))

/-- The page size that `unify_kv_cache_spec_page_size` gives a layer. -/
def unifyPageSize (maxPageSize : Nat) (s : KVCacheSpec) : Py KVCacheSpec := do
  let layerPageSize ← s.pageSizeBytes
  if layerPageSize = maxPageSize then
    return s
  else
    let ratio ← floorDiv maxPageSize layerPageSize
    if maxPageSize % layerPageSize ≠ 0 then
      throw (.notImplementedError ("The page size of the layer is not divisible by the maximum " ++
        "page size. Cannot unify by adjusting block_size."))
    let s ← s.copyWithNewBlockSize (s.blockSize * ratio.toNat)
    let newPageSize ← s.pageSizeBytes
    pyAssert (newPageSize = maxPageSize) "new_spec.page_size_bytes == max_page_size"
    return s

def unifyKvCacheSpecPageSize (kvCacheSpec : Dict N KVCacheSpec) : Py (Dict N KVCacheSpec) := do
  let pageSizes ← kvCacheSpec.values.mapM KVCacheSpec.pageSizeBytes
  if pageSizes.dedup.length ≤ 1 then
    return kvCacheSpec
  else
    kvCacheSpec.entries.foldlM (fun d e => do
      let s ← unifyPageSize (pageSizes.foldl max 0) e.2
      return d.set e.1 s) Dict.empty

def sameTypeLayers (kvCacheSpec : Dict N KVCacheSpec) : Dict KVCacheSpec (List N) :=
  kvCacheSpec.entries.foldl
    (fun d e => d.set e.2 ((d.get? e.2).getD [] ++ [e.1])) Dict.empty

/-- The number of layers in a group: the smallest number of layers of a type, or the largest
where it is less than half as much again. -/
def groupSizeOf (minNumLayers maxNumLayers : Nat) : Nat :=
  if 2 * maxNumLayers < 3 * minNumLayers then maxNumLayers else minNumLayers

/-- The groups of the layers of one type: layer `k` is in group `k % num_groups`. -/
def splitLayers (groupSize : Nat) (layers : List N) : Py (List (List N)) := do
  let numGroups ← cdivPy layers.length groupSize
  return (List.range numGroups.toNat).map fun i => stride layers i numGroups.toNat

def getKvCacheGroupsUniformPageSize (kvCacheSpec : Dict N KVCacheSpec) :
    Py (List (KVCacheGroupSpec N)) := do
  let layers := (sameTypeLayers kvCacheSpec).values
  let minNumLayers ← minPy (layers.map fun ls => ls.length)
  let maxNumLayers ← maxPy (layers.map fun ls => ls.length)
  let grouped ← layers.mapM (splitLayers (groupSizeOf minNumLayers.toNat maxNumLayers.toNat))
  createKvCacheGroupSpecs kvCacheSpec grouped.flatten

def getKvCacheGroups (c : VllmConfig) (kvCacheSpec : Dict N KVCacheSpec) :
    Py (List (KVCacheGroupSpec N)) := do
  let kvCacheSpec ← (if c.disableHybridKvCacheManager then unifyHybridKvCacheSpecs kvCacheSpec
    else .ok kvCacheSpec : Py (Dict N KVCacheSpec))
  match kvCacheSpec.values with
  | [] => return []
  | first :: _ =>
    if ← isKvCacheSpecUniform kvCacheSpec then
      createKvCacheGroupSpecs kvCacheSpec [kvCacheSpec.keys]
    else if ← isUniformType kvCacheSpec then
      return [{ layerNames := kvCacheSpec.keys
                kvCacheSpec := .uniformType first.blockSize kvCacheSpec }]
    else
      getKvCacheGroupsUniformPageSize (← unifyKvCacheSpecPageSize kvCacheSpec)

/-! ## Memory -/

def getUniformPageSize (kvCacheSpecs : List (GroupSpec N)) : Py Nat := do
  let pageSizes ← kvCacheSpecs.mapM GroupSpec.pageSizeBytes
  match pageSizes.dedup with
  | [pageSize] => return pageSize
  | _ => throw (.assertionError "len(page_sizes) == 1")

def maxGroupSize (kvCacheGroups : List (KVCacheGroupSpec N)) : Nat :=
  (kvCacheGroups.map fun g => g.layerNames.length).foldl max 0

def maxMemoryUsageBytesFromGroups (c : VllmConfig) (kvCacheGroups : List (KVCacheGroupSpec N)) :
    Py Int :=
  match kvCacheGroups with
  | [] => .ok 0
  | [{ layerNames := _, kvCacheSpec := .uniformType _ specs }] =>
    sumPy (fun spec => spec.maxMemoryUsageBytes c) specs.values
  | groups => do
    let pageSize ← getUniformPageSize (groups.map fun g => g.kvCacheSpec)
    let blocksNeeded ← sumPy (fun g => do
      cdivPy (← g.kvCacheSpec.maxMemoryUsageBytes c) pageSize) groups
    return maxGroupSize groups * pageSize * blocksNeeded

/-- The loop of the binary search; the interval shrinks, so `fuel` is its length. -/
def searchMaxModelLen (fits : Nat → Py Bool) : Nat → Nat → Nat → Nat → Py Nat
  | 0, _, _, result => .ok result
  | fuel + 1, left, right, result =>
    if left ≤ right then do
      let mid := (left + right) / 2
      if ← fits mid then searchMaxModelLen fits fuel (mid + 1) right mid
      else searchMaxModelLen fits fuel left (mid - 1) result
    else .ok result

def estimateMaxModelLenFromGroups (c : VllmConfig) (kvCacheGroups : List (KVCacheGroupSpec N))
    (availableMemory : Int) : Py Nat := do
  let fits (modelLen : Nat) : Py Bool := do
    let needed ← maxMemoryUsageBytesFromGroups { c with maxModelLen := modelLen } kvCacheGroups
    return decide (needed ≤ availableMemory)
  if ← fits 1 then searchMaxModelLen fits (c.maxModelLen + 1) 1 c.maxModelLen 1
  else return 0

def autoFitMaxModelLen (c : VllmConfig) (projected : List (List (KVCacheGroupSpec N)))
    (availableMemory : List Int) : Py VllmConfig := do
  if projected.all List.isEmpty then
    return c
  let autoFitMax ← (projected.zip availableMemory).foldlM (fun autoFitMax worker => do
    if worker.1.isEmpty then return autoFitMax
    let workerMax ← estimateMaxModelLenFromGroups c worker.1 worker.2
    return min autoFitMax workerMax) c.maxModelLen
  if autoFitMax = 0 then
    throw (.valueError ("Cannot auto-fit max_model_len: not enough GPU memory available to " ++
      "serve even a single token. Try increasing gpu_memory_utilization."))
  return { c with maxModelLen := autoFitMax }

/-- `_check_enough_kv_cache_memory`, besides the estimate in the text of the error. -/
def checkEnoughKvCacheMemory (c : VllmConfig) (groups : List (KVCacheGroupSpec N))
    (availableMemory : Int) : Py Unit := do
  if availableMemory ≤ 0 then
    throw (.valueError "No available memory for the cache blocks.")
  let neededMemory ← maxMemoryUsageBytesFromGroups c groups
  if neededMemory > availableMemory then
    throw (.valueError ("To serve at least one request with the models's max seq len more KV " ++
      "cache is needed than the available KV cache memory."))

/-! ## The configuration of a worker -/

def projectKvCacheGroupsToWorker (globalKvCacheGroups : List (KVCacheGroupSpec N))
    (workerSpec : Dict N KVCacheSpec) : Py (List (KVCacheGroupSpec N)) :=
  globalKvCacheGroups.mapM fun group => do
    let workerLayerNames := group.layerNames.filter fun layerName => workerSpec.contains layerName
    match workerLayerNames, group.kvCacheSpec with
    | _ :: _, .uniformType blockSize specs => do
      let workerSpecs ← workerLayerNames.foldlM (fun d layerName => do
        let spec ← specs.get layerName
        return d.set layerName spec) Dict.empty
      return { layerNames := workerLayerNames, kvCacheSpec := .uniformType blockSize workerSpecs }
    | _, groupSpec => return { layerNames := workerLayerNames, kvCacheSpec := groupSpec }

def mayOverrideNumBlocks (c : VllmConfig) (numBlocks : Int) : Int :=
  c.numGpuBlocksOverride.getD numBlocks

def getNumBlocks (c : VllmConfig) (numLayers : Nat) (availableMemory : Int) (pageSize : Nat) :
    Py Int := do
  let pages ← floorDiv availableMemory pageSize
  let numBlocks ← floorDiv pages numLayers
  return mayOverrideNumBlocks c (max numBlocks 0)

def getKvCacheConfigFromGroups (c : VllmConfig) (kvCacheGroups : List (KVCacheGroupSpec N))
    (availableMemory : Int) : Py (KVCacheConfig N) :=
  match kvCacheGroups with
  | [] => .ok { numBlocks := 1, kvCacheTensors := [], kvCacheGroups := [] }
  | [{ layerNames := layerNames, kvCacheSpec := .uniformType blockSize specs }] => do
    let pageSize ← (GroupSpec.uniformType blockSize specs).pageSizeBytes
    let numBlocks ← floorDiv availableMemory pageSize
    let numBlocks := mayOverrideNumBlocks c numBlocks
    let tensors ← layerNames.mapM fun layerName => do
      let spec ← specs.get layerName
      let layerPageSize ← spec.pageSizeBytes
      return { size := layerPageSize * numBlocks, sharedBy := [layerName] }
    return { numBlocks := numBlocks, kvCacheTensors := tensors, kvCacheGroups := kvCacheGroups }
  | groups => do
    let groupSize := maxGroupSize groups
    let pageSize ← getUniformPageSize (groups.map fun g => g.kvCacheSpec)
    pyAssert (groupSize > 0) "group_size must be greater than 0"
    let numBlocks ← getNumBlocks c groupSize availableMemory pageSize
    let tensors := (List.range groupSize).map fun i =>
      { size := pageSize * numBlocks
        sharedBy := groups.filterMap fun group => group.layerNames[i]? }
    return { numBlocks := numBlocks, kvCacheTensors := tensors, kvCacheGroups := groups }

/-! ## The configurations of all workers -/

def mergeLayerSpec (merged : Dict N KVCacheSpec) (layer : N × KVCacheSpec) :
    Py (Dict N KVCacheSpec) :=
  match merged.get? layer.1 with
  | none => .ok (merged.set layer.1 layer.2)
  | some spec => do
    pyAssert (spec = layer.2)
      "The KV cache specs for the same layer are different across workers."
    return merged

def mergeKvCacheSpecs (kvCacheSpecs : List (Dict N KVCacheSpec)) : Py (Dict N KVCacheSpec) :=
  kvCacheSpecs.foldlM (fun merged specs => specs.entries.foldlM mergeLayerSpec merged) Dict.empty

def shrinkTensor (numBlocksOld minNumBlocks : Int) (tensor : KVCacheTensor N) :
    Py (KVCacheTensor N) := do
  let perBlock ← floorDiv tensor.size numBlocksOld
  pyAssert (tensor.size.fmod numBlocksOld = 0) "tensor.size % num_blocks_old == 0"
  return { tensor with size := perBlock * minNumBlocks }

/-- What `_report_kv_cache_config` computes may raise. -/
def reportKvCacheConfig (c : VllmConfig) (config : KVCacheConfig N) : Py Unit :=
  match config.kvCacheGroups with
  | [] => .ok ()
  | first :: _ => do
    let numLayerPerGroup := maxGroupSize config.kvCacheGroups
    let usage ← sumPy (fun g => g.kvCacheSpec.maxMemoryUsageBytes c) config.kvCacheGroups
    let pageSize ← first.kvCacheSpec.pageSizeBytes
    let numBlockPerRequest ← cdivPy (numLayerPerGroup * usage) (pageSize * numLayerPerGroup)
    require (numBlockPerRequest ≠ 0) (.zeroDivisionError "division by zero")

def shrinkConfig (c : VllmConfig) (minNumBlocks : Int) (config : KVCacheConfig N) :
    Py (KVCacheConfig N) := do
  let tensors ← config.kvCacheTensors.mapM (shrinkTensor config.numBlocks minNumBlocks)
  let config := { config with numBlocks := minNumBlocks, kvCacheTensors := tensors }
  reportKvCacheConfig c config
  return config

/-- The configuration of a worker before the workers agree on the number of blocks. -/
def workerConfig (c : VllmConfig)
    (worker : List (KVCacheGroupSpec N) × Dict N KVCacheSpec × Int) : Py (KVCacheConfig N) := do
  let (projectedGroups, workerSpec, availableMemory) := worker
  pyAssert ((projectedGroups.map fun g => g.layerNames.length).sum = workerSpec.entries.length)
    "Some layers are not assigned to any group."
  getKvCacheConfigFromGroups c projectedGroups availableMemory

/-- `get_kv_cache_configs`, with the configuration whose maximum model length it may have
changed. -/
def getKvCacheConfigs (c : VllmConfig) (kvCacheSpecs : List (Dict N KVCacheSpec))
    (availableMemory : List Int) : Py (VllmConfig × List (KVCacheConfig N)) := do
  let merged ← mergeKvCacheSpecs kvCacheSpecs
  let globalKvCacheGroups ← getKvCacheGroups c merged
  let projected ← kvCacheSpecs.mapM (projectKvCacheGroupsToWorker globalKvCacheGroups)
  let c ← (if c.originalMaxModelLen = some (-1) then
      autoFitMaxModelLen c projected availableMemory
    else .ok c : Py VllmConfig)
  -- every worker has enough memory for one request
  (projected.zip availableMemory).forM fun worker =>
    if worker.1.isEmpty then .ok () else checkEnoughKvCacheMemory c worker.1 worker.2
  let configs ← (projected.zip (kvCacheSpecs.zip availableMemory)).mapM (workerConfig c)
  let minNumBlocks ← minPy (configs.map fun config => config.numBlocks)
  let configs ← configs.mapM (shrinkConfig c minNumBlocks)
  return (c, configs)

end VllmCore.KVCacheUtils
