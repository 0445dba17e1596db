import VllmCore.KVCacheSpec
import VllmCore.Support.Dict
/-!
# The interface of the KV cache

The sizes of the pages of a specification, how the specifications of several layers are
merged into one, and the configuration that the workers get: groups of layers that share a
block table, and tensors that are shared by layers of different groups.
-/

namespace VllmCore.KVCacheUtils

open Support

/-! ## Sizes -/

structure VllmConfig where
  maxModelLen : Nat
  originalMaxModelLen : Option Int := none
  decodeContextParallelSize : Nat := 1
  prefillContextParallelSize : Nat := 1
  maxNumBatchedTokens : Nat
  maxNumEncoderInputTokens : Nat := 0
  mambaCacheMode : MambaCacheMode := .none
  disableHybridKvCacheManager : Bool := false
  numGpuBlocksOverride : Option Int := none
  deriving DecidableEq

/-- `cdiv`, which raises for a zero divisor. -/
def cdivPy (a : Int) (b : Nat) : Py Int := do
  let q ← floorDiv a (-(b : Int))
  return -q

/-- `page_size_bytes` of a page that may be padded. -/
def paddedPageSize (pageSizePadded : Option Nat) (realPageSize : Nat) : Py Nat :=
  match pageSizePadded with
  | some padded => do
    pyAssert (padded ≥ realPageSize) "self.page_size_padded >= real_page_size"
    return padded
  | none => .ok realPageSize

end VllmCore.KVCacheUtils

namespace VllmCore.KVCacheSpec

open Support KVCacheUtils

/-- `real_page_size_bytes` of full attention. -/
def fullPageSize (blockSize : Nat) (shape : AttentionShape) (headSizeV : Nat) : Nat :=
  blockSize * shape.numKvHeads * (shape.headSize + headSizeV) * shape.dtype.itemsize

/-- `real_page_size_bytes` of MLA. -/
def mlaPageSize (blockSize : Nat) (shape : AttentionShape) (cacheDtypeStr : Option String) :
    Nat :=
  if cacheDtypeStr = some "fp8_ds_mla" then blockSize * 656
  else blockSize * shape.numKvHeads * shape.headSize * shape.dtype.itemsize

/-- `real_page_size_bytes` of `AttentionSpec`. -/
def attentionPageSize (blockSize : Nat) (shape : AttentionShape) : Nat :=
  2 * blockSize * shape.numKvHeads * shape.headSize * shape.dtype.itemsize

def mambaPageSize (shapes : List (List Nat)) (dtypes : List DType) : Nat :=
  ((shapes.zip dtypes).map fun (shape, dtype) => shape.prod * dtype.itemsize).sum

def pageSizeBytes (s : KVCacheSpec) : Py Nat :=
  match s.kind with
  | .fullAttention shape headSizeV _ _ =>
    paddedPageSize shape.pageSizePadded (fullPageSize s.blockSize shape headSizeV)
  | .mlaAttention shape _ _ _ cacheDtypeStr =>
    paddedPageSize shape.pageSizePadded (mlaPageSize s.blockSize shape cacheDtypeStr)
  | .sinkFullAttention shape headSizeV _ _ _ =>
    paddedPageSize shape.pageSizePadded (fullPageSize s.blockSize shape headSizeV)
  | .slidingWindow shape _ _ | .chunkedLocalAttention shape _ _ | .crossAttention shape =>
    paddedPageSize shape.pageSizePadded (attentionPageSize s.blockSize shape)
  | .mamba shapes dtypes pageSizePadded _ _ _ =>
    paddedPageSize pageSizePadded (mambaPageSize shapes dtypes)

def maxMemoryUsageBytes (c : VllmConfig) (s : KVCacheSpec) : Py Int :=
  let pages (n : Int) : Py Int := do
    let pageSize ← s.pageSizeBytes
    return n * pageSize
  match s.kind with
  | .fullAttention .. | .mlaAttention .. | .sinkFullAttention .. =>
    let worldSize := c.decodeContextParallelSize * c.prefillContextParallelSize
    let maxModelLen : Int :=
      if worldSize > 1 then cdiv c.maxModelLen worldSize else c.maxModelLen
    pages (cdiv maxModelLen s.blockSize)
  | .chunkedLocalAttention _ chunkSize _ =>
    pages (cdiv (min (chunkSize + c.maxNumBatchedTokens) c.maxModelLen : Nat) s.blockSize)
  | .slidingWindow _ window _ => do
    pyAssert (c.decodeContextParallelSize = 1) "DCP not support sliding window."
    pages (cdiv (min (window - 1 + c.maxNumBatchedTokens) c.maxModelLen : Nat) s.blockSize + 1)
  | .mamba _ _ _ _ _ numSpeculativeBlocks =>
    match c.mambaCacheMode with
    | .all => pages (cdiv c.maxModelLen s.blockSize)
    | .align => pages (2 + numSpeculativeBlocks)
    | .none => pages (1 + numSpeculativeBlocks)
  | .crossAttention _ => pages (cdiv c.maxNumEncoderInputTokens s.blockSize)

/-- `replace(spec, block_size=block_size)`. -/
def copyWithNewBlockSize (s : KVCacheSpec) (blockSize : Nat) : Py KVCacheSpec :=
  if h : 0 < blockSize then .ok { s with blockSize := blockSize, blockSize_pos := h }
  else .error (.valueError "block_size must be positive")

/-! ## Merging -/

/-- `merge_window_sizes`, of the sizes that are there. -/
def mergeWindowSizes (windowSizes : List (Option Nat)) : Py (Option Nat) :=
  match (windowSizes.filterMap id).dedup with
  | [] => .ok none
  | [size] => .ok (some size)
  | _ => .error (.valueError
      "All attention layers in the same KV cache group must have the same window size.")

def windowSizes (s : KVCacheSpec) : Option Nat × Option Nat :=
  match s.kind with
  | .fullAttention _ _ window chunk | .mlaAttention _ _ window chunk _
  | .sinkFullAttention _ _ window chunk _ => (window, chunk)
  | _ => (none, none)

/-- `isinstance(spec, MLAAttentionSpec)`. -/
def isMLAAttention (s : KVCacheSpec) : Bool :=
  match s.kind with
  | .mlaAttention .. => true
  | _ => false

/-- The fields of `AttentionSpec`. -/
def attentionFields (s : KVCacheSpec) : Nat × Option AttentionShape :=
  (s.blockSize, match s.kind with
    | .fullAttention shape _ _ _ | .mlaAttention shape _ _ _ _ | .sinkFullAttention shape _ _ _ _
    | .slidingWindow shape _ _ | .chunkedLocalAttention shape _ _ | .crossAttention shape =>
      some shape
    | .mamba .. => none)

/-- `merge` of `FullAttentionSpec` and of `SinkFullAttentionSpec`, which make a specification
of their own class with the fields of the first one. -/
def mergeFullAttention (first : KVCacheSpec) (make : Option Nat → Option Nat → SpecKind)
    (specs : List KVCacheSpec) : Py KVCacheSpec := do
  pyAssert (specs.all isFullAttention)
    "All attention layers in the same KV cache group must be FullAttentionSpec."
  pyAssert (¬specs.any isMLAAttention) "MLAAttentionSpec should be merged in MLAAttentionSpec.merge"
  let window ← mergeWindowSizes (specs.map fun s => s.windowSizes.1)
  let chunk ← mergeWindowSizes (specs.map fun s => s.windowSizes.2)
  let merged := { first with kind := make window chunk }
  pyAssert (∀ s ∈ specs, s.attentionFields = merged.attentionFields)
    "All attention layers in the same KV cache group must have the same attention spec."
  pyAssert (window = none ∨ chunk = none)
    "Model with both sliding window layers and chunked local attention layers is not supported."
  return merged

/-- `MLAAttentionSpec.merge`. -/
def mergeMLAAttention (first : KVCacheSpec) (shape : AttentionShape) (specs : List KVCacheSpec) :
    Py KVCacheSpec := do
  pyAssert (specs.all isMLAAttention)
    "All attention layers in the same KV cache group must be MLAAttentionSpec."
  let cacheDtypeStrs : List (Option String) := specs.map fun s =>
    match s.kind with
    | .mlaAttention _ _ _ _ cacheDtypeStr => cacheDtypeStr
    | _ => none
  match cacheDtypeStrs.dedup with
  | [cacheDtypeStr] =>
    return { first with kind := .mlaAttention shape shape.headSize none none cacheDtypeStr }
  | _ => throw (.assertionError
      "All attention layers in the same KV cache group must use the same quantization method.")

/-- `specs[0].merge(specs)`. -/
def merge (specs : List KVCacheSpec) : Py KVCacheSpec :=
  match specs with
  | [] => .error (.indexError "list index out of range")
  | first :: _ =>
    match first.kind with
    | .fullAttention shape headSizeV _ _ =>
      mergeFullAttention first (fun window chunk => .fullAttention shape headSizeV window chunk)
        specs
    | .sinkFullAttention shape headSizeV _ _ sinkLen =>
      mergeFullAttention first
        (fun window chunk => .sinkFullAttention shape headSizeV window chunk sinkLen) specs
    | .mlaAttention shape _ _ _ _ => mergeMLAAttention first shape specs
    | _ => do
      pyAssert (∀ s ∈ specs, s = first)
        "All layers in the same KV cache group must be the same."
      return first

/-- The test of `is_uniform_type` on one specification, against the first one. -/
def sameType (first s : KVCacheSpec) : Bool :=
  match first.kind, s.kind with
  | .slidingWindow _ window _, .slidingWindow _ window' _ => window' = window
  | .chunkedLocalAttention _ chunk _, .chunkedLocalAttention _ chunk' _ => chunk' = chunk
  | .mamba _ _ _ _ _ blocks, .mamba _ _ _ _ _ blocks' => blocks' = blocks
  | .crossAttention _, .crossAttention _ => true
  | _, _ => first.isFullAttention && s.isFullAttention

end VllmCore.KVCacheSpec

namespace VllmCore.KVCacheUtils

open Support

/-! ## Groups and tensors -/

variable {N : Type} [DecidableEq N]

/-- The specification of a group: of one layer, or of layers of one type that may differ in
their hidden size (`UniformTypeKVCacheSpecs`). -/
inductive GroupSpec (N : Type)
  | single (spec : KVCacheSpec)
  | uniformType (blockSize : Nat) (kvCacheSpecs : Dict N KVCacheSpec)

structure KVCacheTensor (N : Type) where
  size : Int
  sharedBy : List N
  deriving DecidableEq

structure KVCacheGroupSpec (N : Type) where
  layerNames : List N
  kvCacheSpec : GroupSpec N

structure KVCacheConfig (N : Type) where
  numBlocks : Int
  kvCacheTensors : List (KVCacheTensor N)
  kvCacheGroups : List (KVCacheGroupSpec N)

def sumPy {α : Type} (f : α → Py Int) (xs : List α) : Py Int := do
  let ys ← xs.mapM f
  return ys.sum

/-- `max` of a list. -/
def maxPy (xs : List Int) : Py Int :=
  match xs with
  | [] => .error (.valueError "max() arg is an empty sequence")
  | x :: xs => .ok (xs.foldl max x)

/-- `min` of a list. -/
def minPy (xs : List Int) : Py Int :=
  match xs with
  | [] => .error (.valueError "min() arg is an empty sequence")
  | x :: xs => .ok (xs.foldl min x)

namespace GroupSpec

def blockSize : GroupSpec N → Nat
  | .single spec => spec.blockSize
  | .uniformType blockSize _ => blockSize

def pageSizeBytes : GroupSpec N → Py Nat
  | .single spec => spec.pageSizeBytes
  | .uniformType _ specs => do
    let sizes ← specs.values.mapM KVCacheSpec.pageSizeBytes
    return sizes.sum

def maxMemoryUsageBytes (c : VllmConfig) : GroupSpec N → Py Int
  | .single spec => spec.maxMemoryUsageBytes c
  | .uniformType blockSize specs => do
    let pages ← specs.values.mapM fun spec => do
      cdivPy (← spec.maxMemoryUsageBytes c) (← spec.pageSizeBytes)
    let maxNumPages ← maxPy pages
    let pageSize ← (uniformType blockSize specs).pageSizeBytes
    return maxNumPages * pageSize

end GroupSpec

def isUniformType (kvCacheSpecs : Dict N KVCacheSpec) : Py Bool :=
  match kvCacheSpecs.values with
  | [] => .error (.runtimeError "StopIteration")
  | first :: rest =>
    .ok (rest.all (fun s => s.blockSize = first.blockSize) &&
      (first :: rest).all first.sameType)

end VllmCore.KVCacheUtils
