import VllmCore.Request
import VllmCore.Support.Dict
import VllmCore.Worker.BlockTable
import Mathlib.Data.List.Sort
/-!
# The persistent batch of the model runner

The batch keeps the state of the scheduled requests in parallel columns: lists,
preallocated arrays indexed by the row of the request, and dictionaries indexed by
row or by request id.  Removing a request leaves a hole; adding a request fills the
lowest hole, and `condense` moves the last rows into the holes that remain.
-/

namespace VllmCore.Worker

open Function Support

inductive SamplingType
  | greedy
  | random
  | randomSeed
  deriving DecidableEq, Repr

structure SamplingParams where
  samplingType : SamplingType := .greedy
  temperature : ℚ := 1
  topP : ℚ := 1
  topK : Int := 0
  frequencyPenalty : ℚ := 0
  presencePenalty : ℚ := 0
  repetitionPenalty : ℚ := 1
  logprobs : Option Int := none
  allowedTokenIds : List Nat := []
  badWordsTokenIds : List (List Token) := []
  minP : ℚ := 0
  thinkingTokenBudget : Option Int := none
  deriving DecidableEq

structure PoolingParams where
  requiresTokenIds : Bool := false
  deriving DecidableEq

/-- `CachedRequestState`.  The prompt length is computed when the state is built and
whenever the prompt is replaced.  Generators and pooling states are objects that the
batch only stores. -/
structure CachedRequestState where
  reqId : ReqId
  promptTokenIds : Option (List Token)
  promptEmbeds : Option (List Nat) := none
  samplingParams : Option SamplingParams := none
  poolingParams : Option PoolingParams := none
  poolingStates : Option Nat := none
  generator : Option Nat := none
  blockIds : List (List Nat)
  numComputedTokens : Int
  outputTokenIds : List Token := []
  loraRequest : Option LoRARequest := none
  prevNumDraftLen : Nat := 0
  numPromptTokens : Nat
  promptLength :
    Request.lengthFromPromptTokenIdsOrEmbeds promptTokenIds promptEmbeds = .ok numPromptTokens

def CachedRequestState.numTokens (r : CachedRequestState) : Nat :=
  r.numPromptTokens + r.outputTokenIds.length

inductive MoveDirectionality
  | unidirectional
  | swap
  deriving DecidableEq, Repr

/-- `AddedRequest`.  The output list is the one of the request `reqId`: it grows in place, and
`outputTokIds` is what it holds when the request is added. -/
structure AddedRequest where
  index : Nat
  params : SamplingParams
  promptTokIds : Option (List Token)
  outputTokIds : List Token
  reqId : ReqId
  deriving DecidableEq

/-- The record of a request that was added. -/
def CachedRequestState.toAddedRequest (r : CachedRequestState) (index : Nat)
    (params : SamplingParams) : AddedRequest where
  index := index
  params := params
  promptTokIds := r.promptTokenIds
  outputTokIds := r.outputTokenIds
  reqId := r.reqId

structure BatchUpdate where
  batchSize : Nat
  removed : List Nat
  added : List AddedRequest
  moved : List (Nat × Nat × MoveDirectionality)
  deriving DecidableEq

structure BatchUpdateBuilder where
  removedList : List Nat := []
  isRemovedSorted : Bool := false
  added : List AddedRequest := []
  moved : List (Nat × Nat × MoveDirectionality) := []
  batchChanged : Bool := false
  deriving DecidableEq

namespace BatchUpdateBuilder

/-- `_ensure_removed_sorted`: descending order. -/
def ensureRemovedSorted (u : BatchUpdateBuilder) : BatchUpdateBuilder :=
  if u.isRemovedSorted then u
  else { u with removedList := u.removedList.insertionSort (· ≥ ·), isRemovedSorted := true }

def removedAppend (u : BatchUpdateBuilder) (index : Nat) : Py BatchUpdateBuilder := do
  require (u.isRemovedSorted = false)
    (.runtimeError "Cannot register new removed request after self.removed has been read.")
  return { u with removedList := u.removedList ++ [index], batchChanged := true }

/-- `peek_removed`: the lowest removed row. -/
def peekRemoved (u : BatchUpdateBuilder) : Option Nat × BatchUpdateBuilder :=
  if u.removedList = [] then (none, u)
  else (u.ensureRemovedSorted.removedList.getLast?, u.ensureRemovedSorted)

def popRemoved (u : BatchUpdateBuilder) : Option Nat × BatchUpdateBuilder :=
  if u.removedList = [] then (none, u)
  else (u.ensureRemovedSorted.removedList.getLast?,
    { u.ensureRemovedSorted with
      removedList := u.ensureRemovedSorted.removedList.dropLast })

/-- `reset`, and what it leaves of `get_and_reset`: whether the batch changed. -/
def reset (u : BatchUpdateBuilder) : Bool × BatchUpdateBuilder := (u.batchChanged, {})

/-- `get_and_reset`: the update for the logits processors, if there is one. -/
def getAndReset (u : BatchUpdateBuilder) (batchSize : Nat) :
    Option BatchUpdate × BatchUpdateBuilder :=
  if u.removedList = [] ∧ u.moved = [] ∧ u.added = [] then (none, {})
  else
    (some
      { batchSize := batchSize
        removed := u.removedList
        added := u.added
        moved := u.moved }, {})

end BatchUpdateBuilder

/-- `InputBatch`.  `float32` is the rounding of the float arrays. -/
structure InputBatch where
  isPoolingModel : Bool := false
  maxNumReqs : Nat
  maxModelLen : Nat
  vocabSize : Nat
  float32 : ℚ → ℚ := id
  reqIds : List (Option ReqId) := []
  reqIdToIndex : Dict ReqId Nat := .empty
  tokenIdsCpu : Nat → Nat → Token := fun _ _ => 0
  isTokenIds : Nat → Nat → Bool := fun _ _ => false
  reqPromptEmbeds : Dict Nat (List Nat) := .empty
  numTokensNoSpec : Nat → Nat := fun _ => 0
  numPromptTokens : Nat → Nat := fun _ => 0
  numComputedTokensCpu : Nat → Int := fun _ => 0
  blockTable : MultiGroupBlockTable
  temperatureCpu : Nat → ℚ
  greedyReqs : Finset ReqId := ∅
  randomReqs : Finset ReqId := ∅
  topPCpu : Nat → ℚ
  topPReqs : Finset ReqId := ∅
  topKCpu : Nat → Int
  topKReqs : Finset ReqId := ∅
  frequencyPenaltiesCpu : Nat → ℚ
  frequencyPenaltiesReqs : Finset ReqId := ∅
  presencePenaltiesCpu : Nat → ℚ
  presencePenaltiesReqs : Finset ReqId := ∅
  repetitionPenaltiesCpu : Nat → ℚ
  repetitionPenaltiesReqs : Finset ReqId := ∅
  numAcceptedTokensCpu : Nat → Nat := fun _ => 1
  requestLoraMapping : Nat → Int := fun _ => 0
  loraIdToRequestIds : Dict Int (Finset ReqId) := .empty
  loraIdToLoraRequest : Dict Int LoRARequest := .empty
  generators : Dict Nat Nat := .empty
  numLogprobs : Dict ReqId Int := .empty
  batchUpdateBuilder : BatchUpdateBuilder := {}
  hasAllowedTokenIds : Finset ReqId := ∅
  allowedTokenIdsMaskCpu : Option (Nat → Nat → Bool) := none
  badWordsTokenIds : Dict Nat (List (List Token)) := .empty
  logitsProcessingNeedsTokenIds : Nat → Bool := fun _ => false
  reqOutputTokenIds : List (Option (List Token)) := []
  specTokenIds : List (List Token)
  poolingParams : Dict ReqId PoolingParams := .empty
  poolingStates : Dict ReqId Nat := .empty
  /-- The rows of `sampling_metadata.allowed_token_ids_mask`. -/
  samplingAllowedMask : Option (List (Nat → Bool)) := none

namespace InputBatch

/-- The constructor.  `uninit` and `uninitInt` are what uninitialised memory holds. -/
def create (isPoolingModel : Bool) (maxNumReqs maxModelLen vocabSize : Nat)
    (float32 : ℚ → ℚ) (blockTables : List BlockTable) (uninit : Nat → ℚ)
    (uninitInt : Nat → Int) : InputBatch where
  isPoolingModel := isPoolingModel
  maxNumReqs := maxNumReqs
  maxModelLen := maxModelLen
  vocabSize := vocabSize
  float32 := float32
  blockTable := ⟨blockTables⟩
  temperatureCpu := uninit
  topPCpu := uninit
  topKCpu := uninitInt
  frequencyPenaltiesCpu := uninit
  presencePenaltiesCpu := uninit
  repetitionPenaltiesCpu := uninit
  specTokenIds := List.replicate maxNumReqs []

def numReqs (b : InputBatch) : Nat := b.reqIdToIndex.keys.length

def getActiveTokenCount (b : InputBatch) (reqIndex : Nat) : Py Nat := do
  let spec ← pyGet b.specTokenIds reqIndex
  return b.numTokensNoSpec reqIndex + spec.length

/-! ## Adding a request -/

/-- `_register_add_request`: the row for the new request. -/
def registerAddRequest (b : InputBatch) (request : CachedRequestState) :
    Py (Nat × InputBatch) := do
  let (popped, builder) := b.batchUpdateBuilder.popRemoved
  let newReqIndex := popped.getD b.numReqs
  pyAssert (newReqIndex < b.maxNumReqs) "new_req_index < self.max_num_reqs"
  let builder := { builder with batchChanged := true }
  let builder := match request.samplingParams with
    | some params =>
      { builder with
        added := builder.added ++ [request.toAddedRequest newReqIndex params] }
    | none => builder
  return (newReqIndex, { b with batchUpdateBuilder := builder })

/-- The part of `add_request` that enters the id and the token lists. -/
def placeRequest (b : InputBatch) (request : CachedRequestState) (reqIndex : Nat) :
    Py InputBatch := do
  if reqIndex = b.reqIds.length then
    return { b with
      reqIds := b.reqIds ++ [some request.reqId]
      reqOutputTokenIds := b.reqOutputTokenIds ++ [some request.outputTokenIds]
      specTokenIds := b.specTokenIds ++ [[]]
      reqIdToIndex := b.reqIdToIndex.set request.reqId reqIndex }
  else
    let reqIds ← pySet b.reqIds reqIndex (some request.reqId)
    let outputs ← pySet b.reqOutputTokenIds reqIndex (some request.outputTokenIds)
    let specs ← pySet b.specTokenIds reqIndex []
    return { b with
      reqIds := reqIds
      reqOutputTokenIds := outputs
      specTokenIds := specs
      reqIdToIndex := b.reqIdToIndex.set request.reqId reqIndex }

/-- The part of `add_request` that copies the tokens, the counters and the block ids. -/
def copyTokens (b : InputBatch) (request : CachedRequestState) (reqIndex : Nat) :
    Py InputBatch := do
  let numPromptTokens ← Request.lengthFromPromptTokenIdsOrEmbeds request.promptTokenIds
    request.promptEmbeds
  -- numpy raises where a row is too short for the tokens
  require (numPromptTokens + request.outputTokenIds.length ≤ b.maxModelLen)
    (.valueError "could not broadcast input array")
  let promptRow := match request.promptTokenIds with
    | some ids => writeSlice (b.tokenIdsCpu reqIndex) 0 ids
    | none => b.tokenIdsCpu reqIndex
  let promptIsToken := writeSlice (b.isTokenIds reqIndex) 0
    (List.replicate numPromptTokens request.promptTokenIds.isSome)
  let blockTable ← b.blockTable.addRow request.blockIds reqIndex
  return { b with
    numPromptTokens := update b.numPromptTokens reqIndex numPromptTokens
    reqPromptEmbeds := match request.promptEmbeds with
      | some e => b.reqPromptEmbeds.set reqIndex e
      | none => b.reqPromptEmbeds
    tokenIdsCpu := update b.tokenIdsCpu reqIndex
      (writeSlice promptRow numPromptTokens request.outputTokenIds)
    isTokenIds := update b.isTokenIds reqIndex
      (writeSlice promptIsToken numPromptTokens
        (List.replicate request.outputTokenIds.length true))
    numTokensNoSpec := update b.numTokensNoSpec reqIndex request.numTokens
    numComputedTokensCpu :=
      update b.numComputedTokensCpu reqIndex request.numComputedTokens
    blockTable := blockTable }

/-- The top-k that is stored: the whole vocabulary where there is no restriction. -/
def effectiveTopK (vocabSize : Nat) (topK : Int) : Int :=
  if 0 < topK ∧ topK < vocabSize then topK else vocabSize

/-- The temperature that is stored: greedy requests have none. -/
def effectiveTemperature (p : SamplingParams) : ℚ :=
  if p.samplingType = .greedy then 0 else p.temperature

/-- The number of logprobs that is stored: `-1` asks for the whole vocabulary. -/
def effectiveLogprobs (vocabSize : Nat) (logprobs : Int) : Int :=
  if logprobs = -1 then vocabSize else logprobs

/-- Add an id to a set of requests if `c` holds. -/
def addIf (c : Prop) [Decidable c] (reqs : Finset ReqId) (reqId : ReqId) : Finset ReqId :=
  if c then insert reqId reqs else reqs

/-- The part of `add_request` that stores the temperature, top-p, top-k and the
penalties. -/
def addSamplingColumns (b : InputBatch) (p : SamplingParams) (reqId : ReqId)
    (reqIndex : Nat) : InputBatch :=
  { b with
    temperatureCpu := update b.temperatureCpu reqIndex
      (b.float32 (effectiveTemperature p))
    greedyReqs := addIf (p.samplingType = .greedy) b.greedyReqs reqId
    randomReqs := addIf (p.samplingType ≠ .greedy) b.randomReqs reqId
    topPCpu := update b.topPCpu reqIndex (b.float32 p.topP)
    topPReqs := addIf (p.topP < 1) b.topPReqs reqId
    topKCpu := update b.topKCpu reqIndex (effectiveTopK b.vocabSize p.topK)
    topKReqs := addIf (0 < p.topK ∧ p.topK < b.vocabSize) b.topKReqs reqId
    frequencyPenaltiesCpu := update b.frequencyPenaltiesCpu reqIndex
      (b.float32 p.frequencyPenalty)
    frequencyPenaltiesReqs := addIf (p.frequencyPenalty ≠ 0) b.frequencyPenaltiesReqs reqId
    presencePenaltiesCpu := update b.presencePenaltiesCpu reqIndex
      (b.float32 p.presencePenalty)
    presencePenaltiesReqs := addIf (p.presencePenalty ≠ 0) b.presencePenaltiesReqs reqId
    repetitionPenaltiesCpu := update b.repetitionPenaltiesCpu reqIndex
      (b.float32 p.repetitionPenalty)
    repetitionPenaltiesReqs :=
      addIf (p.repetitionPenalty ≠ 1) b.repetitionPenaltiesReqs reqId }

/-- The mask row of a request that may sample only `allowed`: `true` forbids. -/
def forbidAllBut (allowed : List Nat) : Nat → Bool := fun t => t ∉ allowed

/-- The part of `add_request` that fills the mask of the allowed tokens. -/
def addAllowedTokenIds (b : InputBatch) (p : SamplingParams) (reqId : ReqId)
    (reqIndex : Nat) : Py InputBatch := do
  if p.allowedTokenIds = [] then
    return b
  require (∀ t ∈ p.allowedTokenIds, t < b.vocabSize) (.indexError "index out of range")
  -- the tensor is allocated when the first request needs it
  let mask := b.allowedTokenIdsMaskCpu.getD fun _ _ => false
  return { b with
    hasAllowedTokenIds := insert reqId b.hasAllowedTokenIds
    allowedTokenIdsMaskCpu :=
      some (update mask reqIndex (forbidAllBut p.allowedTokenIds)) }

/-- The part of `add_request` for a request that samples. -/
def addSamplingParams (b : InputBatch) (request : CachedRequestState) (p : SamplingParams)
    (reqIndex : Nat) : Py InputBatch := do
  let b := b.addSamplingColumns p request.reqId reqIndex
  let b := { b with
    generators := match request.generator with
      | some g => b.generators.set reqIndex g
      | none => b.generators
    numLogprobs := match p.logprobs with
      | some n => b.numLogprobs.set request.reqId (effectiveLogprobs b.vocabSize n)
      | none => b.numLogprobs }
  let b ← b.addAllowedTokenIds p request.reqId reqIndex
  return { b with
    badWordsTokenIds :=
      if p.badWordsTokenIds = [] then b.badWordsTokenIds
      else b.badWordsTokenIds.set reqIndex p.badWordsTokenIds }

/-- The part of `add_request` for a request that pools. -/
def addPoolingParams (b : InputBatch) (request : CachedRequestState) (p : PoolingParams)
    (reqIndex : Nat) : Py InputBatch :=
  match request.poolingStates with
  | none => .error (.assertionError "pooling_states is not None")
  | some states =>
    .ok { b with
      poolingParams := b.poolingParams.set request.reqId p
      poolingStates := b.poolingStates.set request.reqId states
      logitsProcessingNeedsTokenIds :=
        update b.logitsProcessingNeedsTokenIds reqIndex p.requiresTokenIds }

/-- The part of `add_request` that enters the adapter. -/
def addLora (b : InputBatch) (request : CachedRequestState) (reqIndex : Nat) : InputBatch :=
  match request.loraRequest with
  | some lora =>
    { b with
      requestLoraMapping := update b.requestLoraMapping reqIndex lora.loraIntId
      loraIdToRequestIds := b.loraIdToRequestIds.set lora.loraIntId
        (insert request.reqId ((b.loraIdToRequestIds.get? lora.loraIntId).getD ∅))
      loraIdToLoraRequest := b.loraIdToLoraRequest.set lora.loraIntId lora }
  | none => { b with requestLoraMapping := update b.requestLoraMapping reqIndex 0 }

def addRequest (b : InputBatch) (request : CachedRequestState) : Py (Nat × InputBatch) := do
  let (reqIndex, b) ← b.registerAddRequest request
  let b ← b.placeRequest request reqIndex
  let b ← b.copyTokens request reqIndex
  let b ← (match request.samplingParams, request.poolingParams with
    | some p, _ => b.addSamplingParams request p reqIndex
    | none, some p => b.addPoolingParams request p reqIndex
    | none, none => .error (.notImplementedError "Unrecognized request type") : Py InputBatch)
  -- speculative decoding: by default one token is generated
  let b := { b with
    numAcceptedTokensCpu := update b.numAcceptedTokensCpu reqIndex 1 }
  return (reqIndex, b.addLora request reqIndex)

/-- `update_req_spec_token_ids`, for the draft tokens scheduled for the request. -/
def updateReqSpecTokenIds (b : InputBatch) (reqId : ReqId) (specTokenIds : List Token) :
    Py InputBatch := do
  let reqIndex ← b.reqIdToIndex.get reqId
  let specs ← pySet b.specTokenIds reqIndex specTokenIds
  let start := b.numTokensNoSpec reqIndex
  require (start + specTokenIds.length ≤ b.maxModelLen ∨ specTokenIds = [])
    (.valueError "could not broadcast input array")
  return { b with
    specTokenIds := specs
    tokenIdsCpu := update b.tokenIdsCpu reqIndex
      (writeSlice (b.tokenIdsCpu reqIndex) start specTokenIds) }

/-- The part of `remove_request` that gives the adapter back. -/
def removeLora (b : InputBatch) (reqId : ReqId) (reqIndex : Nat) : Py InputBatch := do
  let loraId := b.requestLoraMapping reqIndex
  if loraId = 0 then
    return b
  let reqIds ← b.loraIdToRequestIds.get loraId
  let reqIds := reqIds.erase reqId
  if reqIds = ∅ then
    let _ ← b.loraIdToLoraRequest.get loraId
    return { b with
      loraIdToRequestIds := b.loraIdToRequestIds.erase loraId
      loraIdToLoraRequest := b.loraIdToLoraRequest.erase loraId
      requestLoraMapping := update b.requestLoraMapping reqIndex 0 }
  else
    return { b with
      loraIdToRequestIds := b.loraIdToRequestIds.set loraId reqIds
      requestLoraMapping := update b.requestLoraMapping reqIndex 0 }

/-- The part of `remove_request` for requests that sample. -/
def removeSamplingParams (b : InputBatch) (reqId : ReqId) (reqIndex : Nat) : InputBatch :=
  { b with
    greedyReqs := b.greedyReqs.erase reqId
    randomReqs := b.randomReqs.erase reqId
    topPReqs := b.topPReqs.erase reqId
    topKReqs := b.topKReqs.erase reqId
    frequencyPenaltiesReqs := b.frequencyPenaltiesReqs.erase reqId
    presencePenaltiesReqs := b.presencePenaltiesReqs.erase reqId
    repetitionPenaltiesReqs := b.repetitionPenaltiesReqs.erase reqId
    generators := b.generators.erase reqIndex
    numLogprobs := b.numLogprobs.erase reqId
    hasAllowedTokenIds := b.hasAllowedTokenIds.erase reqId
    allowedTokenIdsMaskCpu :=
      b.allowedTokenIdsMaskCpu.map fun m => update m reqIndex fun _ => false
    badWordsTokenIds := b.badWordsTokenIds.erase reqIndex }

def removeRequest (b : InputBatch) (reqId : ReqId) : Py (Option Nat × InputBatch) := do
  match b.reqIdToIndex.get? reqId with
  | none => return (none, b)
  | some reqIndex =>
    let builder ← b.batchUpdateBuilder.removedAppend reqIndex
    let reqIds ← pySet b.reqIds reqIndex none
    let outputs ← pySet b.reqOutputTokenIds reqIndex none
    let specs ← pySet b.specTokenIds reqIndex []
    let b := { b with
      reqIdToIndex := b.reqIdToIndex.erase reqId
      batchUpdateBuilder := builder
      reqIds := reqIds
      reqOutputTokenIds := outputs
      specTokenIds := specs
      blockTable := b.blockTable.clearRow reqIndex }
    let b ← b.removeLora reqId reqIndex
    if b.isPoolingModel then
      return (some reqIndex, { b with
        poolingParams := b.poolingParams.erase reqId
        poolingStates := b.poolingStates.erase reqId })
    else
      return (some reqIndex, b.removeSamplingParams reqId reqIndex)

/-! ## Swapping two rows -/

def swapDictValues {V : Type} (d : Dict Nat V) (k₁ k₂ : Nat) : Dict Nat V :=
  let v₁ := d.get? k₁
  let v₂ := d.get? k₂
  let d := match v₁ with
    | some v => d.set k₂ v
    | none => d.erase k₂
  match v₂ with
  | some v => d.set k₁ v
  | none => d.erase k₁

/-- The exchange of two mask rows.  A row of a two-dimensional tensor is a view: the
first assignment overwrites row `i₁`, and the second then reads it back from there. -/
def swapMaskRows (m : Nat → Nat → Bool) (i₁ i₂ : Nat) : Nat → Nat → Bool :=
  let m := update m i₁ (m i₂)
  update m i₂ (m i₁)

/-- The columns that `swap_states` exchanges for every model. -/
def swapColumns (b : InputBatch) (i₁ i₂ maxActiveTokenCount : Nat) : InputBatch :=
  { b with
    numTokensNoSpec := swapEntries b.numTokensNoSpec i₁ i₂
    numPromptTokens := swapEntries b.numPromptTokens i₁ i₂
    numComputedTokensCpu := swapEntries b.numComputedTokensCpu i₁ i₂
    tokenIdsCpu := swapPrefixes b.tokenIdsCpu i₁ i₂ maxActiveTokenCount
    isTokenIds := swapPrefixes b.isTokenIds i₁ i₂ maxActiveTokenCount
    reqPromptEmbeds := swapDictValues b.reqPromptEmbeds i₁ i₂
    blockTable := b.blockTable.swapRow i₁ i₂
    requestLoraMapping := swapEntries b.requestLoraMapping i₁ i₂ }

/-- The columns that `swap_states` exchanges for models that sample. -/
def swapSamplingColumns (b : InputBatch) (i₁ i₂ : Nat) : InputBatch :=
  { b with
    batchUpdateBuilder :=
      { b.batchUpdateBuilder with
        moved := b.batchUpdateBuilder.moved ++ [(i₁, i₂, .swap)] }
    temperatureCpu := swapEntries b.temperatureCpu i₁ i₂
    topPCpu := swapEntries b.topPCpu i₁ i₂
    topKCpu := swapEntries b.topKCpu i₁ i₂
    frequencyPenaltiesCpu := swapEntries b.frequencyPenaltiesCpu i₁ i₂
    presencePenaltiesCpu := swapEntries b.presencePenaltiesCpu i₁ i₂
    repetitionPenaltiesCpu := swapEntries b.repetitionPenaltiesCpu i₁ i₂
    numAcceptedTokensCpu := swapEntries b.numAcceptedTokensCpu i₁ i₂
    generators := swapDictValues b.generators i₁ i₂
    badWordsTokenIds := swapDictValues b.badWordsTokenIds i₁ i₂
    allowedTokenIdsMaskCpu := b.allowedTokenIdsMaskCpu.map fun m => swapMaskRows m i₁ i₂ }

/-- `xs[i], xs[j] = xs[j], xs[i]`, for a list. -/
def pySwap {α : Type} (xs : List α) (i j : Nat) : Py (List α) := do
  let x ← pyGet xs i
  let y ← pyGet xs j
  let xs ← pySet xs i y
  pySet xs j x

def swapStates (b : InputBatch) (i₁ i₂ : Nat) : Py InputBatch := do
  let oldId₁ ← pyGet b.reqIds i₁
  let oldId₂ ← pyGet b.reqIds i₂
  let active₁ ← b.getActiveTokenCount i₁
  let active₂ ← b.getActiveTokenCount i₂
  let reqIds ← pySwap b.reqIds i₁ i₂
  let outputs ← pySwap b.reqOutputTokenIds i₁ i₂
  let specs ← pySwap b.specTokenIds i₁ i₂
  match oldId₁, oldId₂ with
  | some id₁, some id₂ =>
    let index₁ ← b.reqIdToIndex.get id₁
    let index₂ ← b.reqIdToIndex.get id₂
    let b := { b.swapColumns i₁ i₂ (max active₁ active₂) with
      reqIds := reqIds
      reqOutputTokenIds := outputs
      specTokenIds := specs
      reqIdToIndex := (b.reqIdToIndex.set id₁ index₂).set id₂ index₁ }
    if b.isPoolingModel then return b
    else return b.swapSamplingColumns i₁ i₂
  | _, _ => throw (.assertionError "old_id_i1 is not None and old_id_i2 is not None")

/-! ## Condensing -/

/-- The largest row, from `lastReqIndex` on down, that is not removed. -/
def skipRemoved (removed : List Nat) : Nat → Nat
  | 0 => 0
  | last + 1 => if last + 1 ∈ removed then skipRemoved removed last else last + 1

/-- `d[tgt] = d.pop(src)`, where there is a value. -/
def moveDictValue {V : Type} (d : Dict Nat V) (src tgt : Nat) : Dict Nat V :=
  match d.get? src with
  | some v => (d.erase src).set tgt v
  | none => d

/-- The columns that `condense` moves for every model. -/
def moveColumns (b : InputBatch) (src tgt numTokens : Nat) : InputBatch :=
  { b with
    tokenIdsCpu := update b.tokenIdsCpu tgt
      (copyPrefix (b.tokenIdsCpu tgt) (b.tokenIdsCpu src) numTokens)
    isTokenIds := update b.isTokenIds tgt
      (copyPrefix (b.isTokenIds tgt) (b.isTokenIds src) numTokens)
    reqPromptEmbeds := moveDictValue b.reqPromptEmbeds src tgt
    numTokensNoSpec := update b.numTokensNoSpec tgt (b.numTokensNoSpec src)
    numPromptTokens := update b.numPromptTokens tgt (b.numPromptTokens src)
    numComputedTokensCpu :=
      update b.numComputedTokensCpu tgt (b.numComputedTokensCpu src)
    blockTable := b.blockTable.moveRow src tgt
    requestLoraMapping :=
      update b.requestLoraMapping tgt (b.requestLoraMapping src) }

/-- The columns that `condense` moves for models that sample. -/
def moveSamplingColumns (b : InputBatch) (src tgt : Nat) : InputBatch :=
  { b with
    batchUpdateBuilder :=
      { b.batchUpdateBuilder with
        moved := b.batchUpdateBuilder.moved ++ [(src, tgt, .unidirectional)] }
    temperatureCpu := update b.temperatureCpu tgt (b.temperatureCpu src)
    topPCpu := update b.topPCpu tgt (b.topPCpu src)
    topKCpu := update b.topKCpu tgt (b.topKCpu src)
    frequencyPenaltiesCpu :=
      update b.frequencyPenaltiesCpu tgt (b.frequencyPenaltiesCpu src)
    presencePenaltiesCpu :=
      update b.presencePenaltiesCpu tgt (b.presencePenaltiesCpu src)
    repetitionPenaltiesCpu :=
      update b.repetitionPenaltiesCpu tgt (b.repetitionPenaltiesCpu src)
    numAcceptedTokensCpu :=
      update b.numAcceptedTokensCpu tgt (b.numAcceptedTokensCpu src)
    generators := moveDictValue b.generators src tgt
    allowedTokenIdsMaskCpu :=
      b.allowedTokenIdsMaskCpu.map fun m => update m tgt (m src)
    badWordsTokenIds := moveDictValue b.badWordsTokenIds src tgt }

/-- Move the request in row `src` into the empty row `tgt`. -/
def moveRequest (b : InputBatch) (src tgt : Nat) : Py InputBatch := do
  let reqId ← pyGet b.reqIds src
  let outputTokenIds ← pyGet b.reqOutputTokenIds src
  match reqId with
  | none => throw (.assertionError "req_id is not None")
  | some id =>
    let reqIds ← pySet b.reqIds tgt (some id)
    let reqIds ← pySet reqIds src none
    let outputs ← pySet b.reqOutputTokenIds tgt outputTokenIds
    let outputs ← pySet outputs src none
    let numTokens ← b.getActiveTokenCount src
    let specs ← pySwap b.specTokenIds src tgt
    let specs ← pySet specs src []
    let b := { b.moveColumns src tgt numTokens with
      reqIds := reqIds
      reqOutputTokenIds := outputs
      reqIdToIndex := b.reqIdToIndex.set id tgt
      specTokenIds := specs }
    if b.isPoolingModel then return b
    else return b.moveSamplingColumns src tgt

/-- The loop of `condense`.  Each round takes one hole off the list of the removed rows,
so `fuel` counts the holes. -/
def condenseLoop : Nat → InputBatch → Nat → Py InputBatch
  | 0, b, _ => .ok b
  | fuel + 1, b, lastReqIndex =>
    if b.batchUpdateBuilder.removedList = [] then .ok b
    else do
      let lastReqIndex := skipRemoved b.batchUpdateBuilder.removedList lastReqIndex
      let (peeked, builder) := b.batchUpdateBuilder.peekRemoved
      match peeked with
      | none => throw (.assertionError "empty_index is not None")
      | some emptyIndex =>
        if emptyIndex ≥ lastReqIndex then
          return { b with batchUpdateBuilder := builder }
        else do
          let b := { b with batchUpdateBuilder := builder.popRemoved.2 }
          let b ← b.moveRequest lastReqIndex emptyIndex
          condenseLoop fuel b (lastReqIndex - 1)

def condense (b : InputBatch) : Py InputBatch := do
  let numReqs := b.numReqs
  let builder := b.batchUpdateBuilder.ensureRemovedSorted
  let b := { b with batchUpdateBuilder := builder }
  if builder.removedList = [] then
    return b
  if numReqs = 0 then
    return { b with reqIds := [], reqOutputTokenIds := [], specTokenIds := [] }
  let lastReqIndex := numReqs + builder.removedList.length - 1
  let b ← condenseLoop builder.removedList.length b lastReqIndex
  return { b with
    reqIds := b.reqIds.take numReqs
    reqOutputTokenIds := b.reqOutputTokenIds.take numReqs
    specTokenIds := b.specTokenIds.take numReqs }

/-- The mask of `_make_sampling_metadata`: the rows of the batch, when some request
restricts its tokens. -/
def makeSamplingAllowedMask (b : InputBatch) : Py (Option (List (Nat → Bool))) :=
  if b.hasAllowedTokenIds = ∅ then .ok none
  else
    match b.allowedTokenIdsMaskCpu with
    | none => .error (.assertionError "self.allowed_token_ids_mask is not None")
    | some m => .ok (some (rowPrefix m b.numReqs))

/-- `refresh_metadata`, besides the calls of the logits processors. -/
def refreshMetadata (b : InputBatch) : Py InputBatch := do
  let (changed, builder) :=
    if b.isPoolingModel then b.batchUpdateBuilder.reset
    else
      let (batchUpdate, builder) := b.batchUpdateBuilder.getAndReset b.numReqs
      (batchUpdate.isSome, builder)
  let b := { b with batchUpdateBuilder := builder }
  if changed then
    let mask ← b.makeSamplingAllowedMask
    return { b with samplingAllowedMask := mask }
  else return b

end InputBatch

end VllmCore.Worker
