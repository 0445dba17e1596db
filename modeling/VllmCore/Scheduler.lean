import VllmCore.EncoderCacheManager
import VllmCore.KVCacheManager
import VllmCore.Scheduler.RequestQueue
import VllmCore.StreamingSession
/-!
# The scheduler

The state of the scheduler and the operations its calls are made of.  Requests are
objects: `objs` holds them by reference, and the running list and the queues hold
references.  A request that was finished and deleted from `requests` may still be
referred to.

A KV connector is a parameter: a state with the methods that the scheduler calls.
The connector may hold references to blocks of the pool; it says which blocks a call
touches and frees.  Sets are lists without repetition, in the order in which the
source iterates over them.

`cacheBlocksCalls` records the calls of `cache_blocks` with the request object and the
number of tokens; nothing reads it.
-/

namespace VllmCore

open Support

variable {D : Type}

/-! ## What is sent to the workers -/

structure NewRequestData where
  reqId : ReqId
  promptTokenIds : Option (List Token)
  mmFeatures : List MultiModalFeatureSpec
  samplingParams : Option SamplingParams
  poolingParams : Option PoolingParams
  blockIds : KVCacheBlocks
  numComputedTokens : Int
  loraRequest : Option LoRARequest
  promptEmbeds : Option (List Nat)
  prefillTokenIds : Option (List Token) := none

def NewRequestData.fromRequest (r : Request D) (blockIds : KVCacheBlocks)
    (prefillTokenIds : Option (List Token) := none) : NewRequestData where
  reqId := r.requestId
  promptTokenIds := r.promptTokenIds
  mmFeatures := r.mmFeatures
  samplingParams := r.samplingParams
  poolingParams := r.poolingParams
  blockIds := blockIds
  numComputedTokens := r.numComputedTokens
  loraRequest := r.loraRequest
  promptEmbeds := r.promptEmbeds
  prefillTokenIds := prefillTokenIds

structure CachedRequestData where
  reqIds : List ReqId := []
  resumedReqIds : List ReqId := []
  newTokenIds : List (List Token) := []
  allTokenIds : Dict ReqId (List Token) := .empty
  newBlockIds : List (Option KVCacheBlocks) := []
  numComputedTokens : List Int := []
  numOutputTokens : List Int := []

/-- `SchedulerOutput`; `M` is the type of the connector's metadata. -/
structure SchedulerOutput (M : Type) where
  scheduledNewReqs : List NewRequestData
  scheduledCachedReqs : CachedRequestData
  numScheduledTokens : Dict ReqId Int
  totalNumScheduledTokens : Int
  scheduledSpecDecodeTokens : Dict ReqId (List Token)
  scheduledEncoderInputs : Dict ReqId (List Nat)
  numCommonPrefixBlocks : List Nat
  finishedReqIds : List ReqId
  freeEncoderMmHashes : List MmHash
  preemptedReqIds : List ReqId
  hasStructuredOutputRequests : Bool := false
  pendingStructuredOutputTokens : Bool := false
  kvConnectorMetadata : Option M := none
  newBlockIdsToZero : Option (List BlockId) := none

/-- `KVConnectorOutput`, without statistics. -/
structure KVConnectorOutput (W : Type) where
  finishedSending : List ReqId := []
  finishedRecving : List ReqId := []
  invalidBlockIds : List BlockId := []
  kvConnectorWorkerMeta : Option W := none

structure PoolRefs where
  touched : List BlockId := []
  freed : List BlockId := []

structure KVConnector (D : Type) where
  State : Type
  Metadata : Type
  WorkerMeta : Type
  getNumNewMatchedTokens :
    State → BlockPool D → Request D → Nat → Py ((Option Nat × Bool) × State)
  updateStateAfterAlloc :
    State → BlockPool D → Request D → KVCacheBlocks → Nat → Py (PoolRefs × State)
  buildConnectorMeta :
    State → BlockPool D → (ReqId → Option (Request D)) → SchedulerOutput Metadata →
      Py (Metadata × PoolRefs × State)
  requestFinished :
    State → BlockPool D → Request D → KVCacheBlocks → Py (Bool × PoolRefs × State)
  updateConnectorOutput :
    State → BlockPool D → KVConnectorOutput WorkerMeta → Py (PoolRefs × State)
  takeEvents : State → List (KVCacheEvent D) × State
  resetCache : State → Py (Option Bool × State)

/-! ## The state -/

inductive PauseState
  | unpaused
  | pausedNew
  | pausedAll
  deriving DecidableEq, Repr

/-- What the scheduler reads from the configuration.  `blockHasher` is the hasher that
requests are built with. -/
structure SchedulerConfig (D : Type) where
  policy : SchedulingPolicy := .fcfs
  maxNumRunningReqs : Nat
  maxNumScheduledTokens : Nat
  maxModelLen : Nat
  longPrefillTokenThreshold : Nat := 0
  enableChunkedPrefill : Bool := true
  disableChunkedMmInput : Bool := false
  schedulerReserveFullIsl : Bool := false
  asyncScheduling : Bool := false
  maxLoras : Option Nat := none
  isEncoderDecoder : Bool := false
  maxNumEncoderInputTokens : Nat := 0
  encoderCacheSize : Nat := 0
  useEagle : Bool := false
  numSpecTokens : Nat := 0
  numLookaheadTokens : Nat := 0
  needMambaBlockAlignedSplit : Bool := false
  cacheBlockSize : Nat
  cacheBlockSize_pos : 0 < cacheBlockSize
  blockSize : Nat
  usePp : Bool := false
  useV2ModelRunner : Bool := false
  needsKvCacheZeroing : Bool := false
  recomputeKvLoadFailures : Bool := true
  hashFns : HashFns D
  blockHasher : Option (Request D → List D)

/-- `Scheduler`, with the connector `C`. -/
structure Scheduler (D : Type) (C : KVConnector D) where
  config : SchedulerConfig D
  objs : Ref → Request D
  numObjs : Nat
  requests : Dict ReqId Ref
  waiting : RequestQueue
  skippedWaiting : RequestQueue
  running : List Ref
  prevStepScheduledReqIds : List ReqId
  finishedReqIds : List ReqId
  numWaitingForStreamingInput : Int
  finishedRecvingKvReqIds : List ReqId
  failedRecvingKvReqIds : List ReqId
  encoderCacheManager : EncoderCache
  kvCacheManager : KVCacheManager D
  connector : Option C.State
  pauseState : PauseState
  cacheBlocksCalls : List (Request D × Int) := []

namespace Scheduler

variable [DecidableEq D] {C : KVConnector D}

/-- `Scheduler.__init__`, with the KV cache manager it builds. -/
def create (config : SchedulerConfig D) (kvCacheManager : KVCacheManager D)
    (connector : Option C.State) : Scheduler D C where
  config := config
  objs := fun _ => { requestId := 0 }
  numObjs := 0
  requests := .empty
  waiting := []
  skippedWaiting := []
  running := []
  prevStepScheduledReqIds := []
  finishedReqIds := []
  numWaitingForStreamingInput := 0
  finishedRecvingKvReqIds := []
  failedRecvingKvReqIds := []
  encoderCacheManager := .create config.isEncoderDecoder config.encoderCacheSize
  kvCacheManager := kvCacheManager
  connector := connector
  pauseState := .unpaused

def modify (s : Scheduler D C) (ref : Ref) (f : Request D → Request D) : Scheduler D C :=
  { s with objs := Function.update s.objs ref (f (s.objs ref)) }

theorem modify_objs (s : Scheduler D C) (ref : Ref) (f : Request D → Request D) (x : Ref) :
    (s.modify ref f).objs x = if x = ref then f (s.objs ref) else s.objs x := by
  simp only [modify, Function.update_apply]

@[simp] theorem modify_modify (s : Scheduler D C) (ref : Ref) (f g : Request D → Request D) :
    (s.modify ref f).modify ref g = s.modify ref fun r => g (f r) := by
  simp [modify]

def lt (s : Scheduler D C) (a b : Ref) : Bool := (s.objs a).lt (s.objs b)

/-- The request objects by id, as `requests` has them. -/
def lookup (s : Scheduler D C) (requestId : ReqId) : Option (Request D) :=
  (s.requests.get? requestId).map s.objs

/-- Let the connector take and give back references to blocks. -/
def applyPoolRefs (s : Scheduler D C) (refs : PoolRefs) : Py (Scheduler D C) := do
  let pool ← s.kvCacheManager.blockPool.touch refs.touched
  pure { s with kvCacheManager := s.kvCacheManager.withPool (pool.freeBlocks refs.freed) }

def cacheBlocks (s : Scheduler D C) (r : Request D) (numComputedTokens : Int) :
    Py (Scheduler D C) := do
  let kv ← s.kvCacheManager.cacheBlocks s.config.hashFns r numComputedTokens
  pure { s with
    kvCacheManager := kv
    cacheBlocksCalls := s.cacheBlocksCalls ++ [(r, numComputedTokens)] }

/-! ## Queues -/

/-- `self.waiting.prepend_request`. -/
def prependWaiting (s : Scheduler D C) (ref : Ref) : Scheduler D C :=
  { s with waiting := RequestQueue.prependRequest s.config.policy s.lt s.waiting ref }

def enqueueWaitingRequest (s : Scheduler D C) (ref : Ref) : Scheduler D C :=
  if (s.objs ref).status.isBlockedWaiting then
    { s with
      skippedWaiting := RequestQueue.addRequest s.config.policy s.lt s.skippedWaiting ref }
  else { s with waiting := RequestQueue.addRequest s.config.policy s.lt s.waiting ref }

inductive QueueName
  | waiting
  | skippedWaiting
  deriving DecidableEq, Repr

def queue (s : Scheduler D C) : QueueName → RequestQueue
  | .waiting => s.waiting
  | .skippedWaiting => s.skippedWaiting

def setQueue (s : Scheduler D C) (q : QueueName) (xs : RequestQueue) : Scheduler D C :=
  match q with
  | .waiting => { s with waiting := xs }
  | .skippedWaiting => { s with skippedWaiting := xs }

def selectWaitingQueueForScheduling (s : Scheduler D C) : Option QueueName :=
  match s.config.policy, s.waiting, s.skippedWaiting with
  | _, [], [] => none
  | _, [], _ :: _ => some .skippedWaiting
  | _, _ :: _, [] => some .waiting
  | .fcfs, _ :: _, _ :: _ => some .skippedWaiting
  | .priority, w :: _, k :: _ => some (if s.lt w k then .waiting else .skippedWaiting)

/-- `remove_all`: of a single item only the first occurrence is removed. -/
def removeAll (xs items : List Ref) : List Ref :=
  match items.dedup with
  | [item] => xs.erase item
  | items => xs.filter fun x => decide (x ∉ items)

/-! ## Preemption and the end of a request -/

/-- What preemption does to the request object. -/
def preempted (r : Request D) : Request D :=
  { r with
    status := .preempted
    numComputedTokens := 0
    specTokenIds := []
    numPreemptions := r.numPreemptions + 1 }

def preemptRequest (s : Scheduler D C) (ref : Ref) : Py (Scheduler D C) := do
  pyAssert ((s.objs ref).status = .running) "Only running requests can be preempted"
  let kv ← s.kvCacheManager.free (s.objs ref).requestId
  let encoder ← s.encoderCacheManager.free (s.objs ref)
  let s := { s with kvCacheManager := kv, encoderCacheManager := encoder }
  pure ((s.modify ref preempted).prependWaiting ref)

/-- `_connector_finished`: whether the connector wants the blocks to be kept. -/
def connectorFinished (s : Scheduler D C) (ref : Ref) : Py (Bool × Scheduler D C) :=
  match s.connector with
  | none => pure (false, s)
  | some state => do
    let r := s.objs ref
    let kv ← s.kvCacheManager.removeSkippedBlocks r.requestId r.numTokens
    let s := { s with kvCacheManager := kv }
    let (delay, refs, state) ←
      C.requestFinished state kv.blockPool r (kv.getBlocks r.requestId)
    let s ← s.applyPoolRefs refs
    pure (delay, { s with connector := some state })

def freeBlocks (s : Scheduler D C) (ref : Ref) : Py (Scheduler D C) := do
  pyAssert ((s.objs ref).isFinished) "request.is_finished()"
  let rid := (s.objs ref).requestId
  let kv ← s.kvCacheManager.free rid
  require (s.requests.contains rid) (.keyError "del self.requests[request.request_id]")
  pure { s with kvCacheManager := kv, requests := s.requests.erase rid }

def freeRequest (s : Scheduler D C) (ref : Ref) (delayFreeBlocks : Bool := false) :
    Py (Scheduler D C) := do
  pyAssert ((s.objs ref).isFinished) "request.is_finished()"
  let (connectorDelayFreeBlocks, s) ← s.connectorFinished ref
  let encoder ← s.encoderCacheManager.free (s.objs ref)
  let s := { s with
    encoderCacheManager := encoder
    finishedReqIds := s.finishedReqIds.insert (s.objs ref).requestId }
  if delayFreeBlocks || connectorDelayFreeBlocks then pure s else s.freeBlocks ref

/-- The second pass of `finish_requests` for one request. -/
def finishOne (finishedStatus : RequestStatus) (s : Scheduler D C) (ref : Ref) :
    Py (Scheduler D C) := do
  let r := s.objs ref
  let waitsForKvs := r.status = .waitingForRemoteKvs
  let delayFreeBlocks := waitsForKvs ∧ r.requestId ∉ s.finishedRecvingKvReqIds
  let s := if waitsForKvs then
      { s with
        finishedRecvingKvReqIds := s.finishedRecvingKvReqIds.erase r.requestId
        failedRecvingKvReqIds := s.failedRecvingKvReqIds.erase r.requestId }
    else s
  (s.modify ref fun r => { r with status := finishedStatus }).freeRequest ref delayFreeBlocks

/-- The first pass of `finish_requests`: the objects that are not finished yet. -/
def validRequests (s : Scheduler D C) (requestIds : List ReqId) : List Ref :=
  (requestIds.filterMap s.requests.get?).filter fun ref => !(s.objs ref).isFinished

/-- `finish_requests`.  The ids, none for all requests, come in the order in which the
source iterates over the set. -/
def finishRequests (s : Scheduler D C) (requestIds : Option (List ReqId))
    (finishedStatus : RequestStatus) : Py (Scheduler D C) := do
  pyAssert finishedStatus.isFinished "RequestStatus.is_finished(finished_status)"
  let refs := s.validRequests (requestIds.elim s.requests.keys List.dedup)
  let running := refs.filter fun ref => (s.objs ref).status = .running
  let waiting := refs.filter fun ref => (s.objs ref).status ≠ .running
  let streaming := refs.filter fun ref => (s.objs ref).status = .waitingForStreamingReq
  let policy := s.config.policy
  let s := { s with
    numWaitingForStreamingInput := s.numWaitingForStreamingInput - streaming.length
    running := removeAll s.running running
    waiting := if waiting.isEmpty then s.waiting
      else RequestQueue.removeRequests policy s.lt s.waiting waiting
    skippedWaiting := if waiting.isEmpty then s.skippedWaiting
      else RequestQueue.removeRequests policy s.lt s.skippedWaiting waiting }
  refs.foldlM (finishOne finishedStatus) s

def updateRequestAsSession (s : Scheduler D C) (ref : Ref) (update : StreamingUpdate) :
    Py (Scheduler D C) := do
  let session ← (s.objs ref).updateAsSession s.config.blockHasher update
  let s := if (s.objs ref).status = .waitingForStreamingReq then
      { s with numWaitingForStreamingInput := s.numWaitingForStreamingInput - 1 }
    else s
  pure (s.modify ref fun _ => session)

def allocObject (s : Scheduler D C) (r : Request D) : Ref × Scheduler D C :=
  (s.numObjs,
    { s with objs := Function.update s.objs s.numObjs r, numObjs := s.numObjs + 1 })

def addRequest (s : Scheduler D C) (r : Request D) : Py (Scheduler D C) :=
  match s.requests.get? r.requestId with
  | some existing =>
    let update := r.toStreamingUpdate
    if (s.objs existing).status ≠ .waitingForStreamingReq then
      match (s.objs existing).streamingQueue with
      | none => throw (.assertionError "duplicate request id")
      | some queue =>
        pure (s.modify existing fun e => { e with streamingQueue := some (queue ++ [update]) })
    else
      match update with
      | some update => s.updateRequestAsSession existing update
      | none => s.finishRequests (some [r.requestId]) .finishedAborted
  | none =>
    let r := if r.resumable then { r with streamingQueue := some [] } else r
    let (ref, s) := s.allocObject r
    let s := s.enqueueWaitingRequest ref
    pure { s with requests := s.requests.set r.requestId ref }

/-! ## Other calls -/

/-- The loop of `reset_prefix_cache` over the running requests, the last one first. -/
def resetRunning : Nat → Scheduler D C → Py (Scheduler D C)
  | 0, s => pure s
  | fuel + 1, s =>
    match s.running.getLast? with
    | none => pure s
    | some ref => do
      let s ← { s with running := s.running.dropLast }.preemptRequest ref
      resetRunning fuel (s.modify ref fun r =>
        { r with numOutputPlaceholders := 0, discardLatestAsyncTokens := true })

def resetConnectorCache (s : Scheduler D C) : Py (Bool × Scheduler D C) :=
  match s.connector with
  | none => pure (false, s)
  | some state => do
    let (res, state) ← C.resetCache state
    pure (res ≠ some false, { s with connector := some state })

def resetPrefixCache (s : Scheduler D C) (resetRunningRequests resetConnector : Bool) :
    Py (Bool × Scheduler D C) := do
  let s ← (if resetRunningRequests then do
      let s ← s.resetRunning s.running.length
      pure { s with prevStepScheduledReqIds := [] }
    else pure s : Py (Scheduler D C))
  let (resetSuccessful, s) := (s.kvCacheManager.resetPrefixCache.2,
    { s with kvCacheManager := s.kvCacheManager.resetPrefixCache.1 })
  require (¬(resetRunningRequests ∧ resetSuccessful = false))
    (.runtimeError ("Failed to reset KV cache even when all the running requests are " ++
      "preempted and moved to the waiting queue."))
  if resetConnector then
    let (connectorSuccessful, s) ← s.resetConnectorCache
    pure (connectorSuccessful && resetSuccessful, s)
  else pure (resetSuccessful, s)

def resetEncoderCache (s : Scheduler D C) : Scheduler D C :=
  { s with encoderCacheManager := s.encoderCacheManager.reset }

def setPauseState (s : Scheduler D C) (pauseState : PauseState) : Scheduler D C :=
  { s with pauseState := pauseState }

/-- `update_draft_token_ids` for one request.  `validate` is the grammar's
`validate_tokens`, the identity for a request without one. -/
def updateDraftTokenIdsOf (validate : Ref → List Token → List Token) (s : Scheduler D C)
    (e : ReqId × List Token) : Scheduler D C :=
  match s.requests.get? e.1 with
  | none => s
  | some ref =>
    if (s.objs ref).isFinished then s
    else
      s.modify ref fun r =>
        { r with specTokenIds := if r.isPrefillChunk then [] else validate ref e.2 }

def updateDraftTokenIds (s : Scheduler D C) (validate : Ref → List Token → List Token)
    (draftTokenIds : List (ReqId × List Token)) : Scheduler D C :=
  draftTokenIds.foldl (updateDraftTokenIdsOf validate) s

end Scheduler

end VllmCore
