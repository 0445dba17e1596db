import VllmCore.Scheduler.Schedule
/-!
# Processing the output of the model

`update_from_output` goes over the requests of a scheduler output, appends what the
model generated, handles the requests that stopped, and then takes them out of the
running list and the waiting queue.  Requests whose blocks failed to load are found
first and skipped.
-/

namespace VllmCore

open Support

variable {D : Type}

/-- The part of `ModelRunnerOutput` that the scheduler reads; `W` is the type of what
the workers of the connector report. -/
structure ModelRunnerOutput (W : Type) where
  reqIdToIndex : Dict ReqId Nat
  sampledTokenIds : List (List Token) := []
  poolerOutput : List (Option (List Int)) := []
  kvConnectorOutput : Option (KVConnectorOutput W) := none

/-- The tokens that were sampled for the request at an index. -/
def ModelRunnerOutput.generatedTokenIds {W : Type} (out : ModelRunnerOutput W) (reqIndex : Nat) :
    Py (List Token) :=
  if out.sampledTokenIds.isEmpty then pure [] else pyGet out.sampledTokenIds reqIndex

def ModelRunnerOutput.poolerOutputOf {W : Type} (out : ModelRunnerOutput W) (reqIndex : Nat) :
    Py (Option (List Int)) :=
  if out.poolerOutput.isEmpty then pure none else pyGet out.poolerOutput reqIndex

structure EngineCoreOutput where
  requestId : ReqId
  newTokenIds : List Token
  finishReason : Option FinishReason
  poolingOutput : Option (List Int) := none
  stopReason : Option StopReason := none
  numCachedTokens : Int
  numExternalComputedTokens : Int := 0

namespace Scheduler

variable [DecidableEq D] {C : KVConnector D}

/-! ## Blocks that failed to load -/

/-- The variables of `_update_requests_with_invalid_blocks`. -/
structure InvalidScan (D : Type) (C : KVConnector D) where
  sched : Scheduler D C
  affectedReqIds : List ReqId := []
  markedInvalidBlockIds : List BlockId := []
  blocksToEvict : List BlockId := []

/-- The scan of the blocks of one request: whether there is an invalid block, the
position of the first one that no earlier request has marked, and all marked blocks. -/
def scanInvalid (invalidBlockIds : List BlockId) :
    List (BlockId × Nat) → Bool × Option Nat × List BlockId → Bool × Option Nat × List BlockId
  | [], st => st
  | (b, idx) :: rest, (isAffected, first, marked) =>
    if b ∉ invalidBlockIds then scanInvalid invalidBlockIds rest (isAffected, first, marked)
    else if b ∈ marked then scanInvalid invalidBlockIds rest (true, first, marked)
    else scanInvalid invalidBlockIds rest (true, first.orElse fun _ => some idx, marked ++ [b])

/-- The request cut back to `n` computed tokens, of `numComputed` before this step. -/
def cutBack (n numComputed : Int) (r : Request D) : Request D :=
  { r with
    numComputedTokens := n
    numExternalComputedTokens := r.numExternalComputedTokens - (numComputed - n) }

/-- `_update_requests_with_invalid_blocks` for one request. -/
def updateRequestWithInvalidBlocks (invalidBlockIds : List BlockId)
    (numScheduledTokens : Dict ReqId Int) (evictBlocks : Bool) (st : InvalidScan D C) (ref : Ref) :
    Py (InvalidScan D C) := do
  let s := st.sched
  let r := s.objs ref
  match s.kvCacheManager.getBlocks r.requestId with
  | [reqBlockIds] =>
    let blockSize : Int := s.config.blockSize
    let numComputed := r.numComputedTokens - (numScheduledTokens.get? r.requestId).getD 0
    let numBlocks := (numComputed + blockSize - 1) / blockSize
    let (isAffected, first, marked) := scanInvalid invalidBlockIds
      (reqBlockIds.zipIdx.take numBlocks.toNat) (false, none, st.markedInvalidBlockIds)
    if isAffected then
      pure
        { sched := s.modify ref fun r =>
            match first with
            | some idx => cutBack (idx * blockSize) numComputed r
            | none => { r with numComputedTokens := numComputed }
          affectedReqIds := st.affectedReqIds.insert r.requestId
          markedInvalidBlockIds := marked
          blocksToEvict :=
            match first, evictBlocks with
            | some idx, true => st.blocksToEvict ++ reqBlockIds.drop idx
            | _, _ => st.blocksToEvict }
    else pure st
  | _ => throw (.valueError "too many values to unpack (expected 1)")

/-- `_handle_invalid_blocks`: the requests to skip. -/
def handleInvalidBlocks (s : Scheduler D C) (invalidBlockIds : List BlockId)
    (numScheduledTokens : Dict ReqId Int) : Py (List ReqId × Scheduler D C) := do
  let loading := (RequestQueue.iter s.config.policy s.lt s.skippedWaiting).filter fun ref =>
    (s.objs ref).status = .waitingForRemoteKvs
  let async ← loading.foldlM
    (updateRequestWithInvalidBlocks invalidBlockIds numScheduledTokens false) { sched := s }
  let sync ← s.running.foldlM
    (updateRequestWithInvalidBlocks invalidBlockIds numScheduledTokens true)
    { sched := async.sched }
  let s := sync.sched
  if async.affectedReqIds.isEmpty ∧ sync.affectedReqIds.isEmpty then pure ([], s)
  else
    let s ← (if sync.blocksToEvict.isEmpty = false ∧
      s.config.recomputeKvLoadFailures = false then do
        let kv ← s.kvCacheManager.evictBlocks sync.blocksToEvict.dedup
        pure { s with kvCacheManager := kv }
      else pure s : Py (Scheduler D C))
    if s.config.recomputeKvLoadFailures then
      pure (sync.affectedReqIds,
        { s with failedRecvingKvReqIds := s.failedRecvingKvReqIds ∪ async.affectedReqIds })
    else pure (async.affectedReqIds ∪ sync.affectedReqIds, s)

/-! ## Generated tokens -/

/-- `_update_request_with_output` of the base class: append tokens until a stop
condition holds, and drop the rest. -/
def appendUntilStop (config : SchedulerConfig D) :
    List Token → Request D → Py (List Token × Bool × Request D)
  | [], r => pure ([], false, r)
  | t :: rest, r => do
    let (r, stopped) ← checkStop (r.appendOutputTokenIds config.blockHasher [t]) config.maxModelLen
    if stopped then pure ([t], true, r)
    else
      let (kept, stopped, r) ← appendUntilStop config rest r
      pure (t :: kept, stopped, r)

/-- Record in the request object what `_update_request_with_output` did to it. -/
def updateRequestTokens (s : Scheduler D C) (ref : Ref) (newTokenIds : List Token) :
    Py (List Token × Bool × Scheduler D C) := do
  let (kept, stopped, r) ← appendUntilStop s.config newTokenIds (s.objs ref)
  pure (kept, stopped, s.modify ref fun _ => r)

/-- `_update_request_with_output`, of the class the configuration selects. -/
def updateRequestWithOutput (s : Scheduler D C) (ref : Ref) (newTokenIds : List Token) :
    Py (List Token × Bool × Scheduler D C) :=
  if s.config.asyncScheduling = false then s.updateRequestTokens ref newTokenIds
  else if (s.objs ref).discardLatestAsyncTokens then
    pure ([], false, s.modify ref fun r => { r with discardLatestAsyncTokens := false })
  else do
    let statusBeforeUpdate := (s.objs ref).status
    let (kept, stopped, s) ← s.updateRequestTokens ref newTokenIds
    let s := s.modify ref fun r =>
      { r with numOutputPlaceholders := r.numOutputPlaceholders - kept.length }
    let r := s.objs ref
    pyAssert (0 ≤ r.numOutputPlaceholders) "request.num_output_placeholders >= 0"
    -- Preempted requests have no blocks to cache.
    if statusBeforeUpdate = .running then
      let s ← s.cacheBlocks r (r.numComputedTokens - r.numOutputPlaceholders)
      pure (kept, stopped, s)
    else pure (kept, stopped, s)

def takeBackRejected (numRejected : Int) (r : Request D) : Request D :=
  { r with
    numComputedTokens :=
      if 0 < r.numComputedTokens then r.numComputedTokens - numRejected else r.numComputedTokens
    numOutputPlaceholders :=
      if 0 < r.numOutputPlaceholders then r.numOutputPlaceholders - numRejected
      else r.numOutputPlaceholders }

/-- `_handle_stopped_request`: whether the request is finished. -/
def handleStoppedRequest (s : Scheduler D C) (ref : Ref) : Py (Bool × Scheduler D C) :=
  let r := s.objs ref
  if r.resumable = false then pure (true, s)
  else
    match r.streamingQueue with
    | some (none :: rest) =>
      pure (true, s.modify ref fun r => { r with streamingQueue := some rest })
    | some (some update :: rest) => do
      let s := s.modify ref fun r => { r with streamingQueue := some rest }
      let s ← s.updateRequestAsSession ref update
      pure (false, s.enqueueWaitingRequest ref)
    | _ =>
      let s := s.modify ref fun r => { r with status := .waitingForStreamingReq }
      let s := { s with numWaitingForStreamingInput := s.numWaitingForStreamingInput + 1 }
      pure (false, s.enqueueWaitingRequest ref)

/-- The local variables of `update_from_output`. -/
structure UpdatePass (D : Type) (C : KVConnector D) where
  sched : Scheduler D C
  stoppedRunningReqs : List Ref := []
  stoppedPreemptedReqs : List Ref := []
  outputs : List (Nat × EngineCoreOutput) := []

/-- The part of the loop body for a request that stopped: its finish reason, and the
request in the set of stopped requests that its former status selects. -/
def stopRequest (st : UpdatePass D C) (ref : Ref) (statusBeforeStop : RequestStatus) :
    Py (Option FinishReason × UpdatePass D C) := do
  let finishReason := (st.sched.objs ref).getFinishedReason
  let (finished, s) ← st.sched.handleStoppedRequest ref
  let s ← (if finished then s.freeRequest ref else pure s : Py (Scheduler D C))
  pure (finishReason,
    { st with
      sched := s
      stoppedRunningReqs := if statusBeforeStop = .running then st.stoppedRunningReqs.insert ref
        else st.stoppedRunningReqs
      stoppedPreemptedReqs := if statusBeforeStop = .running then st.stoppedPreemptedReqs
        else st.stoppedPreemptedReqs.insert ref })

/-- Append what the model generated for a request, and check for a stop. -/
def applyGenerated (s : Scheduler D C) (ref : Ref) (generated : List Token)
    (poolerOutput : Option (List Int)) : Py (List Token × Bool × Scheduler D C) :=
  if generated ≠ [] then s.updateRequestWithOutput ref generated
  else if (s.objs ref).poolingParams.isSome ∧ poolerOutput.isSome then
    pure ([], true, s.modify ref fun r => { r with status := .finishedStopped })
  else pure ([], false, s)

def afterRejection (specTokens generated : List Token) (r : Request D) : Request D :=
  if specTokens ≠ [] ∧ generated ≠ [] then
    takeBackRejected ((specTokens.length : Int) - ((generated.length : Int) - 1)) r
  else r

/-- The loop body of `update_from_output` for a live request: `specTokens` are the draft
tokens that were scheduled, `generated` and `poolerOutput` what the model returned. -/
def updateLiveRequest (st : UpdatePass D C) (ref : Ref) (specTokens generated : List Token)
    (poolerOutput : Option (List Int)) : Py (UpdatePass D C) := do
  let s := st.sched.modify ref (afterRejection specTokens generated)
  let statusBeforeStop := (s.objs ref).status
  let (newTokenIds, stopped, s) ← s.applyGenerated ref generated poolerOutput
  let st := { st with sched := s }
  let (finishReason, st) ← (if stopped then stopRequest st ref statusBeforeStop
    else pure (none, st) : Py (Option FinishReason × UpdatePass D C))
  let r := st.sched.objs ref
  if newTokenIds ≠ [] ∨ poolerOutput.isSome ∨ stopped then
    pure { st with outputs := st.outputs ++ [(r.clientIndex,
      { requestId := r.requestId
        newTokenIds := newTokenIds
        finishReason := finishReason
        poolingOutput := poolerOutput
        stopReason := r.stopReason
        numCachedTokens := r.numCachedTokens
        numExternalComputedTokens := r.numExternalComputedTokens })] }
  else pure st

/-- The loop body of `update_from_output`. -/
def updateRequest (output : SchedulerOutput C.Metadata) (out : ModelRunnerOutput C.WorkerMeta)
    (failedReqIds : List ReqId) (st : UpdatePass D C) (e : ReqId × Int) :
    Py (UpdatePass D C) := do
  let (rid, numTokensScheduled) := e
  pyAssert (0 < numTokensScheduled) "num_tokens_scheduled > 0"
  if rid ∈ failedReqIds then pure st
  else
    match st.sched.requests.get? rid with
    | none => pure st
    | some ref =>
      if (st.sched.objs ref).isFinished then pure st
      else
        let reqIndex ← out.reqIdToIndex.get rid
        let generated ← out.generatedTokenIds reqIndex
        let poolerOutput ← out.poolerOutputOf reqIndex
        updateLiveRequest st ref ((output.scheduledSpecDecodeTokens.get? rid).getD []) generated
          poolerOutput

def removeStopped (st : UpdatePass D C) : Scheduler D C :=
  let s := st.sched
  { s with
    running := if st.stoppedRunningReqs.isEmpty then s.running
      else removeAll s.running st.stoppedRunningReqs
    waiting := if st.stoppedPreemptedReqs.isEmpty then s.waiting
      else RequestQueue.removeRequests s.config.policy s.lt s.waiting st.stoppedPreemptedReqs }

/-- Finish the requests that failed to load, and report them. -/
def failRequests (s : Scheduler D C) (failedReqIds : List ReqId) :
    Py (List (Nat × EngineCoreOutput) × Scheduler D C) := do
  let refs ← failedReqIds.mapM s.requests.get
  let s ← s.finishRequests (some failedReqIds) .finishedError
  pure (refs.map fun ref =>
    let r := s.objs ref
    (r.clientIndex,
      { requestId := r.requestId
        newTokenIds := []
        finishReason := r.getFinishedReason
        numCachedTokens := r.numCachedTokens }), s)

def finishRecving (s : Scheduler D C) (rid : ReqId) : Py (Scheduler D C) := do
  let ref ← s.requests.get rid
  if (s.objs ref).status = .waitingForRemoteKvs then
    pure { s with finishedRecvingKvReqIds := s.finishedRecvingKvReqIds.insert rid }
  else
    pyAssert (s.objs ref).isFinished "RequestStatus.is_finished(req.status)"
    s.freeBlocks ref

def finishSending (s : Scheduler D C) (rid : ReqId) : Py (Scheduler D C) := do
  let ref ← s.requests.get rid
  s.freeBlocks ref

def updateFromKvXferFinished (s : Scheduler D C) (kvOutput : KVConnectorOutput C.WorkerMeta) :
    Py (Scheduler D C) := do
  let s ← (match s.connector with
    | none => pure s
    | some state => do
      let (refs, state) ← C.updateConnectorOutput state s.kvCacheManager.blockPool kvOutput
      let s ← s.applyPoolRefs refs
      pure { s with connector := some state } : Py (Scheduler D C))
  let s ← kvOutput.finishedRecving.foldlM finishRecving s
  kvOutput.finishedSending.foldlM finishSending s

def takeEvents (s : Scheduler D C) : List (KVCacheEvent D) × Scheduler D C :=
  let (events, kv) := s.kvCacheManager.takeEvents
  let s := { s with kvCacheManager := kv }
  match s.connector with
  | none => (events, s)
  | some state =>
    let (connectorEvents, state) := C.takeEvents state
    (events ++ connectorEvents, { s with connector := some state })

/-- The requests that failed to load, when the workers report invalid blocks. -/
def failedLoads (s : Scheduler D C) (output : SchedulerOutput C.Metadata)
    (out : ModelRunnerOutput C.WorkerMeta) : Py (List ReqId × Scheduler D C) :=
  match out.kvConnectorOutput with
  | none => pure ([], s)
  | some kvOutput =>
    if kvOutput.invalidBlockIds.isEmpty then pure ([], s)
    else s.handleInvalidBlocks kvOutput.invalidBlockIds output.numScheduledTokens

/-- `update_from_output`: the outputs by client, the published events and the scheduler. -/
def updateFromOutput (s : Scheduler D C) (output : SchedulerOutput C.Metadata)
    (out : ModelRunnerOutput C.WorkerMeta) :
    Py (List (Nat × EngineCoreOutput) × List (KVCacheEvent D) × Scheduler D C) := do
  let (failedReqIds, s) ← s.failedLoads output out
  let st ← output.numScheduledTokens.entries.foldlM (updateRequest output out failedReqIds)
    { sched := s }
  let s := removeStopped st
  let (failedOutputs, s) ← (if failedReqIds.isEmpty = false ∧
      s.config.recomputeKvLoadFailures = false then s.failRequests failedReqIds
    else pure ([], s) : Py (List (Nat × EngineCoreOutput) × Scheduler D C))
  let s ← (match out.kvConnectorOutput with
    | none => pure s
    | some kvOutput => s.updateFromKvXferFinished kvOutput : Py (Scheduler D C))
  let (events, s) := s.takeEvents
  pure (st.outputs ++ failedOutputs, events, s)

/-- `update_draft_token_ids_in_output` for one request: the drafts are cut and padded to
the number that was scheduled.  `validate` is the grammar's `validate_tokens`. -/
def updateDraftInOutput (s : Scheduler D C) (validate : Ref → List Token → List Token)
    (drafts : Dict ReqId (List Token)) (e : ReqId × List Token) : Dict ReqId (List Token) :=
  match s.requests.get? e.1 with
  | none => drafts
  | some ref =>
    let placeholders := (drafts.get? e.1).getD []
    if (s.objs ref).isFinished ∨ placeholders = [] then drafts
    else
      let tokens := validate ref (e.2.take placeholders.length)
      drafts.set e.1
        (tokens ++ List.replicate (placeholders.length - tokens.length) (-1))

def updateDraftTokenIdsInOutput (s : Scheduler D C)
    (validate : Ref → List Token → List Token) (draftTokenIds : List (ReqId × List Token))
    (output : SchedulerOutput C.Metadata) : SchedulerOutput C.Metadata :=
  { output with
    scheduledSpecDecodeTokens :=
      draftTokenIds.foldl (updateDraftInOutput s validate) output.scheduledSpecDecodeTokens }

end Scheduler

end VllmCore
