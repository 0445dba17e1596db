import VllmCore.Scheduler
/-!
# The schedule call

One call of `schedule` is a pass over the running list and then over the waiting
queues.  `Pass` holds the local variables of the call.  The loops are written with a
bound on the number of turns; a turn schedules, skips or preempts a request, so that
the length of the list is a bound that is never reached.

`encoderHits` and `computedHits` record the answers of the encoder cache and of the
prefix cache, and `takenBack` the numbers of tokens of the requests that were scheduled
and then preempted; nothing reads them.
-/

namespace VllmCore

open Support

variable {D : Type}

/-! ## Encoder inputs -/

def PlaceholderRange.getEmbedsIndicesInRange (p : PlaceholderRange) (startIdx endIdx : Int) :
    Py (Int × Int) :=
  match p.isEmbed with
  | none => pure (startIdx, endIdx)
  | some mask => do
    let cumsum := (List.range mask.length).map fun i => ((mask.take (i + 1)).count true : Int)
    let embedsStartIdx ← (if 0 < startIdx then pyGet cumsum (startIdx - 1) else pure 0 : Py Int)
    let embedsEndIdx ← pyGet cumsum (endIdx - 1)
    pure (embedsStartIdx, embedsEndIdx)

/-- The variables of `_try_schedule_encoder_inputs`. -/
structure EncoderScan where
  cache : EncoderCache
  encoderInputsToSchedule : List Nat := []
  externalLoadEncoderInput : List Nat := []
  mmHashesToSchedule : List MmHash := []
  numEmbedsToSchedule : Int := 0
  encoderComputeBudget : Int
  numNewTokens : Int
  hits : List MmHash := []

/-- The arguments of `_try_schedule_encoder_inputs` that stay fixed. -/
structure EncoderArgs (D : Type) where
  request : Request D
  numComputedTokens : Int
  shiftComputedTokens : Int
  isEncoderDecoder : Bool
  disableChunkedMmInput : Bool
  ecHasCacheItem : Nat → Bool

/-- Whether the item is in the encoder cache; encoder-decoder models do not ask. -/
def EncoderArgs.lookup (a : EncoderArgs D) (st : EncoderScan) (i : Nat)
    (identifier : MmHash) : Py (Bool × EncoderScan) :=
  if a.isEncoderDecoder then pure (false, st)
  else do
    let (hit, cache) ← st.cache.checkAndUpdateCache a.request i
    pure (hit, { st with
      cache := cache
      hits := if hit then st.hits ++ [identifier] else st.hits })

/-- The end of one turn: the item has to be computed, or loaded. -/
def EncoderArgs.take (a : EncoderArgs D) (st : EncoderScan) (i : Nat)
    (f : MultiModalFeatureSpec) : Py EncoderScan := do
  let startPos : Int := f.mmPosition.offset
  let numEncoderTokens : Int := f.mmPosition.length
  let range ← f.mmPosition.getEmbedsIndicesInRange (max 0 (a.numComputedTokens - startPos))
    (min numEncoderTokens (a.numComputedTokens + st.numNewTokens - startPos))
  let numEncoderEmbeds := f.mmPosition.getNumEmbeds
  if range.2 - range.1 = 0 then pure st
  else if a.ecHasCacheItem i then
    pure { st with
      mmHashesToSchedule := st.mmHashesToSchedule ++ [f.identifier]
      externalLoadEncoderInput := st.externalLoadEncoderInput ++ [i]
      numEmbedsToSchedule := st.numEmbedsToSchedule + numEncoderEmbeds }
  else
    pure { st with
      numEmbedsToSchedule := st.numEmbedsToSchedule + numEncoderEmbeds
      encoderComputeBudget := st.encoderComputeBudget - numEncoderEmbeds
      mmHashesToSchedule := st.mmHashesToSchedule ++ [f.identifier]
      encoderInputsToSchedule := st.encoderInputsToSchedule ++ [i] }

/-- The part of a turn for an item that is not cached.  The flag says whether the loop
goes on. -/
def EncoderArgs.schedule (a : EncoderArgs D) (st : EncoderScan) (i : Nat)
    (f : MultiModalFeatureSpec) : Py (Bool × EncoderScan) :=
  let startPos : Int := f.mmPosition.offset
  let numEncoderTokens : Int := f.mmPosition.length
  if a.disableChunkedMmInput ∧ a.numComputedTokens < startPos ∧
      a.numComputedTokens + st.numNewTokens < startPos + numEncoderTokens then
    -- The item would be computed in part: stop before it.
    pure (false, { st with
      numNewTokens := max 0 (startPos - (a.numComputedTokens + a.shiftComputedTokens)) })
  else do
    let (fits, cache) ← st.cache.canAllocate a.request i st.encoderComputeBudget
      st.numEmbedsToSchedule
    let st := { st with cache := cache }
    if fits then
      let st ← a.take st i f
      pure (true, st)
    else
      pure (false, { st with
        numNewTokens :=
          if a.numComputedTokens + a.shiftComputedTokens < startPos then
            startPos - (a.numComputedTokens + a.shiftComputedTokens)
          else 0 })

/-- One turn of the loop of `_try_schedule_encoder_inputs`. -/
def EncoderArgs.turn (a : EncoderArgs D) (st : EncoderScan) (i : Nat)
    (f : MultiModalFeatureSpec) : Py (Bool × EncoderScan) :=
  let startPos : Int := f.mmPosition.offset
  let numEncoderTokens : Int := f.mmPosition.length
  if a.numComputedTokens + st.numNewTokens + a.shiftComputedTokens ≤ startPos then
    pure (false, st)
  else if a.isEncoderDecoder ∧ 0 < a.numComputedTokens then do
    pyAssert (startPos = 0) "Encoder input should be processed at the beginning of the sequence"
    pure (true, st)
  else if startPos + numEncoderTokens ≤ a.numComputedTokens then pure (true, st)
  else if a.isEncoderDecoder = false ∧ f.identifier ∈ st.mmHashesToSchedule then pure (true, st)
  else do
    let (hit, st) ← a.lookup st i f.identifier
    if hit then pure (true, st) else a.schedule st i f

/-- The loop of `_try_schedule_encoder_inputs`, over the items that are left. -/
def EncoderArgs.scan (a : EncoderArgs D) :
    List (MultiModalFeatureSpec × Nat) → EncoderScan → Py EncoderScan
  | [], st => pure st
  | (f, i) :: rest, st => do
    let (goOn, st) ← a.turn st i f
    if goOn then a.scan rest st else pure st

namespace Scheduler

variable [DecidableEq D] {C : KVConnector D}

/-- The answers that other components give during a call: whether the grammar of a
request is ready, and whether the encoder cache connector has an item. -/
structure ScheduleEnv where
  grammarReady : Ref → Bool := fun _ => false
  ecHasCacheItem : Ref → Nat → Bool := fun _ _ => false

structure Plan where
  numNewTokens : Int
  encoderInputsToSchedule : List Nat := []
  externalLoadEncoderInput : List Nat := []
  newEncoderComputeBudget : Int

/-- A cache hit of a waiting request, as `get_computed_blocks` returned it. -/
structure ComputedHit (D : Type) where
  request : Request D
  blocks : KVCacheBlocks
  numTokens : Nat

/-- The local variables of `schedule`. -/
structure Pass (D : Type) (C : KVConnector D) where
  sched : Scheduler D C
  scheduledNewReqs : List Ref := []
  scheduledResumedReqs : List Ref := []
  scheduledRunningReqs : List Ref := []
  preemptedReqs : List Ref := []
  reqToNewBlocks : Dict ReqId KVCacheBlocks := .empty
  numScheduledTokens : Dict ReqId Int := .empty
  tokenBudget : Int
  scheduledEncoderInputs : Dict ReqId (List Nat) := .empty
  encoderComputeBudget : Int
  scheduledSpecDecodeTokens : Dict ReqId (List Token) := .empty
  scheduledLoras : List Int := []
  stepSkippedWaiting : RequestQueue := []
  reqIndex : Nat := 0
  encoderHits : List MmHash := []
  computedHits : List (ComputedHit D) := []
  takenBack : List Int := []

namespace Pass

def withSched (p : Pass D C) (s : Scheduler D C) : Pass D C := { p with sched := s }

def request (p : Pass D C) (ref : Ref) : Request D := p.sched.objs ref

/-- `_try_schedule_encoder_inputs`, for a request with encoder inputs. -/
def tryScheduleEncoderInputs (env : ScheduleEnv) (p : Pass D C) (ref : Ref)
    (numComputedTokens numNewTokens : Int) : Py (Plan × Pass D C) :=
  let r := p.request ref
  if numNewTokens = 0 ∨ r.hasEncoderInputs = false then
    pure ({ numNewTokens := numNewTokens
            newEncoderComputeBudget := p.encoderComputeBudget }, p)
  else do
    let config := p.sched.config
    let args : EncoderArgs D :=
      { request := r
        numComputedTokens := numComputedTokens
        shiftComputedTokens := if config.useEagle then 1 else 0
        isEncoderDecoder := config.isEncoderDecoder
        disableChunkedMmInput := config.disableChunkedMmInput
        ecHasCacheItem := env.ecHasCacheItem ref }
    let st ← args.scan r.mmFeatures.zipIdx
      { cache := p.sched.encoderCacheManager
        encoderComputeBudget := p.encoderComputeBudget
        numNewTokens := numNewTokens }
    pure (
      { numNewTokens := st.numNewTokens
        encoderInputsToSchedule := st.encoderInputsToSchedule
        externalLoadEncoderInput := st.externalLoadEncoderInput
        newEncoderComputeBudget := st.encoderComputeBudget },
      { p with
        sched := { p.sched with encoderCacheManager := st.cache }
        encoderHits := p.encoderHits ++ st.hits })

def allocateEncoderInputs (p : Pass D C) (ref : Ref) (inputs : List Nat) : Py (Pass D C) := do
  let cache ← inputs.foldlM (EncoderCache.allocate (p.request ref)) p.sched.encoderCacheManager
  pure { p with sched := { p.sched with encoderCacheManager := cache } }

/-- Record the encoder inputs of a request that was scheduled. -/
def scheduleEncoderInputs (p : Pass D C) (ref : Ref) (plan : Plan) : Py (Pass D C) := do
  let p ← (if plan.encoderInputsToSchedule.isEmpty then pure p
    else do
      let p ← { p with
        scheduledEncoderInputs := p.scheduledEncoderInputs.set (p.request ref).requestId
          plan.encoderInputsToSchedule }.allocateEncoderInputs ref plan.encoderInputsToSchedule
      pure { p with encoderComputeBudget := plan.newEncoderComputeBudget } : Py (Pass D C))
  p.allocateEncoderInputs ref plan.externalLoadEncoderInput

end Pass

/-- The last position whose Mamba state is cached.  With Eagle the last matching block is
pruned, and the last chunk must not be smaller than a block. -/
def lastCachePosition (config : SchedulerConfig D) (r : Request D) : Int :=
  let blockSize : Int := config.cacheBlockSize
  let position : Int := r.numTokens - r.numTokens % blockSize
  if config.useEagle then max (position - blockSize) 0 else position

def mambaBlockAlignedSplit (config : SchedulerConfig D) (r : Request D) (numNewTokens : Int)
    (numNewLocalComputedTokens numExternalComputedTokens : Int := 0) : Py Int := do
  pyAssert (numExternalComputedTokens = 0) "External KV connector is not verified yet"
  let numComputedTokens :=
    r.numComputedTokens + numNewLocalComputedTokens + numExternalComputedTokens
  if numComputedTokens < max (r.numPromptTokens : Int) (r.numTokens - 1) then
    let numComputedTokensAfterSched := numComputedTokens + numNewTokens
    if numComputedTokensAfterSched < lastCachePosition config r then
      pure (numNewTokens / config.cacheBlockSize * config.cacheBlockSize)
    else if numComputedTokens < lastCachePosition config r ∧
        lastCachePosition config r < numComputedTokensAfterSched then
      pure (lastCachePosition config r - numComputedTokens)
    else pure numNewTokens
  else pure numNewTokens

namespace Pass

/-! ## Running requests -/

/-- Whether a step that is still running is sure to reach the maximal length. -/
def reachesMaxTokens (r : Request D) : Bool :=
  0 < r.numOutputPlaceholders ∧
    (r.numPromptTokens + r.maxTokens : Int) ≤
      r.numComputedTokens + 2 - r.numOutputPlaceholders

/-- The number of tokens to schedule for a running request, before encoder inputs. -/
def numNewTokensRunning (p : Pass D C) (r : Request D) : Int :=
  let config := p.sched.config
  let n : Int := r.numTokensWithSpec + r.numOutputPlaceholders - r.numComputedTokens
  let n := if 0 < config.longPrefillTokenThreshold ∧ (config.longPrefillTokenThreshold : Int) < n
    then (config.longPrefillTokenThreshold : Int) else n
  let n := min n p.tokenBudget
  min n (config.maxModelLen - 1 - r.numComputedTokens)

def planRunning (env : ScheduleEnv) (p : Pass D C) (ref : Ref) : Py (Plan × Pass D C) := do
  let r := p.request ref
  let (plan, p) ← p.tryScheduleEncoderInputs env ref r.numComputedTokens (p.numNewTokensRunning r)
  let n ← (if p.sched.config.needMambaBlockAlignedSplit then
      mambaBlockAlignedSplit p.sched.config r plan.numNewTokens
    else pure plan.numNewTokens : Py Int)
  pure ({ plan with numNewTokens := n }, p)

def lowestPriority (s : Scheduler D C) : Option Ref :=
  s.running.foldl (fun best ref =>
    match best with
    | none => some ref
    | some b =>
      let r := s.objs ref
      let m := s.objs b
      if m.priority < r.priority ∨ (m.priority = r.priority ∧ m.arrivalTime < r.arrivalTime)
      then some ref else best) none

/-- Take back what was scheduled for a request in this pass. -/
def unschedule (p : Pass D C) (ref : Ref) : Py (Pass D C) := do
  let r := p.request ref
  let rid := r.requestId
  let n ← p.numScheduledTokens.get rid
  require (p.reqToNewBlocks.contains rid) (.keyError "req_to_new_blocks")
  let restored ← ((p.scheduledEncoderInputs.get? rid).getD []).mapM r.getNumEncoderEmbeds
  pure { p with
    scheduledRunningReqs := p.scheduledRunningReqs.erase ref
    tokenBudget := p.tokenBudget + n
    numScheduledTokens := p.numScheduledTokens.erase rid
    reqToNewBlocks := p.reqToNewBlocks.erase rid
    scheduledSpecDecodeTokens := p.scheduledSpecDecodeTokens.erase rid
    scheduledEncoderInputs := p.scheduledEncoderInputs.erase rid
    encoderComputeBudget := p.encoderComputeBudget + (restored.sum : Nat)
    reqIndex := p.reqIndex - 1
    takenBack := p.takenBack ++ [n] }

/-- The request that is preempted next, out of the running list.  A request that was
scheduled in this pass stands before `req_index`, which is then positive. -/
def selectVictim (p : Pass D C) : Py (Ref × Pass D C) :=
  let s := p.sched
  match s.config.policy with
  | .priority =>
    match lowestPriority s with
    | none => throw (.valueError "max() iterable argument is empty")
    | some ref => do
      let p := p.withSched { s with running := s.running.erase ref }
      let p ← (if ref ∈ p.scheduledRunningReqs then p.unschedule ref else pure p :
        Py (Pass D C))
      pure (ref, p)
  | .fcfs =>
    match s.running.getLast? with
    | none => throw (.indexError "pop from empty list")
    | some ref => pure (ref, p.withSched { s with running := s.running.dropLast })

def preempt (p : Pass D C) (ref : Ref) : Py (Pass D C) := do
  let s ← p.sched.preemptRequest ref
  pure { p with sched := s, preemptedReqs := p.preemptedReqs ++ [ref] }

/-- `allocate_slots` for a running request. -/
def allocateRunning (p : Pass D C) (ref : Ref) (numNewTokens : Int) :
    Py (Option KVCacheBlocks × Pass D C) := do
  let s := p.sched
  let (kv, newBlocks) ← s.kvCacheManager.allocateSlots s.config.hashFns (p.request ref) 0
    s.kvCacheManager.emptyKVCacheBlocks
    { numNewTokens := numNewTokens, numLookaheadTokens := s.config.numLookaheadTokens }
  pure (newBlocks, p.withSched { s with kvCacheManager := kv })

/-- The inner loop: preempt requests until the slots can be allocated, or the request
itself was preempted. -/
def allocateOrPreempt (ref : Ref) (numNewTokens : Int) :
    Nat → Pass D C → Py (Option KVCacheBlocks × Pass D C)
  | 0, _ => throw (.runtimeError "no running request is left to preempt")
  | fuel + 1, p => do
    let (newBlocks, p) ← p.allocateRunning ref numNewTokens
    match newBlocks with
    | some blocks => pure (some blocks, p)
    | none =>
      let (victim, p) ← p.selectVictim
      let p ← p.preempt victim
      if victim = ref then pure (none, p)
      else allocateOrPreempt ref numNewTokens fuel p

/-- The draft tokens that are scheduled with `n` tokens of a request. -/
def scheduledSpecTokens (r : Request D) (n : Int) : List Token :=
  r.specTokenIds.take (n + r.numComputedTokens - r.numTokens - r.numOutputPlaceholders).toNat

def scheduleRunning (p : Pass D C) (ref : Ref) (plan : Plan) (newBlocks : KVCacheBlocks) :
    Py (Pass D C) :=
  let r := p.request ref
  let n := plan.numNewTokens
  let spec := scheduledSpecTokens r n
  let p := { p with
    scheduledRunningReqs := p.scheduledRunningReqs ++ [ref]
    reqToNewBlocks := p.reqToNewBlocks.set r.requestId newBlocks
    numScheduledTokens := p.numScheduledTokens.set r.requestId n
    tokenBudget := p.tokenBudget - n
    reqIndex := p.reqIndex + 1
    scheduledSpecDecodeTokens :=
      if spec.isEmpty then p.scheduledSpecDecodeTokens
      else p.scheduledSpecDecodeTokens.set r.requestId spec
    sched := p.sched.modify ref fun r => { r with specTokenIds := [] } }
  p.scheduleEncoderInputs ref plan

/-- One turn of the loop over the running requests.  The flag says whether the loop
goes on. -/
def runningTurn (env : ScheduleEnv) (p : Pass D C) (ref : Ref) : Py (Bool × Pass D C) :=
  if reachesMaxTokens (p.request ref) then pure (true, { p with reqIndex := p.reqIndex + 1 })
  else do
    let (plan, p) ← p.planRunning env ref
    if plan.numNewTokens = 0 then pure (true, { p with reqIndex := p.reqIndex + 1 })
    else
      let (newBlocks, p) ← allocateOrPreempt ref plan.numNewTokens (p.sched.running.length + 1) p
      match newBlocks with
      | none => pure (false, p)
      | some blocks =>
        let p ← p.scheduleRunning ref plan blocks
        pure (true, p)

def runningLoop (env : ScheduleEnv) : Nat → Pass D C → Py (Pass D C)
  | 0, p => pure p
  | fuel + 1, p =>
    match p.sched.running[p.reqIndex]? with
    | none => pure p
    | some ref =>
      if p.tokenBudget ≤ 0 then pure p
      else do
        let (goOn, p) ← p.runningTurn env ref
        if goOn then runningLoop env fuel p else pure p

def recordLoras (p : Pass D C) : Py (Pass D C) :=
  match p.sched.config.maxLoras with
  | none => pure p
  | some maxLoras => do
    let ids := (p.scheduledRunningReqs.filterMap fun ref =>
      (p.request ref).loraRequest.map (·.loraIntId)).filter (0 < ·)
    let p := { p with scheduledLoras := ids.dedup }
    pyAssert (p.scheduledLoras.length ≤ maxLoras)
      "len(scheduled_loras) <= self.lora_config.max_loras"
    pure p

/-! ## Waiting requests -/

/-- Put the head of a queue aside for this pass. -/
def skipWaiting (p : Pass D C) (q : QueueName) : Py (Pass D C) := do
  let s := p.sched
  let (ref, rest) ← RequestQueue.popRequest s.config.policy s.lt (s.queue q)
  pure { p with
    sched := s.setQueue q rest
    stepSkippedWaiting :=
      RequestQueue.prependRequest s.config.policy s.lt p.stepSkippedWaiting ref }

/-- What `_update_waiting_for_remote_kv` does to a request whose blocks were loaded. -/
def loadedRequest (r : Request D) : Request D :=
  let n := if r.numComputedTokens = r.numTokens then (r.numTokens : Int) - 1
    else r.numComputedTokens
  { r with
    numComputedTokens := n
    numCachedTokens := if r.numCachedTokens < 0 then n else r.numCachedTokens }

def updateWaitingForRemoteKv (s : Scheduler D C) (ref : Ref) : Py (Scheduler D C) := do
  pyAssert s.connector.isSome "self.connector is not None"
  let r := s.objs ref
  let s ← (if r.requestId ∈ s.failedRecvingKvReqIds then do
      let s ← (if r.numComputedTokens ≠ 0 then s.cacheBlocks r r.numComputedTokens
        else do
          let kv ← s.kvCacheManager.free r.requestId
          pure { s with kvCacheManager := kv } : Py (Scheduler D C))
      pure { s with failedRecvingKvReqIds := s.failedRecvingKvReqIds.erase r.requestId }
    else do
      let s ← s.cacheBlocks r r.numComputedTokens
      pure (s.modify ref loadedRequest) : Py (Scheduler D C))
  require (r.requestId ∈ s.finishedRecvingKvReqIds) (.keyError "finished_recving_kv_req_ids")
  pure { s with finishedRecvingKvReqIds := s.finishedRecvingKvReqIds.erase r.requestId }

/-- `_try_promote_blocked_waiting_request`, for a request with a blocked status. -/
def tryPromote (env : ScheduleEnv) (s : Scheduler D C) (ref : Ref) :
    Py (Bool × Scheduler D C) :=
  let r := s.objs ref
  match r.status with
  | .waitingForRemoteKvs =>
    if r.requestId ∉ s.finishedRecvingKvReqIds then pure (false, s)
    else do
      let s ← updateWaitingForRemoteKv s ref
      pure (true, s.modify ref fun r =>
        { r with status := if r.numPreemptions ≠ 0 then .preempted else .waiting })
  | .waitingForStructuredOutputGrammar =>
    if env.grammarReady ref then
      pure (true, s.modify ref fun r => { r with status := .waiting })
    else pure (false, s)
  | .waitingForStreamingReq => do
    pyAssert ((r.streamingQueue.getD []).isEmpty) "not request.streaming_queue"
    pure (false, s)
  | _ => throw (.assertionError "Unexpected blocked waiting status in promotion")

structure Computed where
  newComputedBlocks : KVCacheBlocks
  numNewLocalComputedTokens : Nat
  numExternalComputedTokens : Nat
  loadKvAsync : Bool
  numComputedTokens : Int

/-- Look for computed tokens; none when the connector cannot tell yet. -/
def findComputed (p : Pass D C) (ref : Ref) : Py (Option Computed × Pass D C) := do
  let s := p.sched
  let r := p.request ref
  if r.numComputedTokens ≠ 0 then
    -- The blocks were loaded asynchronously, or the request is a session.
    pure (some
      { newComputedBlocks := s.kvCacheManager.emptyKVCacheBlocks
        numNewLocalComputedTokens := 0
        numExternalComputedTokens := 0
        loadKvAsync := false
        numComputedTokens := r.numComputedTokens }, p)
  else
    let (blocks, numLocal) ← s.kvCacheManager.getComputedBlocks r
    let p := { p with computedHits := p.computedHits ++ [⟨r, blocks, numLocal⟩] }
    match s.connector with
    | none =>
      pyAssert (numLocal ≤ r.numTokens) "num_computed_tokens <= request.num_tokens"
      pure (some
        { newComputedBlocks := blocks
          numNewLocalComputedTokens := numLocal
          numExternalComputedTokens := 0
          loadKvAsync := false
          numComputedTokens := numLocal }, p)
    | some state =>
      let ((extTokens, loadKvAsync), state) ←
        C.getNumNewMatchedTokens state s.kvCacheManager.blockPool r numLocal
      let p := p.withSched { s with connector := some state }
      match extTokens with
      | none => pure (none, p)
      | some ext =>
        pyAssert (numLocal + ext ≤ r.numTokens) "num_computed_tokens <= request.num_tokens"
        pure (some
          { newComputedBlocks := blocks
            numNewLocalComputedTokens := numLocal
            numExternalComputedTokens := ext
            loadKvAsync := loadKvAsync
            numComputedTokens := numLocal + ext },
          p.withSched (p.sched.modify ref fun r =>
            { r with numExternalComputedTokens := ext }))

/-- What to schedule for a waiting request; none when the loop has to stop. -/
def planWaiting (env : ScheduleEnv) (p : Pass D C) (ref : Ref) (c : Computed) :
    Py (Option Plan × Pass D C) := do
  let config := p.sched.config
  let r := p.request ref
  let (plan, p) ← (if c.loadKvAsync then do
      pyAssert (0 < c.numExternalComputedTokens) "num_external_computed_tokens > 0"
      pure (some { numNewTokens := 0, newEncoderComputeBudget := p.encoderComputeBudget }, p)
    else
      let n : Int := r.numTokens - c.numComputedTokens
      let threshold : Int := config.longPrefillTokenThreshold
      let n := if 0 < threshold ∧ threshold < n then threshold else n
      if config.enableChunkedPrefill = false ∧ p.tokenBudget < n then pure (none, p)
      else do
        let n := min n p.tokenBudget
        pyAssert (0 < n) "num_new_tokens > 0"
        let (plan, p) ← p.tryScheduleEncoderInputs env ref c.numComputedTokens n
        pure (if plan.numNewTokens = 0 then none else some plan, p) :
    Py (Option Plan × Pass D C))
  match plan with
  | none => pure (none, p)
  | some plan =>
    if config.needMambaBlockAlignedSplit then
      let n ← mambaBlockAlignedSplit config r plan.numNewTokens c.numNewLocalComputedTokens
        c.numExternalComputedTokens
      pure (if n = 0 then none else some { plan with numNewTokens := n }, p)
    else pure (some plan, p)

/-- `encoder_cache_manager.free`, for a request with encoder inputs. -/
def untouchEncoderInputs (p : Pass D C) (ref : Ref) : Py (Pass D C) :=
  if (p.request ref).hasEncoderInputs then do
    let cache ← p.sched.encoderCacheManager.free (p.request ref)
    pure (p.withSched { p.sched with encoderCacheManager := cache })
  else pure p

def numEncoderTokens (p : Pass D C) (ref : Ref) (plan : Plan) : Py Nat :=
  if p.sched.config.isEncoderDecoder then
    List.sum <$> plan.encoderInputsToSchedule.mapM (p.request ref).getNumEncoderEmbeds
  else pure 0

/-- Allocate the slots of a waiting request; false when there are not enough. -/
def allocateWaiting (p : Pass D C) (ref : Ref) (c : Computed) (plan : Plan) :
    Py (Bool × Pass D C) := do
  let s := p.sched
  let r := p.request ref
  let numLookaheadTokens := if r.numComputedTokens = 0 then 0 else s.config.numLookaheadTokens
  let numEncoderTokens ← p.numEncoderTokens ref plan
  let fits ← (if s.config.schedulerReserveFullIsl then
      s.kvCacheManager.canFitFullSequence r c.numNewLocalComputedTokens c.newComputedBlocks
        c.numExternalComputedTokens numEncoderTokens
    else pure true : Py Bool)
  if fits = false then
    let p ← p.untouchEncoderInputs ref
    pure (false, p)
  else
    let (kv, newBlocks) ← s.kvCacheManager.allocateSlots s.config.hashFns r
      c.numNewLocalComputedTokens c.newComputedBlocks
      { numNewTokens := plan.numNewTokens
        numLookaheadTokens := numLookaheadTokens
        numExternalComputedTokens := c.numExternalComputedTokens
        delayCacheBlocks := c.loadKvAsync
        numEncoderTokens := numEncoderTokens }
    let p := p.withSched { s with kvCacheManager := kv }
    match newBlocks with
    | none =>
      let p ← p.untouchEncoderInputs ref
      pure (false, p)
    | some _ => pure (true, p)

def updateStateAfterAlloc (p : Pass D C) (ref : Ref) (numExternalComputedTokens : Nat) :
    Py (Pass D C) :=
  match p.sched.connector with
  | none => pure p
  | some state => do
    let kv := p.sched.kvCacheManager
    let r := p.request ref
    let (refs, state) ← C.updateStateAfterAlloc state kv.blockPool r (kv.getBlocks r.requestId)
      numExternalComputedTokens
    let s ← p.sched.applyPoolRefs refs
    pure (p.withSched { s with connector := some state })

def admitLoading (p : Pass D C) (ref : Ref) (c : Computed) : Pass D C :=
  let s := p.sched.modify ref fun r =>
    { r with status := .waitingForRemoteKvs, numComputedTokens := c.numComputedTokens }
  { p with
    sched := s
    stepSkippedWaiting :=
      RequestQueue.prependRequest s.config.policy p.sched.lt p.stepSkippedWaiting ref }

def admitted (numComputedTokens : Int) (r : Request D) : Request D :=
  { r with
    status := .running
    numComputedTokens := numComputedTokens
    numCachedTokens := if r.numCachedTokens < 0 then numComputedTokens else r.numCachedTokens }

def recordAdmission (p : Pass D C) (ref : Ref) : Py (Pass D C) :=
  match (p.request ref).status with
  | .waiting => pure { p with scheduledNewReqs := p.scheduledNewReqs ++ [ref] }
  | .preempted => pure { p with scheduledResumedReqs := p.scheduledResumedReqs ++ [ref] }
  | _ => throw (.runtimeError "Invalid request status")

def admitRunning (p : Pass D C) (ref : Ref) (c : Computed) (plan : Plan) : Py (Pass D C) := do
  let r := p.request ref
  let n := plan.numNewTokens
  let p := p.withSched { p.sched with running := p.sched.running ++ [ref] }
  let p ← p.recordAdmission ref
  let p := { p with
    scheduledLoras :=
      match p.sched.config.maxLoras, r.loraRequest with
      | some _, some lora => p.scheduledLoras.insert lora.loraIntId
      | _, _ => p.scheduledLoras
    reqToNewBlocks :=
      p.reqToNewBlocks.set r.requestId (p.sched.kvCacheManager.getBlocks r.requestId)
    numScheduledTokens := p.numScheduledTokens.set r.requestId n
    tokenBudget := p.tokenBudget - n
    sched := p.sched.modify ref (admitted c.numComputedTokens) }
  p.scheduleEncoderInputs ref plan

/-- Whether the adapter of a request does not fit beside the scheduled ones. -/
def exceedsMaxLoras (p : Pass D C) (r : Request D) : Bool :=
  match p.sched.config.maxLoras, r.loraRequest with
  | some maxLoras, some lora =>
    p.scheduledLoras.length = maxLoras ∧ lora.loraIntId ∉ p.scheduledLoras
  | _, _ => false

/-- Try to admit a request at the head of a queue, once its computed tokens are known. -/
def admitWaiting (env : ScheduleEnv) (p : Pass D C) (q : QueueName) (ref : Ref) (c : Computed) :
    Py (Bool × Pass D C) := do
  let (plan, p) ← p.planWaiting env ref c
  match plan with
  | none => pure (false, p)
  | some plan =>
    let (allocated, p) ← p.allocateWaiting ref c plan
    if allocated = false then pure (false, p)
    else
      let p ← p.updateStateAfterAlloc ref c.numExternalComputedTokens
      let (ref, rest) ←
        RequestQueue.popRequest p.sched.config.policy p.sched.lt (p.sched.queue q)
      let p := p.withSched (p.sched.setQueue q rest)
      if c.loadKvAsync then pure (true, p.admitLoading ref c)
      else
        let p ← p.admitRunning ref c plan
        pure (true, p)

/-- One turn of the loop over the waiting queues, for the request at the head of a
queue.  The flag says whether the loop goes on. -/
def waitingTurn (env : ScheduleEnv) (p : Pass D C) (q : QueueName) (ref : Ref) :
    Py (Bool × Pass D C) := do
  let (schedulable, s) ← (if (p.request ref).status.isBlockedWaiting then
      tryPromote env p.sched ref
    else pure (true, p.sched) : Py (Bool × Scheduler D C))
  let p := p.withSched s
  if schedulable = false ∨ p.exceedsMaxLoras (p.request ref) then
    let p ← p.skipWaiting q
    pure (true, p)
  else
    let (computed, p) ← p.findComputed ref
    match computed with
    | none =>
      let p ← p.skipWaiting q
      pure (true, p)
    | some c => p.admitWaiting env q ref c

def waitingLoop (env : ScheduleEnv) : Nat → Pass D C → Py (Pass D C)
  | 0, p => pure p
  | fuel + 1, p =>
    match p.sched.selectWaitingQueueForScheduling with
    | none => pure p
    | some q =>
      if p.tokenBudget ≤ 0 ∨ p.sched.running.length = p.sched.config.maxNumRunningReqs then
        pure p
      else do
        let ref ← RequestQueue.peekRequest p.sched.config.policy (p.sched.queue q)
        let (goOn, p) ← p.waitingTurn env q ref
        if goOn then waitingLoop env fuel p else pure p

def requeueSkipped (p : Pass D C) : Pass D C :=
  let s := p.sched
  { p with
    sched := { s with
      skippedWaiting :=
        RequestQueue.prependRequests s.config.policy s.lt s.skippedWaiting p.stepSkippedWaiting }
    stepSkippedWaiting := [] }

/-- The second half of the pass: no request is admitted after a preemption. -/
def scheduleWaiting (env : ScheduleEnv) (p : Pass D C) : Py (Pass D C) :=
  if p.preemptedReqs.isEmpty ∧ p.sched.pauseState = .unpaused then do
    let p ← waitingLoop env (p.sched.waiting.length + p.sched.skippedWaiting.length) p
    pure p.requeueSkipped
  else pure p

def start (s : Scheduler D C) : Pass D C where
  sched := { s with kvCacheManager := s.kvCacheManager.newStepStarts }
  tokenBudget := if s.pauseState = .pausedAll then 0 else s.config.maxNumScheduledTokens
  encoderComputeBudget := s.config.maxNumEncoderInputTokens

def loops (env : ScheduleEnv) (s : Scheduler D C) : Py (Pass D C) := do
  let p ← runningLoop env s.running.length (start s)
  let p ← p.recordLoras
  p.scheduleWaiting env

end Pass

/-! ## The output -/

/-- The entry of `_make_cached_request_data` for one request. -/
def addCachedRequest (p : Pass D C) (d : CachedRequestData) (e : Ref × Bool) :
    Py CachedRequestData := do
  let s := p.sched
  let (ref, resumed) := e
  let r := s.objs ref
  let rid := r.requestId
  let newTokenIds ← (if s.config.usePp ∧ s.config.asyncScheduling = false then do
      -- Without async scheduling the sampled tokens go back to the first stage.
      let numScheduled ← p.numScheduledTokens.get rid
      let numTokens := numScheduled - ((p.scheduledSpecDecodeTokens.get? rid).getD []).length
      pure (d.newTokenIds ++
        [pySlice r.allTokenIds r.numComputedTokens (r.numComputedTokens + numTokens)])
    else pure d.newTokenIds : Py (List (List Token)))
  let scheduledInPrevStep : Bool := rid ∈ s.prevStepScheduledReqIds
  pyAssert (¬(resumed ∧ scheduledInPrevStep)) "not scheduled_in_prev_step"
  let newBlocks ← p.reqToNewBlocks.get rid
  pure
    { reqIds := d.reqIds ++ [rid]
      resumedReqIds := if resumed then d.resumedReqIds ++ [rid] else d.resumedReqIds
      newTokenIds := newTokenIds
      allTokenIds := if scheduledInPrevStep then d.allTokenIds
        else d.allTokenIds.set rid r.allTokenIds
      newBlockIds := d.newBlockIds ++
        [if newBlocks.any (!·.isEmpty) then some newBlocks else none]
      numComputedTokens := d.numComputedTokens ++ [r.numComputedTokens]
      numOutputTokens := d.numOutputTokens ++ [r.numOutputTokens + r.numOutputPlaceholders] }

def makeCachedRequestData (p : Pass D C) (runningReqs resumedReqs : List Ref) :
    Py CachedRequestData :=
  (runningReqs.map (·, false) ++ resumedReqs.map (·, true)).foldlM (addCachedRequest p) {}

/-- `NewRequestData.from_request` for one request of a pass. -/
def newRequestData (p : Pass D C) (ref : Ref) : Py NewRequestData := do
  let r := p.sched.objs ref
  let blocks ← p.reqToNewBlocks.get r.requestId
  pure (.fromRequest r blocks
    (if p.sched.config.useV2ModelRunner then some r.allTokenIds else none))

def checkPass (p : Pass D C) : Py Unit := do
  let s := p.sched
  pyAssert (p.numScheduledTokens.values.sum ≤ s.config.maxNumScheduledTokens)
    "total_num_scheduled_tokens <= self.max_num_scheduled_tokens"
  pyAssert (0 ≤ p.tokenBudget) "token_budget >= 0"
  pyAssert (s.running.length ≤ s.config.maxNumRunningReqs)
    "len(self.running) <= self.max_num_running_reqs"
  pyAssert (p.scheduledNewReqs.length + p.scheduledResumedReqs.length +
      p.scheduledRunningReqs.length ≤ s.running.length)
    "len(scheduled_new_reqs) + len(scheduled_resumed_reqs) + len(scheduled_running_reqs)"

/-- The scheduler output of a pass, before the connector adds its metadata. -/
def makeSchedulerOutput (p : Pass D C) : Py (SchedulerOutput C.Metadata) := do
  checkPass p
  let s := p.sched
  let kv := s.kvCacheManager
  let v2 := s.config.useV2ModelRunner
  let newReqs := if v2 then p.scheduledNewReqs ++ p.scheduledResumedReqs else p.scheduledNewReqs
  let resumedReqs := if v2 then [] else p.scheduledResumedReqs
  let newReqsData ← newReqs.mapM (newRequestData p)
  let cachedReqsData ← makeCachedRequestData p p.scheduledRunningReqs resumedReqs
  let toZero := kv.takeNewBlockIds.1
  pure
    { scheduledNewReqs := newReqsData
      scheduledCachedReqs := cachedReqsData
      numScheduledTokens := p.numScheduledTokens
      totalNumScheduledTokens := p.numScheduledTokens.values.sum
      scheduledSpecDecodeTokens := p.scheduledSpecDecodeTokens
      scheduledEncoderInputs := p.scheduledEncoderInputs
      numCommonPrefixBlocks :=
        match s.running with
        | [] => kv.coordinator.kvCacheConfig.kvCacheGroups.map fun _ => 0
        | ref :: _ => kv.getNumCommonPrefixBlocks (s.objs ref).requestId
      finishedReqIds := s.finishedReqIds
      freeEncoderMmHashes := s.encoderCacheManager.getFreedMmHashes.1
      preemptedReqIds := (p.preemptedReqs.map fun ref => (s.objs ref).requestId).dedup
      newBlockIdsToZero :=
        if s.config.needsKvCacheZeroing ∧ toZero ≠ [] then some toZero else none }

def afterOutput (p : Pass D C) : Scheduler D C :=
  let s := p.sched
  { s with
    prevStepScheduledReqIds := p.numScheduledTokens.keys
    encoderCacheManager := s.encoderCacheManager.getFreedMmHashes.2
    kvCacheManager := if s.config.needsKvCacheZeroing then s.kvCacheManager.takeNewBlockIds.2
      else s.kvCacheManager }

def buildKvConnectorMeta (s : Scheduler D C) (output : SchedulerOutput C.Metadata) :
    Py (SchedulerOutput C.Metadata × Scheduler D C) :=
  match s.connector with
  | none => pure (output, s)
  | some state => do
    let (metadata, refs, state) ←
      C.buildConnectorMeta state s.kvCacheManager.blockPool s.lookup output
    let s ← s.applyPoolRefs refs
    pure ({ output with kvConnectorMetadata := some metadata },
      { s with connector := some state })

/-! ## After the output was made -/

def encoderInputDone (config : SchedulerConfig D) (r : Request D) (inputId : Nat) : Bool :=
  match r.mmFeatures[inputId]? with
  | none => false
  | some f =>
    (config.isEncoderDecoder ∧ 0 < r.numComputedTokens) ∨
      ((f.mmPosition.offset + f.mmPosition.length : Nat) : Int) ≤ r.numComputedTokens

def freeEncoderInputs (s : Scheduler D C) (ref : Ref) : Py (Scheduler D C) := do
  let r := s.objs ref
  let ids := (s.encoderCacheManager.getCachedInputIds r).filter (encoderInputDone s.config r)
  let cache ← ids.foldlM (EncoderCache.freeEncoderInput r) s.encoderCacheManager
  pure { s with encoderCacheManager := cache }

/-- The request after `n` tokens of it were scheduled. -/
def advanced (n : Int) (r : Request D) : Request D :=
  { r with
    numComputedTokens := r.numComputedTokens + n
    isPrefillChunk := r.numComputedTokens + n < r.numTokens + r.numOutputPlaceholders }

/-- The loop body of `Scheduler._update_after_schedule`. -/
def advanceRequest (st : SchedulerOutput C.Metadata × Scheduler D C) (e : ReqId × Int) :
    Py (SchedulerOutput C.Metadata × Scheduler D C) := do
  let (output, s) := st
  let ref ← s.requests.get e.1
  let s := s.modify ref (advanced e.2)
  let r := s.objs ref
  let s ← (if r.hasEncoderInputs then s.freeEncoderInputs ref else pure s : Py (Scheduler D C))
  pure
    ({ output with
        hasStructuredOutputRequests := output.hasStructuredOutputRequests ||
          (r.usesStructuredOutput && !r.isPrefillChunk) }, s)

def withPlaceholders (numSpecTokens curNumSpecTokens : Nat) (r : Request D) : Request D :=
  { r with
    numOutputPlaceholders := r.numOutputPlaceholders + (1 + curNumSpecTokens)
    specTokenIds := List.replicate numSpecTokens (-1) }

/-- The loop body of `AsyncScheduler._update_after_schedule`. -/
def addPlaceholders (st : SchedulerOutput C.Metadata × Scheduler D C) (rid : ReqId) :
    Py (SchedulerOutput C.Metadata × Scheduler D C) := do
  let (output, s) := st
  let ref ← s.requests.get rid
  let r := s.objs ref
  if r.isPrefillChunk then pure (output, s)
  else
    let curNumSpecTokens := ((output.scheduledSpecDecodeTokens.get? rid).getD []).length
    pure
      ({ output with
          pendingStructuredOutputTokens := output.pendingStructuredOutputTokens ||
            (r.usesStructuredOutput && decide (0 < r.numOutputPlaceholders)) },
        s.modify ref (withPlaceholders s.config.numSpecTokens curNumSpecTokens))

/-- `_update_after_schedule`, of the class the configuration selects. -/
def updateAfterSchedule (output : SchedulerOutput C.Metadata) (s : Scheduler D C) :
    Py (SchedulerOutput C.Metadata × Scheduler D C) := do
  let (output, s) ← output.numScheduledTokens.entries.foldlM advanceRequest (output, s)
  let s := { s with finishedReqIds := [] }
  if s.config.asyncScheduling then
    output.numScheduledTokens.keys.foldlM addPlaceholders (output, s)
  else pure (output, s)

/-- The end of `schedule`. -/
def finishPass (p : Pass D C) : Py (SchedulerOutput C.Metadata × Scheduler D C) := do
  let output ← makeSchedulerOutput p
  let (output, s) ← buildKvConnectorMeta (afterOutput p) output
  updateAfterSchedule output s

def schedule (env : ScheduleEnv) (s : Scheduler D C) :
    Py (SchedulerOutput C.Metadata × Scheduler D C) := do
  let p ← Pass.loops env s
  finishPass p

end Scheduler

end VllmCore
