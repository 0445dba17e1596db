import VllmCore.Support.Py
/-!
# Requests

The request object of the engine core: its tokens, its status and the counters
that the scheduler keeps on it.  A request is a value; the objects that the
scheduler shares are kept in its own store.

Request ids are strings in the source, and the code only compares them; they
are numbers here.  `D` is the type of the digests that the block hash function
returns.
-/

namespace VllmCore

open Support

abbrev ReqId := Nat

/-- A token id; `-1` is the placeholder of a token not known yet. -/
abbrev Token := Int

/-- The status of a request.  Everything after `preempted` is finished. -/
inductive RequestStatus
  | waiting
  | waitingForStructuredOutputGrammar
  | waitingForRemoteKvs
  | waitingForStreamingReq
  | running
  | preempted
  | finishedStopped
  | finishedLengthCapped
  | finishedAborted
  | finishedIgnored
  | finishedError
  | finishedRepetition
  deriving DecidableEq, Repr

/-- Why a request ended, as reported to the client. -/
inductive FinishReason
  | stop
  | length
  | abort
  | error
  | repetition
  deriving DecidableEq, Repr

namespace RequestStatus

/-- `RequestStatus.is_finished`: the enumeration value lies after `PREEMPTED`. -/
def isFinished : RequestStatus → Bool
  | finishedStopped | finishedLengthCapped | finishedAborted
  | finishedIgnored | finishedError | finishedRepetition => true
  | _ => false

/-- The table `_FINISHED_REASON_MAP`.  A session that waits for its next input
reports `stop` for the input it has just finished. -/
def getFinishedReason : RequestStatus → Option FinishReason
  | finishedStopped => some .stop
  | finishedLengthCapped => some .length
  | finishedAborted => some .abort
  | finishedIgnored => some .length
  | finishedError => some .error
  | waitingForStreamingReq => some .stop
  | finishedRepetition => some .repetition
  | _ => none

/-- The statuses that keep a request in `skipped_waiting`. -/
def isBlockedWaiting : RequestStatus → Bool
  | waitingForStructuredOutputGrammar | waitingForRemoteKvs
  | waitingForStreamingReq => true
  | _ => false

end RequestStatus

structure PlaceholderRange where
  offset : Nat
  length : Nat
  isEmbed : Option (List Bool) := none
  deriving DecidableEq, Repr

def PlaceholderRange.getNumEmbeds (p : PlaceholderRange) : Nat :=
  match p.isEmbed with
  | none => p.length
  | some mask => mask.count true

structure MultiModalFeatureSpec where
  identifier : String
  mmPosition : PlaceholderRange
  deriving DecidableEq, Repr

structure RepetitionDetectionParams where
  maxPatternSize : Int
  minPatternSize : Int
  minCount : Int
  deriving DecidableEq, Repr

structure SamplingParams where
  maxTokens : Nat
  minTokens : Nat := 0
  eosTokenId : Option Token := none
  stopTokenIds : List Token := []
  repetitionDetection : Option RepetitionDetectionParams := none
  skipReadingPrefixCache : Option Bool := none
  deriving DecidableEq, Repr

structure PoolingParams where
  skipReadingPrefixCache : Option Bool := none
  deriving DecidableEq, Repr

structure LoRARequest where
  loraName : String
  loraIntId : Int
  adapterId : Int
  deriving DecidableEq, Repr

structure StreamingUpdate where
  mmFeatures : List MultiModalFeatureSpec
  promptTokenIds : Option (List Token)
  maxTokens : Nat
  arrivalTime : Nat
  samplingParams : Option SamplingParams
  deriving DecidableEq, Repr

/-- Why a request stopped: a stop token, or the repetition check. -/
inductive StopReason
  | token (t : Token)
  | repetitionDetected
  deriving DecidableEq, Repr

/-- A request.  `promptEmbeds` keeps one number for each embedding row. -/
structure Request (D : Type) where
  requestId : ReqId
  clientIndex : Nat := 0
  priority : Int := 0
  arrivalTime : Nat := 0
  samplingParams : Option SamplingParams := none
  poolingParams : Option PoolingParams := none
  loraRequest : Option LoRARequest := none
  usesStructuredOutput : Bool := false
  status : RequestStatus := .waiting
  stopReason : Option StopReason := none
  maxTokens : Nat := 0
  promptTokenIds : Option (List Token) := none
  promptEmbeds : Option (List Nat) := none
  numPromptTokens : Nat := 0
  outputTokenIds : List Token := []
  allTokenIds : List Token := []
  numOutputPlaceholders : Int := 0
  discardLatestAsyncTokens : Bool := false
  specTokenIds : List Token := []
  numComputedTokens : Int := 0
  cacheSalt : Option String := none
  mmFeatures : List MultiModalFeatureSpec := []
  numCachedTokens : Int := -1
  isPrefillChunk : Bool := false
  numPreemptions : Nat := 0
  numExternalComputedTokens : Int := 0
  blockHashes : List D := []
  skipReadingPrefixCache : Bool := false
  resumable : Bool := false
  streamingQueue : Option (List (Option StreamingUpdate)) := none
  deriving DecidableEq

namespace Request

variable {D : Type}

/-- `len(self._all_token_ids)`. -/
def numTokens (r : Request D) : Nat := r.allTokenIds.length

def numTokensWithSpec (r : Request D) : Nat :=
  r.allTokenIds.length + r.specTokenIds.length

def numOutputTokens (r : Request D) : Nat := r.outputTokenIds.length

def hasEncoderInputs (r : Request D) : Bool := !r.mmFeatures.isEmpty

def isFinished (r : Request D) : Bool := r.status.isFinished

def getFinishedReason (r : Request D) : Option FinishReason := r.status.getFinishedReason

def getNumEncoderEmbeds (r : Request D) (inputId : Nat) : Py Nat :=
  match r.mmFeatures[inputId]? with
  | some f => .ok f.mmPosition.getNumEmbeds
  | none => .error (.assertionError "input_id < len(self.mm_features)")

/-- The order of the priority queues: priority, arrival time, request id.  The
last resort of the source, the address of the object, is not modelled: two live
requests never share an id. -/
def lt (a b : Request D) : Bool :=
  if a.priority ≠ b.priority then a.priority < b.priority
  else if a.arrivalTime ≠ b.arrivalTime then a.arrivalTime < b.arrivalTime
  else a.requestId < b.requestId

def getSkipReadingPrefixCache (sampling : Option SamplingParams)
    (pooling : Option PoolingParams) : Bool :=
  match sampling.bind (·.skipReadingPrefixCache) with
  | some b => b
  | none => ((pooling.bind (·.skipReadingPrefixCache)).getD false)

/-- Append the hashes of the blocks that have become full.  `hasher` is the
block hasher of the engine, absent when nothing reads the hashes. -/
def updateBlockHashes (hasher : Option (Request D → List D)) (r : Request D) : Request D :=
  match hasher with
  | none => r
  | some f => { r with blockHashes := r.blockHashes ++ f r }

/-- `append_output_token_ids`, for one token or several. -/
def appendOutputTokenIds (hasher : Option (Request D → List D)) (r : Request D)
    (tokenIds : List Token) : Request D :=
  updateBlockHashes hasher
    { r with
      outputTokenIds := r.outputTokenIds ++ tokenIds
      allTokenIds := r.allTokenIds ++ tokenIds }

structure Args where
  requestId : ReqId
  promptTokenIds : Option (List Token)
  samplingParams : Option SamplingParams
  poolingParams : Option PoolingParams := none
  clientIndex : Nat := 0
  arrivalTime : Nat := 0
  promptEmbeds : Option (List Nat) := none
  mmFeatures : List MultiModalFeatureSpec := []
  loraRequest : Option LoRARequest := none
  cacheSalt : Option String := none
  priority : Int := 0
  usesStructuredOutput : Bool := false
  resumable : Bool := false

/-- The maximal number of output tokens; a pooling model has one. -/
def initMaxTokens (a : Args) : Py Nat :=
  match a.poolingParams, a.samplingParams with
  | some _, _ => pure 1
  | none, some p => pure p.maxTokens
  | none, none =>
    throw (.valueError "sampling_params and pooling_params can't both be unset")

def lengthFromPromptTokenIdsOrEmbeds (promptTokenIds : Option (List Token))
    (promptEmbeds : Option (List Nat)) : Py Nat :=
  match promptTokenIds, promptEmbeds with
  | none, none =>
    throw (.valueError "Neither prompt_token_ids nor prompt_embeds were defined.")
  | none, some e => pure e.length
  | some t, none => pure t.length
  | some t, some e => do
    require (t.length = e.length)
      (.valueError "Prompt token ids and prompt embeds had different lengths")
    pure t.length

/-- `Request.__init__`. -/
def create (hasher : Option (Request D → List D)) (a : Args) : Py (Request D) := do
  let maxTokens ← initMaxTokens a
  let numPromptTokens ← lengthFromPromptTokenIdsOrEmbeds a.promptTokenIds a.promptEmbeds
  let status : RequestStatus :=
    if a.poolingParams.isNone && a.usesStructuredOutput then
      .waitingForStructuredOutputGrammar
    else .waiting
  pure <| updateBlockHashes hasher
    { requestId := a.requestId
      clientIndex := a.clientIndex
      priority := a.priority
      arrivalTime := a.arrivalTime
      samplingParams := a.samplingParams
      poolingParams := a.poolingParams
      loraRequest := a.loraRequest
      usesStructuredOutput := a.usesStructuredOutput
      status := status
      maxTokens := maxTokens
      promptTokenIds := a.promptTokenIds
      promptEmbeds := a.promptEmbeds
      numPromptTokens := numPromptTokens
      allTokenIds := a.promptTokenIds.getD (List.replicate numPromptTokens 0)
      cacheSalt := a.cacheSalt
      mmFeatures := a.mmFeatures
      skipReadingPrefixCache :=
        getSkipReadingPrefixCache a.samplingParams a.poolingParams
      resumable := a.resumable }

/-- `StreamingUpdate.from_request`. -/
def toStreamingUpdate (r : Request D) : Option StreamingUpdate :=
  if r.resumable then
    some
      { mmFeatures := r.mmFeatures
        promptTokenIds := r.promptTokenIds
        maxTokens := r.maxTokens
        arrivalTime := r.arrivalTime
        samplingParams := r.samplingParams }
  else none

end Request

/-- `_has_repeating_pattern`: the last `patternLen` tokens repeat
`repetitionMinCount` times at the end of the sequence. -/
def hasRepeatingPattern (tokenIds : List Token) (patternLen repetitionMinCount : Nat) :
    Bool :=
  (List.range patternLen).all fun n =>
    (List.range (repetitionMinCount - 1)).all fun m =>
      tokenIds.reverse[patternLen * (m + 1) + n]? == tokenIds.reverse[n]?

def checkSequenceRepetition (tokenIds : List Token) (params : RepetitionDetectionParams) :
    Bool :=
  let minPatternSize := if params.minPatternSize ≤ 0 then 1 else params.minPatternSize
  if params.maxPatternSize ≤ 0 ∨ params.minCount < 2 ∨
      minPatternSize > params.maxPatternSize then false
  else go params.minCount.toNat minPatternSize.toNat
    (params.maxPatternSize - minPatternSize + 1).toNat
where
  /-- The loop over the pattern lengths, `left` of them still to try. -/
  go (minCount patternLen : Nat) : Nat → Bool
    | 0 => false
    | left + 1 =>
      if patternLen * minCount > tokenIds.length then false
      else if hasRepeatingPattern tokenIds patternLen minCount then true
      else go minCount (patternLen + 1) left

/-- `check_stop`: the request with its final status, and whether it stopped. -/
def checkStop {D : Type} (r : Request D) (maxModelLen : Nat) : Py (Request D × Bool) := do
  pyAssert (r.poolingParams.isNone) "not request.pooling_params"
  match r.samplingParams with
  | none => throw (.assertionError "sampling_params is not None")
  | some p =>
    if r.numOutputTokens < p.minTokens then
      pure (r, false)
    else
      match r.outputTokenIds.getLast? with
      | none => throw (.indexError "list index out of range")
      | some lastTokenId =>
        if some lastTokenId = p.eosTokenId then
          pure ({ r with status := .finishedStopped }, true)
        else if lastTokenId ∈ p.stopTokenIds then
          pure ({ r with status := .finishedStopped, stopReason := some (.token lastTokenId) },
            true)
        else if maxModelLen ≤ r.numTokens ∨ r.maxTokens ≤ r.numOutputTokens then
          pure ({ r with status := .finishedLengthCapped }, true)
        else if p.repetitionDetection.elim false (checkSequenceRepetition r.outputTokenIds) then
          pure ({ r with status := .finishedRepetition, stopReason := some .repetitionDetected },
            true)
        else pure (r, false)

end VllmCore
