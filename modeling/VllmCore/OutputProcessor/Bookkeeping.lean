import VllmCore.OutputProcessor
/-!
# The bookkeeping of the output processor

`OutputProcessor` keeps the states of the unfinished requests by their internal ids, the
parents of parallel samples, and for every external id the internal ids that have it.  A
request leaves when it finishes, when a session of streamed inputs ends, or when it is
aborted by its own id, that of its parent or its external id.

Queues are followed only in whether a request has one; requests generate tokens.
-/

namespace VllmCore

open Function Support

variable {σ L R : Type}

abbrev RequestId := List Char

/-- The id of a child: `f"{index}_{request_id}"`. -/
def childReqId (index : Nat) (requestId : RequestId) : RequestId :=
  Nat.toDigits 10 index ++ '_' :: requestId

/-- A `ParentRequest` with the number of children it was asked for, and the indices of the
children whose finished output was delivered. -/
structure ParentEntry (L : Type) where
  request : ParentRequest L
  numChildren : Nat := 0
  delivered : List Nat := []

/-- `ParentRequest.__init__`. -/
def ParentEntry.new (outputKind : RequestOutputKind) (n : Nat) : ParentEntry L where
  request :=
    { outputKind := outputKind
      childRequests := []
      outputAggregator := if outputKind = .finalOnly then List.replicate n none else [] }

/-- `get_child_info`: the next child. -/
def ParentEntry.getChildInfo (e : ParentEntry L) : ParentEntry L :=
  { e with
    request := { e.request with childRequests := e.request.childRequests ++ [e.numChildren] }
    numChildren := e.numChildren + 1 }

/-- A `RequestState` with what the bookkeeping reads. -/
structure RequestEntry (σ L : Type) where
  externalReqId : RequestId
  parentReq : Option RequestId
  state : RequestState σ L
  hasQueue : Bool

structure NewRequest (σ L : Type) where
  externalReqId : RequestId
  outputKind : RequestOutputKind
  detokenizer : IncrementalDetokenizer σ
  logprobs : Option (List L)
  streamInterval : Nat
  resumable : Bool
  hasQueue : Bool

def RequestEntry.fromNewRequest (request : NewRequest σ L) (parentReq : Option RequestId)
    (requestIndex : Nat) : RequestEntry σ L where
  externalReqId := request.externalReqId
  parentReq := parentReq
  state :=
    { requestIndex := requestIndex
      outputKind := request.outputKind
      detokenizer := request.detokenizer
      logprobs := request.logprobs
      streamInterval := request.streamInterval
      streamingInput := request.resumable
      inputChunkQueue := if request.resumable then some [] else none }
  hasQueue := request.hasQueue

/-- `OutputProcessor`, and the parents by their ids whether they are registered or not. -/
structure OutputProcessor (σ L : Type) where
  requestStates : RequestId → Option (RequestEntry σ L) := fun _ => none
  parentRequests : List RequestId := []
  externalReqIds : RequestId → Option (List RequestId) := fun _ => none
  parents : RequestId → ParentEntry L := fun _ => ParentEntry.new .delta 0

namespace OutputProcessor

/-! ## Leaving -/

/-- An internal id is removed from the list of its external id, and an empty list with it. -/
def untrack (s : OutputProcessor σ L) (requestId externalReqId : RequestId) :
    Py (OutputProcessor σ L) :=
  let internalIds := (s.externalReqIds externalReqId).getD []
  if requestId ∈ internalIds then
    let internalIds := internalIds.erase requestId
    pure
      { s with
        externalReqIds := update s.externalReqIds externalReqId
          (if internalIds = [] then none else some internalIds) }
  else throw (.valueError "list.remove(x): x not in list")

/-- `request_states.pop(request_id, None)`. -/
def popState (s : OutputProcessor σ L) (requestId : RequestId) : OutputProcessor σ L :=
  { s with requestStates := update s.requestStates requestId none }

/-- `parent_requests.pop(request_id, None)`. -/
def popParent (s : OutputProcessor σ L) (requestId : RequestId) : OutputProcessor σ L :=
  { s with parentRequests := s.parentRequests.filter (· ≠ requestId) }

/-- `make_request_output`, which tells the parent of a child that finishes. -/
def makeRequestOutput (s : OutputProcessor σ L) (r : RequestEntry σ L) (newTokenIds : List Token)
    (finishReason : Option FinishReason) (stopReason : Option OutputStopReason) :
    Option (RequestOutput L) × RequestState σ L × OutputProcessor σ L :=
  match r.parentReq with
  | none =>
    let (output, state, _) := r.state.makeRequestOutput none newTokenIds finishReason stopReason
    (output, state, s)
  | some p =>
    let e := s.parents p
    let (output, state, parent) :=
      r.state.makeRequestOutput (some e.request) newTokenIds finishReason stopReason
    let outputs := (output.map RequestOutput.outputs).getD []
    let delivered := (outputs.filter fun o => o.finishReason.isSome).map CompletionOutput.index
    (output, state,
      { s with
        parents := update s.parents p
          { e with
            request := parent.getD e.request
            delivered := e.delivered ++ delivered } })

def finishRequest (s : OutputProcessor σ L) (requestId : RequestId) (r : RequestEntry σ L) :
    Py (OutputProcessor σ L) := do
  let s ← (s.popState requestId).untrack requestId r.externalReqId
  match r.parentReq with
  | none => pure s
  | some p => pure (if (s.parents p).request.childRequests = [] then s.popParent p else s)

/-! ## `abort_requests` -/

def untrackNamed (s : OutputProcessor σ L) (requestId : RequestId) : Py (OutputProcessor σ L) :=
  match s.requestStates requestId with
  | none => pure s
  | some r => s.untrack requestId r.externalReqId

/-- The first loop: the internal ids that are named.  Internal ids leave the lists of their
external ids, and external ids leave with their lists. -/
def namedRequests (s : OutputProcessor σ L) (requestIds : List RequestId) (internal : Bool) :
    Py (OutputProcessor σ L × List RequestId) :=
  if internal then do
    let s ← requestIds.foldlM untrackNamed s
    pure (s, requestIds)
  else
    pure (requestIds.foldl (fun acc requestId =>
      ({ acc.1 with externalReqIds := update acc.1.externalReqIds requestId none },
        acc.2 ++ (acc.1.externalReqIds requestId).getD [])) (s, []))

/-- The body of the second loop; `abortChildren` is the recursive call. -/
def abortNamed (abortChildren : OutputProcessor σ L → List RequestId →
      Py (OutputProcessor σ L × List RequestId))
    (acc : OutputProcessor σ L × List RequestId) (requestId : RequestId) :
    Py (OutputProcessor σ L × List RequestId) :=
  let (s, requestIdsToAbort) := acc
  match s.requestStates requestId with
  | some r =>
    let s := s.popState requestId
    let s := if r.hasQueue then (s.makeRequestOutput r [] (some .abort) none).2.2 else s
    pure (s, requestIdsToAbort ++ [requestId])
  | none =>
    if requestId ∈ s.parentRequests then do
      let childRequests := (s.parents requestId).request.childRequests
      let (s, childReqs) ←
        if childRequests = [] then pure (s, [])
        else abortChildren s (childRequests.map (childReqId · requestId))
      pure (s.popParent requestId, requestIdsToAbort ++ childReqs)
    else pure (s, requestIdsToAbort)

/-- `abort_requests`, down to a depth of recursion. -/
def abortRequests : Nat → OutputProcessor σ L → List RequestId → Bool →
    Py (OutputProcessor σ L × List RequestId)
  | 0, _, _, _ => throw (.runtimeError "maximum recursion depth exceeded")
  | depth + 1, s, requestIds, internal => do
    let (s, internalReqIds) ← s.namedRequests requestIds internal
    internalReqIds.foldlM (abortNamed fun s ids => abortRequests depth s ids true) (s, [])

/-! ## `add_request` -/

def setState (s : OutputProcessor σ L) (requestId : RequestId) (r : RequestEntry σ L)
    (state : RequestState σ L) : OutputProcessor σ L :=
  { s with
    requestStates := update s.requestStates requestId (some { r with state := state }) }

def updateStreamingRequestState (s : OutputProcessor σ L) (requestId : RequestId)
    (r : RequestEntry σ L) (resumable : Bool) : Py (OutputProcessor σ L) :=
  match resumable, r.state.inputChunkQueue with
  | false, none => s.finishRequest requestId r
  | false, some [] => pure (s.setState requestId r { r.state with streamingInput := false })
  | false, some chunks =>
    pure (s.setState requestId r
      { r.state with inputChunkQueue := some (chunks.dropLast ++ [true]) })
  | true, none =>
    pure (s.setState requestId r
      ({ r.state with inputChunkQueue := some [] }.applyStreamingUpdate false))
  | true, some chunks =>
    pure (s.setState requestId r
      { r.state with inputChunkQueue := some (chunks ++ [false]) })

def addRequest (s : OutputProcessor σ L) (requestId : RequestId) (request : NewRequest σ L)
    (parentReq : Option RequestId) (requestIndex : Nat) : Py (OutputProcessor σ L) :=
  match s.requestStates requestId with
  | some r => s.updateStreamingRequestState requestId r request.resumable
  | none =>
    let r := RequestEntry.fromNewRequest request parentReq requestIndex
    pure
      { s with
        requestStates := update s.requestStates requestId (some r)
        parentRequests :=
          match parentReq with
          | none => s.parentRequests
          | some p => if p ∈ s.parentRequests then s.parentRequests else s.parentRequests ++ [p]
        externalReqIds := update s.externalReqIds r.externalReqId
          (some ((s.externalReqIds r.externalReqId).getD [] ++ [requestId])) }

def addChild (s : OutputProcessor σ L) (p : RequestId) (request : NewRequest σ L) :
    Py (OutputProcessor σ L) :=
  let e := s.parents p
  { s with parents := update s.parents p e.getChildInfo }.addRequest
    (childReqId e.numChildren p) request (some p) e.numChildren

/-! ## `process_outputs` -/

/-- `OutputProcessorOutput`. -/
structure Outputs (L : Type) where
  requestOutputs : List (RequestOutput L) := []
  reqsToAbort : List RequestId := []

def afterFinish (s : OutputProcessor σ L) (requestId : RequestId) (r : RequestEntry σ L) :
    Py (OutputProcessor σ L) :=
  if r.state.streamingInput then
    match r.state.inputChunkQueue with
    | some (isFinal :: rest) =>
      pure (s.setState requestId r
        ({ r.state with inputChunkQueue := some rest }.applyStreamingUpdate isFinal))
    | _ => pure (s.setState requestId r { r.state with inputChunkQueue := none })
  else s.finishRequest requestId r

/-- The loop body of `process_outputs`. -/
def processOutput (position : List L → R → L) (acc : OutputProcessor σ L × Outputs L)
    (engineCoreOutput : RequestId × GeneratedOutput R) :
    Py (OutputProcessor σ L × Outputs L) :=
  let (s, outputs) := acc
  let (requestId, o) := engineCoreOutput
  match s.requestStates requestId with
  | none => pure (s, outputs)
  | some r => do
    let (stopString, state) ← r.state.updateFromOutput position o
    let (finishReason, stopReason) := o.finishReasons stopString
    let r := { r with state := state }
    let (output, state, s) := s.makeRequestOutput r o.newTokenIds finishReason stopReason
    let output := output.map fun output =>
      { output with finished := output.finished && !r.state.streamingInput }
    let outputs :=
      if r.hasQueue then outputs
      else { outputs with requestOutputs := outputs.requestOutputs ++ output.toList }
    let s := s.setState requestId r state
    match finishReason with
    | none => pure (s, outputs)
    | some _ => do
      let s ← s.afterFinish requestId { r with state := state }
      let abort := state.streamingInput = false ∧ o.finishReason = none
      pure (s, if abort then
        { outputs with reqsToAbort := outputs.reqsToAbort ++ [requestId] } else outputs)

def processOutputs (position : List L → R → L) (s : OutputProcessor σ L)
    (engineCoreOutputs : List (RequestId × GeneratedOutput R)) :
    Py (OutputProcessor σ L × Outputs L) :=
  engineCoreOutputs.foldlM (processOutput position) (s, {})

/-- A call, or a parent that is made for the children of a request. -/
inductive Op (σ L R : Type)
  | newParent (requestId : RequestId) (outputKind : RequestOutputKind) (n : Nat)
  | addChild (parentReq : RequestId) (request : NewRequest σ L)
  | addRequest (requestId : RequestId) (request : NewRequest σ L)
  | processOutputs (engineCoreOutputs : List (RequestId × GeneratedOutput R))
  | abortRequests (requestIds : List RequestId) (internal : Bool)

/-- Python's limit of the depth of recursion. -/
def recursionLimit : Nat := 1000

def run (position : List L → R → L) (s : OutputProcessor σ L) :
    Op σ L R → Py (OutputProcessor σ L)
  | .newParent requestId outputKind n =>
    pure { s with parents := update s.parents requestId (.new outputKind n) }
  | .addChild p request => s.addChild p request
  | .addRequest requestId request => s.addRequest requestId request none 0
  | .processOutputs outputs => do
    let (s, _) ← s.processOutputs position outputs
    pure s
  | .abortRequests requestIds internal => do
    let (s, _) ← s.abortRequests recursionLimit requestIds internal
    pure s

end OutputProcessor

end VllmCore
