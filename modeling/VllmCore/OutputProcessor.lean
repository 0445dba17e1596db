import VllmCore.OutputProcessor.Detokenizer
import VllmCore.Support.Transition
/-!
# The outputs of a request

The front-end turns the outputs of the engine into text, tokens and log probabilities
for one caller.  Parallel samples of a prompt share the collector of the caller, which
merges outputs as long as the caller does not take them.  A session with streamed input
stays after an output that finishes.  Decoding and the conversion of log probabilities,
which belong to the tokenizer, are parameters.
-/

namespace VllmCore

open Support

variable {σ L R : Type}

inductive RequestOutputKind
  | cumulative
  | delta
  | finalOnly
  deriving DecidableEq, Repr

/-- `stop_reason` of an output: what the engine gave, or the stop string that was found. -/
inductive OutputStopReason
  | engine (reason : StopReason)
  | stopString (s : List Char)
  deriving DecidableEq

structure CompletionOutput (L : Type) where
  index : Nat
  text : List Char
  tokenIds : List Token
  logprobs : Option (List L)
  finishReason : Option FinishReason := none
  stopReason : Option OutputStopReason := none
  deriving DecidableEq

structure RequestOutput (L : Type) where
  outputs : List (CompletionOutput L)
  finished : Bool
  deriving DecidableEq

namespace CompletionOutput

def merge (completion next : CompletionOutput L) : Py (CompletionOutput L) := do
  let newLogprobs := next.logprobs.getD []
  pyAssert (newLogprobs.isEmpty = true ∨ completion.logprobs.isSome = true)
    "completion.logprobs is not None"
  pure
    { completion with
      text := completion.text ++ next.text
      tokenIds := completion.tokenIds ++ next.tokenIds
      logprobs := completion.logprobs.map (· ++ newLogprobs)
      finishReason := next.finishReason
      stopReason := next.stopReason }

/-- The inner loop of `RequestOutput.add`. -/
def addTo (next : CompletionOutput L) (aggregate : Bool) :
    List (CompletionOutput L) → Py (List (CompletionOutput L))
  | [] => pure [next]
  | completion :: rest =>
    if completion.index = next.index then
      if aggregate then do
        let merged ← completion.merge next
        pure (merged :: rest)
      else pure (next :: rest)
    else do
      let rest ← next.addTo aggregate rest
      pure (completion :: rest)

end CompletionOutput

def RequestOutput.add (output nextOutput : RequestOutput L) (aggregate : Bool) :
    Py (RequestOutput L) := do
  let outputs ← nextOutput.outputs.foldlM (fun outputs next => next.addTo aggregate outputs)
    output.outputs
  pure { outputs := outputs, finished := output.finished || nextOutput.finished }

def RequestOutput.streamFinished : RequestOutput L := { outputs := [], finished := true }

structure RequestOutputCollector (L : Type) where
  aggregate : Bool
  output : Option (RequestOutput L) := none
  deriving DecidableEq

def RequestOutputCollector.put (queue : RequestOutputCollector L) (output : RequestOutput L) :
    Py (RequestOutputCollector L) :=
  match queue.output with
  | none => pure { queue with output := some output }
  | some pending => do
    let merged ← pending.add output queue.aggregate
    pure { queue with output := some merged }

/-- The detokenizer of a request; without a tokenizer there is no text. -/
inductive IncrementalDetokenizer (σ : Type)
  | withoutText (tokenIds : List Token)
  | withText (d : BaseIncrementalDetokenizer σ)

namespace IncrementalDetokenizer

def outputTokenIds : IncrementalDetokenizer σ → List Token
  | withoutText tokenIds => tokenIds
  | withText d => d.outputTokenIds

def numOutputTokens : IncrementalDetokenizer σ → Nat
  | withoutText tokenIds => tokenIds.length
  | withText d => d.numOutputTokens

def outputText : IncrementalDetokenizer σ → List Char
  | withoutText _ => []
  | withText d => d.outputText

def update : IncrementalDetokenizer σ → List Token → Bool →
    Option (List Char) × IncrementalDetokenizer σ
  | withoutText tokenIds, newTokenIds, _ => (none, withoutText (tokenIds ++ newTokenIds))
  | withText d, newTokenIds, stopTerminated =>
    let (stopString, d) := d.update newTokenIds stopTerminated
    (stopString, withText d)

def getNextOutputText : IncrementalDetokenizer σ → Bool → Bool →
    List Char × IncrementalDetokenizer σ
  | withoutText tokenIds, _, _ => ([], withoutText tokenIds)
  | withText d, finished, delta =>
    let (text, d) := d.getNextOutputText finished delta
    (text, withText d)

end IncrementalDetokenizer

/-- `ParentRequest`: parallel samples by their index. -/
structure ParentRequest (L : Type) where
  outputKind : RequestOutputKind
  childRequests : List Nat
  outputAggregator : List (Option (CompletionOutput L))
  deriving DecidableEq

def ParentRequest.getOutputs (parent : ParentRequest L) (output : CompletionOutput L) :
    List (CompletionOutput L) × Bool × ParentRequest L :=
  let alreadyReturned := output.finishReason.isSome ∧ output.index ∉ parent.childRequests
  let childRequests := if output.finishReason.isSome then parent.childRequests.erase output.index
    else parent.childRequests
  let parent := { parent with childRequests := childRequests }
  if parent.outputKind ≠ .finalOnly then
    (if alreadyReturned then [] else [output], childRequests.isEmpty, parent)
  else
    let aggregator := parent.outputAggregator.set output.index (some output)
    (if childRequests.isEmpty then aggregator.filterMap id else [], childRequests.isEmpty,
      { parent with outputAggregator := aggregator })

/-- `RequestState`.  An update of the input stream keeps whether it is the last one. -/
structure RequestState (σ L : Type) where
  requestIndex : Nat
  outputKind : RequestOutputKind
  detokenizer : IncrementalDetokenizer σ
  logprobs : Option (List L)
  streamInterval : Nat
  sentTokensOffset : Nat := 0
  streamingInput : Bool := false
  inputChunkQueue : Option (List Bool) := none

structure GeneratedOutput (R : Type) where
  newTokenIds : List Token
  finishReason : Option FinishReason := none
  stopReason : Option StopReason := none
  newLogprobs : Option (List R) := none

/-- A stop string that was found finishes the request. -/
def GeneratedOutput.finishReasons (o : GeneratedOutput R) (stopString : Option (List Char)) :
    Option FinishReason × Option OutputStopReason :=
  match stopString with
  | some (c :: rest) => (some .stop, some (.stopString (c :: rest)))
  | _ => (o.finishReason, o.stopReason.map .engine)

namespace RequestState

def applyStreamingUpdate (r : RequestState σ L) (isFinal : Bool) : RequestState σ L :=
  { r with streamingInput := !isFinal }

/-- `LogprobsProcessor.update_from_output`: `position` converts what the engine returned,
given the positions before. -/
def updateLogprobs (position : List L → R → L) (logprobs : Option (List L))
    (newLogprobs : Option (List R)) : Py (Option (List L)) :=
  match newLogprobs with
  | none => pure logprobs
  | some rows => do
    pyAssert (logprobs.isSome = true) "self.logprobs is not None"
    pure (logprobs.map fun ls => rows.foldl (fun ls row => ls ++ [position ls row]) ls)

def updateFromOutput (position : List L → R → L) (r : RequestState σ L) (o : GeneratedOutput R) :
    Py (Option (List Char) × RequestState σ L) := do
  let (stopString, detokenizer) := r.detokenizer.update o.newTokenIds
    (decide (o.finishReason = some .stop))
  let logprobs ← updateLogprobs position r.logprobs o.newLogprobs
  pure (stopString, { r with detokenizer := detokenizer, logprobs := logprobs })

/-- `logprobs[-len(token_ids):]`: all of them where there are no tokens. -/
def logprobsSlice (logprobs : List L) (numTokens : Nat) : List L :=
  if numTokens = 0 then logprobs else logprobs.drop (logprobs.length - numTokens)

def newCompletionOutput (r : RequestState σ L) (tokenIds : List Token)
    (finishReason : Option FinishReason) (stopReason : Option OutputStopReason) :
    CompletionOutput L × RequestState σ L :=
  let finished := finishReason.isSome
  let delta := decide (r.outputKind = .delta)
  let (text, detokenizer) := r.detokenizer.getNextOutputText finished delta
  let tokenIds := if delta then tokenIds else r.detokenizer.outputTokenIds
  let logprobs := if delta then r.logprobs.map (logprobsSlice · tokenIds.length) else r.logprobs
  ({ index := r.requestIndex
     text := text
     tokenIds := tokenIds
     logprobs := logprobs
     finishReason := finishReason
     stopReason := if finished then stopReason else none },
    { r with detokenizer := detokenizer })

/-- `make_request_output` up to the output itself: with a stream interval, tokens are sent in
batches. -/
def nextOutput (r : RequestState σ L) (newTokenIds : List Token)
    (finishReason : Option FinishReason) (stopReason : Option OutputStopReason) :
    Option (CompletionOutput L × RequestState σ L) :=
  let finished := finishReason.isSome
  if finished = false ∧ r.outputKind = .finalOnly then none
  else if 1 < r.streamInterval ∧ ¬(finished = true ∨ r.sentTokensOffset = 0 ∨
      r.sentTokensOffset + r.streamInterval ≤ r.detokenizer.numOutputTokens) then none
  else if 1 < r.streamInterval ∧ r.outputKind = .delta then
    some (newCompletionOutput { r with sentTokensOffset := r.detokenizer.numOutputTokens }
      (r.detokenizer.outputTokenIds.drop r.sentTokensOffset) finishReason stopReason)
  else some (r.newCompletionOutput newTokenIds finishReason stopReason)

/-- `make_request_output` for a request that generates tokens. -/
def makeRequestOutput (r : RequestState σ L) (parent : Option (ParentRequest L))
    (newTokenIds : List Token) (finishReason : Option FinishReason)
    (stopReason : Option OutputStopReason) :
    Option (RequestOutput L) × RequestState σ L × Option (ParentRequest L) :=
  match r.nextOutput newTokenIds finishReason stopReason with
  | none => (none, r, parent)
  | some (output, r) =>
    match parent with
    | none => (some { outputs := [output], finished := finishReason.isSome }, r, none)
    | some p =>
      let (outputs, finished, p) := p.getOutputs output
      (if outputs.isEmpty then none else some { outputs := outputs, finished := finished },
        r, some p)

end RequestState

/-- The requests of one caller: their states by index, those that are not finished, what
they share, and what the caller has taken. -/
structure OutputStream (σ L : Type) where
  states : Nat → RequestState σ L
  requestStates : List Nat
  parentReq : Option (ParentRequest L) := none
  queue : RequestOutputCollector L
  received : List (RequestOutput L) := []

inductive StreamOp (R : Type)
  | output (index : Nat) (o : GeneratedOutput R)
  | abort (index : Nat)
  | inputUpdate (index : Nat) (resumable : Bool)
  | get

namespace OutputStream

def setState (s : OutputStream σ L) (i : Nat) (r : RequestState σ L) : OutputStream σ L :=
  { s with states := Function.update s.states i r }

def finishRequest (s : OutputStream σ L) (i : Nat) : OutputStream σ L :=
  { s with requestStates := s.requestStates.filter (· ≠ i) }

def putOutput (s : OutputStream σ L) (output : Option (RequestOutput L)) :
    Py (OutputStream σ L) :=
  match output with
  | none => pure s
  | some output => do
    let queue ← s.queue.put output
    pure { s with queue := queue }

/-- The end of the loop body of `process_outputs` for a request that finished. -/
def afterFinish (s : OutputStream σ L) (i : Nat) : OutputStream σ L :=
  let r := s.states i
  if r.streamingInput then
    match r.inputChunkQueue with
    | some (isFinal :: rest) =>
      s.setState i ({ r with inputChunkQueue := some rest }.applyStreamingUpdate isFinal)
    | _ => s.setState i { r with inputChunkQueue := none }
  else s.finishRequest i

/-- The loop body of `process_outputs`. -/
def processOutput (position : List L → R → L) (s : OutputStream σ L) (i : Nat)
    (o : GeneratedOutput R) : Py (OutputStream σ L) :=
  if i ∉ s.requestStates then pure s
  else do
    let r := s.states i
    let (stopString, r) ← r.updateFromOutput position o
    let (finishReason, stopReason) := o.finishReasons stopString
    let (output, r, parent) := r.makeRequestOutput s.parentReq o.newTokenIds finishReason stopReason
    let output := output.map fun output =>
      { output with finished := output.finished && !r.streamingInput }
    let s ← ({ s.setState i r with parentReq := parent } : OutputStream σ L).putOutput output
    pure (if finishReason.isSome then s.afterFinish i else s)

/-- `abort_requests` for one request. -/
def abortRequest (s : OutputStream σ L) (i : Nat) : Py (OutputStream σ L) :=
  if i ∉ s.requestStates then pure s
  else
    let (output, r, parent) := (s.states i).makeRequestOutput s.parentReq [] (some .abort) none
    ({ (s.setState i r).finishRequest i with parentReq := parent } : OutputStream σ L).putOutput
      output

def updateStreamingRequestState (s : OutputStream σ L) (i : Nat) (resumable : Bool) :
    Py (OutputStream σ L) :=
  if i ∉ s.requestStates then pure s
  else
    let r := s.states i
    match resumable, r.inputChunkQueue with
    | false, none => (s.finishRequest i).putOutput (some .streamFinished)
    | false, some [] => pure (s.setState i { r with streamingInput := false })
    | false, some chunks =>
      pure (s.setState i { r with inputChunkQueue := some (chunks.dropLast ++ [true]) })
    | true, none =>
      pure (s.setState i ({ r with inputChunkQueue := some [] }.applyStreamingUpdate false))
    | true, some chunks =>
      pure (s.setState i { r with inputChunkQueue := some (chunks ++ [false]) })

def take (s : OutputStream σ L) : OutputStream σ L :=
  { s with
    queue := { s.queue with output := none }
    received := s.received ++ s.queue.output.toList }

def run (position : List L → R → L) (s : OutputStream σ L) : StreamOp R → Py (OutputStream σ L)
  | .output i o => s.processOutput position i o
  | .abort i => s.abortRequest i
  | .inputUpdate i resumable => s.updateStreamingRequestState i resumable
  | .get => pure s.take

end OutputStream

end VllmCore
