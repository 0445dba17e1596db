import VllmCore.Request
import VllmCore.Support.Transition
/-!
# Output histories under async scheduling

The model runner keeps the output tokens of every request.  With async scheduling a step
appends a placeholder, and the sampled token takes its place before the next sampling, but
only in a step in which some request needs the histories.  The lists are shared with the
logits processors, which use their lengths.

Speculative decoding is left out.  A placeholder is `none`.
-/

namespace VllmCore.Worker.OutputHistory

open Support

structure Config where
  prompt : ReqId → List Token
  /-- The request has penalties or bad words. -/
  needsHistory : ReqId → Bool
  minTokens : ReqId → Nat
  logitsprocsNeedOutputTokenIds : Bool

/-- `needs_output_token_ids` for a batch. -/
def Config.needsOutputTokenIds (c : Config) (reqIds : List ReqId) : Bool :=
  reqIds.any c.needsHistory || c.logitsprocsNeedOutputTokenIds

/-- What a step is given by the scheduler, the rows of the batch after it is condensed and
reordered, and the rows whose tokens are discarded. -/
structure SchedulerOutput where
  finishedReqIds : List ReqId := []
  scheduledNewReqs : List ReqId := []
  scheduledCachedReqs : List ReqId := []
  resumedReqIds : List ReqId := []
  numOutputTokens : ReqId → Nat
  allTokenIds : ReqId → List Token
  reqIds : List ReqId
  discardRequestMask : ReqId → Bool

/-- The model runner and its input batch.  `needsOutputTokenIds` says whether the sampling
metadata has the lists of the requests in the batch or none, and `minToks` are the entries
of `MinTokensLogitsProcessor`, whose rows follow their requests. -/
structure ModelRunner where
  outputTokenIds : ReqId → List (Option Token) := fun _ => []
  reqIds : List ReqId := []
  needsOutputTokenIds : Bool := false
  prevReqIdToIndex : ReqId → Option Nat := fun _ => none
  sampledTokenIdsCpu : Option (List (List (Option Token))) := none
  minToks : ReqId → Option Nat := fun _ => none

namespace ModelRunner

/-! ## The start of a step -/

def staying (s : ModelRunner) (so : SchedulerOutput) : List ReqId :=
  s.reqIds.filter fun r =>
    r ∉ so.finishedReqIds ∧ r ∈ so.scheduledCachedReqs ∧ r ∉ so.resumedReqIds

/-- The output tokens of a request that is scheduled again: aligned with what the scheduler
says, and recovered if the request is not in the batch. -/
def alignOutput (s : ModelRunner) (so : SchedulerOutput) (r : ReqId) : List (Option Token) :=
  let numOutputTokens := so.numOutputTokens r
  let output :=
    if numOutputTokens < (s.outputTokenIds r).length then
      (s.outputTokenIds r).take numOutputTokens
    else s.outputTokenIds r
  if r ∉ s.staying so ∧ 0 < numOutputTokens then
    let resumedTokenIds := so.allTokenIds r
    (resumedTokenIds.drop (resumedTokenIds.length - numOutputTokens)).map some
  else output

/-- The loops of `_update_states`. -/
def updateOutputs (s : ModelRunner) (so : SchedulerOutput) (r : ReqId) : List (Option Token) :=
  if r ∈ so.scheduledNewReqs then []
  else if r ∈ so.scheduledCachedReqs then s.alignOutput so r
  else s.outputTokenIds r

/-- `MinTokensLogitsProcessor.add_request`. -/
def addMinTokens (minTokens : Nat) (outputTokIds : List (Option Token)) : Option Nat :=
  if minTokens = 0 ∨ minTokens ≤ outputTokIds.length then none else some minTokens

/-- `MinTokensLogitsProcessor.update_state`. -/
def updateMinToks (c : Config) (s : ModelRunner) (so : SchedulerOutput)
    (output : ReqId → List (Option Token)) (r : ReqId) : Option Nat :=
  let entry :=
    if r ∈ s.staying so then s.minToks r
    else if r ∈ so.reqIds then addMinTokens (c.minTokens r) (output r)
    else none
  match entry with
  | some minToks => if minToks ≤ (output r).length then none else some minToks
  | none => none

/-- `_update_states`: requests leave and join the batch, and the metadata is made again if
the batch has changed. -/
def updateStates (c : Config) (s : ModelRunner) (so : SchedulerOutput) : ModelRunner :=
  let added := so.reqIds.filter fun r => r ∉ s.staying so
  { s with
    outputTokenIds := s.updateOutputs so
    reqIds := so.reqIds
    needsOutputTokenIds :=
      if so.reqIds ≠ s.reqIds ∨ added ≠ [] then c.needsOutputTokenIds so.reqIds
      else s.needsOutputTokenIds
    minToks := updateMinToks c s so (s.updateOutputs so) }

/-! ## Sampling -/

/-- The truth value of `sampling_metadata.output_token_ids`. -/
def hasOutputTokenIds (s : ModelRunner) : Bool := s.needsOutputTokenIds && !s.reqIds.isEmpty

/-- The placeholders of a list, from the first on, are replaced with sampled tokens. -/
def replacePlaceholders (reqOutputTokenIds newIds : List (Option Token)) : List (Option Token) :=
  let numSampledIds := if newIds.getLast? ≠ some none then newIds.length else newIds.idxOf none
  let firstPlaceholder := reqOutputTokenIds.idxOf none
  let numPlaceholders := reqOutputTokenIds.length - firstPlaceholder
  let numToReplace := min numSampledIds numPlaceholders
  reqOutputTokenIds.take firstPlaceholder ++ newIds.take numToReplace

/-- The list of a request in the loop of `update_async_output_token_ids`. -/
def repairOutput (s : ModelRunner) (sampledTokenIds : List (List (Option Token))) (r : ReqId) :
    List (Option Token) :=
  let reqOutputTokenIds := s.outputTokenIds r
  match s.prevReqIdToIndex r with
  | none => reqOutputTokenIds
  | some prevIndex =>
    if reqOutputTokenIds.getLast? ≠ some none then reqOutputTokenIds
    else match sampledTokenIds[prevIndex]? with
      | none | some [] => reqOutputTokenIds
      | some newIds => replacePlaceholders reqOutputTokenIds newIds

def updateAsyncOutputTokenIds (s : ModelRunner) : ModelRunner :=
  match s.sampledTokenIdsCpu with
  | none => s
  | some sampledTokenIds =>
    if s.hasOutputTokenIds then
      { s with
        outputTokenIds := fun r =>
          if r ∈ s.reqIds then s.repairOutput sampledTokenIds r else s.outputTokenIds r }
    else s

/-- A request with an entry has its stop tokens masked. -/
def masksStopTokens (s : ModelRunner) (r : ReqId) : Bool := (s.minToks r).isSome

/-- `_bookkeeping_sync` and `set_async_sampled_token_ids`. -/
def bookkeepingSync (s : ModelRunner) (so : SchedulerOutput) (sampledTokenIds : List Token) :
    ModelRunner :=
  { s with
    prevReqIdToIndex := fun r =>
      if r ∈ s.reqIds ∧ so.discardRequestMask r = false then some (s.reqIds.idxOf r) else none
    outputTokenIds := fun r =>
      if r ∈ s.reqIds ∧ so.discardRequestMask r = false then s.outputTokenIds r ++ [none]
      else s.outputTokenIds r
    sampledTokenIdsCpu :=
      if s.hasOutputTokenIds then some (sampledTokenIds.map fun t => [some t]) else none }

def prepare (c : Config) (s : ModelRunner) (so : SchedulerOutput) : ModelRunner :=
  (s.updateStates c so).updateAsyncOutputTokenIds

/-- A step; without scheduled requests nothing is executed. -/
def executeModel (c : Config) (s : ModelRunner) (so : SchedulerOutput)
    (sampledTokenIds : List Token) : ModelRunner :=
  if so.reqIds = [] then s.updateStates c so
  else (s.prepare c so).bookkeepingSync so sampledTokenIds

end ModelRunner

/-! ## Runs -/

/-- The runner, and the tokens that were sampled for every request so far. -/
structure System where
  runner : ModelRunner := {}
  history : ReqId → List Token := fun _ => []

/-- A step of the system.  The scheduler has processed some of the outputs of every
request; a request that is new, or goes on with a new prompt, starts a new history. -/
structure Op where
  finishedReqIds : List ReqId := []
  scheduledNewReqs : List ReqId := []
  scheduledCachedReqs : List ReqId := []
  resumedReqIds : List ReqId := []
  processed : ReqId → Nat
  reqIds : List ReqId
  discardRequestMask : ReqId → Bool := fun _ => false
  sampledTokenIds : List Token

namespace System

def init (c : Config) : System where
  runner := { needsOutputTokenIds := c.needsOutputTokenIds [] }

def started (s : System) (op : Op) (r : ReqId) : List Token :=
  if r ∈ op.scheduledNewReqs then [] else s.history r

/-- `schedule`: placeholders count as output tokens, and the token ids are those of the
processed outputs. -/
def schedulerOutput (c : Config) (s : System) (op : Op) : SchedulerOutput where
  finishedReqIds := op.finishedReqIds
  scheduledNewReqs := op.scheduledNewReqs
  scheduledCachedReqs := op.scheduledCachedReqs
  resumedReqIds := op.resumedReqIds
  numOutputTokens r := (s.history r).length
  allTokenIds r := c.prompt r ++ (s.history r).take (op.processed r)
  reqIds := op.reqIds
  discardRequestMask := op.discardRequestMask

def sampling (c : Config) (s : System) (op : Op) : ModelRunner :=
  s.runner.prepare c (s.schedulerOutput c op)

def run (c : Config) (s : System) (op : Op) : System where
  runner := s.runner.executeModel c (s.schedulerOutput c op) op.sampledTokenIds
  history r :=
    if r ∈ op.reqIds ∧ op.discardRequestMask r = false then
      s.started op r ++ (op.sampledTokenIds[op.reqIds.idxOf r]?).toList
    else s.started op r

end System

/-- The batch of a step has the scheduled requests, each once, and every row a token. -/
structure Op.WellFormed (op : Op) : Prop where
  scheduled : op.reqIds.Perm (op.scheduledNewReqs ++ op.scheduledCachedReqs)
  nodup : op.reqIds.Nodup
  length : op.sampledTokenIds.length = op.reqIds.length

def Step (c : Config) (cond : System → Op → Prop) (s t : System) : Prop :=
  ∃ op, (op.WellFormed ∧ cond s op) ∧ s.run c op = t

end VllmCore.Worker.OutputHistory
