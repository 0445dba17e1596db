import VllmCore.Scheduler.UpdateFromOutput
import VllmCore.Support.Transition
/-!
# The engine's calls of the scheduler

The engine core calls the scheduler in any order.  The outputs of `schedule` whose model
output has not been processed yet are in flight; they are processed in the order in
which they were scheduled, and there may be any number of them.

`emitted`, `published` and `resetReqIds` are the history of the run; nothing reads them.
-/

namespace VllmCore

open Support

variable {D : Type}

/-- An output of `schedule`, with the request objects at that time.  `resetReqIds` are the
requests that a reset has preempted since then. -/
structure ScheduledStep (D : Type) (C : KVConnector D) where
  output : SchedulerOutput C.Metadata
  requests : ReqId → Option (Request D)
  resetReqIds : List ReqId := []

/-- Note the requests that a reset preempts. -/
def ScheduledStep.noteReset {C : KVConnector D} (reqIds : List ReqId) (step : ScheduledStep D C) :
    ScheduledStep D C :=
  { step with resetReqIds := step.resetReqIds ++ reqIds }

/-- The engine core: the scheduler and the steps in flight, the oldest first. -/
structure EngineCore (D : Type) (C : KVConnector D) where
  scheduler : Scheduler D C
  inFlight : List (ScheduledStep D C) := []
  emitted : List (ScheduledStep D C) := []
  published : List (KVCacheEvent D) := []

namespace EngineCore

variable [DecidableEq D] {C : KVConnector D}

inductive Call (C : KVConnector D)
  | addRequest (args : Request.Args)
  | schedule (env : Scheduler.ScheduleEnv)
  | updateFromOutput (out : ModelRunnerOutput C.WorkerMeta)
  | finishRequests (requestIds : Option (List ReqId)) (finishedStatus : RequestStatus)
  | resetPrefixCache (resetRunningRequests resetConnector : Bool)
  | resetEncoderCache
  | setPauseState (pauseState : PauseState)
  | updateDraftTokenIds (validate : Ref → List Token → List Token)
      (draftTokenIds : List (ReqId × List Token))
  | updateDraftTokenIdsInOutput (validate : Ref → List Token → List Token)
      (draftTokenIds : List (ReqId × List Token))

/-- `schedule`: the output is in flight. -/
def schedule (e : EngineCore D C) (env : Scheduler.ScheduleEnv) : Py (EngineCore D C) := do
  let (output, s) ← e.scheduler.schedule env
  let step : ScheduledStep D C := { output := output, requests := s.lookup }
  pure { e with
    scheduler := s
    inFlight := e.inFlight ++ [step]
    emitted := e.emitted ++ [step] }

/-- `update_from_output`, for the oldest step in flight. -/
def updateFromOutput (e : EngineCore D C) (out : ModelRunnerOutput C.WorkerMeta) :
    Py (EngineCore D C) :=
  match e.inFlight with
  | [] => throw (.indexError "pop from an empty deque")
  | step :: rest => do
    let (_, events, s) ← e.scheduler.updateFromOutput step.output out
    pure { e with
      scheduler := s
      inFlight := rest
      published := e.published ++ events }

/-- `update_draft_token_ids_in_output`, for the step that was scheduled last. -/
def updateDraftTokenIdsInOutput (e : EngineCore D C) (validate : Ref → List Token → List Token)
    (draftTokenIds : List (ReqId × List Token)) : Py (EngineCore D C) :=
  match e.inFlight.getLast? with
  | none => throw (.assertionError "deferred_scheduler_output is not None")
  | some step =>
    pure { e with
      inFlight := e.inFlight.dropLast ++ [{ step with
        output :=
          e.scheduler.updateDraftTokenIdsInOutput validate draftTokenIds step.output }] }

def run (e : EngineCore D C) : Call C → Py (EngineCore D C)
  | .addRequest args => do
    let r ← Request.create e.scheduler.config.blockHasher args
    let s ← e.scheduler.addRequest r
    pure { e with scheduler := s }
  | .schedule env => e.schedule env
  | .updateFromOutput out => e.updateFromOutput out
  | .finishRequests requestIds finishedStatus => do
    let s ← e.scheduler.finishRequests requestIds finishedStatus
    pure { e with scheduler := s }
  | .resetPrefixCache resetRunningRequests resetConnector => do
    let (_, s) ← e.scheduler.resetPrefixCache resetRunningRequests resetConnector
    let preempted := if resetRunningRequests then e.scheduler.running.map fun ref =>
      (e.scheduler.objs ref).requestId else []
    pure { e with
      scheduler := s
      inFlight := e.inFlight.map (ScheduledStep.noteReset preempted) }
  | .resetEncoderCache => pure { e with scheduler := e.scheduler.resetEncoderCache }
  | .setPauseState pauseState => pure { e with scheduler := e.scheduler.setPauseState pauseState }
  | .updateDraftTokenIds validate draftTokenIds =>
    pure { e with scheduler := e.scheduler.updateDraftTokenIds validate draftTokenIds }
  | .updateDraftTokenIdsInOutput validate draftTokenIds =>
    e.updateDraftTokenIdsInOutput validate draftTokenIds

def Init (e : EngineCore D C) : Prop :=
  ∃ config kvCacheManager connector, e = { scheduler := .create config kvCacheManager connector }

/-- The states that are reached by calls that meet a condition. -/
abbrev ReachableBy (guard : EngineCore D C → Call C → Prop) : EngineCore D C → Prop :=
  Reachable Init (OpStep guard run)

end EngineCore

/-! ## A small engine -/

/-- A connector that does nothing, for engines without one. -/
def KVConnector.noConnector (D : Type) : KVConnector D where
  State := Unit
  Metadata := Unit
  WorkerMeta := Unit
  getNumNewMatchedTokens := fun _ _ _ _ => pure ((some 0, false), ())
  updateStateAfterAlloc := fun _ _ _ _ _ => pure ({}, ())
  buildConnectorMeta := fun _ _ _ _ => pure ((), {}, ())
  requestFinished := fun _ _ _ _ => pure (false, {}, ())
  updateConnectorOutput := fun _ _ _ => pure ({}, ())
  takeEvents := fun _ => ([], ())
  resetCache := fun _ => pure (none, ())

/-- Full attention with blocks of one token. -/
def oneGroupConfig (numBlocks : Nat) : KVCacheConfig where
  numBlocks := numBlocks
  kvCacheGroups :=
    [⟨1, .fullAttention { numKvHeads := 1, headSize := 1, dtype := ⟨"uint8", 1⟩ } 1 none none,
      Nat.one_pos⟩]

def smallConfig : SchedulerConfig Transcript where
  maxNumRunningReqs := 4
  maxNumScheduledTokens := 16
  maxModelLen := 16
  cacheBlockSize := 1
  cacheBlockSize_pos := Nat.one_pos
  blockSize := 1
  hashFns := transcriptFns
  blockHasher := none

/-- An engine with one group of `numBlocks` blocks and no prefix caching. -/
def EngineCore.small (config : SchedulerConfig Transcript) (numBlocks : Nat) :
    Py (EngineCore Transcript (.noConnector Transcript)) := do
  let kv ← KVCacheManager.create (oneGroupConfig numBlocks) config.maxModelLen 1 false false false
    1 1
  pure { scheduler := .create config kv none }

end VllmCore
