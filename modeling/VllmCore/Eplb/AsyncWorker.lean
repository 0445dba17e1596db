import Mathlib.Logic.Function.Basic
/-!
# Rearranging experts in the background

`EplbState.step`, `rearrange` and `move_to_workspace` of `vllm/distributed/eplb/eplb_state.py`
on the main thread, and `transfer_run_periodically` of `vllm/distributed/eplb/async_worker.py`
on the worker thread.  Each access to what the threads share is a step, and the threads take
their steps in any order.

Devices do things in the order in which the host asks for them.  Weights are known by the
row of a map that they are arranged by, and a buffer by the transfer that filled it.
-/

namespace VllmCore.Eplb

open Function

/-- The holder of a `buffer_lock`. -/
inductive Thread
  | main
  | worker
  deriving DecidableEq

/-- What a transfer is for: a layer, and its rows of the old and of the new map. -/
structure Transfer (Row : Type) where
  layer : Nat
  oldIndices : Row
  newIndices : Row
  deriving DecidableEq

structure Policy (Row Load Logical : Type) where
  rebalanceExperts : Load → (Nat → Row) → Nat → Row
  computeLogicalMaps : Row → Logical

/-- `EplbModelState`.  Weights that are arranged by no row are `none`.  Rearrangements are
counted, and what is committed is recorded with their number. -/
structure EplbModelState (Row Load Logical : Type) where
  numMoeLayers : Nat
  expertWeights : Nat → Option Row
  physicalToLogicalMap : Nat → Row
  logicalMaps : Nat → Logical
  newPhysicalToLogicalMap : Option (Nat → Row) := none
  expertBuffer : Option (Transfer Row) := none
  isUnchanged : Option (Transfer Row) := none
  isReceivedLocally : Option (Transfer Row) := none
  recvMetadata : Option (Transfer Row) := none
  bufferLock : Option Thread := none
  bufferConsumedEvent : Bool := false
  windowReadyEvent : Bool := false
  epBufferReady : Bool := false
  layerToTransfer : Nat := 0
  rebalanced : Bool := false
  pendingGlobalReadyCheck : Bool := false
  eplbStats : Option Load := none
  rearrangements : Nat := 0
  commits : List (Nat × Nat) := []

variable {Row Load Logical : Type} [DecidableEq Row]

/-! ## The worker thread -/

/-- What follows the release of the lock: the loop, its end, or the exception. -/
inductive Resume
  | loop
  | leave
  | die
  deriving DecidableEq

/-- Where the worker is in the loop over the layers of a model. -/
inductive WorkerStage (Row : Type)
  | readRebalanced
  | readLayer
  | readReady
  | readRebalancedAgain
  | pollRebalanced
  | acquire
  | checkLayer
  | readNewMap
  | copyMap
  | assertStats
  | readStats
  | assertWindowReady
  | waitWindowReady
  | clearWindowReady
  | writeNewMap
  | assertNewMap
  | readLayerIdx
  | readNewLayerIndices (layerIdx : Nat)
  | readConsumed (again : Bool) (transfer : Transfer Row)
  | clearConsumed (again : Bool) (transfer : Transfer Row)
  | transferLayer (transfer : Transfer Row)
  | setUnchanged (transfer : Transfer Row)
  | setReceivedLocally (transfer : Transfer Row)
  | setMetadata (transfer : Transfer Row)
  | setReady
  | release (resume : Resume)

structure WorkerLocals (Row Load : Type) where
  rebalancingAlgorithmExecuted : Bool := false
  physicalToLogicalMapCpu : Option (Nat → Row) := none
  eplbStats : Option Load := none

/-- Where a thread goes next: to a stage, out of the loop body, or out with an exception. -/
inductive Next (Stage : Type)
  | goto (stage : Stage)
  | leave
  | fail

/-- `finally: buffer_lock.release()`, then on. -/
def Resume.next {Stage : Type} (loop : Stage) : Resume → Next Stage
  | .loop => .goto loop
  | .leave => .leave
  | .die => .fail

/-- What a transfer puts into the buffers: it sends the weights as the old row has them. -/
def EplbModelState.transferred (x : EplbModelState Row Load Logical) (t : Transfer Row) :
    Option (Transfer Row) :=
  if x.expertWeights t.layer = some t.oldIndices then some t else none

def EplbModelState.work (policy : Policy Row Load Logical) (x : EplbModelState Row Load Logical)
    (loc : WorkerLocals Row Load) :
    WorkerStage Row →
      Next (WorkerStage Row) × WorkerLocals Row Load × EplbModelState Row Load Logical
  | .readRebalanced =>
    if x.rebalanced = true then (.goto .readLayer, loc, x) else (.leave, loc, x)
  | .readLayer =>
    if x.layerToTransfer < x.numMoeLayers then (.goto .readReady, loc, x)
    else (.leave, loc, x)
  | .readReady =>
    if x.epBufferReady = true then (.goto .pollRebalanced, loc, x)
    else (.goto .readRebalancedAgain, loc, x)
  | .readRebalancedAgain =>
    if x.rebalanced = true then (.goto .acquire, loc, x) else (.goto .pollRebalanced, loc, x)
  | .pollRebalanced =>
    if x.rebalanced = true then (.goto .readRebalanced, loc, x) else (.leave, loc, x)
  | .acquire =>
    if x.bufferLock = none then (.goto .checkLayer, loc, { x with bufferLock := some .worker })
    else (.goto .acquire, loc, x)
  | .checkLayer =>
    if x.layerToTransfer < x.numMoeLayers then (.goto .readNewMap, loc, x)
    else (.goto (.release .leave), loc, x)
  | .readNewMap =>
    if loc.rebalancingAlgorithmExecuted = true ∧ x.newPhysicalToLogicalMap.isSome = true then
      (.goto .assertNewMap, loc, x)
    else (.goto .copyMap, loc, x)
  | .copyMap =>
    (.goto .assertStats, { loc with physicalToLogicalMapCpu := some x.physicalToLogicalMap }, x)
  -- `run_rebalance_experts`
  | .assertStats =>
    if x.eplbStats.isSome = true then (.goto .readStats, loc, x)
    else (.goto (.release .die), loc, x)
  | .readStats => (.goto .assertWindowReady, { loc with eplbStats := x.eplbStats }, x)
  | .assertWindowReady =>
    if x.windowReadyEvent = true then (.goto .waitWindowReady, loc, x)
    else (.goto (.release .die), loc, x)
  | .waitWindowReady =>
    if x.windowReadyEvent = true then (.goto .clearWindowReady, loc, x)
    else (.goto (.release .die), loc, x)
  | .clearWindowReady => (.goto .writeNewMap, loc, { x with windowReadyEvent := false })
  | .writeNewMap =>
    match loc.eplbStats, loc.physicalToLogicalMapCpu with
    | some load, some indices =>
      (.goto .assertNewMap, { loc with rebalancingAlgorithmExecuted := true },
        { x with newPhysicalToLogicalMap := some (policy.rebalanceExperts load indices) })
    | _, _ => (.goto (.release .die), loc, x)
  | .assertNewMap =>
    if x.newPhysicalToLogicalMap.isSome = true ∧ loc.physicalToLogicalMapCpu.isSome = true then
      (.goto .readLayerIdx, loc, x)
    else (.goto (.release .die), loc, x)
  | .readLayerIdx => (.goto (.readNewLayerIndices x.layerToTransfer), loc, x)
  | .readNewLayerIndices layerIdx =>
    match loc.physicalToLogicalMapCpu, x.newPhysicalToLogicalMap with
    | some oldIndices, some newIndices =>
      (.goto (.readConsumed false ⟨layerIdx, oldIndices layerIdx, newIndices layerIdx⟩), loc, x)
    | _, _ => (.goto (.release .die), loc, x)
  | .readConsumed again t =>
    if x.bufferConsumedEvent = true then (.goto (.clearConsumed again t), loc, x)
    else if again = true then (.goto (.transferLayer t), loc, x)
    else (.goto (.readConsumed true t), loc, x)
  | .clearConsumed again t =>
    if again = true then (.goto (.transferLayer t), loc, { x with bufferConsumedEvent := false })
    else (.goto (.readConsumed true t), loc, { x with bufferConsumedEvent := false })
  | .transferLayer t => (.goto (.setUnchanged t), loc, { x with expertBuffer := x.transferred t })
  | .setUnchanged t => (.goto (.setReceivedLocally t), loc, { x with isUnchanged := some t })
  | .setReceivedLocally t =>
    (.goto (.setMetadata t), loc, { x with isReceivedLocally := some t })
  | .setMetadata t => (.goto .setReady, loc, { x with recvMetadata := some t })
  | .setReady => (.goto (.release .loop), loc, { x with epBufferReady := true })
  | .release resume => (resume.next .readRebalanced, loc, { x with bufferLock := none })

/-! ## The main thread -/

/-- Where the main thread is in the part of `step` for one model: the check, and
`move_to_workspace`. -/
inductive MoveStage (Row : Type)
  | readPending
  | allRanksReady
  | readReady (allRanksBufferReady : Bool)
  | acquire (retries : Nat)
  | assertNewMap
  | readWeightsLayer
  | readNewIndices (layer : Nat)
  | moveFromBuffer (layer : Nat) (newIndices : Row)
  | recordConsumed
  | readTransferredLayer
  | commitLayer (layer : Nat)
  | advanceLayer
  | clearReady
  | checkDone
  | postEplb
  | clearRebalanced
  | resetLayer
  | clearPending
  | release (resume : Resume)

/-- The weights of a layer after `move_from_buffer`: those of the new row, if the buffer and
its metadata are of the transfer from the row that they are arranged by to this one. -/
def EplbModelState.moved (x : EplbModelState Row Load Logical) (layer : Nat) (newIndices : Row) :
    Option Row :=
  match x.expertWeights layer with
  | some oldIndices =>
    if x.expertBuffer = some ⟨layer, oldIndices, newIndices⟩ ∧
        x.isUnchanged = some ⟨layer, oldIndices, newIndices⟩ ∧
        x.isReceivedLocally = some ⟨layer, oldIndices, newIndices⟩ ∧
        x.recvMetadata = some ⟨layer, oldIndices, newIndices⟩ then some newIndices
    else none
  | none => none

/-- A step of the main thread for one model.  The other ranks may be ready or not. -/
def EplbModelState.move (policy : Policy Row Load Logical) (othersReady : Bool)
    (x : EplbModelState Row Load Logical) :
    MoveStage Row → Next (MoveStage Row) × EplbModelState Row Load Logical
  | .readPending =>
    if x.pendingGlobalReadyCheck = true then (.goto .allRanksReady, x)
    else (.goto (.readReady false), x)
  | .allRanksReady => (.goto (.readReady (x.epBufferReady && othersReady)), x)
  | .readReady allRanksBufferReady =>
    if x.epBufferReady = true ∧ allRanksBufferReady = true then (.goto (.acquire 0), x)
    else (.leave, x)
  | .acquire retries =>
    -- where the lock is held, the attempt times out
    if x.bufferLock = none then (.goto .assertNewMap, { x with bufferLock := some .main })
    else if retries + 1 < 6 then (.goto (.acquire (retries + 1)), x)
    else (.fail, x)
  | .assertNewMap =>
    if x.newPhysicalToLogicalMap.isSome = true then (.goto .readWeightsLayer, x)
    else (.goto (.release .die), x)
  | .readWeightsLayer => (.goto (.readNewIndices x.layerToTransfer), x)
  | .readNewIndices layer =>
    match x.newPhysicalToLogicalMap with
    | some newIndices => (.goto (.moveFromBuffer layer (newIndices x.layerToTransfer)), x)
    | none => (.goto (.release .die), x)
  | .moveFromBuffer layer newIndices =>
    (.goto .recordConsumed,
      { x with expertWeights :=
          update x.expertWeights layer (x.moved layer newIndices) })
  | .recordConsumed => (.goto .readTransferredLayer, { x with bufferConsumedEvent := true })
  | .readTransferredLayer => (.goto (.commitLayer x.layerToTransfer), x)
  | .commitLayer layer =>
    match x.newPhysicalToLogicalMap with
    | some newIndices =>
      (.goto .advanceLayer,
        { x with
          physicalToLogicalMap :=
            update x.physicalToLogicalMap layer (newIndices layer)
          logicalMaps :=
            update x.logicalMaps layer (policy.computeLogicalMaps (newIndices layer))
          commits := x.commits ++ [(x.rearrangements, layer)] })
    | none => (.goto (.release .die), x)
  | .advanceLayer => (.goto .clearReady, { x with layerToTransfer := x.layerToTransfer + 1 })
  | .clearReady => (.goto .checkDone, { x with epBufferReady := false })
  | .checkDone =>
    if x.numMoeLayers ≤ x.layerToTransfer then (.goto .postEplb, x)
    else (.goto (.release .leave), x)
  | .postEplb =>
    if x.newPhysicalToLogicalMap.isSome = true then
      (.goto .clearRebalanced, { x with newPhysicalToLogicalMap := none })
    else (.goto (.release .die), x)
  | .clearRebalanced => (.goto .resetLayer, { x with rebalanced := false })
  | .resetLayer => (.goto .clearPending, { x with layerToTransfer := 0 })
  | .clearPending => (.goto (.release .leave), { x with pendingGlobalReadyCheck := false })
  | .release resume => (resume.next .readPending, { x with bufferLock := none })

/-- Where the main thread is in `rearrange` for one model. -/
inductive RearrangeStage
  | setStats
  | setWindowReady
  | setRebalanced
  | setLayer
  | setPending

/-- A step of `rearrange` for one model, with its load. -/
def EplbModelState.rearrange (load : Load) (x : EplbModelState Row Load Logical) :
    RearrangeStage → Next RearrangeStage × EplbModelState Row Load Logical
  | .setStats => (.goto .setWindowReady, { x with eplbStats := some load })
  | .setWindowReady => (.goto .setRebalanced, { x with windowReadyEvent := true })
  | .setRebalanced =>
    (.goto .setLayer, { x with rebalanced := true, rearrangements := x.rearrangements + 1 })
  | .setLayer => (.goto .setPending, { x with layerToTransfer := 0 })
  | .setPending => (.leave, { x with pendingGlobalReadyCheck := true })

/-! ## Both threads -/

inductive WorkerPc (Row Load : Type)
  | waiting
  | working (model : Nat) (stage : WorkerStage Row) (loc : WorkerLocals Row Load)
  | clearing
  | dead

/-- Where the main thread is: between steps, in the check of a model, in the test of what is
rebalanced, in `rearrange`, or out with an exception. -/
inductive MainPc (Row : Type)
  | idle
  | moving (model : Nat) (stage : MoveStage Row)
  | checking (model : Nat)
  | rearranging (model : Nat) (stage : RearrangeStage)
  | settingEvent
  | raised

/-- `EplbState`, with the places of its threads. -/
structure EplbState (Row Load Logical : Type) where
  numModels : Nat
  modelStates : Nat → EplbModelState Row Load Logical
  expertRearrangementStep : Nat
  expertRearrangementStepInterval : Nat
  rearrangeEvent : Bool
  main : MainPc Row
  worker : WorkerPc Row Load

variable (policy : Policy Row Load Logical)

def workerFrom (s : EplbState Row Load Logical) (model : Nat) : WorkerPc Row Load :=
  if model < s.numModels then .working model .readRebalanced {} else .clearing

/-- A step of the worker thread; it stays where it has to wait. -/
def workerStep (s : EplbState Row Load Logical) : EplbState Row Load Logical :=
  match s.worker with
  | .waiting => if s.rearrangeEvent = true then { s with worker := workerFrom s 0 } else s
  | .working model stage loc =>
    let out := (s.modelStates model).work policy loc stage
    let worker := match out.1 with
      | .goto stage => .working model stage out.2.1
      | .leave => workerFrom s (model + 1)
      | .fail => .dead
    { s with modelStates := update s.modelStates model out.2.2, worker := worker }
  | .clearing => { s with rearrangeEvent := false, worker := .waiting }
  | .dead => s

/-- `rearrange` from a model on. -/
def rearrangingFrom (s : EplbState Row Load Logical) (model : Nat) : MainPc Row :=
  if model < s.numModels then .rearranging model .setStats else .settingEvent

/-- The test of what is rebalanced, from a model on. -/
def checkingFrom (s : EplbState Row Load Logical) (model : Nat) : EplbState Row Load Logical :=
  if model < s.numModels then { s with main := .checking model }
  else { s with expertRearrangementStep := 0, main := rearrangingFrom s 0 }

/-- The loop of `step` over the models, from one on. -/
def movingFrom (s : EplbState Row Load Logical) (model : Nat) : EplbState Row Load Logical :=
  if model < s.numModels then { s with main := .moving model .readPending }
  else if s.expertRearrangementStepInterval ≤ s.expertRearrangementStep then checkingFrom s 0
  else { s with main := .idle }

/-- What a step of the main thread finds: whether the other ranks are ready, and the load. -/
structure Surroundings (Load : Type) where
  othersReady : Bool
  load : Load

def mainStep (given : Surroundings Load) (s : EplbState Row Load Logical) :
    EplbState Row Load Logical :=
  match s.main with
  | .idle =>
    movingFrom { s with expertRearrangementStep := s.expertRearrangementStep + 1 } 0
  | .moving model stage =>
    let out := (s.modelStates model).move policy given.othersReady stage
    let s := { s with modelStates := update s.modelStates model out.2 }
    match out.1 with
    | .goto stage => { s with main := .moving model stage }
    | .leave => movingFrom s (model + 1)
    | .fail => { s with main := .raised }
  | .checking model =>
    if (s.modelStates model).rebalanced = true then { s with main := .idle }
    else checkingFrom s (model + 1)
  | .rearranging model stage =>
    let out := (s.modelStates model).rearrange given.load stage
    let s := { s with modelStates := update s.modelStates model out.2 }
    match out.1 with
    | .goto stage => { s with main := .rearranging model stage }
    | .leave => { s with main := rearrangingFrom s (model + 1) }
    | .fail => { s with main := .raised }
  | .settingEvent => { s with rearrangeEvent := true, main := .idle }
  | .raised => s

inductive Action (Load : Type)
  | main (given : Surroundings Load)
  | worker

def act (s : EplbState Row Load Logical) : Action Load → EplbState Row Load Logical
  | .main given => mainStep policy given s
  | .worker => workerStep policy s

/-- A model as `add_model` leaves it. -/
def addedModel (numMoeLayers : Nat) (indices : Nat → Row) : EplbModelState Row Load Logical where
  numMoeLayers := numMoeLayers
  expertWeights := fun layer => some (indices layer)
  physicalToLogicalMap := indices
  logicalMaps := fun layer => policy.computeLogicalMaps (indices layer)

def started (numModels step interval : Nat) (numMoeLayers : Nat → Nat)
    (indices : Nat → Nat → Row) : EplbState Row Load Logical where
  numModels := numModels
  modelStates := fun model => addedModel policy (numMoeLayers model) (indices model)
  expertRearrangementStep := step
  expertRearrangementStepInterval := interval
  rearrangeEvent := false
  main := .idle
  worker := .waiting

end VllmCore.Eplb
