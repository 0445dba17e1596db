import VllmCore.Eplb.AsyncWorker
/-!
# The layers of one model

What holds of one model at every place of the two threads.  The lock separates what the
worker writes for a layer from what the main thread takes of it; the flag of the buffer
says whose turn it is.
-/

namespace VllmCore.Eplb

variable {Row Load Logical : Type}

/-! ## Places -/

def WorkerStage.holdsLock : WorkerStage Row → Bool
  | .readRebalanced | .readLayer | .readReady | .readRebalancedAgain | .pollRebalanced
  | .acquire => false
  | _ => true

/-- The worker has found the buffer empty, and has not filled it. -/
def WorkerStage.filling : WorkerStage Row → Bool
  | .readRebalanced | .readLayer | .readReady | .pollRebalanced | .release _ => false
  | _ => true

/-- Where the main thread is, as far as one model is concerned. -/
inductive MainView (Row : Type)
  | elsewhere
  | moving (stage : MoveStage Row)
  | rearranging (stage : RearrangeStage)

def MainView.holdsLock : MainView Row → Bool
  | .moving .readPending | .moving .allRanksReady | .moving (.readReady _)
  | .moving (.acquire _) => false
  | .moving _ => true
  | _ => false

/-- The main thread has found the buffer full, and has not emptied it. -/
def MainView.emptying : MainView Row → Bool
  | .moving (.readReady all) => all
  | .moving (.acquire _) | .moving .assertNewMap | .moving .readWeightsLayer
  | .moving (.readNewIndices _) | .moving (.moveFromBuffer _ _) | .moving .recordConsumed
  | .moving .readTransferredLayer | .moving (.commitLayer _) | .moving .advanceLayer
  | .moving .clearReady => true
  | _ => false

/-- The weights of the layer have been moved, its maps not yet committed. -/
def MainView.between : MainView Row → Bool
  | .moving .recordConsumed | .moving .readTransferredLayer | .moving (.commitLayer _) => true
  | _ => false

/-- The maps of the layer have been committed, the buffer not yet marked empty. -/
def MainView.committed : MainView Row → Bool
  | .moving .advanceLayer | .moving .clearReady => true
  | _ => false

/-- The model is being rearranged: the main thread is past the check, and has not finished. -/
def MainView.inRearrangement : MainView Row → Bool
  | .moving (.readReady all) => all
  | .moving .allRanksReady | .moving (.acquire _) | .moving .assertNewMap
  | .moving .readWeightsLayer | .moving (.readNewIndices _) | .moving (.moveFromBuffer _ _)
  | .moving .recordConsumed | .moving .readTransferredLayer | .moving (.commitLayer _)
  | .moving .advanceLayer | .moving .clearReady | .moving .checkDone | .moving .postEplb
  | .moving .clearRebalanced => true
  | _ => false

def MainView.resetting : MainView Row → Bool
  | .moving .resetLayer => true
  | _ => false

/-- The model is no longer rebalanced, but still pending. -/
def MainView.ending : MainView Row → Bool
  | .moving .resetLayer | .moving .clearPending => true
  | _ => false

/-- The layers below this one are committed. -/
def nextLayer (x : EplbModelState Row Load Logical) : MainView Row → Nat
  | .moving .advanceLayer => x.layerToTransfer + 1
  | _ => x.layerToTransfer

/-! ## The invariant -/

/-- A transfer is that of the layer whose turn it is. -/
def Current (x : EplbModelState Row Load Logical) (t : Transfer Row) : Prop :=
  x.layerToTransfer < x.numMoeLayers ∧ ∃ new, x.newPhysicalToLogicalMap = some new ∧
    t = ⟨x.layerToTransfer, x.physicalToLogicalMap x.layerToTransfer, new x.layerToTransfer⟩

/-- The buffer and its metadata are of a transfer. -/
def Filled (x : EplbModelState Row Load Logical) (t : Transfer Row) : Prop :=
  x.expertBuffer = some t ∧ x.isUnchanged = some t ∧ x.isReceivedLocally = some t ∧
    x.recvMetadata = some t

/-- The worker's copy of the map agrees with the map from a layer on. -/
def Copied (x : EplbModelState Row Load Logical) (next : Nat)
    (loc : WorkerLocals Row Load) : Prop :=
  ∃ indices, loc.physicalToLogicalMapCpu = some indices ∧
    ∀ layer, next ≤ layer → indices layer = x.physicalToLogicalMap layer

def WorkerStage.Ok (x : EplbModelState Row Load Logical) (next : Nat)
    (loc : WorkerLocals Row Load) : WorkerStage Row → Prop
  | .readNewMap | .copyMap => x.layerToTransfer < x.numMoeLayers
  | .assertStats | .readStats | .assertWindowReady | .waitWindowReady | .clearWindowReady
  | .writeNewMap => x.layerToTransfer < x.numMoeLayers ∧ Copied x next loc
  | .assertNewMap | .readLayerIdx =>
    x.layerToTransfer < x.numMoeLayers ∧ loc.rebalancingAlgorithmExecuted = true
  | .readNewLayerIndices layerIdx =>
    x.layerToTransfer < x.numMoeLayers ∧ loc.rebalancingAlgorithmExecuted = true ∧
      layerIdx = x.layerToTransfer
  | .readConsumed _ t | .clearConsumed _ t | .transferLayer t => Current x t
  | .setUnchanged t => Current x t ∧ x.expertBuffer = some t
  | .setReceivedLocally t => Current x t ∧ x.expertBuffer = some t ∧ x.isUnchanged = some t
  | .setMetadata t =>
    Current x t ∧ x.expertBuffer = some t ∧ x.isUnchanged = some t ∧
      x.isReceivedLocally = some t
  | .setReady => ∃ t, Current x t ∧ Filled x t
  | .release .leave => x.numMoeLayers ≤ x.layerToTransfer
  | _ => True

def MainView.Ok (x : EplbModelState Row Load Logical) : MainView Row → Prop
  | .moving (.readNewIndices layer) => layer = x.layerToTransfer
  | .moving (.moveFromBuffer layer newIndices) =>
    layer = x.layerToTransfer ∧ ∃ new, x.newPhysicalToLogicalMap = some new ∧
      newIndices = new x.layerToTransfer
  | .moving (.commitLayer layer) => layer = x.layerToTransfer
  | .moving .advanceLayer => x.layerToTransfer < x.numMoeLayers
  | .moving .checkDone => x.epBufferReady = false
  | .moving .postEplb => x.epBufferReady = false ∧ x.numMoeLayers ≤ x.layerToTransfer
  | .moving .clearRebalanced =>
    x.epBufferReady = false ∧ x.newPhysicalToLogicalMap = none ∧
      x.numMoeLayers ≤ x.layerToTransfer
  | .moving .resetLayer =>
    x.epBufferReady = false ∧ x.newPhysicalToLogicalMap = none ∧ x.rebalanced = false
  | .rearranging .setStats | .rearranging .setWindowReady | .rearranging .setRebalanced =>
    x.rebalanced = false
  | .rearranging .setLayer | .rearranging .setPending =>
    x.rebalanced = true ∧ x.layerToTransfer = 0
  | _ => True

/-- The layers that a rearrangement has committed. -/
def committedIn (commits : List (Nat × Nat)) (rearrangement : Nat) : List Nat :=
  commits.filterMap fun c => if c.1 = rearrangement then some c.2 else none

/-- The layers that a rearrangement is to have committed by now: all of them, or those up to
the one whose turn it is. -/
def dueLayers (x : EplbModelState Row Load Logical) (next rearrangement : Nat) : List Nat :=
  if rearrangement = 0 ∨ x.rearrangements < rearrangement then []
  else if rearrangement = x.rearrangements ∧ x.rebalanced = true then List.range next
  else List.range x.numMoeLayers

structure LayerInv (policy : Policy Row Load Logical) (x : EplbModelState Row Load Logical)
    (w : Option (WorkerStage Row × WorkerLocals Row Load)) (v : MainView Row) : Prop where
  mainLock : x.bufferLock = some .main ↔ v.holdsLock = true
  workerLock : x.bufferLock = some .worker ↔ ∃ stage loc, w = some (stage, loc) ∧
    stage.holdsLock = true
  empty : ∀ stage loc, w = some (stage, loc) → stage.filling = true → x.epBufferReady = false
  full : v.emptying = true → x.epBufferReady = true
  filled : x.epBufferReady = true → v.committed = false → ∃ t, Current x t ∧ Filled x t
  bound : nextLayer x v ≤ x.numMoeLayers
  atRest : x.rebalanced = false → v.resetting = false → x.layerToTransfer = 0
  pending : x.pendingGlobalReadyCheck = true → v.ending = false → x.rebalanced = true
  inRearrangement : v.inRearrangement = true → x.rebalanced = true
  weights : v.between = false →
    ∀ layer, x.expertWeights layer = some (x.physicalToLogicalMap layer)
  between : v.between = true → ∃ new, x.newPhysicalToLogicalMap = some new ∧ ∀ layer,
    x.expertWeights layer = some (if layer = x.layerToTransfer then new layer
      else x.physicalToLogicalMap layer)
  logical : ∀ layer, x.logicalMaps layer =
    policy.computeLogicalMaps (x.physicalToLogicalMap layer)
  counted : x.rebalanced = true → 0 < x.rearrangements
  commits : ∀ rearrangement, committedIn x.commits rearrangement =
    dueLayers x (nextLayer x v) rearrangement
  copied : ∀ stage loc, w = some (stage, loc) → loc.rebalancingAlgorithmExecuted = true →
    x.newPhysicalToLogicalMap.isSome = true → Copied x (nextLayer x v) loc
  worker : ∀ stage loc, w = some (stage, loc) → stage.Ok x (nextLayer x v) loc
  main : v.Ok x

/-! ## Steps of the worker -/

/-- Where a thread is after a step, as far as the model is concerned. -/
def Next.view {Stage Locals : Type} (loc : Locals) : Next Stage → Option (Stage × Locals)
  | .goto stage => some (stage, loc)
  | .leave | .fail => none

section Worker

variable {policy : Policy Row Load Logical} {x : EplbModelState Row Load Logical}
  {stage stage' : WorkerStage Row} {loc loc' : WorkerLocals Row Load} {v v' : MainView Row}
  {w : Option (WorkerStage Row × WorkerLocals Row Load)}

theorem LayerInv.main_unlocked (h : LayerInv policy x (some (stage, loc)) v)
    (hlock : stage.holdsLock = true) : v.holdsLock = false := by
  have hworker := h.workerLock.mpr ⟨stage, loc, rfl, hlock⟩
  cases hv : v.holdsLock with
  | false => rfl
  | true =>
    have hmain := h.mainLock.mpr hv
    rw [hworker] at hmain
    cases hmain

theorem MainView.of_unlocked (hv : v.holdsLock = false) :
    v.between = false ∧ v.committed = false := by
  cases v with
  | elsewhere => simp [between, committed]
  | rearranging st => simp [between, committed]
  | moving st => cases st <;> simp [holdsLock, between, committed] at hv ⊢

theorem nextLayer_of_unlocked (hv : v.holdsLock = false)
    (x : EplbModelState Row Load Logical) : nextLayer x v = x.layerToTransfer := by
  cases v with
  | elsewhere => rfl
  | rearranging st => rfl
  | moving st =>
    cases st with
    | advanceLayer => cases hv
    | _ => rfl

theorem LayerInv.goto (h : LayerInv policy x (some (stage, loc)) v)
    (hlock : stage'.holdsLock = stage.holdsLock)
    (hempty : stage'.filling = true → x.epBufferReady = false)
    (hcopied : loc'.rebalancingAlgorithmExecuted = true →
      x.newPhysicalToLogicalMap.isSome = true → Copied x (nextLayer x v) loc')
    (hok : stage'.Ok x (nextLayer x v) loc') :
    LayerInv policy x (some (stage', loc')) v := { h with
  workerLock := by
    rw [h.workerLock]
    constructor
    · rintro ⟨_, _, ⟨⟩, hheld⟩
      exact ⟨_, _, rfl, hlock.trans hheld⟩
    · rintro ⟨_, _, ⟨⟩, hheld⟩
      exact ⟨_, _, rfl, hlock.symm.trans hheld⟩
  empty := by
    rintro _ _ ⟨⟩
    exact hempty
  copied := by
    rintro _ _ ⟨⟩
    exact hcopied
  worker := by
    rintro _ _ ⟨⟩
    exact hok }

theorem LayerInv.leave (h : LayerInv policy x w v) (hlock : x.bufferLock ≠ some .worker) :
    LayerInv policy x none v := { h with
  workerLock := by
    constructor
    · intro hheld
      exact absurd hheld hlock
    · rintro ⟨_, _, ⟨⟩, _⟩
  empty := by rintro _ _ ⟨⟩
  copied := by rintro _ _ ⟨⟩
  worker := by rintro _ _ ⟨⟩ }

theorem LayerInv.enter (h : LayerInv policy x none v) :
    LayerInv policy x (some (.readRebalanced, {})) v := { h with
  workerLock := by
    rw [h.workerLock]
    constructor
    · rintro ⟨_, _, ⟨⟩, _⟩
    · rintro ⟨_, _, ⟨⟩, ⟨⟩⟩
  empty := by rintro _ _ ⟨⟩ ⟨⟩
  copied := by rintro _ _ ⟨⟩ ⟨⟩
  worker := by
    rintro _ _ ⟨⟩
    trivial }

variable {x' : EplbModelState Row Load Logical}

theorem MainView.Ok.of_unlocked (h : v.Ok x)
    (hv : v.holdsLock = false) (hrebalanced : x'.rebalanced = x.rebalanced)
    (hlayer : x'.layerToTransfer = x.layerToTransfer) : v.Ok x' := by
  cases v with
  | elsewhere => trivial
  | rearranging st => cases st <;> simp only [MainView.Ok, hrebalanced, hlayer] at h ⊢ <;> exact h
  | moving st => cases st <;> trivial

theorem LayerInv.write (h : LayerInv policy x (some (stage, loc)) v)
    (hlock : stage.holdsLock = true) (hfilling : stage.filling = true)
    (hlock' : stage'.holdsLock = true) {new : Option (Nat → Row)}
    {buffer unchanged received metadata : Option (Transfer Row)} {consumed window : Bool}
    (hcopied : loc'.rebalancingAlgorithmExecuted = true → new.isSome = true →
      Copied x x.layerToTransfer loc') (hok : stage'.Ok { x with
        newPhysicalToLogicalMap := new, expertBuffer := buffer, isUnchanged := unchanged
        isReceivedLocally := received, recvMetadata := metadata
        bufferConsumedEvent := consumed, windowReadyEvent := window } x.layerToTransfer loc') :
    LayerInv policy { x with
        newPhysicalToLogicalMap := new, expertBuffer := buffer, isUnchanged := unchanged
        isReceivedLocally := received, recvMetadata := metadata
        bufferConsumedEvent := consumed, windowReadyEvent := window } (some (stage', loc')) v := by
  have hready := h.empty _ _ rfl hfilling
  have hv := h.main_unlocked hlock
  have hplace := MainView.of_unlocked hv
  have hnext := @nextLayer_of_unlocked Row Load Logical v hv
  exact { h with
    workerLock := by
      constructor
      · intro _
        exact ⟨_, _, rfl, hlock'⟩
      · intro _
        exact h.workerLock.mpr ⟨_, _, rfl, hlock⟩
    empty := fun _ _ _ _ => hready
    filled := by
      intro hfull
      exact absurd (hready.symm.trans hfull) Bool.false_ne_true
    bound := by
      have hbound := h.bound
      exact hbound
    between := by
      intro hbetween
      exact absurd (hplace.1.symm.trans hbetween) Bool.false_ne_true
    commits := by
      have hcommits := h.commits
      exact hcommits
    copied := by
      rw [hnext]
      rintro _ _ ⟨⟩
      exact hcopied
    worker := by
      rw [hnext]
      rintro _ _ ⟨⟩
      exact hok
    main := h.main.of_unlocked hv rfl rfl }

theorem LayerInv.workerAcquire (h : LayerInv policy x (some (.acquire, loc)) v)
    (hfree : x.bufferLock = none) :
    LayerInv policy { x with bufferLock := some .worker } (some (.checkLayer, loc)) v := { h with
  mainLock := by
    rw [← h.mainLock, hfree]
    show some Thread.worker = some Thread.main ↔ (none : Option Thread) = some Thread.main
    decide
  workerLock := by
    constructor
    · intro _
      exact ⟨_, _, rfl, rfl⟩
    · intro _
      rfl
  empty := by
    rintro _ _ ⟨⟩ _
    exact h.empty _ _ rfl rfl
  copied := by
    rintro _ _ ⟨⟩
    exact h.copied _ _ rfl
  worker := by
    rintro _ _ ⟨⟩
    trivial
  main := by
    have hv : v.holdsLock = false := by
      rw [← Bool.not_eq_true, ← h.mainLock, hfree]
      decide
    exact h.main.of_unlocked hv rfl rfl }

theorem LayerInv.fill (h : LayerInv policy x (some (.setReady, loc)) v) :
    LayerInv policy { x with epBufferReady := true } (some (.release .loop, loc)) v := by
  have hv := h.main_unlocked rfl
  have hnext := @nextLayer_of_unlocked Row Load Logical v hv
  have hok := h.worker _ _ rfl
  exact { h with
    workerLock := by
      constructor
      · intro _
        exact ⟨_, _, rfl, rfl⟩
      · intro _
        exact h.workerLock.mpr ⟨_, _, rfl, rfl⟩
    empty := by rintro _ _ ⟨⟩ ⟨⟩
    full := fun _ => rfl
    filled := fun _ _ => hok
    bound := by
      have hbound := h.bound
      exact hbound
    commits := by
      have hcommits := h.commits
      exact hcommits
    copied := by
      rintro _ _ ⟨⟩
      rw [hnext]
      have hcopied := h.copied _ _ rfl
      rw [hnext] at hcopied
      exact hcopied
    worker := by
      rintro _ _ ⟨⟩
      trivial
    main := h.main.of_unlocked hv rfl rfl }

theorem LayerInv.workerRelease {resume : Resume}
    (h : LayerInv policy x (some (.release resume, loc)) v) :
    LayerInv policy { x with bufferLock := none } ((resume.next .readRebalanced).view loc) v := by
  have hv := h.main_unlocked rfl
  have hnext := @nextLayer_of_unlocked Row Load Logical v hv
  have hstage : ∀ (stage : WorkerStage Row) (loc' : WorkerLocals Row Load),
      (resume.next .readRebalanced).view loc = some (stage, loc') →
        stage = .readRebalanced ∧ loc' = loc := by
    intro stage loc' hview
    cases resume with
    | loop =>
      cases hview
      exact ⟨rfl, rfl⟩
    | leave => cases hview
    | die => cases hview
  exact { h with
    mainLock := by
      rw [hv]
      show (none : Option Thread) = some Thread.main ↔ false = true
      decide
    workerLock := by
      constructor
      · rintro ⟨⟩
      · rintro ⟨stage, loc', hview, hlock⟩
        rw [(hstage stage loc' hview).1] at hlock
        cases hlock
    empty := by
      intro stage loc' hview hfilling
      rw [(hstage stage loc' hview).1] at hfilling
      cases hfilling
    bound := by
      have hbound := h.bound
      exact hbound
    commits := by
      have hcommits := h.commits
      exact hcommits
    copied := by
      intro stage loc' hview
      rw [(hstage stage loc' hview).2, hnext]
      have hcopied := h.copied _ _ rfl
      rw [hnext] at hcopied
      exact hcopied
    worker := by
      intro stage loc' hview
      rw [(hstage stage loc' hview).1]
      trivial
    main := h.main.of_unlocked hv rfl rfl }

theorem LayerInv.work_leave [DecidableEq Row] (h : LayerInv policy x (some (stage, loc)) v)
    (hwork : x.work policy loc stage = (.leave, loc', x')) :
    x.rebalanced = false ∨ x.numMoeLayers ≤ x.layerToTransfer := by
  have hok := h.worker _ _ rfl
  cases stage with
  | readRebalanced | pollRebalanced =>
    simp only [EplbModelState.work] at hwork
    split at hwork <;> cases hwork
    rename_i hrebalanced
    exact .inl (Bool.not_eq_true _ ▸ hrebalanced)
  | readLayer =>
    simp only [EplbModelState.work] at hwork
    split at hwork <;> cases hwork
    rename_i hge
    exact .inr (Nat.not_lt.mp hge)
  | release resume =>
    cases resume with
    | leave => exact .inr hok
    | loop => cases hwork
    | die => cases hwork
  | _ =>
    simp only [EplbModelState.work] at hwork
    grind

theorem work_frame [DecidableEq Row] (policy : Policy Row Load Logical)
    (x : EplbModelState Row Load Logical) (loc : WorkerLocals Row Load) (stage : WorkerStage Row) :
    (x.work policy loc stage).2.2.rebalanced = x.rebalanced ∧
      (x.work policy loc stage).2.2.layerToTransfer = x.layerToTransfer ∧
      (x.work policy loc stage).2.2.numMoeLayers = x.numMoeLayers := by
  cases stage <;> simp only [EplbModelState.work] <;> grind

theorem LayerInv.work [DecidableEq Row] (h : LayerInv policy x (some (stage, loc)) v)
    {next : Next (WorkerStage Row)} (hwork : x.work policy loc stage = (next, loc', x')) :
    LayerInv policy x' (next.view loc') v := by
  have hok := h.worker _ _ rfl
  have hcopied := h.copied _ _ rfl
  cases stage with
  | readRebalanced | readLayer | pollRebalanced =>
    simp only [EplbModelState.work] at hwork
    split at hwork <;> cases hwork
    · exact h.goto rfl (by rintro ⟨⟩) hcopied trivial
    · exact h.leave (by rw [Ne, h.workerLock]; rintro ⟨_, _, ⟨⟩, ⟨⟩⟩)
  | readReady =>
    simp only [EplbModelState.work] at hwork
    split at hwork <;> cases hwork
    · exact h.goto rfl (by rintro ⟨⟩) hcopied trivial
    · rename_i hready
      exact h.goto rfl (fun _ => Bool.not_eq_true _ ▸ hready) hcopied trivial
  | readRebalancedAgain =>
    simp only [EplbModelState.work] at hwork
    split at hwork <;> cases hwork
    · exact h.goto rfl (fun _ => h.empty _ _ rfl rfl) hcopied trivial
    · exact h.goto rfl (by rintro ⟨⟩) hcopied trivial
  | acquire =>
    simp only [EplbModelState.work] at hwork
    split at hwork <;> cases hwork
    · rename_i hfree
      exact h.workerAcquire hfree
    · exact h
  | checkLayer =>
    simp only [EplbModelState.work] at hwork
    split at hwork <;> cases hwork
    · rename_i hlt
      exact h.goto rfl (fun _ => h.empty _ _ rfl rfl) hcopied hlt
    · rename_i hge
      exact h.goto rfl (by rintro ⟨⟩) hcopied (Nat.not_lt.mp hge)
  | readNewMap =>
    simp only [EplbModelState.work] at hwork
    split at hwork <;> cases hwork
    · rename_i hnew
      exact h.goto rfl (fun _ => h.empty _ _ rfl rfl) hcopied ⟨hok, hnew.1⟩
    · exact h.goto rfl (fun _ => h.empty _ _ rfl rfl) hcopied hok
  | copyMap =>
    cases hwork
    have hcopy : Copied x (nextLayer x v)
        { loc with physicalToLogicalMapCpu := some x.physicalToLogicalMap } :=
      ⟨_, rfl, fun _ _ => rfl⟩
    exact h.goto rfl (fun _ => h.empty _ _ rfl rfl) (fun _ _ => hcopy) ⟨hok, hcopy⟩
  | assertStats | assertWindowReady | waitWindowReady =>
    simp only [EplbModelState.work] at hwork
    split at hwork <;> cases hwork
    · exact h.goto rfl (fun _ => h.empty _ _ rfl rfl) hcopied hok
    · exact h.goto rfl (by rintro ⟨⟩) hcopied trivial
  | readStats =>
    cases hwork
    exact h.goto rfl (fun _ => h.empty _ _ rfl rfl) (fun _ _ => hok.2) hok
  | clearWindowReady =>
    cases hwork
    rw [nextLayer_of_unlocked (h.main_unlocked rfl)] at hcopied hok
    exact h.write rfl rfl rfl hcopied hok
  | writeNewMap =>
    simp only [EplbModelState.work] at hwork
    rw [nextLayer_of_unlocked (h.main_unlocked rfl)] at hok
    split at hwork <;> cases hwork
    · exact h.write rfl rfl rfl (fun _ _ => hok.2) ⟨hok.1, rfl⟩
    · exact h.goto rfl (by rintro ⟨⟩) hcopied trivial
  | assertNewMap =>
    simp only [EplbModelState.work] at hwork
    split at hwork <;> cases hwork
    · exact h.goto rfl (fun _ => h.empty _ _ rfl rfl) hcopied hok
    · exact h.goto rfl (by rintro ⟨⟩) hcopied trivial
  | readLayerIdx =>
    cases hwork
    exact h.goto rfl (fun _ => h.empty _ _ rfl rfl) hcopied ⟨hok.1, hok.2, rfl⟩
  | readNewLayerIndices layerIdx =>
    simp only [EplbModelState.work] at hwork
    split at hwork <;> cases hwork
    · rename_i oldIndices newIndices hold hnew
      obtain ⟨indices, hindices, hcopy⟩ := hcopied hok.2.1 (by rw [hnew]; rfl)
      rw [hold] at hindices
      cases hindices
      rw [nextLayer_of_unlocked (h.main_unlocked rfl)] at hcopy
      refine h.goto rfl (fun _ => h.empty _ _ rfl rfl) hcopied ⟨hok.1, newIndices, hnew, ?_⟩
      rw [hok.2.2, hcopy x.layerToTransfer (Nat.le_refl _)]
    · exact h.goto rfl (by rintro ⟨⟩) hcopied trivial
  | readConsumed again t =>
    simp only [EplbModelState.work] at hwork
    split at hwork
    · cases hwork
      exact h.goto rfl (fun _ => h.empty _ _ rfl rfl) hcopied hok
    · split at hwork <;> cases hwork
      · exact h.goto rfl (fun _ => h.empty _ _ rfl rfl) hcopied hok
      · exact h.goto rfl (fun _ => h.empty _ _ rfl rfl) hcopied hok
  | clearConsumed again t =>
    simp only [EplbModelState.work] at hwork
    rw [nextLayer_of_unlocked (h.main_unlocked rfl)] at hcopied
    split at hwork <;> cases hwork
    · exact h.write rfl rfl rfl hcopied hok
    · exact h.write rfl rfl rfl hcopied hok
  | transferLayer t =>
    cases hwork
    have hv := MainView.of_unlocked (h.main_unlocked rfl)
    -- the weights that are sent are those of the current row
    have hsent : x.transferred t = some t := by
      obtain ⟨_, new, _, ht⟩ := hok
      unfold EplbModelState.transferred
      rw [h.weights hv.1, if_pos (by rw [ht])]
    rw [nextLayer_of_unlocked (h.main_unlocked rfl)] at hcopied
    exact h.write rfl rfl rfl hcopied ⟨hok, hsent⟩
  | setUnchanged t =>
    cases hwork
    rw [nextLayer_of_unlocked (h.main_unlocked rfl)] at hcopied
    exact h.write rfl rfl rfl hcopied ⟨hok.1, hok.2, rfl⟩
  | setReceivedLocally t =>
    cases hwork
    rw [nextLayer_of_unlocked (h.main_unlocked rfl)] at hcopied
    exact h.write rfl rfl rfl hcopied ⟨hok.1, hok.2.1, hok.2.2, rfl⟩
  | setMetadata t =>
    cases hwork
    rw [nextLayer_of_unlocked (h.main_unlocked rfl)] at hcopied
    exact h.write rfl rfl rfl hcopied ⟨t, hok.1, hok.2.1, hok.2.2.1, hok.2.2.2, rfl⟩
  | setReady =>
    cases hwork
    exact h.fill
  | release resume =>
    cases hwork
    exact h.workerRelease

end Worker

end VllmCore.Eplb
