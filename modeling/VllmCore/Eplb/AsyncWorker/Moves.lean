import VllmCore.Eplb.AsyncWorker.Layers
/-!
# The main thread at the layers of one model

The steps of `move_to_workspace` and of `rearrange` keep the invariant of their model.
-/

namespace VllmCore.Eplb

open Function

section Main

variable {Row Load Logical : Type} {policy : Policy Row Load Logical}
  {x : EplbModelState Row Load Logical} {v v' : MainView Row}
  {w : Option (WorkerStage Row × WorkerLocals Row Load)}
variable {stage : WorkerStage Row} {layer : Nat} {x' : EplbModelState Row Load Logical}

theorem LayerInv.worker_unlocked (h : LayerInv policy x w v) (hlock : v.holdsLock = true)
    {loc : WorkerLocals Row Load} (hw : w = some (stage, loc)) :
    stage.holdsLock = false := by
  have hmain := h.mainLock.mpr hlock
  cases hstage : stage.holdsLock with
  | false => rfl
  | true =>
    have hworker := h.workerLock.mpr ⟨stage, loc, hw, hstage⟩
    rw [hmain] at hworker
    cases hworker

theorem WorkerStage.Ok.of_unlocked (h : stage.holdsLock = false)
    (x : EplbModelState Row Load Logical) (next : Nat) (loc : WorkerLocals Row Load) :
    stage.Ok x next loc := by
  cases stage <;> trivial

theorem LayerInv.note (h : LayerInv policy x w v) (v' : MainView Row)
    (hlock : v'.holdsLock = v.holdsLock)
    (hfull : v'.emptying = true → x.epBufferReady = true) (hcommitted : v'.committed = v.committed)
    (hbetween : v'.between = v.between) (hnext : nextLayer x v' = nextLayer x v)
    (hreset : v.resetting = false) (hrearranged : v'.inRearrangement = true →
      x.rebalanced = true) {consumed window pending : Bool} {stats : Option Load}
    (hpending : pending = true → x.rebalanced = true) (hok : v'.Ok x) :
    LayerInv policy
      { x with
        bufferConsumedEvent := consumed, windowReadyEvent := window
        pendingGlobalReadyCheck := pending, eplbStats := stats } w v' := { h with
  mainLock := by
    rw [hlock]
    exact h.mainLock
  full := hfull
  filled := by
    rw [hcommitted]
    exact h.filled
  bound := by
    have hbound := h.bound
    rw [← hnext] at hbound
    exact hbound
  atRest := fun hrebalanced _ => h.atRest hrebalanced hreset
  pending := fun hp _ => hpending hp
  inRearrangement := hrearranged
  weights := by
    rw [hbetween]
    exact h.weights
  between := by
    rw [hbetween]
    exact h.between
  commits := by
    have hcommits := h.commits
    rw [← hnext] at hcommits
    exact hcommits
  copied := by
    have hcopied := h.copied
    rw [← hnext] at hcopied
    exact hcopied
  worker := by
    have hworker := h.worker
    rw [← hnext] at hworker
    exact hworker
  main := hok }

theorem LayerInv.look (h : LayerInv policy x w v) (v' : MainView Row)
    (hlock : v'.holdsLock = v.holdsLock) (hfull : v'.emptying = true → x.epBufferReady = true)
    (hcommitted : v'.committed = v.committed) (hbetween : v'.between = v.between)
    (hnext : nextLayer x v' = nextLayer x v)
    (hreset : v.resetting = false ∧ v.ending = false)
    (hrearranged : v'.inRearrangement = true → x.rebalanced = true) (hok : v'.Ok x) :
    LayerInv policy x w v' :=
  h.note v' hlock hfull hcommitted hbetween hnext hreset.1 hrearranged
    (fun hp => h.pending hp hreset.2) hok

theorem LayerInv.mainAcquire {retries : Nat} (h : LayerInv policy x w (.moving (.acquire retries)))
    (hfree : x.bufferLock = none) :
    LayerInv policy { x with bufferLock := some .main } w (.moving .assertNewMap) := { h with
  mainLock := by
    constructor
    · intro _
      rfl
    · intro _
      rfl
  workerLock := by
    rw [← h.workerLock, hfree]
    show some Thread.main = some Thread.worker ↔ (none : Option Thread) = some Thread.worker
    decide
  full := fun _ => h.full rfl
  atRest := fun hrebalanced _ => h.atRest hrebalanced rfl
  pending := fun hp _ => h.pending hp rfl
  inRearrangement := fun _ => h.inRearrangement rfl
  between := by rintro ⟨⟩
  main := trivial }

theorem LayerInv.moveWeights [DecidableEq Row] {newIndices : Row}
    (h : LayerInv policy x w (.moving (.moveFromBuffer layer newIndices))) :
    LayerInv policy
      { x with expertWeights := update x.expertWeights layer (x.moved layer newIndices) }
      w (.moving .recordConsumed) := by
  obtain ⟨rfl, new, hnew, rfl⟩ := h.main
  obtain ⟨t, ⟨_, new', hnew', rfl⟩, hfilled⟩ := h.filled (h.full rfl) rfl
  rw [hnew] at hnew'
  cases hnew'
  have hmoved : x.moved x.layerToTransfer (new x.layerToTransfer) =
      some (new x.layerToTransfer) := by
    unfold EplbModelState.moved
    rw [h.weights rfl]
    exact if_pos hfilled
  exact { h with
    atRest := fun hrebalanced _ => h.atRest hrebalanced rfl
    pending := fun hp _ => h.pending hp rfl
    inRearrangement := fun _ => h.inRearrangement rfl
    weights := by rintro ⟨⟩
    between := by
      intro _
      refine ⟨new, hnew, ?_⟩
      intro layer
      show update x.expertWeights x.layerToTransfer _ layer = _
      rw [hmoved, update_apply]
      split
      · rename_i heq
        rw [heq]
      · exact h.weights rfl layer
    worker := fun stage loc hw => .of_unlocked (h.worker_unlocked rfl hw) _ _ _
    main := trivial }

theorem committedIn_append (commits : List (Nat × Nat)) (rearrangement layer g : Nat) :
    committedIn (commits ++ [(rearrangement, layer)]) g =
      if rearrangement = g then committedIn commits g ++ [layer] else committedIn commits g := by
  unfold committedIn
  by_cases hg : rearrangement = g
  · simp [hg]
  · simp [hg]

theorem dueLayers_current (hrebalanced : x.rebalanced = true) (hcounted : 0 < x.rearrangements)
    (next : Nat) : dueLayers x next x.rearrangements = List.range next := by
  unfold dueLayers
  rw [if_neg (by omega), if_pos ⟨rfl, hrebalanced⟩]

theorem dueLayers_of_ne {g : Nat} (hg : g ≠ x.rearrangements) (next next' : Nat) :
    dueLayers x next g = dueLayers x next' g := by
  unfold dueLayers
  simp only [hg, false_and, if_false]

theorem LayerInv.commitMaps {new : Nat → Row}
    (h : LayerInv policy x w (.moving (.commitLayer layer)))
    (hnew : x.newPhysicalToLogicalMap = some new) :
    LayerInv policy
      { x with
        physicalToLogicalMap := update x.physicalToLogicalMap layer (new layer)
        logicalMaps :=
          update x.logicalMaps layer (policy.computeLogicalMaps (new layer))
        commits := x.commits ++ [(x.rearrangements, layer)] } w (.moving .advanceLayer) := by
  have hlayer : layer = x.layerToTransfer := h.main
  rw [hlayer]
  obtain ⟨new', hnew', hweights⟩ := h.between rfl
  rw [hnew] at hnew'
  cases hnew'
  obtain ⟨t, hcurrent, _⟩ := h.filled (h.full rfl) rfl
  have hrebalanced := h.inRearrangement rfl
  exact { h with
    filled := by rintro _ ⟨⟩
    bound := hcurrent.1
    atRest := fun hfalse _ => absurd (hrebalanced.symm.trans hfalse) (by decide)
    pending := fun _ _ => hrebalanced
    inRearrangement := fun _ => hrebalanced
    weights := by
      intro _ layer
      show x.expertWeights layer = some (update x.physicalToLogicalMap _ _ layer)
      rw [hweights, update_apply]
      split
      · rename_i heq
        rw [heq]
      · rfl
    between := by rintro ⟨⟩
    logical := by
      intro layer
      show update x.logicalMaps _ _ layer =
        policy.computeLogicalMaps (update x.physicalToLogicalMap _ _ layer)
      rw [update_apply, update_apply]
      split
      · rfl
      · exact h.logical layer
    commits := by
      intro g
      have hcounted := h.counted hrebalanced
      rw [committedIn_append, h.commits g]
      show (if x.rearrangements = g then dueLayers x x.layerToTransfer g ++ [x.layerToTransfer]
        else dueLayers x x.layerToTransfer g) = dueLayers x (x.layerToTransfer + 1) g
      by_cases hg : x.rearrangements = g
      · rw [if_pos hg, ← hg, dueLayers_current hrebalanced hcounted,
          dueLayers_current hrebalanced hcounted, List.range_succ]
      · rw [if_neg hg]
        exact dueLayers_of_ne (Ne.symm hg) _ _
    copied := by
      intro stage loc hw hexecuted hsome
      obtain ⟨indices, hindices, hcopy⟩ := h.copied stage loc hw hexecuted hsome
      refine ⟨indices, hindices, ?_⟩
      intro layer hle
      have hlt : x.layerToTransfer + 1 ≤ layer := hle
      show indices layer = update x.physicalToLogicalMap _ _ layer
      rw [update_of_ne (by omega)]
      exact hcopy layer (by show x.layerToTransfer ≤ layer; omega)
    worker := fun stage loc hw => .of_unlocked (h.worker_unlocked rfl hw) _ _ _
    main := hcurrent.1 }

theorem LayerInv.advance (h : LayerInv policy x w (.moving .advanceLayer)) :
    LayerInv policy { x with layerToTransfer := x.layerToTransfer + 1 } w
      (.moving .clearReady) := by
  have hrebalanced := h.inRearrangement rfl
  exact { h with
    filled := by rintro _ ⟨⟩
    atRest := fun hfalse _ => absurd (hrebalanced.symm.trans hfalse) (by decide)
    pending := fun _ _ => hrebalanced
    inRearrangement := fun _ => hrebalanced
    between := by rintro ⟨⟩
    worker := fun stage loc hw => .of_unlocked (h.worker_unlocked rfl hw) _ _ _
    main := trivial }

theorem LayerInv.empties (h : LayerInv policy x w (.moving .clearReady)) :
    LayerInv policy { x with epBufferReady := false } w (.moving .checkDone) := { h with
  empty := fun _ _ _ _ => rfl
  full := by rintro ⟨⟩
  filled := by rintro ⟨⟩
  atRest := fun hrebalanced _ => h.atRest hrebalanced rfl
  pending := fun hp _ => h.pending hp rfl
  inRearrangement := fun _ => h.inRearrangement rfl
  between := by rintro ⟨⟩
  worker := fun stage loc hw => .of_unlocked (h.worker_unlocked rfl hw) _ _ _
  main := rfl }

theorem LayerInv.dropNewMap (h : LayerInv policy x w (.moving .postEplb)) :
    LayerInv policy { x with newPhysicalToLogicalMap := none } w
      (.moving .clearRebalanced) := { h with
  full := by rintro ⟨⟩
  filled := fun hfull _ => absurd (h.main.1.symm.trans hfull) (by decide)
  atRest := fun hrebalanced _ => h.atRest hrebalanced rfl
  pending := fun hp _ => h.pending hp rfl
  inRearrangement := fun _ => h.inRearrangement rfl
  between := by rintro ⟨⟩
  copied := by rintro _ _ _ _ ⟨⟩
  worker := fun stage loc hw => .of_unlocked (h.worker_unlocked rfl hw) _ _ _
  main := ⟨h.main.1, rfl, h.main.2⟩ }

theorem LayerInv.finish (h : LayerInv policy x w (.moving .clearRebalanced)) :
    LayerInv policy { x with rebalanced := false } w (.moving .resetLayer) := by
  have hrebalanced := h.inRearrangement rfl
  have hlayer : x.layerToTransfer = x.numMoeLayers := Nat.le_antisymm h.bound h.main.2.2
  exact { h with
    full := by rintro ⟨⟩
    filled := fun hfull _ => absurd (h.main.1.symm.trans hfull) (by decide)
    atRest := by rintro _ ⟨⟩
    pending := by rintro _ ⟨⟩
    inRearrangement := by rintro ⟨⟩
    between := by rintro ⟨⟩
    counted := by rintro ⟨⟩
    commits := by
      intro g
      rw [h.commits g]
      unfold dueLayers
      show (if g = 0 ∨ x.rearrangements < g then []
        else if g = x.rearrangements ∧ x.rebalanced = true then List.range x.layerToTransfer
        else List.range x.numMoeLayers) = _
      rw [hlayer, ite_self]
      simp
    copied := fun _ _ _ _ hsome =>
      absurd ((congrArg Option.isSome h.main.2.1).symm.trans hsome) Bool.false_ne_true
    worker := fun stage loc hw => .of_unlocked (h.worker_unlocked rfl hw) _ _ _
    main := ⟨h.main.1, h.main.2.1, rfl⟩ }

theorem LayerInv.reset (h : LayerInv policy x w (.moving .resetLayer)) :
    LayerInv policy { x with layerToTransfer := 0 } w (.moving .clearPending) := by
  have hrest : x.rebalanced = false := h.main.2.2
  exact { h with
    full := by rintro ⟨⟩
    filled := fun hfull _ => absurd (h.main.1.symm.trans hfull) (by decide)
    bound := Nat.zero_le _
    atRest := fun _ _ => rfl
    pending := by rintro _ ⟨⟩
    inRearrangement := by rintro ⟨⟩
    between := by rintro ⟨⟩
    commits := by
      intro g
      rw [h.commits g]
      show (if g = 0 ∨ x.rearrangements < g then []
        else if g = x.rearrangements ∧ x.rebalanced = true then _ else List.range x.numMoeLayers) =
        if g = 0 ∨ x.rearrangements < g then []
        else if g = x.rearrangements ∧ x.rebalanced = true then _ else List.range x.numMoeLayers
      rw [hrest]
      simp
    copied := fun _ _ _ _ hsome =>
      absurd ((congrArg Option.isSome h.main.2.1).symm.trans hsome) Bool.false_ne_true
    worker := fun stage loc hw => .of_unlocked (h.worker_unlocked rfl hw) _ _ _
    main := trivial }

theorem LayerInv.dropPending (h : LayerInv policy x w (.moving .clearPending)) :
    LayerInv policy { x with pendingGlobalReadyCheck := false } w
      (.moving (.release .leave)) := { h with
  full := by rintro ⟨⟩
  atRest := fun hrebalanced _ => h.atRest hrebalanced rfl
  pending := by rintro ⟨⟩
  inRearrangement := by rintro ⟨⟩
  between := by rintro ⟨⟩
  main := trivial }

/-- Where the main thread is after a step, as far as the model is concerned. -/
def Next.mainView {Stage : Type} (view : Stage → MainView Row) : Next Stage → MainView Row
  | .goto stage => view stage
  | .leave | .fail => .elsewhere

theorem LayerInv.mainRelease {resume : Resume}
    (h : LayerInv policy x w (.moving (.release resume))) :
    LayerInv policy { x with bufferLock := none } w
      ((resume.next .readPending).mainView .moving) := { h with
  mainLock := by cases resume <;> constructor <;> rintro ⟨⟩
  workerLock := by
    constructor
    · rintro ⟨⟩
    · rintro ⟨stage, loc, hw, hlock⟩
      rw [h.worker_unlocked rfl hw] at hlock
      cases hlock
  full := by cases resume <;> rintro ⟨⟩
  filled := fun hfull _ => h.filled hfull rfl
  bound := by cases resume <;> exact h.bound
  atRest := fun hrebalanced _ => h.atRest hrebalanced rfl
  pending := fun hp _ => h.pending hp rfl
  inRearrangement := by cases resume <;> rintro ⟨⟩
  weights := fun _ => h.weights rfl
  between := by cases resume <;> rintro ⟨⟩
  commits := by cases resume <;> exact h.commits
  copied := by cases resume <;> exact h.copied
  worker := fun stage loc hw => .of_unlocked (h.worker_unlocked rfl hw) _ _ _
  main := by cases resume <;> trivial }

theorem LayerInv.move [DecidableEq Row] {stage : MoveStage Row} {othersReady : Bool}
    (h : LayerInv policy x w (.moving stage)) {next : Next (MoveStage Row)}
    (hmove : x.move policy othersReady stage = (next, x')) :
    LayerInv policy x' w (next.mainView .moving) := by
  have hok := h.main
  cases stage with
  | readPending =>
    simp only [EplbModelState.move] at hmove
    split at hmove <;> cases hmove
    · rename_i hp
      exact h.look _ rfl (by rintro ⟨⟩) rfl rfl rfl ⟨rfl, rfl⟩
        (fun _ => h.pending hp rfl) trivial
    · exact h.look _ rfl (by rintro ⟨⟩) rfl rfl rfl ⟨rfl, rfl⟩ (by rintro ⟨⟩)
        trivial
  | allRanksReady =>
    cases hmove
    refine h.look _ rfl ?_ rfl rfl rfl ⟨rfl, rfl⟩
      (fun _ => h.inRearrangement rfl) trivial
    intro hready
    exact (Bool.and_eq_true _ _ ▸ hready).1
  | readReady allRanksBufferReady =>
    simp only [EplbModelState.move] at hmove
    split at hmove <;> cases hmove
    · rename_i hready
      refine h.look _ rfl (fun _ => hready.1) rfl rfl rfl ⟨rfl, rfl⟩ ?_ trivial
      intro _
      exact h.inRearrangement hready.2
    · exact h.look _ rfl (by rintro ⟨⟩) rfl rfl rfl ⟨rfl, rfl⟩ (by rintro ⟨⟩) trivial
  | acquire retries =>
    simp only [EplbModelState.move] at hmove
    split at hmove
    · cases hmove
      rename_i hfree
      exact h.mainAcquire hfree
    · split at hmove <;> cases hmove
      · exact h.look _ rfl h.full rfl rfl rfl ⟨rfl, rfl⟩ h.inRearrangement trivial
      · exact h.look _ rfl (by rintro ⟨⟩) rfl rfl rfl ⟨rfl, rfl⟩ (by rintro ⟨⟩) trivial
  | assertNewMap =>
    simp only [EplbModelState.move] at hmove
    split at hmove <;> cases hmove
    · exact h.look _ rfl h.full rfl rfl rfl ⟨rfl, rfl⟩ h.inRearrangement trivial
    · exact h.look _ rfl (by rintro ⟨⟩) rfl rfl rfl ⟨rfl, rfl⟩ (by rintro ⟨⟩) trivial
  | readWeightsLayer =>
    cases hmove
    exact h.look _ rfl h.full rfl rfl rfl ⟨rfl, rfl⟩ h.inRearrangement rfl
  | readNewIndices layer =>
    simp only [EplbModelState.move] at hmove
    split at hmove <;> cases hmove
    · rename_i new hnew
      exact h.look _ rfl h.full rfl rfl rfl ⟨rfl, rfl⟩ h.inRearrangement ⟨hok, new, hnew, rfl⟩
    · exact h.look _ rfl (by rintro ⟨⟩) rfl rfl rfl ⟨rfl, rfl⟩ (by rintro ⟨⟩) trivial
  | moveFromBuffer layer newIndices =>
    cases hmove
    exact h.moveWeights
  | recordConsumed =>
    cases hmove
    exact h.note (.moving .readTransferredLayer) rfl h.full rfl rfl rfl rfl h.inRearrangement
      (fun hp => h.pending hp rfl) trivial
  | readTransferredLayer =>
    cases hmove
    exact h.look _ rfl h.full rfl rfl rfl ⟨rfl, rfl⟩ h.inRearrangement rfl
  | commitLayer layer =>
    simp only [EplbModelState.move] at hmove
    obtain ⟨new, hnew, _⟩ := h.between rfl
    split at hmove <;> cases hmove
    · rename_i new' hnew'
      exact h.commitMaps hnew'
    · rename_i hnone
      rw [hnew] at hnone
      cases hnone
  | advanceLayer =>
    cases hmove
    exact h.advance
  | clearReady =>
    cases hmove
    exact h.empties
  | checkDone =>
    simp only [EplbModelState.move] at hmove
    split at hmove <;> cases hmove
    · rename_i hle
      exact h.look _ rfl h.full rfl rfl rfl ⟨rfl, rfl⟩ h.inRearrangement ⟨hok, hle⟩
    · exact h.look _ rfl (by rintro ⟨⟩) rfl rfl rfl ⟨rfl, rfl⟩ (by rintro ⟨⟩) trivial
  | postEplb =>
    simp only [EplbModelState.move] at hmove
    split at hmove <;> cases hmove
    · exact h.dropNewMap
    · exact h.look _ rfl (by rintro ⟨⟩) rfl rfl rfl ⟨rfl, rfl⟩ (by rintro ⟨⟩) trivial
  | clearRebalanced =>
    cases hmove
    exact h.finish
  | resetLayer =>
    cases hmove
    exact h.reset
  | clearPending =>
    cases hmove
    exact h.dropPending
  | release resume =>
    cases hmove
    exact h.mainRelease

theorem LayerInv.begin (h : LayerInv policy x w (.rearranging .setRebalanced)) :
    LayerInv policy { x with rebalanced := true, rearrangements := x.rearrangements + 1 } w
      (.rearranging .setLayer) := by
  have hrest : x.rebalanced = false := h.main
  have hlayer := h.atRest hrest rfl
  exact { h with
    full := by rintro ⟨⟩
    atRest := by rintro ⟨⟩
    pending := fun _ _ => rfl
    inRearrangement := by rintro ⟨⟩
    between := by rintro ⟨⟩
    counted := fun _ => Nat.succ_pos _
    commits := by
      intro g
      rw [h.commits g]
      show (if g = 0 ∨ x.rearrangements < g then []
        else if g = x.rearrangements ∧ x.rebalanced = true then List.range x.layerToTransfer
        else List.range x.numMoeLayers) =
        if g = 0 ∨ x.rearrangements + 1 < g then []
        else if g = x.rearrangements + 1 ∧ true = true then List.range x.layerToTransfer
        else List.range x.numMoeLayers
      grind
    main := ⟨rfl, hlayer⟩ }

theorem LayerInv.rearrange {stage : RearrangeStage} {load : Load}
    (h : LayerInv policy x w (.rearranging stage)) {next : Next RearrangeStage}
    (hstep : x.rearrange load stage = (next, x')) :
    LayerInv policy x' w (next.mainView .rearranging) := by
  have hok := h.main
  cases stage with
  | setStats =>
    cases hstep
    exact h.note (.rearranging .setWindowReady) rfl (by rintro ⟨⟩) rfl rfl rfl rfl
      (by rintro ⟨⟩) (fun hp => h.pending hp rfl) hok
  | setWindowReady =>
    cases hstep
    exact h.note (.rearranging .setRebalanced) rfl (by rintro ⟨⟩) rfl rfl rfl rfl
      (by rintro ⟨⟩) (fun hp => h.pending hp rfl) hok
  | setRebalanced =>
    cases hstep
    exact h.begin
  | setLayer =>
    cases hstep
    have hsame : { x with layerToTransfer := 0 } = x := by rw [← hok.2]
    rw [hsame]
    exact h.look _ rfl (by rintro ⟨⟩) rfl rfl rfl ⟨rfl, rfl⟩ (by rintro ⟨⟩) hok
  | setPending =>
    cases hstep
    exact h.note .elsewhere rfl (by rintro ⟨⟩) rfl rfl rfl rfl (by rintro ⟨⟩) (fun _ => hok.1)
      trivial

theorem LayerInv.turn (h : LayerInv policy x w v)
    (hv : v = .elsewhere ∨ v = .moving .readPending) (v' : MainView Row)
    (hv' : v' = .elsewhere ∨ v' = .moving .readPending ∨
      v' = .rearranging .setStats ∧ x.rebalanced = false) : LayerInv policy x w v' := by
  obtain rfl | rfl := hv <;> obtain rfl | rfl | ⟨rfl, hrest⟩ := hv'
  all_goals
    first
    | exact h.look _ rfl (by rintro ⟨⟩) rfl rfl rfl ⟨rfl, rfl⟩ (by rintro ⟨⟩) trivial
    | exact h.look _ rfl (by rintro ⟨⟩) rfl rfl rfl ⟨rfl, rfl⟩ (by rintro ⟨⟩) hrest

end Main

end VllmCore.Eplb
