import VllmCore.Engine
import VllmCore.Scheduler.Frames
/-!
# What the calls consist of

Between the passes the engine's calls change the queues by a few operations only: requests
are added, preempted, freed and finished, or removed when they have stopped.  What these
preserve, and no quiet change disturbs, is preserved by every call.
-/

namespace VllmCore

open Support

variable {D : Type} [DecidableEq D] {C : KVConnector D}

namespace Scheduler

/-- Neither the queues nor anything that they are ordered by has changed. -/
structure Quiet (s s' : Scheduler D C) : Prop where
  eq : s' = { s with
    objs := s'.objs
    prevStepScheduledReqIds := s'.prevStepScheduledReqIds
    finishedReqIds := s'.finishedReqIds
    finishedRecvingKvReqIds := s'.finishedRecvingKvReqIds
    failedRecvingKvReqIds := s'.failedRecvingKvReqIds
    encoderCacheManager := s'.encoderCacheManager
    kvCacheManager := s'.kvCacheManager
    connector := s'.connector
    pauseState := s'.pauseState }
  objs : ∀ ref, s'.objs ref = { s.objs ref with
    numOutputPlaceholders := (s'.objs ref).numOutputPlaceholders
    discardLatestAsyncTokens := (s'.objs ref).discardLatestAsyncTokens
    specTokenIds := (s'.objs ref).specTokenIds
    numComputedTokens := (s'.objs ref).numComputedTokens
    isPrefillChunk := (s'.objs ref).isPrefillChunk
    numExternalComputedTokens := (s'.objs ref).numExternalComputedTokens
    streamingQueue := (s'.objs ref).streamingQueue }

namespace Quiet

variable {s s₁ s' : Scheduler D C}

theorem refl (s : Scheduler D C) : s.Quiet s := ⟨rfl, fun _ => rfl⟩

theorem trans (h : s.Quiet s₁) (h' : s₁.Quiet s') : s.Quiet s' := by
  constructor
  · rw [h'.eq, h.eq]
  · intro ref
    rw [h'.objs ref, h.objs ref]

section

variable (h : s.Quiet s')
include h

theorem config : s'.config = s.config := by rw [h.eq]

theorem requests : s'.requests = s.requests := by rw [h.eq]

theorem numObjs : s'.numObjs = s.numObjs := by rw [h.eq]

theorem running : s'.running = s.running := by rw [h.eq]

theorem waiting : s'.waiting = s.waiting := by rw [h.eq]

theorem skippedWaiting : s'.skippedWaiting = s.skippedWaiting := by rw [h.eq]

theorem requestId (ref : Ref) : (s'.objs ref).requestId = (s.objs ref).requestId := by
  rw [h.objs ref]

theorem status (ref : Ref) : (s'.objs ref).status = (s.objs ref).status := by rw [h.objs ref]

end

theorem of_cachesOnly (h : s.CachesOnly s') : s.Quiet s' := by
  rw [h.eq]
  exact ⟨rfl, fun _ => rfl⟩

theorem of_cutBackOnly (h : s.CutBackOnly s') : s.Quiet s' := by
  constructor
  · rw [h.eq]
  · intro ref
    rw [h.objs ref]

theorem modify (s : Scheduler D C) (ref : Ref) {f : Request D → Request D}
    (hf : ∀ r, f r = { r with
      numOutputPlaceholders := (f r).numOutputPlaceholders
      discardLatestAsyncTokens := (f r).discardLatestAsyncTokens
      specTokenIds := (f r).specTokenIds
      numComputedTokens := (f r).numComputedTokens
      isPrefillChunk := (f r).isPrefillChunk
      streamingQueue := (f r).streamingQueue }) : s.Quiet (s.modify ref f) := by
  refine ⟨rfl, fun x => ?_⟩
  rw [modify_objs]
  split
  next hx =>
    subst hx
    rw [hf]
  · rfl

end Quiet

variable {s s' : Scheduler D C} {output output' : SchedulerOutput C.Metadata}
  {out : ModelRunnerOutput C.WorkerMeta}

theorem updateDraftTokenIds_quiet (s : Scheduler D C)
    (validate : Ref → List Token → List Token) (draftTokenIds : List (ReqId × List Token)) :
    s.Quiet (s.updateDraftTokenIds validate draftTokenIds) := by
  induction draftTokenIds generalizing s with
  | nil => exact .refl s
  | cons e rest ih =>
    have hfirst : s.Quiet (updateDraftTokenIdsOf validate s e) := by
      unfold updateDraftTokenIdsOf
      split
      · exact .refl s
      · split
        · exact .refl s
        · exact .modify s _ fun _ => rfl
    exact hfirst.trans (ih (updateDraftTokenIdsOf validate s e))

/-! ## The end of a pass -/

theorem afterOutput_quiet (p : Pass D C) : p.sched.Quiet (afterOutput p) := ⟨rfl, fun _ => rfl⟩

theorem advanceRequest_quiet {e : ReqId × Int}
    (h : advanceRequest (output, s) e = .ok (output', s')) : s.Quiet s' := by
  obtain ⟨ref, _, hcaches, _⟩ := advanceRequest_spec h
  have hmodify : s.Quiet (s.modify ref (advanced e.2)) := .modify s ref fun _ => rfl
  exact hmodify.trans (.of_cachesOnly hcaches)

theorem addPlaceholders_quiet {rid : ReqId}
    (h : addPlaceholders (output, s) rid = .ok (output', s')) : s.Quiet s' := by
  obtain ⟨ref, _, rfl, _⟩ := addPlaceholders_spec h
  refine .modify s ref fun r => ?_
  split <;> rfl

theorem finishPass_quiet {p : Pass D C} (h : finishPass p = .ok (output, s)) :
    p.sched.Quiet s := by
  simp only [finishPass, bind_ok] at h
  obtain ⟨output₁, _, ⟨output₂, s₁⟩, hmeta, h⟩ := h
  have hs₁ := (afterOutput_quiet p).trans
    (.of_cachesOnly (buildKvConnectorMeta_cachesOnly hmeta).1)
  simp only [updateAfterSchedule, bind_ok] at h
  obtain ⟨⟨output₃, s₂⟩, hadvance, h⟩ := h
  have hs₂ : p.sched.Quiet s₂ :=
    foldlM_inv (P := fun st : SchedulerOutput C.Metadata × Scheduler D C => p.sched.Quiet st.2)
      (fun _ _ _ _ hst hstep => hst.trans (advanceRequest_quiet hstep)) hs₁ hadvance
  have hs₃ : p.sched.Quiet { s₂ with finishedReqIds := [] } := hs₂.trans ⟨rfl, fun _ => rfl⟩
  split at h
  · exact foldlM_inv (P := fun st : SchedulerOutput C.Metadata × Scheduler D C =>
      p.sched.Quiet st.2) (fun _ _ _ _ hst hstep => hst.trans (addPlaceholders_quiet hstep)) hs₃ h
  · obtain ⟨_, rfl⟩ := Prod.mk.inj (pure_ok.mp h)
    exact hs₃

/-! ## What the calls preserve -/

structure Preserved (P : Scheduler D C → Prop) : Prop where
  quiet : ∀ {s s' : Scheduler D C}, P s → s.Quiet s' → P s'
  preempt : ∀ {s s' : Scheduler D C} {ref : Ref}, P s → s.running.getLast? = some ref →
    { s with running := s.running.dropLast }.preemptRequest ref = .ok s' → P s'
  free : ∀ {s s' : Scheduler D C} {rid : ReqId} {ref : Ref}, P s →
    s.requests.get? rid = some ref → s.freeBlocks ref = .ok s' → P s'
  finish : ∀ {s s' : Scheduler D C} {requestIds : Option (List ReqId)} {status : RequestStatus},
    P s → s.finishRequests requestIds status = .ok s' → P s'

namespace Preserved

variable {P : Scheduler D C → Prop} (hP : Preserved P)
include hP

theorem resetRunning {fuel : Nat} (h : P s) (hreset : Scheduler.resetRunning fuel s = .ok s') :
    P s' := by
  induction fuel generalizing s with
  | zero =>
    simp only [Scheduler.resetRunning, pure_ok] at hreset
    exact hreset ▸ h
  | succ fuel ih =>
    unfold Scheduler.resetRunning at hreset
    split at hreset
    · rw [pure_ok] at hreset
      exact hreset ▸ h
    next ref hlast =>
      simp only [bind_ok] at hreset
      obtain ⟨s₁, hpreempt, hreset⟩ := hreset
      exact ih (hP.quiet (hP.preempt h hlast hpreempt) (.modify s₁ ref fun _ => rfl)) hreset

theorem resetPrefixCache {resetRunning resetConnector res : Bool} (h : P s)
    (hreset : s.resetPrefixCache resetRunning resetConnector = .ok (res, s')) : P s' := by
  simp only [Scheduler.resetPrefixCache, bind_ok] at hreset
  obtain ⟨s₁, hs₁, _, _, hreset⟩ := hreset
  have h₁ : P s₁ := by
    split at hs₁
    · simp only [bind_ok, pure_ok] at hs₁
      obtain ⟨s₂, hs₂, rfl⟩ := hs₁
      exact hP.quiet (hP.resetRunning h hs₂) ⟨rfl, fun _ => rfl⟩
    · exact pure_ok.mp hs₁ ▸ h
  have h₂ : P { s₁ with kvCacheManager := s₁.kvCacheManager.resetPrefixCache.1 } :=
    hP.quiet h₁ ⟨rfl, fun _ => rfl⟩
  split at hreset
  · simp only [bind_ok] at hreset
    obtain ⟨⟨_, s₃⟩, hconnector, _, rfl⟩ := hreset
    exact hP.quiet h₂ (.of_cachesOnly (resetConnectorCache_cachesOnly hconnector))
  · obtain ⟨rfl, rfl⟩ := hreset
    exact h₂

theorem updateFromKvXferFinished {kvOutput : KVConnectorOutput C.WorkerMeta} (h : P s)
    (hupdate : s.updateFromKvXferFinished kvOutput = .ok s') : P s' := by
  simp only [Scheduler.updateFromKvXferFinished, bind_ok] at hupdate
  obtain ⟨s₁, hs₁, s₂, hrecving, hsending⟩ := hupdate
  have h₁ : P s₁ := by
    split at hs₁
    · exact pure_ok.mp hs₁ ▸ h
    · simp only [bind_ok, pure_ok] at hs₁
      obtain ⟨⟨refs, state⟩, _, s₃, hs₃, rfl⟩ := hs₁
      exact hP.quiet h ((Quiet.of_cachesOnly (applyPoolRefs_cachesOnly hs₃)).trans
        ⟨rfl, fun _ => rfl⟩)
  have h₂ : P s₂ := by
    refine foldlM_inv ?_ h₁ hrecving
    intro s₃ rid s₄ _ h₃ hstep
    simp only [finishRecving, bind_ok, Dict.get_ok] at hstep
    obtain ⟨ref, href, hstep⟩ := hstep
    split at hstep
    · exact pure_ok.mp hstep ▸ hP.quiet h₃ ⟨rfl, fun _ => rfl⟩
    · simp only [bind_ok] at hstep
      obtain ⟨_, _, hstep⟩ := hstep
      exact hP.free h₃ href hstep
  refine foldlM_inv ?_ h₂ hsending
  intro s₃ rid s₄ _ h₃ hstep
  simp only [finishSending, bind_ok, Dict.get_ok] at hstep
  obtain ⟨ref, href, hstep⟩ := hstep
  exact hP.free h₃ href hstep

/-- Only the loop over the requests of the step is left. -/
theorem updateFromOutput {outputs : List (Nat × EngineCoreOutput)}
    {events : List (KVCacheEvent D)}
    (hloop : ∀ {failed : List ReqId} {s₁ : Scheduler D C} {st : UpdatePass D C},
      s.failedLoads output out = .ok (failed, s₁) →
      output.numScheduledTokens.entries.foldlM (updateRequest output out failed)
        { sched := s₁ } = .ok st → P (removeStopped st))
    (hupdate : s.updateFromOutput output out = .ok (outputs, events, s')) : P s' := by
  simp only [Scheduler.updateFromOutput, bind_ok] at hupdate
  obtain ⟨⟨failed, s₁⟩, hfailed, st, hst, ⟨outputs, s₂⟩, hfail, s₃, hxfer, _, _, rfl⟩ := hupdate
  have hremoved := hloop hfailed hst
  have h₂ : P s₂ := by
    split at hfail
    · simp only [failRequests, bind_ok] at hfail
      obtain ⟨refs, _, s₄, hs₄, _, rfl⟩ := hfail
      exact hP.finish hremoved hs₄
    · obtain ⟨rfl, rfl⟩ := hfail
      exact hremoved
  have h₃ : P s₃ := by
    split at hxfer
    · exact pure_ok.mp hxfer ▸ h₂
    · exact hP.updateFromKvXferFinished h₂ hxfer
  exact hP.quiet h₃ (.of_cachesOnly (takeEvents_cachesOnly s₃))

/-- A call of the engine, where requests are added, a pass is made or the output of a step
is processed as `P` needs it. -/
theorem run {e e' : EngineCore D C} {call : EngineCore.Call C} (h : P e.scheduler)
    (hadd : ∀ {args : Request.Args} {r : Request D} {s : Scheduler D C},
      call = .addRequest args → Request.create e.scheduler.config.blockHasher args = .ok r →
      e.scheduler.addRequest r = .ok s → P s)
    (hschedule : ∀ {env : ScheduleEnv} {output : SchedulerOutput C.Metadata}
      {s : Scheduler D C}, e.scheduler.schedule env = .ok (output, s) → P s)
    (hloop : ∀ {out : ModelRunnerOutput C.WorkerMeta} {step : ScheduledStep D C}
      {failed : List ReqId} {s : Scheduler D C} {st : UpdatePass D C},
      call = .updateFromOutput out → step ∈ e.inFlight.head? →
      e.scheduler.failedLoads step.output out = .ok (failed, s) →
      step.output.numScheduledTokens.entries.foldlM (updateRequest step.output out failed)
        { sched := s } = .ok st → P (removeStopped st))
    (hrun : e.run call = .ok e') : P e'.scheduler := by
  cases call with
  | addRequest args =>
    simp only [EngineCore.run, bind_ok, pure_ok] at hrun
    obtain ⟨r, hr, s, hs, rfl⟩ := hrun
    exact hadd rfl hr hs
  | schedule env =>
    simp only [EngineCore.run, EngineCore.schedule, bind_ok, pure_ok] at hrun
    obtain ⟨⟨output, s⟩, hs, rfl⟩ := hrun
    exact hschedule hs
  | updateFromOutput out =>
    simp only [EngineCore.run, EngineCore.updateFromOutput] at hrun
    split at hrun
    · cases hrun
    next step rest hflight =>
      simp only [bind_ok, pure_ok] at hrun
      obtain ⟨⟨outputs, events, s⟩, hs, rfl⟩ := hrun
      exact hP.updateFromOutput (hloop rfl (by rw [hflight]; rfl)) hs
  | finishRequests requestIds status =>
    simp only [EngineCore.run, bind_ok, pure_ok] at hrun
    obtain ⟨s, hs, rfl⟩ := hrun
    exact hP.finish h hs
  | resetPrefixCache resetRunning resetConnector =>
    simp only [EngineCore.run, bind_ok, pure_ok] at hrun
    obtain ⟨⟨_, s⟩, hs, rfl⟩ := hrun
    exact hP.resetPrefixCache h hs
  | resetEncoderCache | setPauseState pauseState =>
    cases hrun
    exact hP.quiet h ⟨rfl, fun _ => rfl⟩
  | updateDraftTokenIds validate drafts =>
    cases hrun
    exact hP.quiet h (updateDraftTokenIds_quiet _ _ _)
  | updateDraftTokenIdsInOutput validate drafts =>
    simp only [EngineCore.run, EngineCore.updateDraftTokenIdsInOutput] at hrun
    split at hrun
    · cases hrun
    · exact pure_ok.mp hrun ▸ h

end Preserved

end Scheduler

end VllmCore
