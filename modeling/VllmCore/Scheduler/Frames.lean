import VllmCore.Scheduler.PassSteps
/-!
# What the scheduler's functions change

For each function of the scheduler that touches more than one component, the state it
returns is written as its argument with the changed fields.  The invariants of the
scheduler are derived from these descriptions and never unfold the functions.
-/

namespace VllmCore

open Support Dict

variable {D : Type}

theorem Request.appendOutputTokenIds_spec (hasher : Option (Request D → List D)) (r : Request D)
    (tokenIds : List Token) :
    r.appendOutputTokenIds hasher tokenIds = { r with
      outputTokenIds := r.outputTokenIds ++ tokenIds
      allTokenIds := r.allTokenIds ++ tokenIds
      blockHashes := (r.appendOutputTokenIds hasher tokenIds).blockHashes } := by
  cases hasher <;> rfl

theorem Request.updateAsSession_frame {hasher : Option (Request D → List D)}
    {session session' : Request D} {update : StreamingUpdate}
    (h : session.updateAsSession hasher update = .ok session') :
    session'.requestId = session.requestId ∧ session'.status = .waiting := by
  unfold Request.updateAsSession at h
  split at h
  · cases h
  · rw [pure_ok] at h
    subst h
    cases hasher <;> exact ⟨rfl, rfl⟩

variable {r r' : Request D} {stopped : Bool}

theorem checkStop_spec {maxModelLen : Nat} (h : checkStop r maxModelLen = .ok (r', stopped)) :
    r' = { r with status := r'.status, stopReason := r'.stopReason } ∧
    (stopped = false → r'.status = r.status) ∧ (stopped = true → r'.isFinished = true) := by
  simp only [checkStop, bind_ok] at h
  obtain ⟨_, _, h⟩ := h
  split at h
  · cases h
  · split at h
    · cases h
      exact ⟨rfl, fun _ => rfl, (fun h => by cases h)⟩
    · split at h
      · cases h
      · repeat' split at h
        all_goals cases h
        all_goals refine ⟨rfl, ?_, ?_⟩
        all_goals intro hstop
        all_goals first | rfl | cases hstop

theorem Scheduler.appendUntilStop_spec {config : SchedulerConfig D} {newTokenIds kept : List Token}
    (h : Scheduler.appendUntilStop config newTokenIds r = .ok (kept, stopped, r')) :
    r' = { r with
      outputTokenIds := r.outputTokenIds ++ kept
      allTokenIds := r.allTokenIds ++ kept
      blockHashes := r'.blockHashes
      status := r'.status
      stopReason := r'.stopReason } ∧
    (stopped = false → r'.status = r.status ∧ kept = newTokenIds) ∧
    (stopped = true → r'.isFinished = true ∧ kept ≠ []) ∧ kept <+: newTokenIds := by
  induction newTokenIds generalizing r kept with
  | nil =>
    obtain ⟨rfl, rfl, rfl⟩ := h
    simp
  | cons t rest ih =>
    simp only [Scheduler.appendUntilStop, bind_ok] at h
    obtain ⟨⟨r₁, stopped₁⟩, hcheck, h⟩ := h
    obtain ⟨heq, hfalse, htrue⟩ := checkStop_spec hcheck
    have happend := Request.appendOutputTokenIds_spec config.blockHasher r [t]
    cases stopped₁ with
    | true =>
      obtain ⟨rfl, rfl, rfl⟩ := h
      refine ⟨?_, (fun h => by cases h), fun _ => ⟨htrue rfl, by simp⟩, ?_⟩
      · rw [heq, happend]
      · exact ⟨rest, rfl⟩
    | false =>
      simp only [Bool.false_eq_true, if_false, bind_ok] at h
      obtain ⟨⟨kept₁, stopped₂, r₂⟩, hrest, rfl, rfl, rfl⟩ := h
      obtain ⟨heq₂, hfalse₂, htrue₂, hpre⟩ := ih hrest
      refine ⟨?_, ?_, ?_, ?_⟩
      · rw [heq₂, heq, happend]
        simp
      · intro hstop
        obtain ⟨hstatus, hkept⟩ := hfalse₂ hstop
        exact ⟨hstatus.trans ((hfalse rfl).trans (by rw [happend])), by rw [hkept]⟩
      · exact fun hstop => ⟨(htrue₂ hstop).1, by simp⟩
      · exact (List.cons_prefix_cons).mpr ⟨rfl, hpre⟩

namespace Scheduler

variable [DecidableEq D] {C : KVConnector D}

/-! ## Calls that only touch the caches -/

/-- Only the caches and the connector have changed. -/
structure CachesOnly (s s' : Scheduler D C) : Prop where
  eq : s' = { s with
    encoderCacheManager := s'.encoderCacheManager
    kvCacheManager := s'.kvCacheManager
    connector := s'.connector }

namespace CachesOnly

variable {s s' s₁ : Scheduler D C}

theorem refl (s : Scheduler D C) : s.CachesOnly s := ⟨rfl⟩

theorem objs (h : s.CachesOnly s') : s'.objs = s.objs := by rw [h.eq]

end CachesOnly

/-- Only the caches, the connector and the record of calls have changed. -/
structure RequestsKept (s s' : Scheduler D C) : Prop where
  eq : s' = { s with
    encoderCacheManager := s'.encoderCacheManager
    kvCacheManager := s'.kvCacheManager
    connector := s'.connector
    cacheBlocksCalls := s'.cacheBlocksCalls }

variable {s s' : Scheduler D C} {delay : Bool} {e : ReqId × Int} {generated : List Token}
  {pooler : Option (List Int)} {st st' : UpdatePass D C} {out : ModelRunnerOutput C.WorkerMeta}
  {invalidBlockIds : List BlockId} {numScheduledTokens : Dict ReqId Int} {failed : List ReqId}

theorem RequestsKept.objs (h : s.RequestsKept s') : s'.objs = s.objs := by
  rw [h.eq]

theorem RequestsKept.refl (s : Scheduler D C) : s.RequestsKept s := ⟨rfl⟩

theorem CachesOnly.kept (h : s.CachesOnly s') : s.RequestsKept s' := by
  constructor
  rw [h.eq]

/-- The calls of `cache_blocks` that were made. -/
def NewCalls (s s' : Scheduler D C) (P : Request D × Int → Prop) : Prop :=
  ∃ calls, s'.cacheBlocksCalls = s.cacheBlocksCalls ++ calls ∧ ∀ call ∈ calls, P call

theorem NewCalls.nil {P : Request D × Int → Prop}
    (h : s'.cacheBlocksCalls = s.cacheBlocksCalls) : s.NewCalls s' P :=
  ⟨[], by rw [h, List.append_nil], fun _ hcall => absurd hcall List.not_mem_nil⟩

theorem cacheBlocks_spec {n : Int} (h : s.cacheBlocks r n = .ok s') :
    s.RequestsKept s' ∧ s.NewCalls s' fun call => call = (r, n) := by
  simp only [cacheBlocks, bind_ok, pure_ok] at h
  obtain ⟨kv, _, rfl⟩ := h
  exact ⟨⟨rfl⟩, [(r, n)], rfl, fun call hcall => List.mem_singleton.mp hcall⟩

theorem applyPoolRefs_cachesOnly {refs : PoolRefs}
    (h : s.applyPoolRefs refs = .ok s') : s.CachesOnly s' := by
  simp only [applyPoolRefs, bind_ok, pure_ok] at h
  obtain ⟨pool, _, rfl⟩ := h
  exact ⟨rfl⟩

variable {ref : Ref} {output output' : SchedulerOutput C.Metadata}

theorem connectorFinished_cachesOnly
    (h : s.connectorFinished ref = .ok (delay, s')) : s.CachesOnly s' := by
  unfold connectorFinished at h
  split at h
  · obtain ⟨rfl, rfl⟩ := h
    exact .refl s
  · simp only [bind_ok] at h
    obtain ⟨kv, _, ⟨_, refs, state⟩, _, s₁, hrefs, _, rfl⟩ := h
    have hrefs := applyPoolRefs_cachesOnly hrefs
    constructor
    rw [hrefs.eq]

theorem freeEncoderInputs_cachesOnly (h : s.freeEncoderInputs ref = .ok s') : s.CachesOnly s' := by
  simp only [freeEncoderInputs, bind_ok, pure_ok] at h
  obtain ⟨cache, _, rfl⟩ := h
  exact ⟨rfl⟩

theorem buildKvConnectorMeta_cachesOnly (h : s.buildKvConnectorMeta output = .ok (output', s')) :
    s.CachesOnly s' ∧ ∃ metadata, output' = { output with kvConnectorMetadata := metadata } := by
  unfold buildKvConnectorMeta at h
  split at h
  · obtain ⟨rfl, rfl⟩ := h
    exact ⟨.refl s, output.kvConnectorMetadata, rfl⟩
  · simp only [bind_ok] at h
    obtain ⟨⟨metadata, refs, state⟩, _, s₁, hrefs, rfl, rfl⟩ := h
    have hrefs := applyPoolRefs_cachesOnly hrefs
    refine ⟨⟨?_⟩, some metadata, rfl⟩
    rw [hrefs.eq]

theorem takeEvents_cachesOnly (s : Scheduler D C) : s.CachesOnly s.takeEvents.2 := by
  constructor
  unfold takeEvents
  cases hconnector : s.connector with
  | none => simp
  | some state => rfl

theorem resetConnectorCache_cachesOnly {res : Bool}
    (h : s.resetConnectorCache = .ok (res, s')) : s.CachesOnly s' := by
  unfold resetConnectorCache at h
  split at h
  · obtain ⟨rfl, rfl⟩ := h
    exact .refl s
  · simp only [bind_ok] at h
    obtain ⟨⟨res, state⟩, _, _, rfl⟩ := h
    exact ⟨rfl⟩

theorem freeBlocks_spec (h : s.freeBlocks ref = .ok s') :
    (s.objs ref).isFinished = true ∧ ∃ kv, s.kvCacheManager.free (s.objs ref).requestId = .ok kv ∧
      s' = { s with
        kvCacheManager := kv
        requests := s.requests.erase (s.objs ref).requestId } := by
  simp only [freeBlocks, bind_ok, pyAssert_ok, require_ok, pure_ok] at h
  obtain ⟨_, hfinished, kv, hkv, _, _, rfl⟩ := h
  exact ⟨hfinished, kv, hkv, rfl⟩

theorem freeRequest_spec (h : s.freeRequest ref delay = .ok s') :
    (s.objs ref).isFinished = true ∧ ∃ s₁, s.CachesOnly s₁ ∧
      ((s' = { s₁ with finishedReqIds := s.finishedReqIds.insert (s.objs ref).requestId }) ∨
        (delay = false ∧ s' = { s₁ with
          finishedReqIds := s.finishedReqIds.insert (s.objs ref).requestId
          requests := s.requests.erase (s.objs ref).requestId })) := by
  simp only [freeRequest, bind_ok, pyAssert_ok] at h
  obtain ⟨_, hfinished, ⟨delayConnector, s₁⟩, hconn, encoder, hencoder, h⟩ := h
  have hconn := connectorFinished_cachesOnly hconn
  refine ⟨hfinished, ?_⟩
  split at h
  · rw [pure_ok] at h
    refine ⟨{ s₁ with encoderCacheManager := encoder }, ⟨?_⟩, .inl ?_⟩
    · rw [hconn.eq]
    · rw [← h, hconn.eq]
  next hdelay =>
    obtain ⟨_, kv, _, hs'⟩ := freeBlocks_spec h
    refine ⟨{ s₁ with encoderCacheManager := encoder, kvCacheManager := kv }, ⟨?_⟩, .inr ⟨?_, ?_⟩⟩
    · rw [hconn.eq]
    · simp only [Bool.or_eq_true, not_or, Bool.not_eq_true] at hdelay
      exact hdelay.1
    · rw [hs', hconn.eq]

/-! ## The steps of a pass -/

namespace Pass

variable {p p' : Pass D C} {ref : Ref} {env : ScheduleEnv}

theorem selectVictim_stepSkippedWaiting {victim : Ref} (h : p.selectVictim = .ok (victim, p')) :
    p'.stepSkippedWaiting = p.stepSkippedWaiting := by
  unfold selectVictim at h
  dsimp only at h
  split at h
  · split at h
    · cases h
    · simp only [bind_ok] at h
      obtain ⟨p₁, hun, rfl, rfl⟩ := h
      split at hun
      · simp only [unschedule, bind_ok, pure_ok] at hun
        obtain ⟨_, _, _, _, _, _, rfl⟩ := hun
        rfl
      · rw [pure_ok] at hun
        rw [← hun]
        rfl
  · split at h
    · cases h
    · simp only [pure_ok, Prod.mk.injEq] at h
      rw [← h.2]
      rfl

variable {n : Int} {fuel : Nat} {c : Computed} {plan : Plan}

theorem allocateRunning_spec {blocks : Option KVCacheBlocks}
    (h : p.allocateRunning ref n = .ok (blocks, p')) :
    p.sched.CachesOnly p'.sched ∧ p' = p.withSched p'.sched := by
  rw [allocateRunning_same h]
  exact ⟨⟨rfl⟩, rfl⟩

theorem recordLoras_spec (h : p.recordLoras = .ok p') :
    p' = { p with scheduledLoras := p'.scheduledLoras } := by
  unfold recordLoras at h
  split at h
  · rw [pure_ok] at h
    rw [← h]
  · simp only [bind_ok, pure_ok] at h
    obtain ⟨_, _, rfl⟩ := h
    rfl

theorem RunningStep.stepSkippedWaiting (h : RunningStep env p p') :
    p'.stepSkippedWaiting = p.stepSkippedWaiting := by
  cases h with
  | skipRunning => rfl
  | encoders _ hscan => rw [(tryScheduleEncoderInputs_same hscan).eq]
  | allocationFailed _ halloc =>
    rw [allocateRunning_same halloc]
    rfl
  | preempt _ hselect hpreempt =>
    obtain ⟨s, _, rfl⟩ := preempt_spec hpreempt
    exact (selectVictim_stepSkippedWaiting hselect :)
  | scheduleRunning _ halloc hschedule =>
    rw [scheduleRunning_spec hschedule, allocateRunning_same halloc]
    rfl

theorem runningLoop_stepSkippedWaiting (h : runningLoop env fuel (start s) = .ok p) :
    p.stepSkippedWaiting = [] :=
  runningLoop_invariant (P := fun p => p.stepSkippedWaiting = [])
    (fun _ _ hp hstep => hstep.stepSkippedWaiting.trans hp) rfl h

theorem loops_stepSkippedWaiting (h : loops env s = .ok p) : p.stepSkippedWaiting = [] := by
  simp only [loops, bind_ok] at h
  obtain ⟨p₁, hrunning, p₂, hloras, h⟩ := h
  have hp₂ : p₂.stepSkippedWaiting = [] := by
    rw [recordLoras_spec hloras]
    exact runningLoop_stepSkippedWaiting (p := p₁) hrunning
  unfold scheduleWaiting at h
  split at h
  · simp only [bind_ok, pure_ok] at h
    obtain ⟨p₃, _, rfl⟩ := h
    rfl
  · rw [pure_ok] at h
    exact h ▸ hp₂

theorem admitRunning_spec (h : p.admitRunning ref c plan = .ok p') :
    ((p.request ref).status = .waiting ∧
        p'.scheduledNewReqs = p.scheduledNewReqs ++ [ref] ∧
        p'.scheduledResumedReqs = p.scheduledResumedReqs ∨
      (p.request ref).status = .preempted ∧
        p'.scheduledNewReqs = p.scheduledNewReqs ∧
        p'.scheduledResumedReqs = p.scheduledResumedReqs ++ [ref]) ∧
    p' = { p with
      sched := { (p.sched.modify ref (admitted c.numComputedTokens)) with
        running := p.sched.running ++ [ref]
        encoderCacheManager := p'.sched.encoderCacheManager }
      scheduledNewReqs := p'.scheduledNewReqs
      scheduledResumedReqs := p'.scheduledResumedReqs
      scheduledEncoderInputs := p'.scheduledEncoderInputs
      encoderComputeBudget := p'.encoderComputeBudget
      scheduledLoras := p'.scheduledLoras
      reqToNewBlocks := p.reqToNewBlocks.set (p.request ref).requestId
        (p.sched.kvCacheManager.getBlocks (p.request ref).requestId)
      numScheduledTokens := p.numScheduledTokens.set (p.request ref).requestId plan.numNewTokens
      tokenBudget := p.tokenBudget - plan.numNewTokens } := by
  simp only [admitRunning, bind_ok] at h
  obtain ⟨p₁, hrecord, h⟩ := h
  have hencoders := scheduleEncoderInputs_encodersOnly h
  unfold recordAdmission at hrecord
  split at hrecord
  next hstatus =>
    rw [pure_ok] at hrecord
    subst hrecord
    refine ⟨.inl ⟨hstatus, ?_, ?_⟩, ?_⟩
    · rw [hencoders.eq]
      rfl
    · rw [hencoders.eq]
      rfl
    · rw [hencoders.eq]
      rfl
  next hstatus =>
    rw [pure_ok] at hrecord
    subst hrecord
    refine ⟨.inr ⟨hstatus, ?_, ?_⟩, ?_⟩
    · rw [hencoders.eq]
      rfl
    · rw [hencoders.eq]
      rfl
    · rw [hencoders.eq]
      rfl
  · cases hrecord

theorem skipWaiting_spec {q : QueueName} (h : p.skipWaiting q = .ok p') :
    ∃ ref rest, p.Pops q ref rest ∧
      p' = { p with
        sched := p.sched.setQueue q rest
        stepSkippedWaiting := RequestQueue.prependRequest p.sched.config.policy p.sched.lt
          p.stepSkippedWaiting ref } := by
  simp only [skipWaiting, bind_ok, pure_ok] at h
  obtain ⟨⟨ref, rest⟩, hpop, rfl⟩ := h
  exact ⟨ref, rest, hpop, rfl⟩

theorem allocateWaiting_spec {res : Bool} (h : p.allocateWaiting ref c plan = .ok (res, p')) :
    p.sched.CachesOnly p'.sched ∧ p' = p.withSched p'.sched := by
  obtain ⟨_, _, rfl⟩ := allocateWaiting_eq h
  exact ⟨⟨rfl⟩, rfl⟩

theorem updateStateAfterAlloc_spec {n : Nat} (h : p.updateStateAfterAlloc ref n = .ok p') :
    p.sched.CachesOnly p'.sched ∧ p' = p.withSched p'.sched := by
  obtain ⟨_, _, rfl⟩ := updateStateAfterAlloc_eq h
  exact ⟨⟨rfl⟩, rfl⟩

/-- A reservation that the connector was told of. -/
theorem reserve_spec {n : Nat} (halloc : p.allocateWaiting ref c plan = .ok (true, p₁))
    (hupdate : p₁.updateStateAfterAlloc ref n = .ok p') :
    p.sched.CachesOnly p'.sched ∧ p' = p.withSched p'.sched := by
  obtain ⟨_, _, rfl⟩ := allocateWaiting_eq halloc
  obtain ⟨_, _, rfl⟩ := updateStateAfterAlloc_eq hupdate
  exact ⟨⟨rfl⟩, rfl⟩

theorem findComputed_spec {c : Option Computed} (h : p.findComputed ref = .ok (c, p')) :
    ∃ s₁ n, p.sched.CachesOnly s₁ ∧
      p' = { p with
        sched := s₁.modify ref fun r => { r with numExternalComputedTokens := n }
        computedHits := p'.computedHits } := by
  obtain ⟨connector, n, heq⟩ := findComputed_eq h
  exact ⟨_, n, ⟨rfl⟩, heq⟩

theorem tryPromote_spec {res : Bool × Scheduler D C} (h : tryPromote env s ref = .ok res) :
    res = (false, s) ∨ (s.objs ref).status.isBlockedWaiting = true ∧
      ∃ s₁ f status, s.RequestsKept s₁ ∧
        (s.NewCalls s₁ fun call => (s.objs ref).status = .waitingForRemoteKvs ∧
          call = (s.objs ref, (s.objs ref).numComputedTokens)) ∧
        (f = id ∨ f = loadedRequest) ∧
        (status = .waiting ∨ status = .preempted) ∧
        res.2 = { s₁.modify ref (fun r => { f r with status := status }) with
          finishedRecvingKvReqIds := res.2.finishedRecvingKvReqIds
          failedRecvingKvReqIds := res.2.failedRecvingKvReqIds } := by
  obtain hstay | ⟨hstatus, kv, calls, f, status, finished, failed, hcalls, hf, hkind, heq⟩ :=
    tryPromote_eq h
  · exact .inl hstay
  · refine .inr ⟨hstatus, { s with
      kvCacheManager := kv
      cacheBlocksCalls := s.cacheBlocksCalls ++ calls }, f, status, ⟨rfl⟩, ⟨calls, rfl, hcalls⟩,
      hf, hkind, ?_⟩
    rw [heq]
    rfl

end Pass

theorem advanceRequest_spec (h : advanceRequest (output, s) e = .ok (output', s')) :
    ∃ ref, s.requests.get? e.1 = some ref ∧ (s.modify ref (advanced e.2)).CachesOnly s' ∧
      output' = { output with
        hasStructuredOutputRequests := output'.hasStructuredOutputRequests } := by
  simp only [advanceRequest, bind_ok, get_ok] at h
  obtain ⟨ref, href, s₁, hfree, rfl, rfl⟩ := h
  refine ⟨ref, href, ?_, rfl⟩
  split at hfree
  · exact freeEncoderInputs_cachesOnly hfree
  · rw [pure_ok] at hfree
    exact hfree ▸ .refl _

theorem addPlaceholders_spec {rid : ReqId}
    (h : addPlaceholders (output, s) rid = .ok (output', s')) :
    ∃ ref, s.requests.get? rid = some ref ∧
      s' = s.modify ref (fun r =>
        if r.isPrefillChunk then r
        else withPlaceholders s.config.numSpecTokens
          ((output.scheduledSpecDecodeTokens.get? rid).getD []).length r) ∧
      output' = { output with
        pendingStructuredOutputTokens := output'.pendingStructuredOutputTokens } := by
  simp only [addPlaceholders, bind_ok, get_ok] at h
  obtain ⟨ref, href, h⟩ := h
  refine ⟨ref, href, ?_⟩
  split at h
  next hchunk =>
    obtain ⟨rfl, rfl⟩ := h
    refine ⟨?_, rfl⟩
    simp [modify, hchunk]
  next hchunk =>
    obtain ⟨rfl, rfl⟩ := h
    refine ⟨?_, rfl⟩
    simp [modify, hchunk]

/-- After the output was made, only three of its fields are set. -/
theorem finishPass_output {p : Pass D C}
    (h : finishPass p = .ok (output, s)) : ∃ made, makeSchedulerOutput p = .ok made ∧
      output = { made with
        kvConnectorMetadata := output.kvConnectorMetadata
        hasStructuredOutputRequests := output.hasStructuredOutputRequests
        pendingStructuredOutputTokens := output.pendingStructuredOutputTokens } := by
  simp only [finishPass, bind_ok] at h
  obtain ⟨made, hmake, ⟨output₁, s₁⟩, hmeta, h⟩ := h
  refine ⟨made, hmake, ?_⟩
  obtain ⟨_, metadata, rfl⟩ := buildKvConnectorMeta_cachesOnly hmeta
  simp only [updateAfterSchedule, bind_ok] at h
  obtain ⟨st, hadvance, h⟩ := h
  have hst := foldlM_inv (P := fun st : SchedulerOutput C.Metadata × Scheduler D C =>
    st.1 = { made with
      kvConnectorMetadata := metadata
      hasStructuredOutputRequests := st.1.hasStructuredOutputRequests })
        (fun _ _ _ _ hst hstep => by
    obtain ⟨_, _, _, heq⟩ := advanceRequest_spec hstep
    rw [heq, hst]) rfl hadvance
  split at h
  · exact foldlM_inv (P := fun st : SchedulerOutput C.Metadata × Scheduler D C =>
      st.1 = { made with
        kvConnectorMetadata := st.1.kvConnectorMetadata
        hasStructuredOutputRequests := st.1.hasStructuredOutputRequests
        pendingStructuredOutputTokens := st.1.pendingStructuredOutputTokens })
      (fun _ _ _ _ hst hstep => by
        obtain ⟨_, _, _, heq⟩ := addPlaceholders_spec hstep
        rw [heq, hst]) (by rw [hst]) h
  · obtain ⟨rfl, _⟩ := Prod.mk.inj (pure_ok.mp h)
    rw [hst]

/-! ## Processing an output -/

/-- What the model's output does to a request: it appends tokens (and, with async
scheduling, fills placeholders), drops tokens that are to be discarded, ends a pooling
request, or does nothing. -/
inductive Generated (config : SchedulerConfig D) (r : Request D) :
    List Token → Option (List Int) → List Token → Bool → Request D → Prop
  | sync {generated kept : List Token} {pooler : Option (List Int)} {stopped : Bool}
      {r' : Request D} :
      generated ≠ [] → config.asyncScheduling = false →
      appendUntilStop config generated r = .ok (kept, stopped, r') →
      Generated config r generated pooler kept stopped r'
  | discarded {generated : List Token} {pooler : Option (List Int)} :
      generated ≠ [] → config.asyncScheduling = true → r.discardLatestAsyncTokens = true →
      Generated config r generated pooler [] false { r with discardLatestAsyncTokens := false }
  | async {generated kept : List Token} {pooler : Option (List Int)} {stopped : Bool}
      {r' : Request D} :
      generated ≠ [] → config.asyncScheduling = true → r.discardLatestAsyncTokens = false →
      appendUntilStop config generated r = .ok (kept, stopped, r') →
      0 ≤ r'.numOutputPlaceholders - kept.length →
      Generated config r generated pooler kept stopped
        { r' with numOutputPlaceholders := r'.numOutputPlaceholders - kept.length }
  | pooled {pooler : Option (List Int)} :
      r.poolingParams.isSome → pooler.isSome →
      Generated config r [] pooler [] true { r with status := .finishedStopped }
  | nothing {pooler : Option (List Int)} :
      ¬(r.poolingParams.isSome ∧ pooler.isSome) → Generated config r [] pooler [] false r

theorem updateRequestTokens_spec {newTokenIds kept : List Token}
    (h : s.updateRequestTokens ref newTokenIds = .ok (kept, stopped, s')) :
    ∃ r, appendUntilStop s.config newTokenIds (s.objs ref) = .ok (kept, stopped, r) ∧
      s' = s.modify ref fun _ => r := by
  simp only [updateRequestTokens, bind_ok] at h
  obtain ⟨⟨_, _, r⟩, happend, rfl, rfl, rfl⟩ := h
  exact ⟨r, happend, rfl⟩

theorem applyGenerated_spec {kept : List Token}
    (h : s.applyGenerated ref generated pooler = .ok (kept, stopped, s')) :
    ∃ s₁ r, s.RequestsKept s₁ ∧
      (s.NewCalls s₁ fun call => call = (r, r.numComputedTokens - r.numOutputPlaceholders)) ∧
      Generated s.config (s.objs ref) generated pooler kept stopped r ∧
      s' = s₁.modify ref fun _ => r := by
  unfold applyGenerated at h
  split at h
  next hgen =>
    unfold updateRequestWithOutput at h
    split at h
    next hasync =>
      obtain ⟨r, happend, rfl⟩ := updateRequestTokens_spec h
      exact ⟨s, r, .refl s, .nil rfl, .sync hgen hasync happend, rfl⟩
    next hasync =>
      rw [Bool.not_eq_false] at hasync
      split at h
      next hdiscard =>
        obtain ⟨rfl, rfl, rfl⟩ := h
        exact ⟨s, _, .refl s, .nil rfl, .discarded hgen hasync hdiscard, rfl⟩
      next hdiscard =>
        simp only [bind_ok, pyAssert_ok] at h
        obtain ⟨⟨kept₁, stopped₁, s₁⟩, htokens, _, hnonneg, h⟩ := h
        obtain ⟨r, happend, rfl⟩ := updateRequestTokens_spec htokens
        simp only [modify_objs, if_true] at hnonneg
        have hgenerated := @Generated.async D _ _ _ _ pooler _ _ hgen hasync
          (by simpa using hdiscard) happend hnonneg
        split at h
        · simp only [bind_ok, pure_ok, Prod.mk.injEq] at h
          obtain ⟨s₂, hcache, rfl, rfl, rfl⟩ := h
          obtain ⟨hkept, calls, hlog, hcalls⟩ := cacheBlocks_spec hcache
          have hobjs := hkept.objs
          -- The request was changed before its blocks were cached.
          refine ⟨{ s₂ with objs := s.objs }, _, ⟨?_⟩, ⟨calls, hlog, ?_⟩, hgenerated, ?_⟩
          · rw [hkept.eq]
            rfl
          · intro call hcall
            rw [hcalls call hcall]
            simp [modify]
          · rw [modify_modify] at hobjs
            simp only [modify] at hobjs ⊢
            rw [← hobjs]
        · obtain ⟨rfl, rfl, rfl⟩ := h
          refine ⟨s, _, .refl s, .nil rfl, hgenerated, ?_⟩
          simp [modify]
  next hgen =>
    rw [not_not] at hgen
    subst hgen
    split at h
    next hpool =>
      obtain ⟨rfl, rfl, rfl⟩ := h
      exact ⟨s, _, .refl s, .nil rfl, .pooled hpool.1 hpool.2, rfl⟩
    next hpool =>
      obtain ⟨rfl, rfl, rfl⟩ := h
      refine ⟨s, _, .refl s, .nil rfl, .nothing hpool, ?_⟩
      simp [modify]

/-- How a stopped request goes on: it is finished, it continues with the next input, or
it waits for one. -/
inductive Stopped (config : SchedulerConfig D) (r : Request D) : Bool → Request D → Prop
  | finished {queue : Option (List (Option StreamingUpdate))} :
      r.resumable = false ∨ (∃ rest, r.streamingQueue = some (none :: rest)) →
      Stopped config r true { r with streamingQueue := queue }
  | continued {update : StreamingUpdate} {rest : List (Option StreamingUpdate)}
      {session : Request D} :
      r.resumable = true → r.streamingQueue = some (some update :: rest) →
      Request.updateAsSession config.blockHasher { r with streamingQueue := some rest } update =
        .ok session →
      Stopped config r false session
  | waits :
      r.resumable = true →
      (∀ update rest, r.streamingQueue ≠ some (update :: rest)) →
      Stopped config r false { r with status := .waitingForStreamingReq }

theorem handleStoppedRequest_spec {finished : Bool}
    (h : s.handleStoppedRequest ref = .ok (finished, s')) :
    ∃ r n, Stopped s.config (s.objs ref) finished r ∧
      s' = if finished then s.modify ref fun _ => r
        else ({ s with numWaitingForStreamingInput := n }.modify ref
          fun _ => r).enqueueWaitingRequest ref := by
  unfold handleStoppedRequest at h
  dsimp only at h
  split at h
  next hres =>
    obtain ⟨rfl, rfl⟩ := h
    refine ⟨_, 0, @Stopped.finished D _ _ (s.objs ref).streamingQueue (.inl hres), ?_⟩
    simp [modify]
  next hres =>
    rw [Bool.not_eq_false] at hres
    split at h
    next rest hqueue =>
      obtain ⟨rfl, rfl⟩ := h
      exact ⟨_, 0, @Stopped.finished D _ _ (some rest) (.inr ⟨rest, hqueue⟩), rfl⟩
    next update rest hqueue =>
      simp only [bind_ok] at h
      obtain ⟨s₁, hsession, rfl, rfl⟩ := h
      simp only [updateRequestAsSession, bind_ok, pure_ok] at hsession
      obtain ⟨session, hsession, rfl⟩ := hsession
      rw [modify_objs, if_pos rfl] at hsession
      refine ⟨session, (if (s.objs ref).status = .waitingForStreamingReq then
        s.numWaitingForStreamingInput - 1 else s.numWaitingForStreamingInput),
        .continued hres hqueue hsession, ?_⟩
      congr 1
      rw [modify_objs, if_pos rfl]
      split
      · simp [modify]
      · simp [modify]
    next hqueue₁ hqueue₂ =>
      obtain ⟨rfl, rfl⟩ := h
      refine ⟨_, s.numWaitingForStreamingInput + 1, .waits hres ?_, rfl⟩
      intro update rest hqueue
      cases update with
      | none => exact hqueue₁ rest hqueue
      | some update => exact hqueue₂ update rest hqueue

/-- Record in which of the two sets a stopped request is. -/
def UpdatePass.noteStopped (st : UpdatePass D C) (ref : Ref) (statusBeforeStop : RequestStatus) :
    UpdatePass D C :=
  { st with
    stoppedRunningReqs := if statusBeforeStop = .running then st.stoppedRunningReqs.insert ref
      else st.stoppedRunningReqs
    stoppedPreemptedReqs := if statusBeforeStop = .running then st.stoppedPreemptedReqs
      else st.stoppedPreemptedReqs.insert ref }

/-- What the loop body does for a live request: the request goes on, is finished, or is
queued again. -/
inductive LiveUpdate (st : UpdatePass D C) (ref : Ref) (specTokens generated : List Token)
    (pooler : Option (List Int)) : UpdatePass D C → Prop
  | goesOn {s : Scheduler D C} {r : Request D} {kept : List Token}
      {outputs : List (Nat × EngineCoreOutput)} :
      st.sched.RequestsKept s →
      (st.sched.NewCalls s fun call => call = (r, r.numComputedTokens - r.numOutputPlaceholders)) →
      Generated s.config (afterRejection specTokens generated (s.objs ref)) generated pooler
        kept false r →
      LiveUpdate st ref specTokens generated pooler
        { st with sched := s.modify ref fun _ => r, outputs := outputs }
  | finished {s s' : Scheduler D C} {r r' : Request D} {kept : List Token}
      {outputs : List (Nat × EngineCoreOutput)} :
      st.sched.RequestsKept s →
      (st.sched.NewCalls s fun call => call = (r, r.numComputedTokens - r.numOutputPlaceholders)) →
      Generated s.config (afterRejection specTokens generated (s.objs ref)) generated pooler
        kept true r →
      Stopped s.config r true r' → (s.modify ref fun _ => r').freeRequest ref = .ok s' →
      LiveUpdate st ref specTokens generated pooler
        { st.noteStopped ref (s.objs ref).status with sched := s', outputs := outputs }
  | queued {s : Scheduler D C} {r r' : Request D} {kept : List Token} {n : Int}
      {outputs : List (Nat × EngineCoreOutput)} :
      st.sched.RequestsKept s →
      (st.sched.NewCalls s fun call => call = (r, r.numComputedTokens - r.numOutputPlaceholders)) →
      Generated s.config (afterRejection specTokens generated (s.objs ref)) generated pooler
        kept true r →
      Stopped s.config r false r' →
      LiveUpdate st ref specTokens generated pooler
        { st.noteStopped ref (s.objs ref).status with
          sched := ({ s with numWaitingForStreamingInput := n }.modify ref
            fun _ => r').enqueueWaitingRequest ref
          outputs := outputs }

theorem afterRejection_status (specTokens generated : List Token) (r : Request D) :
    (afterRejection specTokens generated r).status = r.status := by
  unfold afterRejection
  split <;> rfl

theorem updateLiveRequest_spec {specTokens : List Token}
    (h : updateLiveRequest st ref specTokens generated pooler = .ok st') :
    LiveUpdate st ref specTokens generated pooler st' := by
  simp only [updateLiveRequest, bind_ok] at h
  obtain ⟨⟨kept, stopped, s₁⟩, happly, ⟨reason, st₁⟩, hstop, h⟩ := h
  obtain ⟨s₂, r, hkept, hcalls, hgenerated, rfl⟩ := applyGenerated_spec happly
  -- The rejection is overwritten together with the request.
  have hsplit : ∃ s, st.sched.RequestsKept s ∧
      s₂ = s.modify ref (afterRejection specTokens generated) :=
    ⟨{ s₂ with objs := st.sched.objs }, ⟨by rw [hkept.eq]; rfl⟩, by rw [hkept.eq]; rfl⟩
  obtain ⟨s, hs, rfl⟩ := hsplit
  have hobjs : s.objs = st.sched.objs := hs.objs
  have hconfig : s.config = st.sched.config := by rw [hs.eq]
  rw [modify_objs, if_pos rfl, ← hobjs] at hgenerated hstop
  rw [modify_modify] at hstop
  have hgenerated : Generated s.config (afterRejection specTokens generated (s.objs ref)) generated
      pooler kept stopped r := hconfig ▸ hgenerated
  have hresult : ∃ outputs, st' = { st₁ with outputs := outputs } := by
    split at h
    · rw [pure_ok] at h
      exact ⟨_, h.symm⟩
    · rw [pure_ok] at h
      exact ⟨st₁.outputs, h.symm⟩
  obtain ⟨outputs, rfl⟩ := hresult
  cases stopped with
  | false =>
    obtain ⟨_, rfl⟩ := hstop
    exact .goesOn hs hcalls hgenerated
  | true =>
    simp only [if_true, stopRequest, bind_ok] at hstop
    obtain ⟨⟨finished, s₃⟩, hhandle, s₄, hfree, _, rfl⟩ := hstop
    rw [afterRejection_status]
    obtain ⟨r', n, hstopped, rfl⟩ := handleStoppedRequest_spec hhandle
    rw [modify_objs, if_pos rfl] at hstopped
    cases finished with
    | true =>
      simp only [if_true, modify_modify] at hfree
      exact .finished hs hcalls hgenerated hstopped hfree
    | false =>
      simp only [Bool.false_eq_true, if_false, pure_ok] at hfree
      subst hfree
      have hqueued := @LiveUpdate.queued D C st ref specTokens generated pooler _ _ _ _ n outputs
        hs hcalls hgenerated hstopped
      simpa [modify, UpdatePass.noteStopped] using hqueued

theorem updateRequest_spec {failedReqIds : List ReqId}
    (h : updateRequest output out failedReqIds st e = .ok st') :
    (st' = st ∧ (e.1 ∈ failedReqIds ∨ st.sched.requests.get? e.1 = none ∨
      ∃ ref, st.sched.requests.get? e.1 = some ref ∧ (st.sched.objs ref).isFinished = true)) ∨
    (e.1 ∉ failedReqIds ∧ ∃ ref reqIndex generated pooler,
      st.sched.requests.get? e.1 = some ref ∧ (st.sched.objs ref).isFinished = false ∧
      out.reqIdToIndex.get? e.1 = some reqIndex ∧
      out.generatedTokenIds reqIndex = .ok generated ∧
      out.poolerOutputOf reqIndex = .ok pooler ∧
      LiveUpdate st ref ((output.scheduledSpecDecodeTokens.get? e.1).getD []) generated pooler
        st') := by
  simp only [updateRequest, bind_ok] at h
  obtain ⟨_, _, h⟩ := h
  split at h
  next hfailed =>
    rw [pure_ok] at h
    exact .inl ⟨h.symm, .inl hfailed⟩
  next hfailed =>
    split at h
    next hnone =>
      rw [pure_ok] at h
      exact .inl ⟨h.symm, .inr (.inl hnone)⟩
    next ref href =>
      split at h
      next hfinished =>
        rw [pure_ok] at h
        exact .inl ⟨h.symm, .inr (.inr ⟨ref, href, hfinished⟩)⟩
      next hfinished =>
        simp only [bind_ok, get_ok] at h
        obtain ⟨reqIndex, hindex, generated, hgenerated, pooler, hpooler, hlive⟩ := h
        exact .inr ⟨hfailed, ref, reqIndex, generated, pooler, href, by simpa using hfinished,
          hindex, hgenerated, hpooler, updateLiveRequest_spec hlive⟩

/-! ## Blocks that failed to load -/

structure CutBackOnly (s s' : Scheduler D C) : Prop where
  eq : s' = { s with
    objs := s'.objs
    kvCacheManager := s'.kvCacheManager
    failedRecvingKvReqIds := s'.failedRecvingKvReqIds }
  objs : ∀ ref, s'.objs ref = { s.objs ref with
    numComputedTokens := (s'.objs ref).numComputedTokens
    numExternalComputedTokens := (s'.objs ref).numExternalComputedTokens }

theorem CutBackOnly.refl (s : Scheduler D C) : s.CutBackOnly s := ⟨rfl, fun _ => rfl⟩

theorem CutBackOnly.trans {s₁ : Scheduler D C} (h : s.CutBackOnly s₁)
    (h' : s₁.CutBackOnly s') : s.CutBackOnly s' := by
  constructor
  · rw [h'.eq, h.eq]
  · intro ref
    rw [h'.objs ref, h.objs ref]

theorem updateRequestWithInvalidBlocks_spec {evict : Bool} {st st' : InvalidScan D C}
    (h : updateRequestWithInvalidBlocks invalidBlockIds numScheduledTokens evict st ref = .ok st') :
    st.sched.CutBackOnly st'.sched := by
  unfold updateRequestWithInvalidBlocks at h
  dsimp only at h
  split at h
  · split at h
    · rw [pure_ok] at h
      subst h
      refine ⟨rfl, fun x => ?_⟩
      rw [modify_objs]
      split
      next hx =>
        subst hx
        split <;> rfl
      · rfl
    · rw [pure_ok] at h
      exact h ▸ .refl _
  · cases h

theorem handleInvalidBlocks_spec
    (h : s.handleInvalidBlocks invalidBlockIds numScheduledTokens = .ok (failed, s')) :
    s.CutBackOnly s' := by
  simp only [handleInvalidBlocks, bind_ok] at h
  obtain ⟨scan₁, hscan₁, scan₂, hscan₂, h⟩ := h
  have hfold : ∀ {evict : Bool} {refs : List Ref} {st st' : InvalidScan D C},
      refs.foldlM (updateRequestWithInvalidBlocks invalidBlockIds numScheduledTokens evict) st =
        .ok st' → st.sched.CutBackOnly st'.sched := by
    intro evict refs st st' hrun
    refine foldlM_inv (P := fun st' => st.sched.CutBackOnly st'.sched) ?_ (.refl _) hrun
    intro st₁ ref st₂ _ hst₁ hstep
    exact hst₁.trans (updateRequestWithInvalidBlocks_spec hstep)
  have hasync := hfold hscan₁
  have hsync := hfold hscan₂
  have hscans : s.CutBackOnly scan₂.sched := hasync.trans hsync
  split at h
  · obtain ⟨rfl, rfl⟩ := h
    exact hscans
  · simp only [bind_ok] at h
    obtain ⟨s₁, hevict, h⟩ := h
    have hs₁ : scan₂.sched.CutBackOnly s₁ := by
      split at hevict
      · simp only [bind_ok, pure_ok] at hevict
        obtain ⟨kv, _, rfl⟩ := hevict
        exact ⟨rfl, fun _ => rfl⟩
      · rw [pure_ok] at hevict
        exact hevict ▸ .refl _
    refine hscans.trans (hs₁.trans ?_)
    split at h
    · obtain ⟨rfl, rfl⟩ := h
      exact ⟨rfl, fun _ => rfl⟩
    · obtain ⟨rfl, rfl⟩ := h
      exact .refl _

theorem failedLoads_spec (h : s.failedLoads output out = .ok (failed, s')) : s.CutBackOnly s' := by
  unfold failedLoads at h
  split at h
  · obtain ⟨rfl, rfl⟩ := h
    exact .refl s
  · split at h
    · obtain ⟨rfl, rfl⟩ := h
      exact .refl s
    · exact handleInvalidBlocks_spec h

theorem finishOne_spec {status : RequestStatus} (h : finishOne status s ref = .ok s') :
    ∃ s₁, s.CachesOnly s₁ ∧
      s' = { (s₁.modify ref fun r => { r with status := status }) with
        finishedReqIds := s'.finishedReqIds
        finishedRecvingKvReqIds := s'.finishedRecvingKvReqIds
        failedRecvingKvReqIds := s'.failedRecvingKvReqIds
        requests := s'.requests } ∧
      (s'.requests = s.requests ∨ s'.requests = s.requests.erase (s.objs ref).requestId) := by
  obtain ⟨_, s₁, hs₁, hcases⟩ := freeRequest_spec h
  have hid : ∀ s : Scheduler D C,
      ((s.modify ref fun r => { r with status := status }).objs ref).requestId =
        (s.objs ref).requestId := by
    intro s
    rw [modify_objs, if_pos rfl]
  refine ⟨{ s with
    encoderCacheManager := s₁.encoderCacheManager
    kvCacheManager := s₁.kvCacheManager
    connector := s₁.connector }, ⟨rfl⟩, ?_, ?_⟩
  · rcases hcases with rfl | ⟨_, rfl⟩
    · rw [hs₁.eq]
      split <;> rfl
    · rw [hs₁.eq]
      split <;> rfl
  · rcases hcases with rfl | ⟨_, rfl⟩
    · left
      rw [hs₁.eq]
      split <;> rfl
    · right
      rw [hid]
      split <;> rfl

end Scheduler

end VllmCore
