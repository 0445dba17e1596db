import VllmCore.Scheduler.UpdateFromOutput
/-!
# What a pass can do

The two loops of `schedule` as a sequence of small steps.  Each step carries what the
source has checked by then: a scheduled request is in the running list and its tokens
fit, an admitted request is at the head of a queue and its computed tokens are known.
Invariants of a pass are proved by cases on the step.
-/

namespace VllmCore

open List Nat Support

variable {D : Type}

/-- The computed tokens are not ahead of the tokens of the request, nor of the model
length. -/
structure Request.NotAhead (maxModelLen : Nat) (r : Request D) : Prop where
  tokens : r.numComputedTokens ≤ (r.numTokensWithSpec + r.numOutputPlaceholders : Int)
  modelLen : r.numComputedTokens ≤ (maxModelLen : Int) - 1

/-! ## The number of tokens -/

variable {a : EncoderArgs D} {i : Nat} {res : Bool × EncoderScan} {st : EncoderScan}
  {f : MultiModalFeatureSpec}

theorem EncoderArgs.lookup_numNewTokens {identifier : MmHash}
    (h : a.lookup st i identifier = .ok res) : res.2.numNewTokens = st.numNewTokens := by
  unfold lookup at h
  split at h
  · rw [pure_ok] at h
    rw [← h]
  · simp only [bind_ok, pure_ok] at h
    obtain ⟨_, _, rfl⟩ := h
    rfl

variable {st' : EncoderScan}

theorem EncoderArgs.take_numNewTokens (h : a.take st i f = .ok st') :
    st'.numNewTokens = st.numNewTokens := by
  simp only [take, bind_ok] at h
  obtain ⟨_, _, h⟩ := h
  split at h
  · rw [pure_ok] at h
    rw [← h]
  · split at h
    · rw [pure_ok] at h
      rw [← h]
    · rw [pure_ok] at h
      rw [← h]

/-- A number of tokens that was lowered, and not below zero. -/
structure Lowers (n n' : Int) : Prop where
  le : n' ≤ n ∨ n' = 0
  nonneg : 0 ≤ n → 0 ≤ n'

theorem Lowers.refl (n : Int) : Lowers n n := ⟨.inl le_rfl, id⟩

theorem Lowers.of_eq {n n' : Int} (h : n' = n) : Lowers n n' := h ▸ .refl n

theorem EncoderArgs.schedule_numNewTokens (hstart : (f.mmPosition.offset : Int) <
      a.numComputedTokens + st.numNewTokens + a.shiftComputedTokens)
    (h : a.schedule st i f = .ok res) :
    (res.1 = true → res.2.numNewTokens = st.numNewTokens) ∧
      Lowers st.numNewTokens res.2.numNewTokens := by
  unfold schedule at h
  dsimp only at h
  split at h
  · rw [pure_ok] at h
    subst h
    refine ⟨(fun hgo => by cases hgo), ?_, fun _ => le_max_left 0 _⟩
    dsimp only
    rw [max_def]
    split
    · left
      omega
    · exact .inr rfl
  · simp only [bind_ok] at h
    obtain ⟨⟨fits, cache⟩, _, h⟩ := h
    split at h
    · simp only [bind_ok, pure_ok] at h
      obtain ⟨st₂, htake, rfl⟩ := h
      have hsame := take_numNewTokens htake
      exact ⟨fun _ => hsame, .of_eq hsame⟩
    · rw [pure_ok] at h
      subst h
      refine ⟨(fun hgo => by cases hgo), ?_, ?_⟩
      · dsimp only
        split
        · left
          omega
        · exact .inr rfl
      · dsimp only
        omega

theorem EncoderArgs.turn_numNewTokens (h : a.turn st i f = .ok res) :
    (res.1 = true → res.2.numNewTokens = st.numNewTokens) ∧
      Lowers st.numNewTokens res.2.numNewTokens := by
  unfold turn at h
  dsimp only at h
  split at h
  · rw [pure_ok] at h
    exact h ▸ ⟨fun _ => rfl, .refl _⟩
  next hstart =>
    split at h
    · simp only [bind_ok, pure_ok] at h
      obtain ⟨_, _, rfl⟩ := h
      exact ⟨fun _ => rfl, .refl _⟩
    · split at h
      · rw [pure_ok] at h
        exact h ▸ ⟨fun _ => rfl, .refl _⟩
      · split at h
        · rw [pure_ok] at h
          exact h ▸ ⟨fun _ => rfl, .refl _⟩
        · simp only [bind_ok] at h
          obtain ⟨⟨hit, st₁⟩, hlookup, h⟩ := h
          have hsame : st₁.numNewTokens = st.numNewTokens := lookup_numNewTokens hlookup
          split at h
          · rw [pure_ok] at h
            rw [← h]
            exact ⟨fun _ => hsame, .of_eq hsame⟩
          · rw [← hsame]
            exact schedule_numNewTokens (by omega) h

/-- Looking at the encoder inputs keeps the number of tokens, lowers it or makes it
zero. -/
theorem EncoderArgs.scan_numNewTokens {items : List (MultiModalFeatureSpec × Nat)}
    (h : a.scan items st = .ok st') :
    Lowers st.numNewTokens st'.numNewTokens := by
  induction items generalizing st with
  | nil =>
    simp only [scan, pure_ok] at h
    exact h ▸ .refl _
  | cons item rest ih =>
    simp only [scan, bind_ok] at h
    obtain ⟨⟨goOn, st₁⟩, hturn, h⟩ := h
    obtain ⟨hsame, hle⟩ := turn_numNewTokens hturn
    split at h
    next hgo =>
      rw [← hsame hgo]
      exact ih h
    · rw [pure_ok] at h
      exact h ▸ hle

namespace Scheduler

variable [DecidableEq D] {C : KVConnector D}

theorem mambaBlockAlignedSplit_le {config : SchedulerConfig D} {r : Request D}
    {n l e n' : Int} (h : mambaBlockAlignedSplit config r n l e = .ok n') :
    n' ≤ n ∧ (n = 0 → n' = 0) ∧ (0 ≤ n → 0 ≤ n') := by
  have hpos : (0 : Int) < config.cacheBlockSize := by exact_mod_cast config.cacheBlockSize_pos
  simp only [mambaBlockAlignedSplit, bind_ok, pyAssert_ok] at h
  obtain ⟨_, _, h⟩ := h
  split at h
  · split at h
    · rw [pure_ok] at h
      subst h
      refine ⟨Int.ediv_mul_le n hpos.ne', ?_, ?_⟩
      · intro hzero
        rw [hzero, Int.zero_ediv, Int.zero_mul]
      · intro hnonneg
        exact Int.mul_nonneg (Int.ediv_nonneg hnonneg hpos.le) hpos.le
    · split at h
      · rw [pure_ok] at h
        omega
      · rw [pure_ok] at h
        exact h ▸ ⟨le_rfl, id, id⟩
  · rw [pure_ok] at h
    exact h ▸ ⟨le_rfl, id, id⟩

namespace Pass

/-! ## Encoder inputs -/

/-- Looking at the encoder inputs changes the encoder cache only. -/
structure SameButEncoder (p p' : Pass D C) : Prop where
  eq : p' = { p with
    sched := { p.sched with encoderCacheManager := p'.sched.encoderCacheManager }
    encoderHits := p'.encoderHits }

theorem SameButEncoder.refl (p : Pass D C) : p.SameButEncoder p := ⟨rfl⟩

variable {p p' p₁ : Pass D C} {env : ScheduleEnv} {n : Int} {plan : Plan} {ref victim : Ref}
  {s s' : Scheduler D C} {goOn : Bool} {c : Computed} {q : QueueName}

theorem SameButEncoder.request (h : p.SameButEncoder p') (ref : Ref) :
    p'.request ref = p.request ref := by
  rw [h.eq]
  rfl

theorem tryScheduleEncoderInputs_same {c : Int}
    (h : p.tryScheduleEncoderInputs env ref c n = .ok (plan, p')) : p.SameButEncoder p' := by
  unfold tryScheduleEncoderInputs at h
  dsimp only at h
  split at h
  · obtain ⟨rfl, rfl⟩ := h
    exact .refl p
  · simp only [bind_ok] at h
    obtain ⟨_, _, _, rfl⟩ := h
    exact ⟨rfl⟩

theorem tryScheduleEncoderInputs_numNewTokens {c : Int}
    (h : p.tryScheduleEncoderInputs env ref c n = .ok (plan, p')) : Lowers n plan.numNewTokens := by
  unfold tryScheduleEncoderInputs at h
  dsimp only at h
  split at h
  · simp only [pure_ok, Prod.mk.injEq] at h
    exact h.1 ▸ .refl n
  · simp only [bind_ok] at h
    obtain ⟨st, hscan, rfl, _⟩ := h
    exact EncoderArgs.scan_numNewTokens hscan

/-! ## Encoder inputs of a scheduled request -/

/-- Only the encoder inputs have changed. -/
structure EncodersOnly (p p' : Pass D C) : Prop where
  eq : p' = { p with
    sched := { p.sched with encoderCacheManager := p'.sched.encoderCacheManager }
    scheduledEncoderInputs := p'.scheduledEncoderInputs
    encoderComputeBudget := p'.encoderComputeBudget }

theorem allocateEncoderInputs_encodersOnly {inputs : List Nat}
    (h : p.allocateEncoderInputs ref inputs = .ok p') : p.EncodersOnly p' := by
  simp only [allocateEncoderInputs, bind_ok, pure_ok] at h
  obtain ⟨cache, _, rfl⟩ := h
  exact ⟨rfl⟩

theorem scheduleEncoderInputs_encodersOnly (h : p.scheduleEncoderInputs ref plan = .ok p') :
    p.EncodersOnly p' := by
  simp only [scheduleEncoderInputs, bind_ok] at h
  obtain ⟨p₁, hfirst, hlast⟩ := h
  have hlast := allocateEncoderInputs_encodersOnly hlast
  split at hfirst
  · rw [pure_ok] at hfirst
    exact hfirst ▸ hlast
  · simp only [bind_ok, pure_ok] at hfirst
    obtain ⟨p₂, hp₂, rfl⟩ := hfirst
    have hp₂ := allocateEncoderInputs_encodersOnly hp₂
    constructor
    rw [hlast.eq, hp₂.eq]

variable {blocks : KVCacheBlocks} {l : List Ref} {x v : Ref} {k fuel : Nat} {P : Pass D C → Prop}

theorem scheduleRunning_spec (h : p.scheduleRunning ref plan blocks = .ok p') : p' = { p with
      sched := { (p.sched.modify ref fun r => { r with specTokenIds := [] }) with
        encoderCacheManager := p'.sched.encoderCacheManager }
      scheduledEncoderInputs := p'.scheduledEncoderInputs
      encoderComputeBudget := p'.encoderComputeBudget
      scheduledRunningReqs := p.scheduledRunningReqs ++ [ref]
      reqToNewBlocks := p.reqToNewBlocks.set (p.request ref).requestId blocks
      numScheduledTokens := p.numScheduledTokens.set (p.request ref).requestId plan.numNewTokens
      tokenBudget := p.tokenBudget - plan.numNewTokens
      reqIndex := p.reqIndex + 1
      scheduledSpecDecodeTokens :=
        if (scheduledSpecTokens (p.request ref) plan.numNewTokens).isEmpty
          then p.scheduledSpecDecodeTokens
        else p.scheduledSpecDecodeTokens.set (p.request ref).requestId
          (scheduledSpecTokens (p.request ref) plan.numNewTokens) } := by
  rw [(scheduleEncoderInputs_encodersOnly h).eq]

/-! ## Steps -/

def NoAdmission (p : Pass D C) : Prop :=
  p.scheduledNewReqs = [] ∧ p.scheduledResumedReqs = []

/-- No request is twice in the running list, even with those that were preempted. -/
def Distinct (p : Pass D C) : Prop := (p.sched.running ++ p.preemptedReqs).Nodup

theorem Distinct.running (h : p.Distinct) : p.sched.running.Nodup :=
  (nodup_append.mp h).1

/-- The requests that the first loop has scheduled stand before the next one. -/
structure InOrder (p : Pass D C) : Prop where
  nodup : p.scheduledRunningReqs.Nodup
  scheduled : ∀ x ∈ p.scheduledRunningReqs, x ∈ p.sched.running.take p.reqIndex

/-- What was checked for a running request that is to be scheduled. -/
structure PlannedRunning (p : Pass D C) (ref : Ref) (n : Int) : Prop where
  running : ref ∈ p.sched.running
  index : p.sched.config.policy = .fcfs → p.sched.running[p.reqIndex]? = some ref
  noAdmission : p.NoAdmission
  order : p.Distinct → p.InOrder
  place : p.Distinct → ref ∈ p.sched.running.take (p.reqIndex + 1)
  fresh : p.Distinct → ref ∉ p.scheduledRunningReqs
  le_budget : (∀ m ∈ p.takenBack, 0 ≤ m) → n ≤ p.tokenBudget
  positive : (p.request ref).NotAhead p.sched.config.maxModelLen → 0 < n
  needed : reachesMaxTokens (p.request ref) = false
  nonzero : n ≠ 0
  le_tokens : n ≤ (p.request ref).numTokensWithSpec + (p.request ref).numOutputPlaceholders -
    (p.request ref).numComputedTokens
  le_maxModelLen : n ≤ p.sched.config.maxModelLen - 1 - (p.request ref).numComputedTokens

/-- What is known about the computed tokens of a waiting request. -/
structure ComputedOf (p : Pass D C) (ref : Ref) (c : Computed) : Prop where
  resumed : (p.request ref).numComputedTokens ≠ 0 →
    c = { newComputedBlocks := p.sched.kvCacheManager.emptyKVCacheBlocks
          numNewLocalComputedTokens := 0
          numExternalComputedTokens := 0
          loadKvAsync := false
          numComputedTokens := (p.request ref).numComputedTokens }
  fresh : (p.request ref).numComputedTokens = 0 →
    p.sched.kvCacheManager.getComputedBlocks (p.request ref) =
        .ok (c.newComputedBlocks, c.numNewLocalComputedTokens) ∧
      c.numComputedTokens = c.numNewLocalComputedTokens + c.numExternalComputedTokens ∧
      c.numComputedTokens ≤ (p.request ref).numTokens

/-- What was checked for a waiting request that is to be admitted. -/
structure PlannedWaiting (p : Pass D C) (ref : Ref) (c : Computed) (n : Int) : Prop where
  computed : p.ComputedOf ref c
  loading : c.loadKvAsync = true → n = 0 ∧ 0 < c.numExternalComputedTokens
  positive : c.loadKvAsync = false → 0 < n
  le_budget : c.loadKvAsync = false → n ≤ p.tokenBudget
  le_tokens : c.loadKvAsync = false → n ≤ (p.request ref).numTokens - c.numComputedTokens
  room : p.sched.running.length ≠ p.sched.config.maxNumRunningReqs

/-- The head of the waiting queue `q`. -/
abbrev Peeks (p : Pass D C) (q : QueueName) (ref : Ref) : Prop :=
  RequestQueue.peekRequest p.sched.config.policy (p.sched.queue q) = .ok ref

/-- Popping the waiting queue `q` gives `ref` and leaves `rest`. -/
abbrev Pops (p : Pass D C) (q : QueueName) (ref : Ref) (rest : RequestQueue) : Prop :=
  RequestQueue.popRequest p.sched.config.policy p.sched.lt (p.sched.queue q) = .ok (ref, rest)

/-- A step of the loops of `schedule`. -/
inductive PassStep (env : ScheduleEnv) : Pass D C → Pass D C → Prop
  | skipRunning (p : Pass D C) : PassStep env p { p with reqIndex := p.reqIndex + 1 }
  | encoders {p p' : Pass D C} {ref : Ref} {c n : Int} {plan : Plan} :
      p.tryScheduleEncoderInputs env ref c n = .ok (plan, p') → PassStep env p p'
  | allocationFailed {p p' : Pass D C} {ref : Ref} {n : Int} :
      p.PlannedRunning ref n → p.allocateRunning ref n = .ok (none, p') → PassStep env p p'
  | preempt {p p₁ p' : Pass D C} {ref victim : Ref} {n : Int} :
      p.PlannedRunning ref n → p.selectVictim = .ok (victim, p₁) → p₁.preempt victim = .ok p' →
      PassStep env p p'
  | scheduleRunning {p p₁ p' : Pass D C} {ref : Ref} {plan : Plan} {blocks : KVCacheBlocks} :
      p.PlannedRunning ref plan.numNewTokens →
      p.allocateRunning ref plan.numNewTokens = .ok (some blocks, p₁) →
      p₁.scheduleRunning ref plan blocks = .ok p' → PassStep env p p'
  | recordLoras {p p' : Pass D C} : p.recordLoras = .ok p' → PassStep env p p'
  | promote {p : Pass D C} {q : QueueName} {ref : Ref} {res : Bool × Scheduler D C} :
      ref ∈ p.sched.queue q → tryPromote env p.sched ref = .ok res →
      PassStep env p (p.withSched res.2)
  | skipWaiting {p p' : Pass D C} {q : QueueName} :
      p.skipWaiting q = .ok p' → PassStep env p p'
  | findComputed {p p' : Pass D C} {q : QueueName} {ref : Ref} {c : Option Computed} :
      ref ∈ p.sched.queue q → p.findComputed ref = .ok (c, p') → PassStep env p p'
  | admissionFailed {p p' : Pass D C} {q : QueueName} {ref : Ref} {c : Computed} {plan : Plan} :
      ref ∈ p.sched.queue q → p.PlannedWaiting ref c plan.numNewTokens →
      p.allocateWaiting ref c plan = .ok (false, p') → PassStep env p p'
  | admitLoading {p p₁ p₂ : Pass D C} {q : QueueName} {ref : Ref} {rest : RequestQueue}
      {c : Computed} {plan : Plan} :
      p.PlannedWaiting ref c plan.numNewTokens → c.loadKvAsync = true →
      p.allocateWaiting ref c plan = .ok (true, p₁) →
      p₁.updateStateAfterAlloc ref c.numExternalComputedTokens = .ok p₂ →
      RequestQueue.popRequest p₂.sched.config.policy p₂.sched.lt (p₂.sched.queue q) =
        .ok (ref, rest) →
      PassStep env p ((p₂.withSched (p₂.sched.setQueue q rest)).admitLoading ref c)
  | admitRunning {p p₁ p₂ p' : Pass D C} {q : QueueName} {ref : Ref} {rest : RequestQueue}
      {c : Computed} {plan : Plan} :
      p.PlannedWaiting ref c plan.numNewTokens → c.loadKvAsync = false →
      p.allocateWaiting ref c plan = .ok (true, p₁) →
      p₁.updateStateAfterAlloc ref c.numExternalComputedTokens = .ok p₂ →
      RequestQueue.popRequest p₂.sched.config.policy p₂.sched.lt (p₂.sched.queue q) =
        .ok (ref, rest) →
      (p₂.withSched (p₂.sched.setQueue q rest)).admitRunning ref c plan = .ok p' →
      PassStep env p p'
  | requeueSkipped (p : Pass D C) : PassStep env p p.requeueSkipped

abbrev PassSteps (env : ScheduleEnv) : Pass D C → Pass D C → Prop :=
  Relation.ReflTransGen (PassStep env)

/-- A step of the loop over the running requests. -/
inductive RunningStep (env : ScheduleEnv) : Pass D C → Pass D C → Prop
  | skipRunning (p : Pass D C) : RunningStep env p { p with reqIndex := p.reqIndex + 1 }
  | encoders {p p' : Pass D C} {ref : Ref} {c n : Int} {plan : Plan} :
      ref ∈ p.sched.running → p.tryScheduleEncoderInputs env ref c n = .ok (plan, p') →
      RunningStep env p p'
  | allocationFailed {p p' : Pass D C} {ref : Ref} {n : Int} :
      p.PlannedRunning ref n → p.allocateRunning ref n = .ok (none, p') → RunningStep env p p'
  | preempt {p p₁ p' : Pass D C} {ref victim : Ref} {n : Int} :
      p.PlannedRunning ref n → p.selectVictim = .ok (victim, p₁) → p₁.preempt victim = .ok p' →
      RunningStep env p p'
  | scheduleRunning {p p₁ p' : Pass D C} {ref : Ref} {plan : Plan} {blocks : KVCacheBlocks} :
      p.PlannedRunning ref plan.numNewTokens →
      p.allocateRunning ref plan.numNewTokens = .ok (some blocks, p₁) →
      p₁.scheduleRunning ref plan blocks = .ok p' → RunningStep env p p'

abbrev RunningSteps (env : ScheduleEnv) : Pass D C → Pass D C → Prop :=
  Relation.ReflTransGen (RunningStep env)

theorem RunningStep.passStep {env : ScheduleEnv} {p p' : Pass D C} (h : RunningStep env p p') :
    PassStep env p p' := by
  cases h with
  | skipRunning => exact .skipRunning p
  | encoders _ hscan => exact .encoders hscan
  | allocationFailed hp halloc => exact .allocationFailed hp halloc
  | preempt hp hselect hpreempt => exact .preempt hp hselect hpreempt
  | scheduleRunning hp halloc hschedule => exact .scheduleRunning hp halloc hschedule

/-! ## The order of the running requests -/

theorem mem_take_erase (hx : x ∈ l.take k) (hne : x ≠ v) : x ∈ (l.erase v).take k := by
  induction l generalizing k with
  | nil => simp at hx
  | cons a l ih =>
    cases k with
    | zero => simp at hx
    | succ k =>
      rw [take_succ_cons, mem_cons] at hx
      rw [erase_cons]
      split
      next hav =>
        have hax : x ≠ a := by
          rw [eq_of_beq hav]
          exact hne
        exact take_subset_take_left l (le_succ k) (hx.resolve_left hax)
      · rw [take_succ_cons, mem_cons]
        exact hx.imp_right ih

/-- Every element that is left moves up by one place, when the erased one stood within the
first ones. -/
theorem mem_take_erase_pred (hv : v ∈ l.take (k + 1))
    (hx : x ∈ l.take (k + 1)) (hne : x ≠ v) : x ∈ (l.erase v).take k := by
  induction l generalizing k with
  | nil => simp at hx
  | cons a l ih =>
    rw [take_succ_cons, mem_cons] at hx hv
    rw [erase_cons]
    split
    next hav =>
      have hax : x ≠ a := by
        rw [eq_of_beq hav]
        exact hne
      exact hx.resolve_left hax
    next hav =>
      have hva : v ≠ a := by
        rintro rfl
        simp at hav
      have hv := hv.resolve_left hva
      cases k with
      | zero => simp at hv
      | succ k =>
        rw [take_succ_cons, mem_cons]
        exact hx.imp_right (ih hv)

theorem InOrder.skipRunning (h : p.InOrder) : InOrder { p with reqIndex := p.reqIndex + 1 } :=
  ⟨h.nodup, fun x hx => take_subset_take_left _ (le_succ _) (h.scheduled x hx)⟩

theorem InOrder.same (h : p.InOrder) (hsame : p.SameButEncoder p') : p'.InOrder := by
  rw [hsame.eq]
  exact ⟨h.nodup, h.scheduled⟩

structure Ordered (p : Pass D C) : Prop where
  noAdmission : p.NoAdmission
  order : p.Distinct → p.InOrder

theorem Ordered.skipRunning (h : p.Ordered) : Ordered { p with reqIndex := p.reqIndex + 1 } :=
  ⟨h.noAdmission, fun hdistinct => (h.order hdistinct).skipRunning⟩

theorem Ordered.same (h : p.Ordered) (hsame : p.SameButEncoder p') : p'.Ordered := by
  refine ⟨?_, fun hdistinct => ?_⟩
  · rw [hsame.eq]
    exact h.noAdmission
  · rw [hsame.eq] at hdistinct
    exact (h.order hdistinct).same hsame

/-! ## The loop over the running requests -/

theorem allocateRunning_same {blocks : Option KVCacheBlocks}
    (h : p.allocateRunning ref n = .ok (blocks, p')) :
    p' = p.withSched { p.sched with kvCacheManager := p'.sched.kvCacheManager } := by
  simp only [allocateRunning, bind_ok] at h
  obtain ⟨⟨kv, res⟩, _, rfl, rfl⟩ := h
  rfl

theorem unschedule_sched (h : p.unschedule ref = .ok p') : p'.sched = p.sched := by
  simp only [unschedule, bind_ok, pure_ok] at h
  obtain ⟨_, _, _, _, _, _, rfl⟩ := h
  rfl

theorem foldl_some_mem {f : Option Ref → Ref → Option Ref}
    (hf : ∀ best x y, f best x = some y → y = x ∨ best = some y) {xs : List Ref} {best : Option Ref}
    (h : xs.foldl f best = some ref) : ref ∈ xs ∨ best = some ref := by
  induction xs generalizing best with
  | nil => exact .inr h
  | cons x xs ih =>
    rcases ih h with hmem | hbest
    · exact .inl (mem_cons_of_mem x hmem)
    · rcases hf best x ref hbest with rfl | hbest
      · exact .inl mem_cons_self
      · exact .inr hbest

theorem lowestPriority_mem (h : lowestPriority s = some ref) : ref ∈ s.running := by
  have hmem := foldl_some_mem (by
    intro best x y hstep
    cases best with
    | none => exact .inl (Option.some.inj hstep).symm
    | some b =>
      dsimp only at hstep
      split at hstep
      · exact .inl (Option.some.inj hstep).symm
      · exact .inr hstep) h
  apply hmem.resolve_right
  intro hnone
  cases hnone

/-- With the first-come policy the victim is the last running request.  With priorities
what was scheduled for it in this pass is taken back. -/
theorem selectVictim_cases (h : p.selectVictim = .ok (victim, p')) :
    (p.sched.config.policy = .fcfs ∧ p.sched.running.getLast? = some victim ∧
      p' = p.withSched { p.sched with running := p.sched.running.dropLast }) ∨
    (p.sched.config.policy = .priority ∧ victim ∈ p.sched.running ∧
      ((victim ∉ p.scheduledRunningReqs ∧
          p' = p.withSched { p.sched with running := p.sched.running.erase victim }) ∨
        (victim ∈ p.scheduledRunningReqs ∧
          (p.withSched { p.sched with running := p.sched.running.erase victim }).unschedule victim =
            .ok p'))) := by
  unfold selectVictim at h
  dsimp only at h
  split at h
  next hpolicy =>
    split at h
    · cases h
    next ref hlowest =>
      have hmem := lowestPriority_mem hlowest
      simp only [bind_ok] at h
      obtain ⟨p₁, hun, rfl, rfl⟩ := h
      refine .inr ⟨hpolicy, hmem, ?_⟩
      split at hun
      next hin => exact .inr ⟨hin, hun⟩
      next hnot =>
        rw [pure_ok] at hun
        exact .inl ⟨hnot, hun.symm⟩
  next hpolicy =>
    split at h
    · cases h
    next ref hlast =>
      obtain ⟨rfl, rfl⟩ := h
      exact .inl ⟨hpolicy, hlast, rfl⟩

theorem selectVictim_sched (h : p.selectVictim = .ok (victim, p')) :
    victim ∈ p.sched.running ∧
      ∃ running, p'.sched = { p.sched with running := running } ∧
        p.sched.running.Perm (victim :: running) := by
  rcases selectVictim_cases h with ⟨_, hlast, rfl⟩ | ⟨_, hmem, ⟨_, rfl⟩ | ⟨_, hun⟩⟩
  · have hsplit := dropLast_append_getLast? victim hlast
    refine ⟨mem_of_getLast? hlast, p.sched.running.dropLast, rfl, ?_⟩
    nth_rewrite 1 [← hsplit]
    exact perm_append_comm
  · exact ⟨hmem, p.sched.running.erase victim, rfl, perm_cons_erase hmem⟩
  · exact ⟨hmem, p.sched.running.erase victim, (unschedule_sched hun :), perm_cons_erase hmem⟩

theorem unschedule_spec (h : p.unschedule ref = .ok p') :
    ∃ n restored, p.numScheduledTokens.get? (p.request ref).requestId = some n ∧
      p' = { p with
        scheduledRunningReqs := p.scheduledRunningReqs.erase ref
        tokenBudget := p.tokenBudget + n
        numScheduledTokens := p.numScheduledTokens.erase (p.request ref).requestId
        reqToNewBlocks := p.reqToNewBlocks.erase (p.request ref).requestId
        scheduledSpecDecodeTokens := p.scheduledSpecDecodeTokens.erase (p.request ref).requestId
        scheduledEncoderInputs := p.scheduledEncoderInputs.erase (p.request ref).requestId
        encoderComputeBudget := p.encoderComputeBudget + restored
        reqIndex := p.reqIndex - 1
        takenBack := p.takenBack ++ [n] } := by
  simp only [unschedule, bind_ok, pure_ok] at h
  obtain ⟨n, hn, _, _, restored, _, rfl⟩ := h
  exact ⟨n, _, Dict.get_ok.mp hn, rfl⟩

theorem unschedule_noAdmission (h : p.unschedule ref = .ok p') :
    p'.scheduledNewReqs = p.scheduledNewReqs ∧
      p'.scheduledResumedReqs = p.scheduledResumedReqs := by
  obtain ⟨_, _, _, rfl⟩ := unschedule_spec h
  exact ⟨rfl, rfl⟩

theorem selectVictim_noAdmission (h : p.selectVictim = .ok (victim, p')) :
    p'.scheduledNewReqs = p.scheduledNewReqs ∧
      p'.scheduledResumedReqs = p.scheduledResumedReqs := by
  rcases selectVictim_cases h with ⟨_, _, rfl⟩ | ⟨_, _, ⟨_, rfl⟩ | ⟨_, hun⟩⟩
  · exact ⟨rfl, rfl⟩
  · exact ⟨rfl, rfl⟩
  · have hframe := unschedule_noAdmission hun
    exact hframe

theorem preemptRequest_spec (h : s.preemptRequest ref = .ok s') :
    (s.objs ref).status = .running ∧ ∃ kv encoder,
      s.kvCacheManager.free (s.objs ref).requestId = .ok kv ∧
      s.encoderCacheManager.free (s.objs ref) = .ok encoder ∧
      s' = ({ s with kvCacheManager := kv, encoderCacheManager := encoder }.modify ref
        preempted).prependWaiting ref := by
  simp only [preemptRequest, bind_ok, pyAssert_ok, pure_ok] at h
  obtain ⟨_, hstatus, kv, hkv, encoder, hencoder, rfl⟩ := h
  exact ⟨hstatus, kv, encoder, hkv, hencoder, rfl⟩

theorem preempt_spec (h : p.preempt ref = .ok p') :
    ∃ s, p.sched.preemptRequest ref = .ok s ∧
      p' = { p with sched := s, preemptedReqs := p.preemptedReqs ++ [ref] } := by
  simp only [preempt, bind_ok, pure_ok] at h
  obtain ⟨s, hs, rfl⟩ := h
  exact ⟨s, hs, rfl⟩

theorem PlannedRunning.selectVictim (hp : p.PlannedRunning ref n) (hdistinct : p.Distinct)
    (hselect : p.selectVictim = .ok (victim, p₁)) :
    p₁.InOrder ∧ (ref ≠ victim → ref ∈ p₁.sched.running.take (p₁.reqIndex + 1)) ∧
      ref ∉ p₁.scheduledRunningReqs := by
  have horder := hp.order hdistinct
  have hscheduled := horder.scheduled
  have hplace := hp.place hdistinct
  have hfresh := hp.fresh hdistinct
  rcases selectVictim_cases hselect with ⟨hpolicy, hlast, rfl⟩ |
    ⟨_, hmem, ⟨hnot, rfl⟩ | ⟨hin, hun⟩⟩
  · -- The request that is planned stands before the end of the list.
    have hget := hp.index hpolicy
    have hlt := (List.getElem?_eq_some_iff.mp hget).1
    have htake : ∀ k, k < p.sched.running.length →
        p.sched.running.dropLast.take k = p.sched.running.take k := by
      intro k hk
      rw [dropLast_eq_take, take_take, min_eq_left (by omega)]
    refine ⟨⟨horder.nodup, ?_⟩, ?_, hfresh⟩
    · intro x hx
      show x ∈ p.sched.running.dropLast.take p.reqIndex
      rw [htake p.reqIndex hlt]
      exact hscheduled x hx
    · intro hne
      show ref ∈ p.sched.running.dropLast.take (p.reqIndex + 1)
      rw [getLast?_eq_getElem?] at hlast
      have hbefore : p.reqIndex + 1 < p.sched.running.length := by
        by_contra hge
        have heq : p.sched.running.length - 1 = p.reqIndex := by omega
        rw [heq] at hlast
        exact hne (Option.some.inj (hget.symm.trans hlast))
      rw [htake _ hbefore]
      exact hplace
  · refine ⟨⟨horder.nodup, ?_⟩, fun hne => mem_take_erase hplace hne, hfresh⟩
    intro x hx
    have hne : x ≠ victim := by
      rintro rfl
      exact hnot hx
    exact mem_take_erase (hscheduled x hx) hne
  · -- The victim stands before the request, and everything behind it moves up.
    obtain ⟨m, restored, _, rfl⟩ := unschedule_spec hun
    have hvictim := hscheduled victim hin
    have hindex : p.reqIndex - 1 + 1 = p.reqIndex := by
      cases hzero : p.reqIndex with
      | zero =>
        rw [hzero, take_zero] at hvictim
        cases hvictim
      | succ k => rfl
    refine ⟨⟨horder.nodup.erase victim, ?_⟩, ?_, fun hx => hfresh (mem_of_mem_erase hx)⟩
    · intro x hx
      have hx' := (horder.nodup.mem_erase_iff).mp hx
      refine mem_take_erase_pred ?_ ?_ hx'.1
      · show victim ∈ p.sched.running.take (p.reqIndex - 1 + 1)
        rw [hindex]
        exact hvictim
      · show x ∈ p.sched.running.take (p.reqIndex - 1 + 1)
        rw [hindex]
        exact hscheduled x hx'.2
    · intro hne
      show ref ∈ (p.sched.running.erase victim).take (p.reqIndex - 1 + 1)
      rw [hindex]
      exact mem_take_erase_pred (take_subset_take_left _ (le_succ _) hvictim) hplace hne

theorem PlannedRunning.le_budget_selectVictim (hp : p.PlannedRunning ref n)
    (hselect : p.selectVictim = .ok (victim, p₁)) :
    (∀ m ∈ p₁.takenBack, 0 ≤ m) → n ≤ p₁.tokenBudget := by
  rcases selectVictim_cases hselect with ⟨_, _, rfl⟩ | ⟨_, _, ⟨_, rfl⟩ | ⟨_, hun⟩⟩
  · exact hp.le_budget
  · exact hp.le_budget
  · obtain ⟨m, restored, _, rfl⟩ := unschedule_spec hun
    intro hnonneg
    have hn := hp.le_budget fun k hk => hnonneg k (mem_append_left _ hk)
    have hm := hnonneg m (mem_append_right _ mem_cons_self)
    show n ≤ p.tokenBudget + m
    omega

theorem selectVictim_preemptedReqs (hselect : p.selectVictim = .ok (victim, p₁)) :
    p₁.preemptedReqs = p.preemptedReqs := by
  rcases selectVictim_cases hselect with ⟨_, _, rfl⟩ | ⟨_, _, ⟨_, rfl⟩ | ⟨_, hun⟩⟩
  · rfl
  · rfl
  · obtain ⟨m, restored, _, rfl⟩ := unschedule_spec hun
    rfl

theorem distinct_preempt (hselect : p.selectVictim = .ok (victim, p₁))
    (hpreempt : p₁.preempt victim = .ok p') : p'.Distinct ↔ p.Distinct := by
  obtain ⟨_, running, hsched, hperm⟩ := selectVictim_sched hselect
  have hpreempted := selectVictim_preemptedReqs hselect
  obtain ⟨s, hs, rfl⟩ := preempt_spec hpreempt
  obtain ⟨_, kv, encoder, _, _, rfl⟩ := preemptRequest_spec hs
  show (p₁.sched.running ++ (p₁.preemptedReqs ++ [victim])).Nodup ↔ _
  rw [hpreempted, hsched, ← append_assoc]
  apply List.Perm.nodup_iff
  exact (perm_append_singleton victim _).trans
    (hperm.symm.append_right p.preemptedReqs)

theorem PlannedRunning.preempt (hp : p.PlannedRunning ref n) (hne : victim ≠ ref)
    (hselect : p.selectVictim = .ok (victim, p₁)) (hpreempt : p₁.preempt victim = .ok p') :
    p'.PlannedRunning ref n := by
  have hdistinct := (distinct_preempt hselect hpreempt).mp
  obtain ⟨_, running, hsched, hperm⟩ := selectVictim_sched hselect
  obtain ⟨hnew, hresumed⟩ := selectVictim_noAdmission hselect
  have hbudget := hp.le_budget_selectVictim hselect
  obtain ⟨s, hs, rfl⟩ := preempt_spec hpreempt
  obtain ⟨_, kv, encoder, _, _, rfl⟩ := preemptRequest_spec hs
  have hrequest : Function.update p₁.sched.objs victim (preempted (p₁.sched.objs victim)) ref =
      p.request ref := by
    rw [Function.update_of_ne hne.symm, hsched]
    rfl
  refine
    { running := ?_
      index := ?_
      noAdmission := ⟨hnew.trans hp.noAdmission.1, hresumed.trans hp.noAdmission.2⟩
      order := fun h =>
        have horder := (hp.selectVictim (hdistinct h) hselect).1
        ⟨horder.nodup, horder.scheduled⟩
      place := fun h => (hp.selectVictim (hdistinct h) hselect).2.1 hne.symm
      fresh := fun h => (hp.selectVictim (hdistinct h) hselect).2.2
      le_budget := hbudget
      positive := ?_
      needed := ?_
      nonzero := hp.nonzero
      le_tokens := ?_
      le_maxModelLen := ?_ }
  · have hmem := (hperm.mem_iff).mp hp.running
    rw [mem_cons] at hmem
    have hrunning : ref ∈ running := hmem.resolve_left hne.symm
    rw [hsched]
    exact hrunning
  · intro hfcfs
    rcases selectVictim_cases hselect with ⟨hpolicy, hlast, rfl⟩ | ⟨hpriority, _⟩
    · -- The last request is another one, so that the request keeps its position.
      have hget := hp.index hpolicy
      have hlt := (List.getElem?_eq_some_iff.mp hget).1
      rw [getLast?_eq_getElem?] at hlast
      have hbefore : p.reqIndex < p.sched.running.length - 1 := by
        by_contra hge
        have heq : p.reqIndex = p.sched.running.length - 1 := by omega
        rw [heq] at hget
        exact hne (Option.some.inj (hlast.symm.trans hget))
      show p.sched.running.dropLast[p.reqIndex]? = some ref
      rw [getElem?_dropLast, if_pos hbefore]
      exact hget
    · rw [hsched] at hfcfs
      exact absurd (hpriority.symm.trans hfcfs) (by decide)
  · unfold Pass.request
    simp only [prependWaiting, modify]
    rw [hrequest, hsched]
    exact hp.positive
  · exact (congrArg reachesMaxTokens hrequest).trans hp.needed
  · show n ≤ _
    unfold Pass.request
    simp only [prependWaiting, modify]
    rw [hrequest]
    exact hp.le_tokens
  · unfold Pass.request
    simp only [prependWaiting, modify]
    rw [hrequest, hsched]
    exact hp.le_maxModelLen

theorem PlannedRunning.allocateRunning {blocks : Option KVCacheBlocks} (hp : p.PlannedRunning ref n)
    (h : p.allocateRunning ref n = .ok (blocks, p')) : p'.PlannedRunning ref n := by
  rw [allocateRunning_same h]
  have horder : p.Distinct → p.InOrder := hp.order
  exact ⟨hp.running, hp.index, hp.noAdmission,
    fun h => ⟨(horder h).nodup, (horder h).scheduled⟩, hp.place, hp.fresh, hp.le_budget,
    hp.positive, hp.needed, hp.nonzero, hp.le_tokens, hp.le_maxModelLen⟩

theorem PlannedRunning.inOrder_scheduleRunning
    (hp : p.PlannedRunning ref plan.numNewTokens) (h : p.scheduleRunning ref plan blocks = .ok p')
    (hdistinct : p'.Distinct) : p'.InOrder := by
  rw [scheduleRunning_spec h] at hdistinct ⊢
  have hdistinct : p.Distinct := hdistinct
  refine ⟨?_, ?_⟩
  · show (p.scheduledRunningReqs ++ [ref]).Nodup
    rw [nodup_append]
    refine ⟨(hp.order hdistinct).nodup, nodup_singleton ref, ?_⟩
    intro x hx y hy heq
    rw [heq, mem_singleton.mp hy] at hx
    exact hp.fresh hdistinct hx
  · intro x hx
    rcases mem_append.mp hx with hx | hx
    · exact take_subset_take_left _ (le_succ _) ((hp.order hdistinct).scheduled x hx)
    · rw [mem_singleton.mp hx]
      exact hp.place hdistinct

theorem PlannedRunning.scheduleRunning {p p' : Pass D C} {ref : Ref} {plan : Plan}
    {blocks : KVCacheBlocks} (hp : p.PlannedRunning ref plan.numNewTokens)
    (h : p.scheduleRunning ref plan blocks = .ok p') : p'.Ordered := by
  refine ⟨?_, hp.inOrder_scheduleRunning h⟩
  rw [scheduleRunning_spec h]
  exact hp.noAdmission

theorem allocateOrPreempt_steps {env : ScheduleEnv} {ref : Ref} {n : Int} {fuel : Nat}
    {p p' : Pass D C} {res : Option KVCacheBlocks} (hp : p.PlannedRunning ref n)
    (h : allocateOrPreempt ref n fuel p = .ok (res, p')) :
    match res with
    | none => RunningSteps env p p'
    | some blocks => ∃ p₁, RunningSteps env p p₁ ∧ p₁.PlannedRunning ref n ∧
        p₁.allocateRunning ref n = .ok (some blocks, p') := by
  induction fuel generalizing p with
  | zero => cases h
  | succ fuel ih =>
    simp only [allocateOrPreempt, bind_ok] at h
    obtain ⟨⟨newBlocks, p₁⟩, halloc, h⟩ := h
    cases newBlocks with
    | some blocks =>
      obtain ⟨rfl, rfl⟩ := h
      exact ⟨p, .refl, hp, halloc⟩
    | none =>
      simp only [bind_ok] at h
      obtain ⟨⟨victim, p₂⟩, hselect, p₃, hpreempt, h⟩ := h
      have hfirst : RunningSteps env p p₃ :=
        (Relation.ReflTransGen.single (.allocationFailed hp halloc)).tail
          (.preempt (hp.allocateRunning halloc) hselect hpreempt)
      split at h
      · obtain ⟨rfl, rfl⟩ := h
        exact hfirst
      next hne =>
        have hrest := ih ((hp.allocateRunning halloc).preempt hne hselect hpreempt) h
        cases res with
        | none => exact hfirst.trans hrest
        | some blocks =>
          obtain ⟨p₄, hsteps, hp₄, halloc₄⟩ := hrest
          exact ⟨p₄, hfirst.trans hsteps, hp₄, halloc₄⟩

theorem planRunning_steps (h : p.planRunning env ref = .ok (plan, p')) :
    (ref ∈ p.sched.running → RunningSteps env p p') ∧ p.SameButEncoder p' ∧
      Lowers (p.numNewTokensRunning (p.request ref)) plan.numNewTokens := by
  simp only [planRunning, bind_ok] at h
  obtain ⟨⟨plan₁, p₁⟩, hencoder, h⟩ := h
  obtain ⟨n, hn, rfl, rfl⟩ := h
  refine ⟨fun hmem => .single (.encoders hmem hencoder),
    tryScheduleEncoderInputs_same hencoder, ?_⟩
  have hle := (tryScheduleEncoderInputs_numNewTokens hencoder).le
  have hnonneg := (tryScheduleEncoderInputs_numNewTokens hencoder).nonneg
  have hsplit : n ≤ plan₁.numNewTokens ∧ (plan₁.numNewTokens = 0 → n = 0) ∧
      (0 ≤ plan₁.numNewTokens → 0 ≤ n) := by
    split at hn
    · exact mambaBlockAlignedSplit_le hn
    · rw [pure_ok] at hn
      exact hn ▸ ⟨le_rfl, id, id⟩
  refine ⟨?_, fun h => hsplit.2.2 (hnonneg h)⟩
  simp only
  omega

theorem PlannedRunning.of_plan (hindex : p.sched.running[p.reqIndex]? = some ref)
    (hnoAdmission : p.NoAdmission) (horder : p.Distinct → p.InOrder) (hbudget : 0 < p.tokenBudget)
    (hneeded : reachesMaxTokens (p.request ref) = false) (hsame : p.SameButEncoder p')
    (hlowers : Lowers (p.numNewTokensRunning (p.request ref)) n) (hn : n ≠ 0) :
    p'.PlannedRunning ref n := by
  have hbound : n ≤ p.numNewTokensRunning (p.request ref) := hlowers.le.resolve_right hn
  have hrequest := hsame.request ref
  have htokens : p.numNewTokensRunning (p.request ref) ≤
      (p.request ref).numTokensWithSpec + (p.request ref).numOutputPlaceholders -
        (p.request ref).numComputedTokens := by
    simp only [numNewTokensRunning]
    split <;> omega
  have hlen : p.numNewTokensRunning (p.request ref) ≤
      p.sched.config.maxModelLen - 1 - (p.request ref).numComputedTokens := by
    simp only [numNewTokensRunning]
    omega
  have hfit : p.numNewTokensRunning (p.request ref) ≤ p.tokenBudget := by
    simp only [numNewTokensRunning]
    omega
  refine
    { running := ?_
      index := ?_
      noAdmission := ?_
      order := ?_
      place := ?_
      fresh := ?_
      le_budget := ?_
      positive := ?_
      needed := hrequest ▸ hneeded
      nonzero := hn
      le_tokens := hrequest ▸ hbound.trans htokens
      le_maxModelLen := ?_ }
  · rw [hsame.eq]
    exact mem_of_getElem? hindex
  · intro _
    rw [hsame.eq]
    exact hindex
  · rw [hsame.eq]
    exact hnoAdmission
  · intro hdistinct
    rw [hsame.eq] at hdistinct
    exact (horder hdistinct).same hsame
  · rw [hsame.eq]
    intro _
    apply mem_of_getElem? (i := p.reqIndex)
    rw [getElem?_take_of_lt (lt_succ_self _)]
    exact hindex
  · rw [hsame.eq]
    intro hdistinct hin
    -- The requests that were scheduled stand before this position.
    obtain ⟨i, hi, hget⟩ := mem_take_iff_getElem.mp ((horder hdistinct).scheduled ref hin)
    have href := (List.getElem?_eq_some_iff.mp hindex).2
    have heq := (hdistinct.running.getElem_inj_iff).mp (hget.trans href.symm)
    omega
  · rw [hsame.eq]
    exact fun _ => hbound.trans hfit
  · rw [hrequest, hsame.eq]
    intro hlevel
    have htokens := hlevel.tokens
    have hmodelLen : (p.request ref).numComputedTokens ≤ (p.sched.config.maxModelLen : Int) - 1 :=
      hlevel.modelLen
    have hnonneg : 0 ≤ p.numNewTokensRunning (p.request ref) := by
      simp only [numNewTokensRunning]
      split <;> omega
    have := hlowers.nonneg hnonneg
    omega
  · rw [hrequest, hsame.eq]
    exact hbound.trans hlen

theorem runningTurn_steps (hindex : p.sched.running[p.reqIndex]? = some ref)
    (hbudget : 0 < p.tokenBudget) (hp : p.Ordered) (h : p.runningTurn env ref = .ok (goOn, p')) :
    RunningSteps env p p' ∧ (goOn = true → p'.Ordered) := by
  unfold runningTurn at h
  split at h
  · obtain ⟨rfl, rfl⟩ := h
    exact ⟨.single (.skipRunning p), fun _ => hp.skipRunning⟩
  next hneeded =>
    simp only [bind_ok] at h
    obtain ⟨⟨plan, p₁⟩, hplan, h⟩ := h
    obtain ⟨hsteps, hsame, hlowers⟩ := planRunning_steps hplan
    have hsteps := hsteps (mem_of_getElem? hindex)
    have hp₁ : p₁.Ordered := hp.same hsame
    split at h
    · obtain ⟨rfl, rfl⟩ := h
      exact ⟨hsteps.tail (.skipRunning p₁), fun _ => hp₁.skipRunning⟩
    next hn =>
      simp only [bind_ok] at h
      obtain ⟨⟨newBlocks, p₂⟩, halloc, h⟩ := h
      have hplanned : p₁.PlannedRunning ref plan.numNewTokens :=
        .of_plan hindex hp.noAdmission hp.order hbudget (by simpa using hneeded) hsame hlowers hn
      have hloop := @allocateOrPreempt_steps D _ C env _ _ _ _ _ _ hplanned halloc
      cases newBlocks with
      | none =>
        obtain ⟨rfl, rfl⟩ := h
        exact ⟨hsteps.trans hloop, fun hgo => by cases hgo⟩
      | some blocks =>
        simp only [bind_ok] at h
        obtain ⟨p₃, hschedule, _, rfl⟩ := h
        obtain ⟨p₄, hbefore, hplanned₄, halloc₄⟩ := hloop
        exact ⟨(hsteps.trans hbefore).tail (.scheduleRunning hplanned₄ halloc₄ hschedule),
          fun _ => (hplanned₄.allocateRunning halloc₄).scheduleRunning hschedule⟩

theorem runningLoop_steps (hp : p.Ordered) (h : runningLoop env fuel p = .ok p') :
    RunningSteps env p p' := by
  induction fuel generalizing p with
  | zero =>
    simp only [runningLoop, pure_ok] at h
    exact h ▸ .refl
  | succ fuel ih =>
    unfold runningLoop at h
    split at h
    · rw [pure_ok] at h
      exact h ▸ .refl
    next ref href =>
      split at h
      · rw [pure_ok] at h
        exact h ▸ .refl
      next hbudget =>
        simp only [bind_ok] at h
        obtain ⟨⟨goOn, p₁⟩, hturn, h⟩ := h
        obtain ⟨hsteps, hp₁⟩ := runningTurn_steps href (by omega) hp hturn
        split at h
        next hgo => exact hsteps.trans (ih (hp₁ hgo) h)
        · rw [pure_ok] at h
          exact h ▸ hsteps

theorem start_ordered (s : Scheduler D C) : (start s).Ordered :=
  ⟨⟨rfl, rfl⟩, fun _ => ⟨nodup_nil, fun x hx => absurd hx not_mem_nil⟩⟩

theorem runningLoop_invariant (hstep : ∀ p p', P p → RunningStep env p p' → P p')
    (hstart : P (start s)) (h : runningLoop env fuel (start s) = .ok p) : P p := by
  have hsteps := runningLoop_steps (start_ordered s) h
  clear h
  induction hsteps with
  | refl => exact hstart
  | tail _ hlast ih => exact hstep _ _ ih hlast

/-! ## The loop over the waiting queues -/

structure SameLists (s s' : Scheduler D C) : Prop where
  config : s'.config = s.config
  running : s'.running = s.running
  queue : ∀ q, s'.queue q = s.queue q

theorem SameLists.trans {s₁ : Scheduler D C} (h : SameLists s s₁) (h' : SameLists s₁ s') :
    SameLists s s' :=
  ⟨h'.config.trans h.config, h'.running.trans h.running, fun q => (h'.queue q).trans (h.queue q)⟩

abbrev SameQueues (p p' : Pass D C) : Prop := SameLists p.sched p'.sched

theorem SameButEncoder.queues (h : p.SameButEncoder p') : p.SameQueues p' := by
  rw [h.eq]
  exact ⟨rfl, rfl, fun q => by cases q <;> rfl⟩

theorem updateWaitingForRemoteKv_eq (h : updateWaitingForRemoteKv s ref = .ok s') :
    ∃ kv calls f finished failed,
      (∀ call ∈ calls, call = (s.objs ref, (s.objs ref).numComputedTokens)) ∧
      (f = id ∨ f = loadedRequest) ∧
      s' = { s with
        kvCacheManager := kv
        cacheBlocksCalls := s.cacheBlocksCalls ++ calls
        finishedRecvingKvReqIds := finished
        failedRecvingKvReqIds := failed }.modify ref f := by
  have hid : ∀ s : Scheduler D C, s.modify ref id = s := fun s => by simp [modify]
  simp only [updateWaitingForRemoteKv, cacheBlocks, bind_ok, pure_ok] at h
  obtain ⟨_, _, s₁, hs₁, _, _, rfl⟩ := h
  split at hs₁
  · simp only [bind_ok, pure_ok] at hs₁
    obtain ⟨s₂, hs₂, rfl⟩ := hs₁
    split at hs₂
    · simp only [bind_ok, pure_ok] at hs₂
      obtain ⟨kv, _, rfl⟩ := hs₂
      exact ⟨kv, [_], id, _, _, fun _ => mem_singleton.mp, .inl rfl, (hid _).symm⟩
    · simp only [bind_ok, pure_ok] at hs₂
      obtain ⟨kv, _, rfl⟩ := hs₂
      refine ⟨kv, [], id, s.finishedRecvingKvReqIds.erase (s.objs ref).requestId,
        s.failedRecvingKvReqIds.erase (s.objs ref).requestId, by simp, .inl rfl, ?_⟩
      rw [hid, append_nil]
  · simp only [bind_ok, pure_ok] at hs₁
    obtain ⟨_, ⟨kv, _, rfl⟩, rfl⟩ := hs₁
    exact ⟨kv, [_], loadedRequest, s.finishedRecvingKvReqIds.erase (s.objs ref).requestId,
      s.failedRecvingKvReqIds, fun _ => mem_singleton.mp, .inr rfl, rfl⟩

theorem tryPromote_eq {res : Bool × Scheduler D C} (h : tryPromote env s ref = .ok res) :
    res = (false, s) ∨ (s.objs ref).status.isBlockedWaiting = true ∧
      ∃ kv calls f status finished failed,
        (∀ call ∈ calls, (s.objs ref).status = .waitingForRemoteKvs ∧
          call = (s.objs ref, (s.objs ref).numComputedTokens)) ∧
        (f = id ∨ f = loadedRequest) ∧ (status = .waiting ∨ status = .preempted) ∧
        res.2 = { s with
          kvCacheManager := kv
          cacheBlocksCalls := s.cacheBlocksCalls ++ calls
          finishedRecvingKvReqIds := finished
          failedRecvingKvReqIds := failed }.modify ref fun r => { f r with status := status } := by
  unfold tryPromote at h
  dsimp only at h
  split at h
  next hstatus =>
    split at h
    · exact .inl (pure_ok.mp h).symm
    · simp only [bind_ok, pure_ok] at h
      obtain ⟨s₂, hs₂, rfl⟩ := h
      obtain ⟨kv, calls, f, finished, failed, hcalls, hf, rfl⟩ := updateWaitingForRemoteKv_eq hs₂
      refine .inr ⟨by rw [hstatus]; rfl, kv, calls, f,
        if ((f (s.objs ref)).numPreemptions ≠ 0) then .preempted else .waiting, finished, failed,
        fun call hcall => ⟨hstatus, hcalls call hcall⟩, hf, ?_, ?_⟩
      · split
        · exact .inr rfl
        · exact .inl rfl
      · simp [modify]
  next hstatus =>
    split at h
    · rw [pure_ok] at h
      subst h
      exact .inr ⟨by rw [hstatus]; rfl, s.kvCacheManager, [], id, .waiting, _, _, by simp,
        .inl rfl, .inl rfl, by rw [append_nil]; rfl⟩
    · exact .inl (pure_ok.mp h).symm
  · simp only [bind_ok, pure_ok] at h
    obtain ⟨_, _, rfl⟩ := h
    exact .inl rfl
  · cases h

theorem tryPromote_queues {res : Bool × Scheduler D C} (h : tryPromote env s ref = .ok res) :
    SameLists s res.2 := by
  rcases tryPromote_eq h with rfl | ⟨_, kv, calls, f, status, _, _, _, _, _, heq⟩
  · exact ⟨rfl, rfl, fun q => rfl⟩
  · rw [heq]
    exact ⟨rfl, rfl, fun q => by cases q <;> rfl⟩

theorem findComputed_eq {c : Option Computed} (h : p.findComputed ref = .ok (c, p')) :
    ∃ connector n, p' = { p with
      sched := { p.sched with connector := connector }.modify ref fun r =>
        { r with numExternalComputedTokens := n }
      computedHits := p'.computedHits } := by
  have hsame : ∀ s : Scheduler D C, (s.modify ref fun r =>
      { r with numExternalComputedTokens := (s.objs ref).numExternalComputedTokens }) = s := by
    intro s
    simp [modify]
  unfold findComputed at h
  dsimp only at h
  split at h
  · obtain ⟨rfl, rfl⟩ := h
    exact ⟨_, _, by rw [hsame]⟩
  · simp only [bind_ok] at h
    obtain ⟨⟨blocks, numLocal⟩, _, h⟩ := h
    split at h
    · simp only [bind_ok] at h
      obtain ⟨_, _, _, rfl⟩ := h
      exact ⟨_, _, by rw [hsame]⟩
    · simp only [bind_ok] at h
      obtain ⟨⟨⟨ext, loadKvAsync⟩, state⟩, _, h⟩ := h
      cases ext with
      | none =>
        obtain ⟨_, rfl⟩ := h
        exact ⟨some state, _, by rw [hsame]; rfl⟩
      | some ext =>
        simp only [bind_ok] at h
        obtain ⟨_, _, _, rfl⟩ := h
        exact ⟨some state, ext, rfl⟩

theorem findComputed_queues {c : Option Computed} (h : p.findComputed ref = .ok (c, p')) :
    p.SameQueues p' := by
  obtain ⟨_, _, heq⟩ := findComputed_eq h
  rw [heq]
  exact ⟨rfl, rfl, fun q => by cases q <;> rfl⟩

theorem request_modify (p : Pass D C) (s : Scheduler D C) (ref : Ref)
    (f : Request D → Request D) : (p.withSched (s.modify ref f)).request ref = f (s.objs ref) := by
  simp [Pass.request, withSched, modify]

theorem findComputed_computedOf (h : p.findComputed ref = .ok (some c, p')) :
    p'.ComputedOf ref c := by
  unfold findComputed at h
  dsimp only at h
  split at h
  next hne =>
    obtain ⟨rfl, rfl⟩ := h
    exact ⟨fun _ => rfl, fun hzero => absurd hzero hne⟩
  next hzero =>
    rw [not_not] at hzero
    simp only [bind_ok] at h
    obtain ⟨⟨blocks, numLocal⟩, hhit, h⟩ := h
    split at h
    · simp only [bind_ok, pyAssert_ok] at h
      obtain ⟨_, hle, rfl, rfl⟩ := h
      refine ⟨fun hne => absurd hzero hne, fun _ => ⟨hhit, by simp, ?_⟩⟩
      show (numLocal : Int) ≤ ((p.request ref).numTokens : Int)
      omega
    · simp only [bind_ok] at h
      obtain ⟨⟨⟨ext, loadKvAsync⟩, state⟩, _, h⟩ := h
      cases ext with
      | none =>
        simp only [pure_ok, Prod.mk.injEq] at h
        cases h.1
      | some ext =>
        simp only [bind_ok, pyAssert_ok] at h
        obtain ⟨_, hle, rfl, rfl⟩ := h
        refine ⟨fun hne => absurd hzero ?_, fun _ => ⟨?_, rfl, ?_⟩⟩
        · rw [request_modify] at hne
          exact hne
        · rw [request_modify]
          exact hhit
        · rw [request_modify]
          show (numLocal : Int) + (ext : Int) ≤ ((p.request ref).numTokens : Int)
          omega

theorem ComputedOf.same (h : p.ComputedOf ref c) (hsame : p.SameButEncoder p') :
    p'.ComputedOf ref c := by
  rw [hsame.eq]
  exact ⟨h.resumed, h.fresh⟩

theorem planWaiting_steps {plan : Option Plan} (hc : p.ComputedOf ref c)
    (hroom : p.sched.running.length ≠ p.sched.config.maxNumRunningReqs)
    (h : p.planWaiting env ref c = .ok (plan, p')) :
    PassSteps env p p' ∧ p.SameQueues p' ∧
      ∀ plan', plan = some plan' → p'.PlannedWaiting ref c plan'.numNewTokens := by
  simp only [planWaiting, bind_ok] at h
  obtain ⟨⟨plan₁, p₁⟩, hfirst, h⟩ := h
  generalize hcut : (if 0 < (p.sched.config.longPrefillTokenThreshold : Int) ∧
      (p.sched.config.longPrefillTokenThreshold : Int) <
        ((p.request ref).numTokens : Int) - c.numComputedTokens
    then (p.sched.config.longPrefillTokenThreshold : Int)
    else ((p.request ref).numTokens : Int) - c.numComputedTokens) = n at hfirst
  have hencoder : PassSteps env p p₁ ∧ p.SameButEncoder p₁ ∧
      ∀ plan', plan₁ = some plan' →
        (c.loadKvAsync = true → plan'.numNewTokens = 0 ∧ 0 < c.numExternalComputedTokens) ∧
        (c.loadKvAsync = false → 0 < plan'.numNewTokens ∧ plan'.numNewTokens ≤ p.tokenBudget ∧
          plan'.numNewTokens ≤ (p.request ref).numTokens - c.numComputedTokens) := by
    split at hfirst
    next hload =>
      simp only [bind_ok, pyAssert_ok] at hfirst
      obtain ⟨_, hext, rfl, rfl⟩ := hfirst
      refine ⟨.refl, .refl p, ?_⟩
      rintro plan' ⟨⟩
      exact ⟨fun _ => ⟨rfl, hext⟩, fun hnot => by rw [hload] at hnot; cases hnot⟩
    next hload =>
      split at hfirst
      · obtain ⟨rfl, rfl⟩ := hfirst
        exact ⟨.refl, .refl p, fun _ hsome => by cases hsome⟩
      · simp only [bind_ok, pyAssert_ok, pure_ok, Prod.mk.injEq] at hfirst
        obtain ⟨_, hpos, ⟨plan₂, p₂⟩, hscan, hplan, rfl⟩ := hfirst
        refine ⟨.single (.encoders hscan), tryScheduleEncoderInputs_same hscan, ?_⟩
        intro plan' hsome
        rw [← hplan] at hsome
        split at hsome
        · cases hsome
        next hne =>
          cases hsome
          have hlowers := tryScheduleEncoderInputs_numNewTokens hscan
          have hbound := hlowers.le.resolve_right hne
          have hnonneg := hlowers.nonneg hpos.le
          dsimp only at hbound hnonneg hne ⊢
          exact ⟨fun hyes => absurd hyes hload, fun _ => by omega⟩
  obtain ⟨hsteps, hsame, hplanned⟩ := hencoder
  have hbase : ∀ plan', plan₁ = some plan' → p₁.PlannedWaiting ref c plan'.numNewTokens := by
    intro plan' hsome
    obtain ⟨hload, hstart⟩ := hplanned plan' hsome
    exact
      { computed := hc.same hsame
        loading := hload
        positive := fun hno => (hstart hno).1
        le_budget := by
          rw [hsame.eq]
          exact fun hno => (hstart hno).2.1
        le_tokens := fun hno => (hsame.request ref) ▸ (hstart hno).2.2
        room := by
          rw [hsame.eq]
          exact hroom }
  cases plan₁ with
  | none =>
    obtain ⟨rfl, rfl⟩ := h
    exact ⟨hsteps, hsame.queues, fun _ hsome => by cases hsome⟩
  | some plan₁ =>
    simp only at h
    have hplan₁ := hbase plan₁ rfl
    split at h
    · simp only [bind_ok] at h
      obtain ⟨n, hsplit, rfl, rfl⟩ := h
      refine ⟨hsteps, hsame.queues, ?_⟩
      intro plan' hsome
      obtain ⟨hle, hzero, hnonneg⟩ := mambaBlockAlignedSplit_le hsplit
      split at hsome
      · cases hsome
      next hne =>
        cases hsome
        refine
          { computed := hplan₁.computed
            loading := fun hload => absurd (hzero (hplan₁.loading hload).1) hne
            positive := fun hno => by
              have hn := hnonneg (hplan₁.positive hno).le
              dsimp only
              omega
            le_budget := fun hno => hle.trans (hplan₁.le_budget hno)
            le_tokens := fun hno => hle.trans (hplan₁.le_tokens hno)
            room := hplan₁.room }
    · obtain ⟨rfl, rfl⟩ := h
      refine ⟨hsteps, hsame.queues, ?_⟩
      rintro plan' ⟨⟩
      exact hplan₁

theorem planWaiting_cases {plan : Option Plan} (h : p.planWaiting env ref c = .ok (plan, p')) :
    p' = p ∨ c.loadKvAsync = false ∧
      ∃ n plan', p.tryScheduleEncoderInputs env ref c.numComputedTokens n = .ok (plan', p') := by
  simp only [planWaiting, bind_ok] at h
  obtain ⟨⟨plan₁, p₁⟩, hfirst, h⟩ := h
  have hlast : p₁ = p' := by
    cases plan₁ with
    | none => exact (Prod.mk.inj (pure_ok.mp h)).2
    | some plan₁ =>
      simp only at h
      split at h
      · simp only [bind_ok, pure_ok, Prod.mk.injEq] at h
        obtain ⟨_, _, _, heq⟩ := h
        exact heq
      · exact (Prod.mk.inj (pure_ok.mp h)).2
  subst hlast
  split at hfirst
  · simp only [bind_ok, pure_ok, Prod.mk.injEq] at hfirst
    obtain ⟨_, _, _, heq⟩ := hfirst
    exact .inl heq.symm
  next hload =>
    rw [Bool.not_eq_true] at hload
    generalize (if 0 < (p.sched.config.longPrefillTokenThreshold : Int) ∧
        (p.sched.config.longPrefillTokenThreshold : Int) <
          ((p.request ref).numTokens : Int) - c.numComputedTokens
      then (p.sched.config.longPrefillTokenThreshold : Int)
      else ((p.request ref).numTokens : Int) - c.numComputedTokens) = n at hfirst
    split at hfirst
    · exact .inl (Prod.mk.inj (pure_ok.mp hfirst)).2.symm
    · simp only [bind_ok] at hfirst
      obtain ⟨_, _, ⟨plan₂, p₂⟩, hscan, _, rfl⟩ := hfirst
      exact .inr ⟨hload, _, plan₂, hscan⟩

theorem planWaiting_same {plan : Option Plan} (h : p.planWaiting env ref c = .ok (plan, p')) :
    p.SameButEncoder p' := by
  obtain rfl | ⟨_, n, plan', hscan⟩ := planWaiting_cases h
  · exact .refl p'
  · exact tryScheduleEncoderInputs_same hscan

theorem untouchEncoderInputs_eq (h : p.untouchEncoderInputs ref = .ok p') :
    ∃ cache, p' = p.withSched { p.sched with encoderCacheManager := cache } ∧
      (p.sched.encoderCacheManager.free (p.request ref) = .ok cache ∨
        (p.request ref).hasEncoderInputs = false ∧ cache = p.sched.encoderCacheManager) := by
  unfold untouchEncoderInputs at h
  split at h
  · simp only [bind_ok, pure_ok] at h
    obtain ⟨cache, hfree, rfl⟩ := h
    exact ⟨cache, rfl, .inl hfree⟩
  next hnone =>
    rw [pure_ok] at h
    exact h ▸ ⟨_, rfl, .inr ⟨by simpa using hnone, rfl⟩⟩

theorem allocateWaiting_cases {res : Bool} (h : p.allocateWaiting ref c plan = .ok (res, p')) :
    ∃ kv, res = true ∧ p' = p.withSched { p.sched with kvCacheManager := kv } ∨
      res = false ∧
        (p.withSched { p.sched with kvCacheManager := kv }).untouchEncoderInputs ref = .ok p' := by
  simp only [allocateWaiting, bind_ok] at h
  obtain ⟨_, _, fits, _, h⟩ := h
  split at h
  · simp only [bind_ok] at h
    obtain ⟨p₁, hun, rfl, rfl⟩ := h
    exact ⟨p.sched.kvCacheManager, .inr ⟨rfl, hun⟩⟩
  · simp only [bind_ok] at h
    obtain ⟨⟨kv, newBlocks⟩, _, h⟩ := h
    cases newBlocks with
    | none =>
      simp only [bind_ok] at h
      obtain ⟨p₁, hun, rfl, rfl⟩ := h
      exact ⟨kv, .inr ⟨rfl, hun⟩⟩
    | some blocks =>
      simp only [pure_ok, Prod.mk.injEq] at h
      exact ⟨kv, .inl ⟨h.1.symm, h.2.symm⟩⟩

theorem allocateWaiting_eq {res : Bool} (h : p.allocateWaiting ref c plan = .ok (res, p')) :
    ∃ kv cache, p' = p.withSched { p.sched with
      kvCacheManager := kv
      encoderCacheManager := cache } := by
  obtain ⟨kv, ⟨_, rfl⟩ | ⟨_, hun⟩⟩ := allocateWaiting_cases h
  · exact ⟨kv, _, rfl⟩
  · obtain ⟨cache, rfl, _⟩ := untouchEncoderInputs_eq hun
    exact ⟨kv, cache, rfl⟩

theorem allocateWaiting_queues {res : Bool} (h : p.allocateWaiting ref c plan = .ok (res, p')) :
    p.SameQueues p' := by
  obtain ⟨_, _, rfl⟩ := allocateWaiting_eq h
  exact ⟨rfl, rfl, fun q => by cases q <;> rfl⟩

theorem updateStateAfterAlloc_eq {n : Nat} (h : p.updateStateAfterAlloc ref n = .ok p') :
    ∃ kv connector, p' = p.withSched { p.sched with
      kvCacheManager := kv
      connector := connector } := by
  unfold updateStateAfterAlloc at h
  split at h
  · exact pure_ok.mp h ▸ ⟨_, _, rfl⟩
  · simp only [applyPoolRefs, bind_ok, pure_ok] at h
    obtain ⟨⟨refs, state⟩, _, _, ⟨pool, _, rfl⟩, rfl⟩ := h
    exact ⟨_, some state, rfl⟩

theorem updateStateAfterAlloc_queues {n : Nat} (h : p.updateStateAfterAlloc ref n = .ok p') :
    p.SameQueues p' := by
  obtain ⟨_, _, rfl⟩ := updateStateAfterAlloc_eq h
  exact ⟨rfl, rfl, fun q => by cases q <;> rfl⟩

theorem SameLists.popRequest (h : p.SameQueues p') {ref' : Ref} {rest : RequestQueue}
    (hpeek : p.Peeks q ref) (hpop : p'.Pops q ref' rest) : ref' = ref := by
  refine RequestQueue.popRequest_peekRequest p'.sched.config.policy p'.sched.lt ?_ hpop
  rw [h.config, h.queue q]
  exact hpeek

theorem admitWaiting_steps (hc : p.ComputedOf ref c)
    (hroom : p.sched.running.length ≠ p.sched.config.maxNumRunningReqs) (hpeek : p.Peeks q ref)
    (h : p.admitWaiting env q ref c = .ok (goOn, p')) : PassSteps env p p' := by
  simp only [admitWaiting, bind_ok] at h
  obtain ⟨⟨plan, p₁⟩, hplan, h⟩ := h
  obtain ⟨hsteps, hsame₁, hplanned⟩ := planWaiting_steps hc hroom hplan
  cases plan with
  | none =>
    obtain ⟨rfl, rfl⟩ := h
    exact hsteps
  | some plan =>
    simp only [bind_ok] at h
    obtain ⟨⟨allocated, p₂⟩, halloc, h⟩ := h
    have hplanned := hplanned plan rfl
    have hmem : ref ∈ p₁.sched.queue q := by
      rw [hsame₁.queue q]
      exact RequestQueue.peekRequest_mem _ hpeek
    cases allocated with
    | false =>
      simp only [if_true, pure_ok, Prod.mk.injEq] at h
      exact h.2 ▸ hsteps.tail (.admissionFailed hmem hplanned halloc)
    | true =>
      simp only [Bool.true_eq_false, if_false, bind_ok] at h
      obtain ⟨p₃, hupdate, ⟨ref', rest⟩, hpop, h⟩ := h
      have hsame₃ := hsame₁.trans
        ((allocateWaiting_queues halloc).trans (updateStateAfterAlloc_queues hupdate))
      obtain rfl := hsame₃.popRequest hpeek hpop
      split at h
      next hload =>
        obtain ⟨rfl, rfl⟩ := h
        exact hsteps.tail (.admitLoading hplanned hload halloc hupdate hpop)
      next hload =>
        simp only [bind_ok] at h
        obtain ⟨p₄, hstarted, _, rfl⟩ := h
        exact hsteps.tail
          (.admitRunning hplanned (by simpa using hload) halloc hupdate hpop hstarted)

theorem waitingTurn_steps (hroom : p.sched.running.length ≠ p.sched.config.maxNumRunningReqs)
    (hpeek : p.Peeks q ref)
    (h : p.waitingTurn env q ref = .ok (goOn, p')) : PassSteps env p p' := by
  simp only [waitingTurn, bind_ok] at h
  obtain ⟨⟨schedulable, s⟩, hpromote, h⟩ := h
  have hmem := RequestQueue.peekRequest_mem _ hpeek
  have hfirst : PassSteps env p (p.withSched s) ∧ SameLists p.sched s := by
    split at hpromote
    · exact ⟨.single (.promote hmem hpromote), tryPromote_queues hpromote⟩
    · obtain ⟨_, rfl⟩ := hpromote
      exact ⟨.refl, rfl, rfl, fun q => rfl⟩
  obtain ⟨hsteps, hpromoted⟩ := hfirst
  split at h
  · simp only [bind_ok] at h
    obtain ⟨p₁, hskip, _, rfl⟩ := h
    exact hsteps.tail (.skipWaiting hskip)
  · simp only [bind_ok] at h
    obtain ⟨⟨computed, p₁⟩, hfind, h⟩ := h
    have hmem₁ : ref ∈ (p.withSched s).sched.queue q := by
      show ref ∈ s.queue q
      rw [hpromoted.queue q]
      exact hmem
    have hsteps₁ := hsteps.tail (.findComputed hmem₁ hfind)
    cases computed with
    | none =>
      simp only [bind_ok] at h
      obtain ⟨p₂, hskip, _, rfl⟩ := h
      exact hsteps₁.tail (.skipWaiting hskip)
    | some c =>
      have hsame := findComputed_queues hfind
      refine hsteps₁.trans (admitWaiting_steps (findComputed_computedOf hfind) ?_ ?_ h)
      · rw [hsame.config, hsame.running]
        show s.running.length ≠ s.config.maxNumRunningReqs
        rw [hpromoted.config, hpromoted.running]
        exact hroom
      · unfold Peeks
        rw [hsame.config, hsame.queue q]
        show RequestQueue.peekRequest s.config.policy (s.queue q) = .ok ref
        rw [hpromoted.config, hpromoted.queue q]
        exact hpeek

theorem waitingLoop_steps (h : waitingLoop env fuel p = .ok p') : PassSteps env p p' := by
  induction fuel generalizing p with
  | zero =>
    simp only [waitingLoop, pure_ok] at h
    exact h ▸ .refl
  | succ fuel ih =>
    unfold waitingLoop at h
    split at h
    · rw [pure_ok] at h
      exact h ▸ .refl
    next q hq =>
      split at h
      · rw [pure_ok] at h
        exact h ▸ .refl
      next hstop =>
        simp only [bind_ok] at h
        obtain ⟨ref, hpeek, ⟨goOn, p₁⟩, hturn, h⟩ := h
        have hsteps := waitingTurn_steps (fun hfull => hstop (.inr hfull)) hpeek hturn
        split at h
        · exact hsteps.trans (ih h)
        · rw [pure_ok] at h
          exact h ▸ hsteps

theorem loops_steps (h : loops env s = .ok p) : PassSteps env (start s) p := by
  simp only [loops, bind_ok] at h
  obtain ⟨p₁, hrunning, p₂, hloras, h⟩ := h
  have hloop : PassSteps env (start s) p₁ :=
    Relation.ReflTransGen.mono (fun _ _ => RunningStep.passStep) _ _
      (runningLoop_steps (start_ordered s) hrunning)
  have hsteps := hloop.tail (.recordLoras hloras)
  unfold scheduleWaiting at h
  split at h
  · simp only [bind_ok, pure_ok] at h
    obtain ⟨p₃, hwaiting, rfl⟩ := h
    exact (hsteps.trans (waitingLoop_steps hwaiting)).tail (.requeueSkipped p₃)
  · rw [pure_ok] at h
    exact h ▸ hsteps

theorem steps_invariant (hstep : ∀ p p', P p → PassStep env p p' → P p')
    (hstart : P p) (hsteps : PassSteps env p p') : P p' := by
  induction hsteps with
  | refl => exact hstart
  | tail _ hlast ih => exact hstep _ _ ih hlast

theorem loops_invariant (hstep : ∀ p p', P p → PassStep env p p' → P p')
    (hstart : P (start s)) (h : loops env s = .ok p) : P p :=
  steps_invariant hstep hstart (loops_steps h)

end Pass

end Scheduler

end VllmCore
