import VllmCore.Scheduler.QueuePartition
/-!
# Requests that stop

`update_from_output` takes the stopped requests out of the running list and of the
waiting queue after its loop.  The invariant of the loop is the partition of the state
without them.  A request that stops while it waits is only looked for in `waiting`, and
after it may have been queued again: `KeepsPlace` says when this does no harm.
-/

namespace VllmCore

open List Support

variable {D : Type}

/-- The next input of the session is there. -/
def Request.continuesWithUpdate (r : Request D) : Bool :=
  r.resumable && match r.streamingQueue with
    | some (some _ :: _) => true
    | _ => false

namespace Scheduler

variable [DecidableEq D] {C : KVConnector D}

def stops (config : SchedulerConfig D) (r : Request D) (generated : List Token)
    (poolerOutput : Option (List Int)) : Bool :=
  if generated = [] then r.poolingParams.isSome && poolerOutput.isSome
  else
    (!config.asyncScheduling || !r.discardLatestAsyncTokens) &&
      match appendUntilStop config generated r with
      | .ok (_, stopped, _) => stopped
      | .error _ => false

/-- Every request that waits and stops with this output is in `waiting`, unless it goes
on with the next input of its session: then it is in `skipped_waiting`. -/
def KeepsPlace (s : Scheduler D C) (output : SchedulerOutput C.Metadata)
    (out : ModelRunnerOutput C.WorkerMeta) : Prop :=
  ∀ failed s₁, s.failedLoads output out = .ok (failed, s₁) →
    ∀ rid ∈ output.numScheduledTokens.keys, rid ∉ failed →
    ∀ ref reqIndex generated pooler, s₁.requests.get? rid = some ref →
      (s₁.objs ref).status.isWaiting = true → out.reqIdToIndex.get? rid = some reqIndex →
      out.generatedTokenIds reqIndex = .ok generated →
      out.poolerOutputOf reqIndex = .ok pooler →
      stops s₁.config
        (afterRejection ((output.scheduledSpecDecodeTokens.get? rid).getD []) generated
          (s₁.objs ref)) generated pooler = true →
      (ref ∈ s₁.waiting ↔ (s₁.objs ref).continuesWithUpdate = false)

variable {config : SchedulerConfig D} {generated kept : List Token} {pooler : Option (List Int)}
  {r r' : Request D} {stopped : Bool} {removed xs : List Ref} {x : Ref} {s s₀ : Scheduler D C}
  {st' : UpdatePass D C} {entries : List (ReqId × Int)}

theorem Generated.frame (h : Generated config r generated pooler kept stopped r') :
    r'.requestId = r.requestId ∧ r'.resumable = r.resumable ∧
      r'.streamingQueue = r.streamingQueue ∧ (stopped = false → r'.status = r.status) ∧
      (stopped = true → r'.isFinished = true) := by
  cases h with
  | sync _ _ happend =>
    obtain ⟨heq, hfalse, htrue, _⟩ := appendUntilStop_spec happend
    refine ⟨?_, ?_, ?_, fun hs => (hfalse hs).1, fun hs => (htrue hs).1⟩
    · rw [heq]
    · rw [heq]
    · rw [heq]
  | discarded => exact ⟨rfl, rfl, rfl, fun _ => rfl, (fun h => by cases h)⟩
  | async _ _ _ happend _ =>
    obtain ⟨heq, hfalse, htrue, _⟩ := appendUntilStop_spec happend
    refine ⟨?_, ?_, ?_, fun hs => (hfalse hs).1, fun hs => (htrue hs).1⟩
    · rw [heq]
    · rw [heq]
    · rw [heq]
  | pooled => exact ⟨rfl, rfl, rfl, (fun h => by cases h), fun _ => rfl⟩
  | nothing => exact ⟨rfl, rfl, rfl, fun _ => rfl, (fun h => by cases h)⟩

theorem Generated.stops (h : Generated config r generated pooler kept stopped r') :
    Scheduler.stops config r generated pooler = stopped := by
  cases h with
  | sync hgen hsync happend => simp [Scheduler.stops, hgen, hsync, happend]
  | discarded hgen hasync hdiscard => simp [Scheduler.stops, hgen, hasync, hdiscard]
  | async hgen hasync hdiscard happend => simp [Scheduler.stops, hgen, hdiscard, happend]
  | pooled hpooling hpooler => simp [Scheduler.stops, hpooling, hpooler]
  | nothing hnot => simpa [Scheduler.stops] using hnot

theorem Stopped.frame {finished : Bool} (h : Stopped config r finished r') :
    r'.requestId = r.requestId ∧ (finished = true → r'.status = r.status) ∧
      (finished = false → r'.status =
        if r.continuesWithUpdate then .waiting else .waitingForStreamingReq) ∧
      (finished = true → r.continuesWithUpdate = false) := by
  cases h with
  | finished hend =>
    refine ⟨rfl, fun _ => rfl, (fun h => by cases h), fun _ => ?_⟩
    rcases hend with hres | ⟨rest, hqueue⟩
    · simp [Request.continuesWithUpdate, hres]
    · simp [Request.continuesWithUpdate, hqueue]
  | continued hres hqueue hsession =>
    have hcontinues : r.continuesWithUpdate = true := by
      simp [Request.continuesWithUpdate, hres, hqueue]
    obtain ⟨hid, hstatus⟩ := Request.updateAsSession_frame hsession
    refine ⟨hid, (fun h => by cases h), fun _ => ?_, (fun h => by cases h)⟩
    rw [hcontinues, if_pos rfl]
    exact hstatus
  | waits hres hqueue =>
    have hcontinues : r.continuesWithUpdate = false := by
      unfold Request.continuesWithUpdate
      split
      next update rest heq => exact absurd heq (hqueue (some update) rest)
      · simp
    refine ⟨rfl, (fun h => by cases h), fun _ => ?_, (fun h => by cases h)⟩
    rw [hcontinues]
    rfl

/-! ## Lists without the stopped requests -/

/-- The items of a list that are not among `removed`. -/
def without (xs removed : List Ref) : Multiset Ref := ↑(xs.filter fun x => decide (x ∉ removed))

theorem without_nil (xs : List Ref) : without xs [] = ↑xs := by simp [without]

theorem mem_without : x ∈ without xs removed ↔ x ∈ xs ∧ x ∉ removed := by
  simp [without]

theorem without_congr {ys : List Ref} (h : xs.Perm ys) : without xs removed = without ys removed :=
  Multiset.coe_eq_coe.mpr (h.filter _)

variable {ref : Ref} {st : UpdatePass D C} {status : RequestStatus} {specTokens : List Token}
  {e : ReqId × Int} {output : SchedulerOutput C.Metadata} {out : ModelRunnerOutput C.WorkerMeta}
  {failed : List ReqId}

theorem without_cons (h : ref ∉ removed) :
    without (ref :: xs) removed = ref ::ₘ without xs removed := by
  simp [without, h]

theorem without_cons_of_mem (h : ref ∈ removed) :
    without (ref :: xs) removed = without xs removed := by
  simp [without, h]

theorem without_insert_of_not_mem (h : ref ∉ xs) :
    without xs (removed.insert ref) = without xs removed := by
  refine congrArg Multiset.ofList (filter_congr fun x hx => ?_)
  have hne : x ≠ ref := fun heq => h (heq ▸ hx)
  simp [hne]

theorem without_insert (hnodup : (without xs removed).Nodup) (hmem : ref ∈ xs)
    (hnot : ref ∉ removed) : without xs removed = ref ::ₘ without xs (removed.insert ref) := by
  have hsub : without xs (removed.insert ref) ≤ without xs removed := by
    refine Multiset.coe_le.mpr (List.Sublist.subperm ?_)
    refine monotone_filter_right xs fun x hx => ?_
    simp only [decide_eq_true_eq, mem_insert_iff, not_or] at hx ⊢
    exact hx.2
  refine (Multiset.Nodup.ext hnodup (Multiset.nodup_cons.mpr
    ⟨?_, Multiset.nodup_of_le hsub hnodup⟩)).mpr fun x => ?_
  · simp [mem_without]
  · by_cases hx : x = ref
    · subst hx
      simp [mem_without, hmem, hnot]
    · simp [mem_without, hx]

/-! ## The loop -/

/-- The waiting requests, without those that were preempted and stopped. -/
def UpdatePass.waitingRefs (st : UpdatePass D C) : Multiset Ref :=
  without st.sched.waiting st.stoppedPreemptedReqs + ↑st.sched.skippedWaiting

def UpdatePass.Partitioned (st : UpdatePass D C) : Prop :=
  st.sched.Partition (without st.sched.running st.stoppedRunningReqs) st.waitingRefs

/-- The invariant of the loop, with the entries that are left.  Their requests are as they
were before the loop. -/
structure UpdatePass.Inv (s₀ : Scheduler D C) (entries : List (ReqId × Int))
    (st : UpdatePass D C) : Prop where
  config : st.sched.config = s₀.config
  running : st.sched.running = s₀.running
  partitioned : st.Partitioned
  untouched : ∀ rid ∈ entries.map Prod.fst, ∀ ref, st.sched.requests.get? rid = some ref →
    s₀.requests.get? rid = some ref ∧ st.sched.objs ref = s₀.objs ref ∧
      (ref ∈ st.sched.waiting ↔ ref ∈ s₀.waiting) ∧
      ref ∉ st.stoppedRunningReqs ∧ ref ∉ st.stoppedPreemptedReqs

structure LeavesOthers (st st' : UpdatePass D C) (ref : Ref) : Prop where
  config : st'.sched.config = st.sched.config
  running : st'.sched.running = st.sched.running
  requests : ∀ rid x, st'.sched.requests.get? rid = some x → st.sched.requests.get? rid = some x
  objs : ∀ x, x ≠ ref → st'.sched.objs x = st.sched.objs x
  waiting : ∀ x, x ≠ ref → (x ∈ st'.sched.waiting ↔ x ∈ st.sched.waiting)
  stoppedRunning : ∀ x, x ≠ ref → (x ∈ st'.stoppedRunningReqs ↔ x ∈ st.stoppedRunningReqs)
  stoppedPreempted : ∀ x, x ≠ ref → (x ∈ st'.stoppedPreemptedReqs ↔ x ∈ st.stoppedPreemptedReqs)

theorem noteStopped_stoppedRunning (hx : x ≠ ref) :
    x ∈ (st.noteStopped ref status).stoppedRunningReqs ↔ x ∈ st.stoppedRunningReqs := by
  unfold UpdatePass.noteStopped
  split
  · simp [hx]
  · exact .rfl

theorem noteStopped_stoppedPreempted (hx : x ≠ ref) :
    x ∈ (st.noteStopped ref status).stoppedPreemptedReqs ↔ x ∈ st.stoppedPreemptedReqs := by
  unfold UpdatePass.noteStopped
  split
  · exact .rfl
  · simp [hx]

theorem mem_enqueueWaitingRequest_waiting (hx : x ≠ ref) :
    x ∈ (s.enqueueWaitingRequest ref).waiting ↔ x ∈ s.waiting := by
  unfold enqueueWaitingRequest
  split
  · exact .rfl
  · rw [(RequestQueue.addRequest_perm s.config.policy s.lt s.waiting ref).mem_iff]
    simp [hx]

theorem enqueueWaitingRequest_frame (s : Scheduler D C) (ref : Ref) :
    (s.enqueueWaitingRequest ref).config = s.config ∧
      (s.enqueueWaitingRequest ref).running = s.running ∧
      (s.enqueueWaitingRequest ref).requests = s.requests ∧
      (s.enqueueWaitingRequest ref).numObjs = s.numObjs ∧
      (s.enqueueWaitingRequest ref).objs = s.objs := by
  unfold enqueueWaitingRequest
  split <;> exact ⟨rfl, rfl, rfl, rfl, rfl⟩

theorem LiveUpdate.leavesOthers
    (h : LiveUpdate st ref specTokens generated pooler st') : LeavesOthers st st' ref := by
  cases h with
  | goesOn hcaches hcalls hgenerated =>
    refine ⟨?_, ?_, ?_, ?_, ?_, fun _ _ => .rfl, fun _ _ => .rfl⟩
    · rw [hcaches.eq]
      rfl
    · rw [hcaches.eq]
      rfl
    · rw [hcaches.eq]
      exact fun _ _ hx => hx
    · intro x hx
      simp only [modify_objs, if_neg hx]
      rw [hcaches.objs]
    · rw [hcaches.eq]
      exact fun _ _ => .rfl
  | finished hcaches hcalls hgenerated hstopped hfree =>
    obtain ⟨_, s₁, hs₁, hcases⟩ := freeRequest_spec hfree
    refine ⟨?_, ?_, ?_, ?_, ?_, fun x hx => noteStopped_stoppedRunning hx,
      fun x hx => noteStopped_stoppedPreempted hx⟩
    · rcases hcases with rfl | ⟨_, rfl⟩
      all_goals
        rw [hs₁.eq, hcaches.eq]
        rfl
    · rcases hcases with rfl | ⟨_, rfl⟩
      all_goals
        rw [hs₁.eq, hcaches.eq]
        rfl
    · intro rid x hx
      rcases hcases with rfl | ⟨_, rfl⟩
      · rw [hs₁.eq, hcaches.eq] at hx
        exact hx
      · rw [hcaches.eq] at hx
        rw [Dict.get?_erase] at hx
        split at hx
        · cases hx
        · exact hx
    · intro x hx
      have hobjs : ∀ s' : Scheduler D C, s'.objs = s₁.objs → s'.objs x = st.sched.objs x := by
        intro s' hs'
        rw [hs', hs₁.objs, modify_objs, if_neg hx, hcaches.objs]
      rcases hcases with rfl | ⟨_, rfl⟩
      · exact hobjs _ rfl
      · exact hobjs _ rfl
    · intro x hx
      rcases hcases with rfl | ⟨_, rfl⟩
      all_goals
        rw [hs₁.eq, hcaches.eq]
        exact .rfl
  | queued hcaches hcalls hgenerated hstopped =>
    refine ⟨?_, ?_, ?_, ?_, ?_, fun x hx => noteStopped_stoppedRunning hx,
      fun x hx => noteStopped_stoppedPreempted hx⟩
    · rw [(enqueueWaitingRequest_frame _ _).1, hcaches.eq]
      rfl
    · rw [(enqueueWaitingRequest_frame _ _).2.1, hcaches.eq]
      rfl
    · rw [(enqueueWaitingRequest_frame _ _).2.2.1, hcaches.eq]
      exact fun _ _ hx => hx
    · intro x hx
      rw [(enqueueWaitingRequest_frame _ _).2.2.2.2, modify_objs, if_neg hx]
      exact congrFun hcaches.objs x
    · intro x hx
      rw [mem_enqueueWaitingRequest_waiting hx, hcaches.eq]
      exact .rfl

/-- What is kept for the entries that are left, when the request of the first one was
processed. -/
theorem UpdatePass.Inv.next
    (h : UpdatePass.Inv s₀ (e :: entries) st) (hnodup : ((e :: entries).map Prod.fst).Nodup)
    (href : st.sched.requests.get? e.1 = some ref) (hleaves : LeavesOthers st st' ref)
    (hpartition : st'.Partitioned) : UpdatePass.Inv s₀ entries st' := by
  rw [map_cons, nodup_cons] at hnodup
  refine ⟨hleaves.config.trans h.config, hleaves.running.trans h.running, hpartition, ?_⟩
  intro rid hrid x hx
  have hx' := hleaves.requests rid x hx
  have hne : x ≠ ref := by
    rintro rfl
    have hid := (h.partitioned.ids rid x hx').2
    have hide := (h.partitioned.ids e.1 x href).2
    exact hnodup.1 (hide ▸ hid ▸ hrid)
  obtain ⟨hreg, hobjs, hwaiting, hr, hq⟩ :=
    h.untouched rid (mem_cons_of_mem e.1 hrid) x hx'
  refine ⟨hreg, (hleaves.objs x hne).trans hobjs, (hleaves.waiting x hne).trans hwaiting, ?_, ?_⟩
  · rw [hleaves.stoppedRunning x hne]
    exact hr
  · rw [hleaves.stoppedPreempted x hne]
    exact hq

theorem afterRejection_frame (specTokens generated : List Token) (r : Request D) :
    (afterRejection specTokens generated r).requestId = r.requestId ∧
      (afterRejection specTokens generated r).continuesWithUpdate = r.continuesWithUpdate := by
  unfold afterRejection
  split <;> exact ⟨rfl, rfl⟩

theorem Generated.continuesWithUpdate (h : Generated config r generated pooler kept stopped r') :
    r'.continuesWithUpdate = r.continuesWithUpdate := by
  obtain ⟨_, hres, hqueue, _⟩ := h.frame
  unfold Request.continuesWithUpdate
  rw [hres, hqueue]

theorem Partition.freeRequest {s' : Scheduler D C} {running waiting : Multiset Ref}
    {delay : Bool} (h : s.Partition running waiting) (hreg : s.Registered ref)
    (hfree : s.freeRequest ref delay = .ok s') : s'.Partition running waiting := by
  obtain ⟨hfinished, s₁, hs₁, hcases⟩ := freeRequest_spec hfree
  have hobjs := hs₁.objs
  have hpartition := h.cachesOnly hs₁
  rcases hcases with rfl | ⟨_, rfl⟩
  · exact hpartition.congr (.of_objs ref rfl rfl rfl) rfl
  · have hreg₁ : s₁.Registered ref := by
      rw [hs₁.eq]
      exact hreg
    have herased := hpartition.erase hreg₁ (by
      rw [hobjs]
      exact hfinished)
    refine herased.congr (.of_objs ref ?_ rfl rfl) rfl
    rw [hs₁.eq]

theorem Registered.modify {s s₁ : Scheduler D C} {ref : Ref} {f : Request D → Request D}
    (h : s.Registered ref) (hcaches : s.RequestsKept s₁)
    (hid : (f (s.objs ref)).requestId = (s.objs ref).requestId) :
    (s₁.modify ref f).Registered ref := by
  unfold Registered
  rw [modify_objs, if_pos rfl, hcaches.objs, hid]
  rw [hcaches.eq]
  exact h

theorem SameRequests.of_modify {s₁ : Scheduler D C} (hcaches : s.RequestsKept s₁)
    (hid : r.requestId = (s.objs ref).requestId) :
    s.SameRequests (s₁.modify ref fun _ => r) ref := by
  refine .of_update ref (r := r) ?_ ?_ ?_ hid
  · rw [hcaches.eq]
    rfl
  · rw [hcaches.eq]
    rfl
  · simp only [Scheduler.modify]
    rw [hcaches.objs]

theorem enqueue_queues {s s₁ : Scheduler D C} {ref : Ref} (hwaiting : s₁.waiting = s.waiting)
    (hskipped : s₁.skippedWaiting = s.skippedWaiting) :
    (s₁.enqueueWaitingRequest ref).waiting.Perm
        (if (s₁.objs ref).status.isBlockedWaiting then s.waiting else ref :: s.waiting) ∧
      (s₁.enqueueWaitingRequest ref).skippedWaiting.Perm
        (if (s₁.objs ref).status.isBlockedWaiting then ref :: s.skippedWaiting
          else s.skippedWaiting) := by
  unfold enqueueWaitingRequest
  split
  · refine ⟨by rw [hwaiting], ?_⟩
    rw [← hskipped]
    exact RequestQueue.addRequest_perm _ _ _ _
  · refine ⟨?_, by rw [hskipped]⟩
    rw [← hwaiting]
    exact RequestQueue.addRequest_perm _ _ _ _

/-- What is known about a request whose entry is processed. -/
structure UpdatePass.Live (st : UpdatePass D C) (ref : Ref) : Prop where
  registered : st.sched.Registered ref
  unfinished : (st.sched.objs ref).isFinished = false
  notStoppedRunning : ref ∉ st.stoppedRunningReqs
  notStoppedPreempted : ref ∉ st.stoppedPreemptedReqs

namespace UpdatePass.Partitioned

variable {st : UpdatePass D C} {ref : Ref}

theorem isWaiting (hlive : st.Live ref) (hstatus : (st.sched.objs ref).status ≠ .running) :
    (st.sched.objs ref).status.isWaiting = true := by
  have hunfinished : (st.sched.objs ref).status.isFinished = false := hlive.unfinished
  simp [RequestStatus.isWaiting, hstatus, hunfinished]

theorem without_running (h : st.Partitioned) (hlive : st.Live ref)
    (hstatus : (st.sched.objs ref).status = .running) :
    without st.sched.running st.stoppedRunningReqs =
      ref ::ₘ without st.sched.running (st.stoppedRunningReqs.insert ref) := by
  have hmem := (h.mem_running ref).mpr ⟨hlive.registered, hstatus⟩
  exact without_insert h.nodup_running (mem_without.mp hmem).1 hlive.notStoppedRunning

theorem without_waiting (h : st.Partitioned) (hlive : st.Live ref) (hmem : ref ∈ st.sched.waiting) :
    st.waitingRefs = ref ::ₘ (without st.sched.waiting (st.stoppedPreemptedReqs.insert ref) +
      ↑st.sched.skippedWaiting) := by
  have hnodup := (Multiset.nodup_add.mp h.nodup_waiting).1
  rw [← Multiset.cons_add, ← without_insert hnodup hmem hlive.notStoppedPreempted]
  rfl

variable {s₁ : Scheduler D C} {outputs : List (Nat × EngineCoreOutput)}

theorem finish {s' : Scheduler D C}
    (h : st.Partitioned) (hlive : st.Live ref) (hcaches : st.sched.RequestsKept s₁)
    (hid : r.requestId = (st.sched.objs ref).requestId)
    (hplace : (st.sched.objs ref).status ≠ .running → ref ∈ st.sched.waiting)
    (hfree : (s₁.modify ref fun _ => r).freeRequest ref = .ok s') :
    UpdatePass.Partitioned { st.noteStopped ref (st.sched.objs ref).status with
      sched := s', outputs := outputs } := by
  have hsame := SameRequests.of_modify hcaches hid
  have hreg := hlive.registered.modify hcaches (f := fun _ => r) hid
  obtain ⟨hfinished, s₂, hs₂, hcases⟩ := freeRequest_spec hfree
  have hqueues : s'.running = st.sched.running ∧ s'.waiting = st.sched.waiting ∧
      s'.skippedWaiting = st.sched.skippedWaiting := by
    rcases hcases with rfl | ⟨_, rfl⟩
    all_goals
      rw [hs₂.eq, hcaches.eq]
      exact ⟨rfl, rfl, rfl⟩
  obtain ⟨hrunning, hwaiting, hskipped⟩ := hqueues
  unfold UpdatePass.Partitioned UpdatePass.waitingRefs UpdatePass.noteStopped
  dsimp only
  rw [hrunning, hwaiting, hskipped]
  unfold UpdatePass.Partitioned at h
  by_cases hstatus : (st.sched.objs ref).status = .running
  · rw [if_pos hstatus, if_pos hstatus]
    rw [without_running h hlive hstatus] at h
    exact (h.finishRunning hsame hfinished).freeRequest hreg hfree
  · rw [if_neg hstatus, if_neg hstatus]
    rw [without_waiting h hlive (hplace hstatus)] at h
    exact (h.finishWaiting hsame hfinished).freeRequest hreg hfree

theorem queue {n : Int}
    (h : st.Partitioned) (hlive : st.Live ref) (hcaches : st.sched.RequestsKept s₁)
    (hid : r.requestId = (st.sched.objs ref).requestId)
    (hr : r.status = .waiting ∨ r.status = .waitingForStreamingReq)
    (hplace : (st.sched.objs ref).status ≠ .running →
      (ref ∈ st.sched.waiting ↔ r.status = .waitingForStreamingReq)) :
    UpdatePass.Partitioned { st.noteStopped ref (st.sched.objs ref).status with
      sched := ({ s₁ with numWaitingForStreamingInput := n }.modify ref
        fun _ => r).enqueueWaitingRequest ref
      outputs := outputs } := by
  have hsame : st.sched.SameRequests (({ s₁ with numWaitingForStreamingInput := n }.modify ref
      fun _ => r).enqueueWaitingRequest ref) ref := by
    obtain ⟨_, _, hrequests, hnumObjs, hobjs⟩ := enqueueWaitingRequest_frame
      ({ s₁ with numWaitingForStreamingInput := n }.modify ref fun _ => r) ref
    refine .of_update ref (r := r) (hrequests.trans ?_) (hnumObjs.trans ?_) (hobjs.trans ?_) hid
    · rw [hcaches.eq]
      rfl
    · rw [hcaches.eq]
      rfl
    · simp only [Scheduler.modify]
      rw [hcaches.objs]
  have hstatus' : ((({ s₁ with numWaitingForStreamingInput := n }.modify ref
      fun _ => r).enqueueWaitingRequest ref).objs ref).status = r.status := by
    rw [(enqueueWaitingRequest_frame _ _).2.2.2.2, modify_objs, if_pos rfl]
  have hwaits : ((({ s₁ with numWaitingForStreamingInput := n }.modify ref
      fun _ => r).enqueueWaitingRequest ref).objs ref).status.isWaiting = true := by
    rw [hstatus']
    rcases hr with hr | hr
    · rw [hr]
      rfl
    · rw [hr]
      rfl
  have hrunning : (({ s₁ with numWaitingForStreamingInput := n }.modify ref
      fun _ => r).enqueueWaitingRequest ref).running = st.sched.running := by
    rw [(enqueueWaitingRequest_frame _ _).2.1, hcaches.eq]
    rfl
  obtain ⟨hqw, hqs⟩ := @enqueue_queues D _ C st.sched
    ({ s₁ with numWaitingForStreamingInput := n }.modify ref fun _ => r) ref
    (by rw [hcaches.eq]; rfl) (by rw [hcaches.eq]; rfl)
  have hobjs : (({ s₁ with numWaitingForStreamingInput := n }.modify ref fun _ => r).objs ref) =
    r := by
    rw [modify_objs, if_pos rfl]
  rw [hobjs] at hqw hqs
  unfold UpdatePass.Partitioned UpdatePass.waitingRefs UpdatePass.noteStopped
  dsimp only
  rw [hrunning]
  unfold UpdatePass.Partitioned at h
  by_cases hstatus : (st.sched.objs ref).status = .running
  · rw [if_pos hstatus, if_pos hstatus]
    rw [without_running h hlive hstatus] at h
    have hstopped := h.stop hsame hwaits
    rcases hr with hr | hr
    · rw [if_neg (by rw [hr]; decide)] at hqw hqs
      rw [without_congr hqw, without_cons hlive.notStoppedPreempted, Multiset.cons_add,
        Multiset.coe_eq_coe.mpr hqs]
      exact hstopped
    · rw [if_pos (by rw [hr]; decide)] at hqw hqs
      rw [without_congr hqw, Multiset.coe_eq_coe.mpr hqs, ← Multiset.cons_coe, Multiset.add_cons]
      exact hstopped
  · rw [if_neg hstatus, if_neg hstatus]
    have hmem := (h.mem_waiting ref).mpr ⟨hlive.registered, isWaiting hlive hstatus⟩
    have hwait := h.wait hsame hmem hwaits
    rcases hr with hr | hr
    · rw [if_neg (by rw [hr]; decide)] at hqw hqs
      have hnot : ref ∉ st.sched.waiting := by
        rw [hplace hstatus, hr]
        decide
      rw [without_congr hqw, without_cons_of_mem mem_insert_self,
        without_insert_of_not_mem hnot, Multiset.coe_eq_coe.mpr hqs]
      exact hwait
    · rw [if_pos (by rw [hr]; decide)] at hqw hqs
      have hin : ref ∈ st.sched.waiting := (hplace hstatus).mpr hr
      rw [without_congr hqw, Multiset.coe_eq_coe.mpr hqs, ← Multiset.cons_coe, Multiset.add_cons]
      rw [without_waiting h hlive hin] at hwait
      exact hwait

end UpdatePass.Partitioned

theorem LiveUpdate.partitioned (h : st.Partitioned) (hlive : st.Live ref)
    (hplace : (st.sched.objs ref).status.isWaiting = true →
      stops st.sched.config (afterRejection specTokens generated (st.sched.objs ref)) generated
        pooler = true →
      (ref ∈ st.sched.waiting ↔ (st.sched.objs ref).continuesWithUpdate = false))
    (hupdate : LiveUpdate st ref specTokens generated pooler st') : st'.Partitioned := by
  cases hupdate with
  | goesOn hcaches hcalls hgenerated =>
    obtain ⟨hid, _, _, hstatus, _⟩ := hgenerated.frame
    rw [(afterRejection_frame _ _ _).1, hcaches.objs] at hid
    have hstatus := hstatus rfl
    rw [afterRejection_status, hcaches.objs] at hstatus
    unfold UpdatePass.Partitioned UpdatePass.waitingRefs
    have hpartition := Partition.congr h (SameRequests.of_modify hcaches hid) (by
      rw [modify_objs, if_pos rfl]
      exact hstatus)
    rw [hcaches.eq] at hpartition ⊢
    exact hpartition
  | finished hcaches hcalls hgenerated hstopped hfree =>
    rename_i s₁ s₂ r r' kept outputs
    obtain ⟨hid, _⟩ := hgenerated.frame
    obtain ⟨hid', _, _, hcontinues⟩ := hstopped.frame
    have hstops := hgenerated.stops
    rw [hgenerated.continuesWithUpdate, (afterRejection_frame _ _ _).2] at hcontinues
    have hobjs := hcaches.objs
    have hconfig : s₁.config = st.sched.config := by rw [hcaches.eq]
    rw [hobjs] at hstops hcontinues ⊢
    rw [hconfig] at hstops
    refine h.finish hlive hcaches ?_ ?_ hfree
    · rw [hid', hid, (afterRejection_frame _ _ _).1, hobjs]
    · intro hstatus
      exact (hplace (UpdatePass.Partitioned.isWaiting hlive hstatus) hstops).mpr (hcontinues rfl)
  | queued hcaches hcalls hgenerated hstopped =>
    rename_i s₁ r r' kept n outputs
    obtain ⟨hid, _⟩ := hgenerated.frame
    obtain ⟨hid', _, hstatus', _⟩ := hstopped.frame
    have hstops := hgenerated.stops
    have hstatus' := hstatus' rfl
    rw [hgenerated.continuesWithUpdate, (afterRejection_frame _ _ _).2] at hstatus'
    have hobjs := hcaches.objs
    have hconfig : s₁.config = st.sched.config := by rw [hcaches.eq]
    have hnote : st.noteStopped ref (s₁.objs ref).status =
        st.noteStopped ref (st.sched.objs ref).status := by rw [hobjs]
    rw [hobjs] at hstops hstatus'
    rw [hconfig] at hstops
    rw [hnote]
    refine h.queue hlive hcaches ?_ ?_ ?_
    · rw [hid', hid, (afterRejection_frame _ _ _).1, hobjs]
    · rw [hstatus']
      split
      · exact .inl rfl
      · exact .inr rfl
    · intro hstatus
      rw [hplace (UpdatePass.Partitioned.isWaiting hlive hstatus) hstops, hstatus']
      cases (st.sched.objs ref).continuesWithUpdate <;> simp

/-- Of the listed requests, those that stop while they wait are in the queue unless they
continue. -/
abbrev PlacesStopped (s₀ : Scheduler D C) (output : SchedulerOutput C.Metadata)
    (out : ModelRunnerOutput C.WorkerMeta) (failed : List ReqId)
    (entries : List (ReqId × Int)) : Prop :=
  ∀ rid ∈ entries.map Prod.fst, rid ∉ failed →
    ∀ ref reqIndex generated pooler, s₀.requests.get? rid = some ref →
    (s₀.objs ref).status.isWaiting = true → out.reqIdToIndex.get? rid = some reqIndex →
    out.generatedTokenIds reqIndex = .ok generated → out.poolerOutputOf reqIndex = .ok pooler →
    stops s₀.config (afterRejection ((output.scheduledSpecDecodeTokens.get? rid).getD [])
      generated (s₀.objs ref)) generated pooler = true →
    (ref ∈ s₀.waiting ↔ (s₀.objs ref).continuesWithUpdate = false)

theorem UpdatePass.Inv.step (hplace : PlacesStopped s₀ output out failed (e :: entries))
    (h : UpdatePass.Inv s₀ (e :: entries) st) (hnodup : ((e :: entries).map Prod.fst).Nodup)
    (hstep : updateRequest output out failed st e = .ok st') : UpdatePass.Inv s₀ entries st' := by
  rcases updateRequest_spec hstep with ⟨rfl, _⟩ | ⟨hfailed, ref, reqIndex, generated, pooler, href,
    hfinished, hindex, hgenerated, hpooler, hlive⟩
  · exact ⟨h.config, h.running, h.partitioned,
      fun rid hrid => h.untouched rid (mem_cons_of_mem e.1 hrid)⟩
  · have hmem : e.1 ∈ (e :: entries).map Prod.fst := mem_cons_self
    obtain ⟨href₀, hobjs, hwaiting, hr, hq⟩ := h.untouched e.1 hmem ref href
    have hregistered : st.sched.Registered ref := by
      unfold Registered
      rw [(h.partitioned.ids e.1 ref href).2]
      exact href
    refine h.next hnodup href hlive.leavesOthers (hlive.partitioned h.partitioned
      ⟨hregistered, hfinished, hr, hq⟩ ?_)
    rw [hobjs, hwaiting, h.config]
    intro hstatus hstops
    exact hplace e.1 hmem hfailed ref reqIndex generated pooler href₀ hstatus hindex hgenerated
      hpooler hstops

theorem UpdatePass.Inv.loop (hplace : PlacesStopped s₀ output out failed entries)
    (h : UpdatePass.Inv s₀ entries st) (hnodup : (entries.map Prod.fst).Nodup)
    (hloop : entries.foldlM (updateRequest output out failed) st = .ok st') :
    UpdatePass.Inv s₀ [] st' := by
  induction entries generalizing st with
  | nil =>
    simp only [foldlM_nil, pure_ok] at hloop
    exact hloop ▸ h
  | cons e entries ih =>
    rw [foldlM_cons, bind_ok] at hloop
    obtain ⟨st₁, hfirst, hloop⟩ := hloop
    have hnodup' := (nodup_cons.mp hnodup).2
    exact ih (fun rid hrid => hplace rid (mem_cons_of_mem e.1 hrid))
      (h.step hplace hnodup hfirst) hnodup' hloop

theorem removeAll_coe {items : List Ref} (h : xs.Nodup) :
    (↑(removeAll xs items) : Multiset Ref) = without xs items := by
  unfold removeAll without
  split
  next item hitem =>
    rw [h.erase_eq_filter item]
    refine congrArg Multiset.ofList (filter_congr fun x _ => ?_)
    have hmem : x ∈ items ↔ x = item := by
      rw [← mem_dedup, hitem, mem_singleton]
    by_cases hx : x = item
    · subst hx
      simp [hmem.mpr rfl]
    · have hnot : x ∉ items := fun hin => hx (hmem.mp hin)
      simp [hx, hnot]
  · refine congrArg Multiset.ofList (filter_congr fun x _ => ?_)
    simp [mem_dedup]

theorem UpdatePass.Partitioned.removeStopped (h : st.Partitioned)
    (hrunning : st.sched.running.Nodup) : (Scheduler.removeStopped st).Partitioned := by
  have hr : (↑(Scheduler.removeStopped st).running : Multiset Ref) =
      without st.sched.running st.stoppedRunningReqs := by
    simp only [Scheduler.removeStopped]
    split
    next hempty =>
      rw [isEmpty_iff.mp hempty, without_nil]
    · exact removeAll_coe hrunning
  have hw : (Scheduler.removeStopped st).waitingRefs = st.waitingRefs := by
    simp only [Scheduler.waitingRefs, Scheduler.removeStopped, UpdatePass.waitingRefs]
    split
    next hempty =>
      rw [isEmpty_iff.mp hempty, without_nil]
    · rw [Multiset.coe_eq_coe.mpr (RequestQueue.removeRequests_perm _ _ _ _)]
      rfl
  unfold Scheduler.Partitioned
  rw [hr, hw]
  exact Partition.congr h (.of_objs 0 rfl rfl rfl) rfl

end Scheduler

end VllmCore
