import VllmCore.Scheduler.Calls
/-!
# Where the requests are

Every live request is in the running list or in one of the waiting queues, once, as its
status says; finished requests are in none of them.  `Partition` states this for the
running requests and the waiting requests as multisets, so that a pass can count the
requests that it has put aside.  A call is followed through one request at a time: only
the request that moves has to be looked at.
-/

namespace VllmCore

open Function Support

variable {D : Type}

def RequestStatus.isWaiting (status : RequestStatus) : Bool :=
  status ≠ .running ∧ status.isFinished = false

namespace Scheduler

variable [DecidableEq D] {C : KVConnector D}

/-- The request object is the one that `requests` has under its id. -/
def Registered (s : Scheduler D C) (ref : Ref) : Prop :=
  s.requests.get? (s.objs ref).requestId = some ref

/-- The running and the waiting requests are the live ones. -/
structure Partition (s : Scheduler D C) (running waiting : Multiset Ref) : Prop where
  ids : ∀ rid ref, s.requests.get? rid = some ref →
    ref < s.numObjs ∧ (s.objs ref).requestId = rid
  nodup_running : running.Nodup
  nodup_waiting : waiting.Nodup
  mem_running : ∀ ref, ref ∈ running ↔ s.Registered ref ∧ (s.objs ref).status = .running
  mem_waiting : ∀ ref, ref ∈ waiting ↔ s.Registered ref ∧ (s.objs ref).status.isWaiting = true

def waitingRefs (s : Scheduler D C) : Multiset Ref := ↑s.waiting + ↑s.skippedWaiting

/-- The partition that holds between the calls. -/
def Partitioned (s : Scheduler D C) : Prop := s.Partition ↑s.running s.waitingRefs

structure SameRequests (s s' : Scheduler D C) (ref : Ref) : Prop where
  requests : s'.requests = s.requests
  numObjs : s'.numObjs = s.numObjs
  requestId : ∀ x, (s'.objs x).requestId = (s.objs x).requestId
  status : ∀ x, x ≠ ref → (s'.objs x).status = (s.objs x).status

namespace Partition

variable {s s' : Scheduler D C} {running running' waiting waiting' : Multiset Ref} {ref : Ref}

theorem update (h : s.Partition running waiting) (hsame : s.SameRequests s' ref)
    (hrunning : running'.Nodup) (hwaiting : waiting'.Nodup)
    (hother : ∀ x, x ≠ ref → (x ∈ running' ↔ x ∈ running) ∧ (x ∈ waiting' ↔ x ∈ waiting))
    (hmemr : ref ∈ running' ↔ s.Registered ref ∧ (s'.objs ref).status = .running)
    (hmemw : ref ∈ waiting' ↔ s.Registered ref ∧ (s'.objs ref).status.isWaiting = true) :
    s'.Partition running' waiting' := by
  have hreg : ∀ x, s'.Registered x ↔ s.Registered x := by
    intro x
    unfold Registered
    rw [hsame.requests, hsame.requestId]
  refine
    { ids := ?_
      nodup_running := hrunning
      nodup_waiting := hwaiting
      mem_running := ?_
      mem_waiting := ?_ }
  · intro rid x hx
    rw [hsame.requests] at hx
    rw [hsame.numObjs, hsame.requestId]
    exact h.ids rid x hx
  · intro x
    by_cases hx : x = ref
    · subst hx
      rw [hreg]
      exact hmemr
    · rw [hreg, hsame.status x hx, (hother x hx).1]
      exact h.mem_running x
  · intro x
    by_cases hx : x = ref
    · subst hx
      rw [hreg]
      exact hmemw
    · rw [hreg, hsame.status x hx, (hother x hx).2]
      exact h.mem_waiting x

theorem congr (h : s.Partition running waiting) (hsame : s.SameRequests s' ref)
    (href : (s'.objs ref).status = (s.objs ref).status) : s'.Partition running waiting := by
  refine h.update hsame h.nodup_running h.nodup_waiting (fun _ _ => ⟨.rfl, .rfl⟩) ?_ ?_
  · rw [href]
    exact h.mem_running ref
  · rw [href]
    exact h.mem_waiting ref

theorem disjoint (h : s.Partition running waiting) (hr : ref ∈ running) : ref ∉ waiting := by
  intro hw
  have hrunning := ((h.mem_running ref).mp hr).2
  have hwaiting := ((h.mem_waiting ref).mp hw).2
  rw [hrunning] at hwaiting
  cases hwaiting

theorem stop (h : s.Partition (ref ::ₘ running) waiting) (hsame : s.SameRequests s' ref)
    (href : (s'.objs ref).status.isWaiting = true) :
    s'.Partition running (ref ::ₘ waiting) := by
  have hmem : ref ∈ ref ::ₘ running := Multiset.mem_cons_self ref running
  have hnodup := Multiset.nodup_cons.mp h.nodup_running
  have hreg := ((h.mem_running ref).mp hmem).1
  refine h.update hsame hnodup.2 (Multiset.nodup_cons.mpr ⟨h.disjoint hmem, h.nodup_waiting⟩) ?_
    ?_ ?_
  · intro x hx
    simp [hx]
  · constructor
    · exact fun hin => absurd hin hnodup.1
    · rintro ⟨_, hrun⟩
      rw [hrun] at href
      cases href
  · simp [hreg, href]

theorem start (h : s.Partition running (ref ::ₘ waiting)) (hsame : s.SameRequests s' ref)
    (href : (s'.objs ref).status = .running) : s'.Partition (ref ::ₘ running) waiting := by
  have hmem : ref ∈ ref ::ₘ waiting := Multiset.mem_cons_self ref waiting
  have hnodup := Multiset.nodup_cons.mp h.nodup_waiting
  have hreg := ((h.mem_waiting ref).mp hmem).1
  have hnot : ref ∉ running := fun hr => h.disjoint hr hmem
  refine h.update hsame (Multiset.nodup_cons.mpr ⟨hnot, h.nodup_running⟩) hnodup.2 ?_ ?_ ?_
  · intro x hx
    simp [hx]
  · simp [hreg, href]
  · constructor
    · exact fun hin => absurd hin hnodup.1
    · rintro ⟨_, hwait⟩
      rw [href] at hwait
      cases hwait

theorem wait (h : s.Partition running waiting) (hsame : s.SameRequests s' ref)
    (hmem : ref ∈ waiting) (href : (s'.objs ref).status.isWaiting = true) :
    s'.Partition running waiting := by
  have hreg := ((h.mem_waiting ref).mp hmem).1
  refine h.update hsame h.nodup_running h.nodup_waiting (fun _ _ => ⟨.rfl, .rfl⟩) ?_ ?_
  · constructor
    · exact fun hr => absurd hmem (h.disjoint hr)
    · rintro ⟨_, hrun⟩
      rw [hrun] at href
      cases href
  · simp [hmem, hreg, href]

theorem finishRunning (h : s.Partition (ref ::ₘ running) waiting) (hsame : s.SameRequests s' ref)
    (href : (s'.objs ref).isFinished = true) : s'.Partition running waiting := by
  have hmem : ref ∈ ref ::ₘ running := Multiset.mem_cons_self ref running
  have hnodup := Multiset.nodup_cons.mp h.nodup_running
  have hstatus : (s'.objs ref).status.isFinished = true := href
  refine h.update hsame hnodup.2 h.nodup_waiting ?_ ?_ ?_
  · intro x hx
    simp [hx]
  · constructor
    · exact fun hin => absurd hin hnodup.1
    · rintro ⟨_, hrun⟩
      rw [hrun] at hstatus
      cases hstatus
  · constructor
    · exact fun hin => absurd hin (h.disjoint hmem)
    · rintro ⟨_, hwait⟩
      simp [RequestStatus.isWaiting, hstatus] at hwait

theorem finishWaiting (h : s.Partition running (ref ::ₘ waiting)) (hsame : s.SameRequests s' ref)
    (href : (s'.objs ref).isFinished = true) : s'.Partition running waiting := by
  have hmem : ref ∈ ref ::ₘ waiting := Multiset.mem_cons_self ref waiting
  have hnodup := Multiset.nodup_cons.mp h.nodup_waiting
  have hstatus : (s'.objs ref).status.isFinished = true := href
  refine h.update hsame h.nodup_running hnodup.2 ?_ ?_ ?_
  · intro x hx
    simp [hx]
  · constructor
    · exact fun hin => absurd hmem (h.disjoint hin)
    · rintro ⟨_, hrun⟩
      rw [hrun] at hstatus
      cases hstatus
  · constructor
    · exact fun hin => absurd hin hnodup.1
    · rintro ⟨_, hwait⟩
      simp [RequestStatus.isWaiting, hstatus] at hwait

theorem erase (h : s.Partition running waiting) (hreg : s.Registered ref)
    (hfinished : (s.objs ref).isFinished = true) :
    Partition { s with requests := s.requests.erase (s.objs ref).requestId } running waiting := by
  have hstatus : (s.objs ref).status.isFinished = true := hfinished
  -- A live request has another id.
  have hlive : ∀ x, (s.objs x).status.isFinished = false →
      (Registered { s with requests := s.requests.erase (s.objs ref).requestId } x ↔
        s.Registered x) := by
    intro x hx
    have hne : x ≠ ref := by
      rintro rfl
      rw [hstatus] at hx
      cases hx
    unfold Registered
    rw [Dict.get?_erase]
    split
    next hid =>
      refine ⟨(fun hnone => by cases hnone), fun hsome => ?_⟩
      rw [hid] at hsome
      have heq := hsome.symm.trans hreg
      cases heq
      exact absurd rfl hne
    · exact .rfl
  refine
    { ids := ?_
      nodup_running := h.nodup_running
      nodup_waiting := h.nodup_waiting
      mem_running := ?_
      mem_waiting := ?_ }
  · intro rid x hx
    rw [Dict.get?_erase] at hx
    split at hx
    · cases hx
    · exact h.ids rid x hx
  · intro x
    rw [h.mem_running x]
    constructor
    · rintro ⟨hx, hrun⟩
      exact ⟨(hlive x (by rw [hrun]; rfl)).mpr hx, hrun⟩
    · rintro ⟨hx, hrun⟩
      exact ⟨(hlive x (by show (s.objs x).status.isFinished = false; rw [hrun]; rfl)).mp hx, hrun⟩
  · intro x
    rw [h.mem_waiting x]
    have hunfinished : (s.objs x).status.isWaiting = true →
        (s.objs x).status.isFinished = false := by
      simp [RequestStatus.isWaiting]
    constructor
    · rintro ⟨hx, hwait⟩
      exact ⟨(hlive x (hunfinished hwait)).mpr hx, hwait⟩
    · rintro ⟨hx, hwait⟩
      exact ⟨(hlive x (hunfinished hwait)).mp hx, hwait⟩

end Partition

variable {s s' : Scheduler D C} {q : QueueName} {ref : Ref}
  {st st' : SchedulerOutput C.Metadata × Scheduler D C} {output : SchedulerOutput C.Metadata}

theorem SameRequests.of_update (ref : Ref) {r : Request D}
    (hrequests : s'.requests = s.requests) (hnumObjs : s'.numObjs = s.numObjs)
    (hobjs : s'.objs = update s.objs ref r) (hid : r.requestId = (s.objs ref).requestId) :
    s.SameRequests s' ref := by
  refine ⟨hrequests, hnumObjs, ?_, ?_⟩
  · intro x
    rw [hobjs, update_apply]
    split
    next hx =>
      rw [hid, hx]
    · rfl
  · intro x hx
    rw [hobjs, update_of_ne hx]

theorem SameRequests.of_objs (ref : Ref)
    (hrequests : s'.requests = s.requests) (hnumObjs : s'.numObjs = s.numObjs)
    (hobjs : s'.objs = s.objs) : s.SameRequests s' ref := by
  refine ⟨hrequests, hnumObjs, ?_, ?_⟩
  · intro x
    rw [hobjs]
  · intro x _
    rw [hobjs]

theorem Partition.cachesOnly {running waiting : Multiset Ref}
    (h : s.Partition running waiting) (hsame : s.CachesOnly s') : s'.Partition running waiting := by
  have hobjs := hsame.objs
  refine h.congr (.of_objs 0 ?_ ?_ hobjs) (by rw [hobjs])
  · rw [hsame.eq]
  · rw [hsame.eq]

/-! ## The queues as multisets -/

theorem waitingRefs_prependWaiting (s : Scheduler D C) (ref : Ref) :
    (s.prependWaiting ref).waitingRefs = ref ::ₘ s.waitingRefs := by
  have hperm := RequestQueue.prependRequest_perm s.config.policy s.lt s.waiting ref
  simp only [waitingRefs, prependWaiting]
  rw [Multiset.coe_eq_coe.mpr hperm, ← Multiset.cons_coe, Multiset.cons_add]

theorem waitingRefs_enqueueWaitingRequest (s : Scheduler D C) (ref : Ref) :
    (s.enqueueWaitingRequest ref).waitingRefs = ref ::ₘ s.waitingRefs := by
  unfold enqueueWaitingRequest waitingRefs
  split
  · have hperm := RequestQueue.addRequest_perm s.config.policy s.lt s.skippedWaiting ref
    rw [Multiset.coe_eq_coe.mpr hperm, ← Multiset.cons_coe, Multiset.add_cons]
  · have hperm := RequestQueue.addRequest_perm s.config.policy s.lt s.waiting ref
    rw [Multiset.coe_eq_coe.mpr hperm, ← Multiset.cons_coe, Multiset.cons_add]

theorem waitingRefs_setQueue {lt : Ref → Ref → Bool} {rest : RequestQueue}
    (h : RequestQueue.popRequest s.config.policy lt (s.queue q) = .ok (ref, rest)) :
    s.waitingRefs = ref ::ₘ (s.setQueue q rest).waitingRefs := by
  have hperm := Multiset.coe_eq_coe.mpr (RequestQueue.popRequest_perm _ _ h)
  cases q with
  | waiting =>
    simp only [waitingRefs, setQueue]
    rw [show (↑s.waiting : Multiset Ref) = _ from hperm, ← Multiset.cons_coe, Multiset.cons_add]
  | skippedWaiting =>
    simp only [waitingRefs, setQueue]
    rw [show (↑s.skippedWaiting : Multiset Ref) = _ from hperm, ← Multiset.cons_coe,
      Multiset.add_cons]

theorem mem_waitingRefs (h : ref ∈ s.queue q) : ref ∈ s.waitingRefs := by
  cases q with
  | waiting => exact Multiset.mem_add.mpr (.inl h)
  | skippedWaiting => exact Multiset.mem_add.mpr (.inr h)

theorem Partition.preemptRequest {s s' : Scheduler D C} {running waiting : Multiset Ref} {ref : Ref}
    (h : s.Partition (ref ::ₘ running) waiting) (hpreempt : s.preemptRequest ref = .ok s') :
    s'.Partition running (ref ::ₘ waiting) ∧ s'.running = s.running ∧
      s'.waitingRefs = ref ::ₘ s.waitingRefs := by
  obtain ⟨_, kv, encoder, _, _, rfl⟩ := Pass.preemptRequest_spec hpreempt
  have hsame : s.SameRequests (({ s with
      kvCacheManager := kv, encoderCacheManager := encoder }.modify ref preempted).prependWaiting
      ref) ref :=
    .of_update ref (r := preempted (s.objs ref)) rfl rfl rfl rfl
  refine ⟨h.stop hsame ?_, rfl, ?_⟩
  · simp [prependWaiting, modify, preempted, RequestStatus.isWaiting, RequestStatus.isFinished]
  · rw [waitingRefs_prependWaiting]
    rfl

/-! ## A pass -/

namespace Pass

/-- The partition during a pass: the requests put aside are waiting. -/
def Partitioned (p : Pass D C) : Prop :=
  p.sched.Partition ↑p.sched.running (p.sched.waitingRefs + ↑p.stepSkippedWaiting)

variable {p p' : Pass D C} {env : ScheduleEnv} {rest : RequestQueue} {plan : Plan} {c : Computed}

theorem Partitioned.preempt {p₁ : Pass D C} {victim : Ref} (h : p.Partitioned)
    (hselect : p.selectVictim = .ok (victim, p₁)) (hpreempt : p₁.preempt victim = .ok p') :
    p'.Partitioned := by
  obtain ⟨_, running, hsched, hperm⟩ := selectVictim_sched hselect
  have hskipped := selectVictim_stepSkippedWaiting hselect
  obtain ⟨s, hs, rfl⟩ := preempt_spec hpreempt
  have hcons : (↑p.sched.running : Multiset Ref) = victim ::ₘ ↑running := by
    exact Multiset.coe_eq_coe.mpr hperm
  have hstart : p₁.sched.Partition (victim ::ₘ ↑running)
      (p.sched.waitingRefs + ↑p.stepSkippedWaiting) := by
    rw [← hcons]
    exact h.congr (.of_objs victim (by rw [hsched]) (by rw [hsched]) (by rw [hsched]))
      (by rw [hsched])
  obtain ⟨hpartition, hrunning, hwaiting⟩ := hstart.preemptRequest hs
  unfold Partitioned
  rw [hrunning, hwaiting, hskipped, hsched, Multiset.cons_add]
  exact hpartition

theorem Partitioned.congr (h : p.Partitioned) (hsame : p.sched.SameRequests p'.sched ref)
    (hstatus : (p'.sched.objs ref).status = (p.sched.objs ref).status)
    (hrunning : p'.sched.running = p.sched.running)
    (hwaiting : p'.sched.waitingRefs = p.sched.waitingRefs)
    (hskipped : p'.stepSkippedWaiting = p.stepSkippedWaiting) : p'.Partitioned := by
  unfold Partitioned
  rw [hrunning, hwaiting, hskipped]
  exact Partition.congr h hsame hstatus

theorem Partitioned.cachesOnly (h : p.Partitioned) (hsame : p.sched.CachesOnly p'.sched)
    (hskipped : p'.stepSkippedWaiting = p.stepSkippedWaiting) :
    p'.Partitioned := by
  refine h.congr (.of_objs 0 ?_ ?_ hsame.objs) ?_ ?_ ?_ hskipped
  · rw [hsame.eq]
  · rw [hsame.eq]
  · rw [hsame.eq]
  · rw [hsame.eq]
  · unfold waitingRefs
    rw [hsame.eq]

theorem Partitioned.scheduleRunning {blocks : KVCacheBlocks} (h : p.Partitioned)
    (hschedule : p.scheduleRunning ref plan blocks = .ok p') : p'.Partitioned := by
  rw [scheduleRunning_spec hschedule]
  refine h.congr (.of_update ref (r := { p.sched.objs ref with specTokenIds := [] }) ?_ ?_
    ?_ ?_) ?_ ?_ ?_ ?_
  all_goals try rfl
  simp [modify]

theorem Partitioned.promote
    {res : Bool × Scheduler D C} (h : p.Partitioned) (hmem : ref ∈ p.sched.queue q)
    (hpromote : tryPromote env p.sched ref = .ok res) : (p.withSched res.2).Partitioned := by
  rcases tryPromote_spec hpromote with rfl | ⟨_, s₁, f, status, hcaches, _, hf, hstatus, heq⟩
  · exact h
  · have hobjs := hcaches.objs
    have hwaits : ref ∈ p.sched.waitingRefs + ↑p.stepSkippedWaiting :=
      Multiset.mem_add.mpr (.inl (mem_waitingRefs hmem))
    have hid : ∀ r : Request D, (f r).requestId = r.requestId := by
      intro r
      rcases hf with rfl | rfl <;> rfl
    have hsame : p.sched.SameRequests res.2 ref := by
      rw [heq]
      refine .of_update ref (r := { f (p.sched.objs ref) with status := status }) ?_ ?_ ?_ (hid _)
      · rw [hcaches.eq]
        rfl
      · rw [hcaches.eq]
        rfl
      · simp only [modify]
        rw [hobjs]
    have hpartition := Partition.wait h hsame hwaits (by
      rw [heq]
      rcases hstatus with rfl | rfl
      · simp [modify, RequestStatus.isWaiting, RequestStatus.isFinished]
      · simp [modify, RequestStatus.isWaiting, RequestStatus.isFinished])
    have hrunning : res.2.running = p.sched.running := by
      rw [heq, hcaches.eq]
      rfl
    have hqueues : res.2.waitingRefs = p.sched.waitingRefs := by
      rw [heq, hcaches.eq]
      rfl
    unfold Partitioned
    simp only [withSched]
    rw [hrunning, hqueues]
    exact hpartition

theorem Partitioned.findComputed {c : Option Computed}
    (h : p.Partitioned) (hfind : p.findComputed ref = .ok (c, p')) : p'.Partitioned := by
  obtain ⟨s₁, n, hcaches, heq⟩ := findComputed_spec hfind
  have hobjs := hcaches.objs
  rw [heq]
  refine h.congr (.of_update ref
    (r := { p.sched.objs ref with numExternalComputedTokens := n }) ?_ ?_ ?_ rfl) ?_ ?_ ?_ rfl
  · rw [hcaches.eq]
    rfl
  · rw [hcaches.eq]
    rfl
  · simp only [modify]
    rw [hobjs]
  · simp only [modify, update_self]
    rw [hobjs]
  · rw [hcaches.eq]
    rfl
  · unfold waitingRefs
    rw [hcaches.eq]
    rfl

theorem Partitioned.skipWaiting (h : p.Partitioned)
    (hskip : p.skipWaiting q = .ok p') : p'.Partitioned := by
  obtain ⟨ref, rest, hpop, rfl⟩ := skipWaiting_spec hskip
  have hqueues := waitingRefs_setQueue hpop
  have hskipped := RequestQueue.prependRequest_perm p.sched.config.policy p.sched.lt
    p.stepSkippedWaiting ref
  have hwaiting : (p.sched.setQueue q rest).waitingRefs +
      ↑(RequestQueue.prependRequest p.sched.config.policy p.sched.lt p.stepSkippedWaiting ref) =
      p.sched.waitingRefs + (↑p.stepSkippedWaiting : Multiset Ref) := by
    rw [Multiset.coe_eq_coe.mpr hskipped, ← Multiset.cons_coe, Multiset.add_cons, hqueues,
      Multiset.cons_add]
  unfold Partitioned
  rw [hwaiting]
  cases q with
  | waiting => exact Partition.congr h (.of_objs ref rfl rfl rfl) rfl
  | skippedWaiting => exact Partition.congr h (.of_objs ref rfl rfl rfl) rfl

theorem Partitioned.pop (h : p.Partitioned) (hpop : p.Pops q ref rest) :
    (p.sched.setQueue q rest).Partition ↑p.sched.running
      (ref ::ₘ ((p.sched.setQueue q rest).waitingRefs + ↑p.stepSkippedWaiting)) := by
  rw [← Multiset.cons_add, ← waitingRefs_setQueue hpop]
  cases q with
  | waiting => exact Partition.congr h (.of_objs ref rfl rfl rfl) rfl
  | skippedWaiting => exact Partition.congr h (.of_objs ref rfl rfl rfl) rfl

theorem Partitioned.admitLoading (h : p.Partitioned) (hpop : p.Pops q ref rest) :
    ((p.withSched (p.sched.setQueue q rest)).admitLoading ref c).Partitioned := by
  have hpopped := h.pop hpop
  have hskipped := RequestQueue.prependRequest_perm (p.sched.setQueue q rest).config.policy
    (p.sched.setQueue q rest).lt p.stepSkippedWaiting ref
  have hwait := @Partition.wait D _ C _
    ((p.withSched (p.sched.setQueue q rest)).admitLoading ref c).sched _ _ _ hpopped
    (.of_update ref (r := { (p.sched.setQueue q rest).objs ref with
      status := .waitingForRemoteKvs, numComputedTokens := c.numComputedTokens }) rfl rfl rfl rfl)
    (Multiset.mem_cons_self ref _) (by simp [Pass.admitLoading, modify, RequestStatus.isWaiting,
      RequestStatus.isFinished])
  unfold Partitioned
  have hwaiting : ((p.withSched (p.sched.setQueue q rest)).admitLoading ref c).sched.waitingRefs +
      ↑((p.withSched (p.sched.setQueue q rest)).admitLoading ref c).stepSkippedWaiting =
      ref ::ₘ ((p.sched.setQueue q rest).waitingRefs + (↑p.stepSkippedWaiting : Multiset Ref)) := by
    rw [← Multiset.add_cons, Multiset.cons_coe]
    exact congrArg₂ (· + ·) rfl (Multiset.coe_eq_coe.mpr hskipped)
  rw [hwaiting]
  cases q with
  | waiting => exact hwait
  | skippedWaiting => exact hwait

theorem Partitioned.admitRunning (h : p.Partitioned) (hpop : p.Pops q ref rest)
    (hstarted : (p.withSched (p.sched.setQueue q rest)).admitRunning ref c plan = .ok p') :
    p'.Partitioned := by
  have hpopped := h.pop hpop
  obtain ⟨_, heq⟩ := admitRunning_spec hstarted
  have hrunning : (↑(p.sched.running ++ [ref]) : Multiset Ref) = ref ::ₘ ↑p.sched.running := by
    exact Multiset.coe_eq_coe.mpr List.perm_append_comm
  have hsame : (p.sched.setQueue q rest).SameRequests p'.sched ref := by
    rw [heq]
    exact .of_update _
      (r := admitted c.numComputedTokens ((p.sched.setQueue q rest).objs ref)) rfl rfl
      rfl rfl
  have hstart := hpopped.start hsame (by
    rw [heq]
    simp [withSched, modify, admitted])
  unfold Partitioned
  have hp'running : (↑p'.sched.running : Multiset Ref) = ref ::ₘ ↑p.sched.running := by
    rw [← hrunning, heq]
    cases q <;> rfl
  have hp'waiting : p'.sched.waitingRefs + ↑p'.stepSkippedWaiting =
      (p.sched.setQueue q rest).waitingRefs + (↑p.stepSkippedWaiting : Multiset Ref) := by
    rw [heq]
    rfl
  rw [hp'running, hp'waiting]
  exact hstart

theorem Partitioned.requeueSkipped (h : p.Partitioned) : p.requeueSkipped.Partitioned := by
  have hperm := RequestQueue.prependRequests_perm p.sched.config.policy p.sched.lt
    p.sched.skippedWaiting p.stepSkippedWaiting
  have hwaiting : p.requeueSkipped.sched.waitingRefs + ↑p.requeueSkipped.stepSkippedWaiting =
      p.sched.waitingRefs + (↑p.stepSkippedWaiting : Multiset Ref) := by
    simp only [Pass.requeueSkipped, waitingRefs, Multiset.coe_nil, add_zero]
    rw [Multiset.coe_eq_coe.mpr hperm, ← Multiset.coe_add, add_assoc,
      add_comm (↑p.stepSkippedWaiting : Multiset Ref)]
  unfold Partitioned
  rw [hwaiting]
  exact Partition.congr h (.of_objs 0 rfl rfl rfl) rfl

theorem Partitioned.step (h : p.Partitioned) (hstep : PassStep env p p') : p'.Partitioned := by
  cases hstep with
  | skipRunning => exact h
  | encoders hscan =>
    have hsame := tryScheduleEncoderInputs_same hscan
    refine h.cachesOnly ⟨?_⟩ ?_
    · rw [hsame.eq]
    · rw [hsame.eq]
  | allocationFailed _ halloc =>
    have hsame := allocateRunning_same halloc
    refine h.cachesOnly ⟨?_⟩ ?_
    · rw [hsame]
      rfl
    · rw [hsame]
      rfl
  | preempt _ hselect hpreempt => exact h.preempt hselect hpreempt
  | scheduleRunning _ halloc hschedule =>
    have hsame := allocateRunning_same halloc
    refine Partitioned.scheduleRunning (h.cachesOnly ⟨?_⟩ ?_) hschedule
    · rw [hsame]
      rfl
    · rw [hsame]
      rfl
  | recordLoras hloras =>
    rw [recordLoras_spec hloras]
    exact h
  | promote hmem hpromote => exact h.promote hmem hpromote
  | skipWaiting hskip => exact h.skipWaiting hskip
  | findComputed _ hfind => exact h.findComputed hfind
  | admissionFailed _ _ halloc =>
    obtain ⟨hsame, heq⟩ := allocateWaiting_spec halloc
    exact h.cachesOnly hsame (by rw [heq]; rfl)
  | admitLoading _ _ halloc hupdate hpop =>
    obtain ⟨hsame, heq⟩ := reserve_spec halloc hupdate
    exact (h.cachesOnly hsame (by rw [heq]; rfl)).admitLoading hpop
  | admitRunning _ _ halloc hupdate hpop hstarted =>
    obtain ⟨hsame, heq⟩ := reserve_spec halloc hupdate
    exact (h.cachesOnly hsame (by rw [heq]; rfl)).admitRunning hpop hstarted
  | requeueSkipped => exact h.requeueSkipped

theorem Partitioned.loops
    (h : s.Partitioned) (hloops : Pass.loops env s = .ok p) : p.sched.Partitioned := by
  have hstart : (start s).Partitioned := by
    unfold Partitioned
    simp only [start, Multiset.coe_nil, add_zero]
    exact Partition.congr h (.of_objs 0 rfl rfl rfl) rfl
  have hend := loops_invariant (P := Partitioned) (fun _ _ hp hstep => hp.step hstep) hstart hloops
  unfold Partitioned at hend
  rw [loops_stepSkippedWaiting hloops, Multiset.coe_nil, add_zero] at hend
  exact hend

end Pass

/-! ## After the loops -/

theorem Partitioned.quiet (h : s.Partitioned) (hquiet : s.Quiet s') : s'.Partitioned := by
  unfold Partitioned waitingRefs
  rw [hquiet.running, hquiet.waiting, hquiet.skippedWaiting]
  exact Partition.congr h
    ⟨hquiet.requests, hquiet.numObjs, hquiet.requestId, fun x _ => hquiet.status x⟩
    (hquiet.status 0)

theorem Partitioned.schedule {env : ScheduleEnv} (h : s.Partitioned)
    (hschedule : s.schedule env = .ok (output, s')) : s'.Partitioned := by
  simp only [Scheduler.schedule, bind_ok] at hschedule
  obtain ⟨p, hloops, hfinish⟩ := hschedule
  exact (Pass.Partitioned.loops h hloops).quiet (finishPass_quiet hfinish)

end Scheduler

end VllmCore
