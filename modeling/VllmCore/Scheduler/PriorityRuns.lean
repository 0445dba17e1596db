import VllmCore.Scheduler.PriorityOrder
import VllmCore.Scheduler.QueueRuns
import Mathlib.Data.List.Induction
/-!
# The order of the priority queues over whole runs

The next input of a session replaces its arrival time, and the session may be in a heap
then.  Nothing moves it there, so that the heap stays in order only if the new arrival
time fits between its neighbours.  No other call changes a key.
-/

namespace VllmCore

open List Support Dict

variable {D : Type}
variable {hasher : Option (Request D → List D)}

theorem Request.updateAsSession_key {session session' : Request D} {update : StreamingUpdate}
    (h : session.updateAsSession hasher update = .ok session') :
    session'.key = { session with arrivalTime := update.arrivalTime }.key := by
  unfold Request.updateAsSession at h
  split at h
  · cases h
  · rw [pure_ok] at h
    subst h
    cases hasher <;> rfl

namespace Scheduler

variable [DecidableEq D] {C : KVConnector D}

/-- A queue is in order around a request when the request gets another arrival time. -/
def StaysInPlace (s : Scheduler D C) (q : RequestQueue) (ref : Ref) (arrivalTime : Nat) : Prop :=
  ∀ j, 0 < j → q[j]? = some ref ∨ q[(j - 1) / 2]? = some ref →
    Heap.LeAt (s.modify ref fun r => { r with arrivalTime := arrivalTime }).lt q ((j - 1) / 2) j

/-- The session of a live request keeps its place, if it goes on with its next input. -/
def UpdatePass.SessionInPlace (st : UpdatePass D C) (ref : Ref) : Prop :=
  ∀ update updates, (st.sched.objs ref).resumable = true →
    (st.sched.objs ref).streamingQueue = some (some update :: updates) →
    st.sched.StaysInPlace st.sched.skippedWaiting ref update.arrivalTime ∧
      ((st.sched.objs ref).status = .running →
        st.sched.StaysInPlace st.sched.waiting ref update.arrivalTime)

/-- Every session that stops and goes on with its next input keeps its place in the heaps.
A request that was preempted may also be in `waiting`, but this queue is rebuilt then. -/
def SessionsInPlace (s : Scheduler D C) (output : SchedulerOutput C.Metadata)
    (out : ModelRunnerOutput C.WorkerMeta) : Prop :=
  ∀ failed s₁, s.failedLoads output out = .ok (failed, s₁) →
    ∀ done e rest, output.numScheduledTokens.entries = done ++ e :: rest → e.1 ∉ failed →
    ∀ st, done.foldlM (updateRequest output out failed) { sched := s₁ } = .ok st →
    ∀ ref reqIndex generated pooler, st.sched.requests.get? e.1 = some ref →
      (st.sched.objs ref).isFinished = false → out.reqIdToIndex.get? e.1 = some reqIndex →
      out.generatedTokenIds reqIndex = .ok generated →
      out.poolerOutputOf reqIndex = .ok pooler →
      stops st.sched.config (afterRejection ((output.scheduledSpecDecodeTokens.get? e.1).getD [])
        generated (st.sched.objs ref)) generated pooler = true → st.SessionInPlace ref

variable {x ref : Ref} {q : RequestQueue} {kept specTokens : List Token} {stopped : Bool}
  {s s' : Scheduler D C} {rid : ReqId} {output : SchedulerOutput C.Metadata}
  {out : ModelRunnerOutput C.WorkerMeta}

theorem mem_removeAll {xs items : List Ref} (h : x ∈ removeAll xs items) : x ∈ xs := by
  unfold removeAll at h
  split at h
  · exact mem_of_mem_erase h
  · exact mem_of_mem_filter h

theorem RequestQueue.mem_removeRequests {policy : SchedulingPolicy} {lt : Ref → Ref → Bool}
    {requests : List Ref} (h : x ∈ RequestQueue.removeRequests policy lt q requests) : x ∈ q :=
  mem_of_mem_filter ((RequestQueue.removeRequests_perm _ _ _ _).mem_iff.mp h)

/-! ## Both heaps -/

/-- Both queues are heaps in order; `waiting` need not be when it is rebuilt later. -/
structure HeapsOrdered (s : Scheduler D C) (rebuild : Prop) : Prop where
  policy : s.config.policy = .priority
  allocated : ∀ x, s.Knows [] x → x < s.numObjs
  waiting : ¬rebuild → Heap.Ordered s.lt s.waiting
  skippedWaiting : Heap.Ordered s.lt s.skippedWaiting

namespace HeapsOrdered

variable {s s' : Scheduler D C} {rebuild rebuild' : Prop} {ref : Ref}

theorem keep (h : s.HeapsOrdered rebuild) (hkeys : KeepsKeys s [] s' [])
    (hwaiting : ¬rebuild' → Heap.Ordered s.lt s'.waiting)
    (hskipped : Heap.Ordered s.lt s'.skippedWaiting) : s'.HeapsOrdered rebuild' := by
  refine ⟨?_, ?_, ?_, ?_⟩
  · rw [hkeys.config]
    exact h.policy
  · intro x hx
    rw [hkeys.numObjs]
    exact h.allocated x (hkeys.knows x hx)
  · rw [hkeys.lt]
    exact hwaiting
  · rw [hkeys.lt]
    exact hskipped

theorem same (h : s.HeapsOrdered rebuild) (hkeys : KeepsKeys s [] s' [])
    (hwaiting : s'.waiting = s.waiting) (hskipped : s'.skippedWaiting = s.skippedWaiting) :
    s'.HeapsOrdered rebuild := by
  apply h.keep hkeys
  · rw [hwaiting]
    exact h.waiting
  · rw [hskipped]
    exact h.skippedWaiting

theorem mono (h : s.HeapsOrdered rebuild) (himp : ¬rebuild' → ¬rebuild) :
    s.HeapsOrdered rebuild' :=
  ⟨h.policy, h.allocated, fun hnot => h.waiting (himp hnot), h.skippedWaiting⟩

variable {session : Request D} {rid : ReqId}

theorem setSameKey (h : s.HeapsOrdered rebuild) (hkey : session.key = (s.objs ref).key) :
    (s.modify ref fun _ => session).HeapsOrdered rebuild := by
  refine h.same ⟨rfl, rfl, ?_, fun _ => id⟩ rfl rfl
  intro x
  rw [modify_objs]
  split
  next hx => rw [hkey, hx]
  · rfl

theorem requestsKept (h : s.HeapsOrdered rebuild) (hkept : s.RequestsKept s') :
    s'.HeapsOrdered rebuild := by
  apply h.same (.of_requestsKept hkept)
  · rw [hkept.eq]
  · rw [hkept.eq]

theorem cachesOnly (h : s.HeapsOrdered rebuild) (hcaches : s.CachesOnly s') :
    s'.HeapsOrdered rebuild := h.requestsKept hcaches.kept

theorem inOrder (h : s.HeapsOrdered False) : s.InOrder [] := by
  refine ⟨h.waiting not_false, h.skippedWaiting, ?_⟩
  intro j _ _ a b ha
  cases ha

theorem enqueue (h : s.HeapsOrdered rebuild) (hknown : s.Knows [] ref) :
    (s.enqueueWaitingRequest ref).HeapsOrdered rebuild := by
  have hmem : ∀ {q : RequestQueue} {x : Ref},
      x ∈ RequestQueue.addRequest s.config.policy s.lt q ref → x = ref ∨ x ∈ q := by
    intro q x hx
    exact mem_cons.mp ((RequestQueue.addRequest_perm _ _ _ _).mem_iff.mp hx)
  unfold enqueueWaitingRequest
  split
  · refine h.keep ⟨rfl, rfl, fun _ => rfl, ?_⟩ h.waiting ?_
    · rintro x (hx | hx | hx | hx)
      · exact .inl hx
      · exact .inr (.inl hx)
      · rcases hmem hx with rfl | hx
        · exact hknown
        · exact .inr (.inr (.inl hx))
      · exact .inr (.inr (.inr hx))
    · show Heap.Ordered s.lt (RequestQueue.addRequest s.config.policy s.lt s.skippedWaiting ref)
      rw [h.policy]
      exact RequestQueue.addRequest_ordered s.lt_comparison h.skippedWaiting ref
  · refine h.keep ⟨rfl, rfl, fun _ => rfl, ?_⟩ ?_ h.skippedWaiting
    · rintro x (hx | hx | hx)
      · exact .inl hx
      · rcases hmem hx with rfl | hx
        · exact hknown
        · exact .inr (.inl hx)
      · exact .inr (.inr hx)
    · intro hnot
      rw [h.policy]
      exact RequestQueue.addRequest_ordered s.lt_comparison (h.waiting hnot) ref

theorem ordered_modify (hord : Heap.Ordered s.lt q)
    (hkey : session.key = { s.objs ref with arrivalTime := session.arrivalTime }.key)
    (hplace : s.StaysInPlace q ref session.arrivalTime) :
    Heap.Ordered (s.modify ref fun _ => session).lt q := by
  have hlt : (s.modify ref fun _ => session).lt =
      (s.modify ref fun r => { r with arrivalTime := session.arrivalTime }).lt := by
    funext a b
    have hobjs : ∀ x, ((s.modify ref fun _ => session).objs x).key =
        ((s.modify ref fun r => { r with arrivalTime := session.arrivalTime }).objs x).key := by
      intro x
      rw [modify_objs, modify_objs]
      split
      · exact hkey
      · rfl
    exact Request.lt_congr (hobjs a) (hobjs b)
  apply hord.of_item (x := ref)
  · intro a b ha hb
    show ((s.modify ref fun _ => session).objs a).lt ((s.modify ref fun _ => session).objs b) =
      (s.objs a).lt (s.objs b)
    rw [modify_objs, modify_objs, if_neg ha, if_neg hb]
  · rw [hlt]
    exact hplace

theorem setArrivalTime (h : s.HeapsOrdered rebuild)
    (hkey : session.key = { s.objs ref with arrivalTime := session.arrivalTime }.key)
    (hwaiting : ¬rebuild' → ¬rebuild ∧ s.StaysInPlace s.waiting ref session.arrivalTime)
    (hskipped : s.StaysInPlace s.skippedWaiting ref session.arrivalTime) :
    (s.modify ref fun _ => session).HeapsOrdered rebuild' := by
  refine ⟨h.policy, h.allocated, ?_, ordered_modify h.skippedWaiting hkey hskipped⟩
  intro hnot
  obtain ⟨hbuilt, hplace⟩ := hwaiting hnot
  exact ordered_modify (h.waiting hbuilt) hkey hplace

theorem preemptRequest {running : List Ref} (h : s.HeapsOrdered False) (href : ref ∈ s.running)
    (hsub : ∀ x ∈ running, x ∈ s.running)
    (hpreempt : Scheduler.preemptRequest { s with running := running } ref = .ok s') :
    s'.HeapsOrdered False := by
  have hinOrder := h.inOrder.preemptRequest h.policy hpreempt
  obtain ⟨_, kv, encoder, _, _, rfl⟩ := Pass.preemptRequest_spec hpreempt
  refine ⟨h.policy, ?_, fun _ => hinOrder.waiting, hinOrder.skippedWaiting⟩
  intro x hx
  apply h.allocated
  rcases hx with hx | hx | hx
  · exact .inl (hsub x hx)
  · rcases mem_cons.mp ((RequestQueue.prependRequest_perm _ _ _ _).mem_iff.mp hx) with
      rfl | hx
    · exact .inl href
    · exact .inr (.inl hx)
  · exact .inr (.inr hx)

/-! ## Aborts, new requests and resets -/

theorem eraseRequest {kv : KVCacheManager D} (h : s.HeapsOrdered rebuild) :
    HeapsOrdered { s with kvCacheManager := kv, requests := s.requests.erase rid } rebuild := by
  refine h.same ⟨rfl, rfl, fun _ => rfl, ?_⟩ rfl rfl
  rintro x (hx | hx | hx | hx | ⟨rid', hx⟩)
  · exact .inl hx
  · exact .inr (.inl hx)
  · exact .inr (.inr (.inl hx))
  · exact .inr (.inr (.inr (.inl hx)))
  · refine .inr (.inr (.inr (.inr ⟨rid', ?_⟩)))
    rw [get?_erase] at hx
    split at hx
    · cases hx
    · exact hx

theorem freeRequest {delay : Bool} (h : s.HeapsOrdered rebuild)
    (hfree : s.freeRequest ref delay = .ok s') : s'.HeapsOrdered rebuild := by
  obtain ⟨_, s₁, hcaches, hcases⟩ := freeRequest_spec hfree
  have h₁ := h.cachesOnly hcaches
  rcases hcases with rfl | ⟨_, rfl⟩
  · exact h₁.same ⟨rfl, rfl, fun _ => rfl, fun _ => id⟩ rfl rfl
  · have herased : HeapsOrdered { s₁ with
        kvCacheManager := s₁.kvCacheManager
        requests := s₁.requests.erase (s.objs ref).requestId } rebuild := h₁.eraseRequest
    have hrequests : s₁.requests = s.requests := by rw [hcaches.eq]
    rw [hrequests] at herased
    exact herased.same ⟨rfl, rfl, fun _ => rfl, fun _ => id⟩ rfl rfl

variable {status : RequestStatus} {st st' : SchedulerOutput C.Metadata × Scheduler D C}

theorem finishOne (h : s.HeapsOrdered rebuild)
    (hfinish : Scheduler.finishOne status s ref = .ok s') : s'.HeapsOrdered rebuild := by
  refine HeapsOrdered.freeRequest ?_ hfinish
  have hmodify : ∀ s₁ : Scheduler D C, s₁.HeapsOrdered rebuild →
      (s₁.modify ref fun r => { r with status := status }).HeapsOrdered rebuild :=
    fun s₁ h₁ => h₁.same (.modify s₁ [] ref fun _ => rfl) rfl rfl
  apply hmodify
  split
  · exact h.same ⟨rfl, rfl, fun _ => rfl, fun _ => id⟩ rfl rfl
  · exact h

theorem finishRequests {requestIds : Option (List ReqId)}
    (h : s.HeapsOrdered False) (hfinish : s.finishRequests requestIds status = .ok s') :
    s'.HeapsOrdered False := by
  simp only [Scheduler.finishRequests, bind_ok, pyAssert_ok] at hfinish
  obtain ⟨_, _, hloop⟩ := hfinish
  refine foldlM_inv (P := fun s' => s'.HeapsOrdered False) ?_ ?_ hloop
  · intro s₁ ref s₂ _ h₁ hstep
    exact h₁.finishOne hstep
  · refine h.keep ⟨rfl, rfl, fun _ => rfl, ?_⟩ ?_ ?_
    · rintro x (hx | hx | hx | hx)
      · exact .inl (mem_removeAll hx)
      · refine .inr (.inl ?_)
        split at hx
        · exact hx
        · exact RequestQueue.mem_removeRequests hx
      · refine .inr (.inr (.inl ?_))
        dsimp only at hx
        split at hx
        · exact hx
        · exact RequestQueue.mem_removeRequests hx
      · exact .inr (.inr (.inr hx))
    · intro _
      dsimp only
      split
      · exact h.waiting not_false
      · rw [h.policy]
        exact RequestQueue.removeRequests_ordered s.lt_comparison _ _
    · dsimp only
      split
      · exact h.skippedWaiting
      · rw [h.policy]
        exact RequestQueue.removeRequests_ordered s.lt_comparison _ _

theorem allocObject (h : s.HeapsOrdered rebuild) (r : Request D) :
    (s.allocObject r).2.HeapsOrdered rebuild := by
  have hold : ∀ x, s.Knows [] x → (s.allocObject r).2.objs x = s.objs x := by
    intro x hx
    exact Function.update_of_ne (Nat.ne_of_lt (h.allocated x hx)) _ _
  have hlt : ∀ a b, s.Knows [] a → s.Knows [] b → (s.allocObject r).2.lt a b = s.lt a b := by
    intro a b ha hb
    show ((s.allocObject r).2.objs a).lt ((s.allocObject r).2.objs b) = (s.objs a).lt (s.objs b)
    rw [hold a ha, hold b hb]
  refine ⟨h.policy, ?_, ?_, ?_⟩
  · intro x hx
    exact Nat.lt_succ_of_lt (h.allocated x hx)
  · intro hnot
    apply (h.waiting hnot).congr
    intro a ha b hb
    exact hlt a b (.inr (.inl ha)) (.inr (.inl hb))
  · apply h.skippedWaiting.congr
    intro a ha b hb
    exact hlt a b (.inr (.inr (.inl ha))) (.inr (.inr (.inl hb)))

theorem register (h : s.HeapsOrdered False) (r : Request D) :
    HeapsOrdered { (s.allocObject r).2.enqueueWaitingRequest s.numObjs with
      requests := ((s.allocObject r).2.enqueueWaitingRequest s.numObjs).requests.set rid
        s.numObjs } False := by
  have hset : HeapsOrdered { (s.allocObject r).2 with
      requests := s.requests.set rid s.numObjs } False := by
    have halloc := h.allocObject r
    refine ⟨halloc.policy, ?_, halloc.waiting, halloc.skippedWaiting⟩
    rintro x (hx | hx | hx | hx | ⟨rid', hx⟩)
    · exact halloc.allocated x (.inl hx)
    · exact halloc.allocated x (.inr (.inl hx))
    · exact halloc.allocated x (.inr (.inr (.inl hx)))
    · cases hx
    · simp only [get?_set] at hx
      split at hx
      · cases hx
        exact Nat.lt_succ_self s.numObjs
      · exact halloc.allocated x (.inr (.inr (.inr (.inr ⟨rid', hx⟩))))
  have hknown : Knows { (s.allocObject r).2 with requests := s.requests.set rid s.numObjs } []
      s.numObjs := by
    refine .inr (.inr (.inr (.inr ⟨rid, ?_⟩)))
    rw [get?_set, if_pos rfl]
  have hqueued := hset.enqueue hknown
  unfold enqueueWaitingRequest at hqueued ⊢
  split at hqueued
  next hblocked =>
    rw [if_pos hblocked]
    exact hqueued
  next hblocked =>
    rw [if_neg hblocked]
    exact hqueued

theorem addRequest {r : Request D} (h : s.HeapsOrdered False)
    (hplace : ∀ ref, s.requests.get? r.requestId = some ref →
      (s.objs ref).status = .waitingForStreamingReq → r.resumable = true →
      ∀ q, s.StaysInPlace (s.queue q) ref r.arrivalTime)
    (hadd : s.addRequest r = .ok s') : s'.HeapsOrdered False := by
  unfold Scheduler.addRequest at hadd
  split at hadd
  next existing hexisting =>
    dsimp only at hadd
    split at hadd
    · split at hadd
      · cases hadd
      · rw [pure_ok] at hadd
        subst hadd
        exact h.same (.modify s [] existing fun _ => rfl) rfl rfl
    next hstatus =>
      rw [not_not] at hstatus
      unfold Request.toStreamingUpdate at hadd
      split at hadd
      next update hupdate =>
        split at hupdate
        next hresumable =>
          cases hupdate
          simp only [updateRequestAsSession, bind_ok, pure_ok] at hadd
          obtain ⟨session, hsession, rfl⟩ := hadd
          have hkey := Request.updateAsSession_key hsession
          have htime : session.arrivalTime = r.arrivalTime := congrArg (·.2.1) hkey
          rw [← htime] at hkey
          have hplace' := hplace existing hexisting hstatus hresumable
          rw [← htime] at hplace'
          rw [if_pos hstatus]
          have hsession : (s.modify existing fun _ => session).HeapsOrdered False :=
            h.setArrivalTime hkey (fun _ => ⟨not_false, hplace' .waiting⟩)
              (hplace' .skippedWaiting)
          exact hsession.same ⟨rfl, rfl, fun _ => rfl, fun _ => id⟩ rfl rfl
        · cases hupdate
      · exact h.finishRequests hadd
  · rw [pure_ok] at hadd
    subst hadd
    exact h.register _

theorem quiet (h : s.HeapsOrdered rebuild) (hquiet : s.Quiet s') : s'.HeapsOrdered rebuild :=
  h.same (.of_quiet hquiet) hquiet.waiting hquiet.skippedWaiting

/-! ## A pass -/

theorem queuesInOrder (h : s.HeapsOrdered False) : (Pass.start s).QueuesInOrder s :=
  ⟨⟨rfl, rfl, fun _ => rfl, fun _ => id⟩, h.inOrder.congr rfl rfl rfl⟩

theorem schedule {env : ScheduleEnv}
    (h : s.HeapsOrdered False) (hschedule : s.schedule env = .ok (output, s')) :
    s'.HeapsOrdered False := by
  simp only [Scheduler.schedule, bind_ok] at hschedule
  obtain ⟨p, hloops, hfinish⟩ := hschedule
  have hp : p.QueuesInOrder s :=
    Pass.loops_invariant (fun _ _ hp hstep => hp.step h.policy hstep) h.queuesInOrder hloops
  have hheld := Pass.loops_stepSkippedWaiting hloops
  have hkeys := hp.keeps
  rw [hheld] at hkeys
  have hpass : p.sched.HeapsOrdered False := by
    apply h.keep hkeys
    · rw [← hkeys.lt]
      exact fun _ => hp.inOrder.waiting
    · rw [← hkeys.lt]
      exact hp.inOrder.skippedWaiting
  exact hpass.quiet (finishPass_quiet hfinish)

/-! ## Processing an output -/

theorem freeBlocks (h : s.HeapsOrdered rebuild) (hfree : s.freeBlocks ref = .ok s') :
    s'.HeapsOrdered rebuild := by
  obtain ⟨_, kv, _, rfl⟩ := freeBlocks_spec hfree
  exact h.eraseRequest

theorem preserved : Preserved fun s : Scheduler D C => s.HeapsOrdered False where
  quiet := HeapsOrdered.quiet
  preempt h hlast hpreempt := h.preemptRequest (mem_of_getLast? hlast)
    (fun x hx => (dropLast_sublist _).subset hx) hpreempt
  free h _ hfree := h.freeBlocks hfree
  finish := HeapsOrdered.finishRequests

end HeapsOrdered

variable {config : SchedulerConfig D} {generated : List Token} {pooler : Option (List Int)}
  {r r' : Request D} {st : UpdatePass D C}

theorem Generated.key
    (h : Generated config r generated pooler kept stopped r') : r'.key = r.key := by
  cases h with
  | sync _ _ happend =>
    rw [(appendUntilStop_spec happend).1]
    rfl
  | discarded => rfl
  | async _ _ _ happend _ =>
    rw [(appendUntilStop_spec happend).1]
    rfl
  | pooled => rfl
  | nothing => rfl

theorem afterRejection_key (specTokens generated : List Token) (r : Request D) :
    (afterRejection specTokens generated r).key = r.key := by
  unfold afterRejection
  split <;> rfl

/-- `waiting` is rebuilt at the end when a preempted request stopped. -/
def UpdatePass.Rebuilds (st : UpdatePass D C) : Prop := st.stoppedPreemptedReqs ≠ []

theorem UpdatePass.rebuilds_noteStopped {status : RequestStatus}
    (h : ¬(st.noteStopped ref status).Rebuilds) : ¬st.Rebuilds ∧ status = .running := by
  unfold UpdatePass.Rebuilds UpdatePass.noteStopped at h
  dsimp only at h
  by_cases hstatus : status = .running
  · rw [if_pos hstatus] at h
    exact ⟨h, hstatus⟩
  · rw [if_neg hstatus] at h
    exact absurd (ne_nil_of_mem mem_insert_self) h

theorem Stopped.continued_key {r₀ : Request D} {update : StreamingUpdate}
    {rest : List (Option StreamingUpdate)} (hkey : r.key = r₀.key)
    (hsession : Request.updateAsSession config.blockHasher { r with streamingQueue := some rest }
      update = .ok r') :
    r'.arrivalTime = update.arrivalTime ∧
      r'.key = { r₀ with arrivalTime := update.arrivalTime }.key := by
  have hupdated := Request.updateAsSession_key hsession
  refine ⟨congrArg (·.2.1) hupdated, hupdated.trans ?_⟩
  have hpriority : r.priority = r₀.priority := congrArg (·.1) hkey
  have hid : r.requestId = r₀.requestId := congrArg (·.2.2) hkey
  unfold Request.key
  dsimp only
  rw [hpriority, hid]

theorem StaysInPlace.congr {arrivalTime : Nat}
    (h : s.StaysInPlace q ref arrivalTime) (hobjs : s'.objs = s.objs) :
    s'.StaysInPlace q ref arrivalTime := by
  unfold StaysInPlace Scheduler.lt modify at h ⊢
  rw [hobjs]
  exact h

theorem Generated.session
    (h : Generated config (afterRejection specTokens generated r) generated pooler kept stopped
      r') : r'.resumable = r.resumable ∧ r'.streamingQueue = r.streamingQueue := by
  obtain ⟨_, hresumable, hqueue, _⟩ := h.frame
  have hafter : (afterRejection specTokens generated r).resumable = r.resumable ∧
      (afterRejection specTokens generated r).streamingQueue = r.streamingQueue := by
    unfold afterRejection
    split <;> exact ⟨rfl, rfl⟩
  exact ⟨hresumable.trans hafter.1, hqueue.trans hafter.2⟩

theorem knows_of_get (h : s.requests.get? rid = some ref) : s.Knows [] ref :=
  .inr (.inr (.inr (.inr ⟨rid, h⟩)))

theorem LiveUpdate.heapsOrdered {st' : UpdatePass D C} (h : st.sched.HeapsOrdered st.Rebuilds)
    (href : st.sched.requests.get? rid = some ref)
    (hplace : stops st.sched.config (afterRejection specTokens generated (st.sched.objs ref))
      generated pooler = true → st.SessionInPlace ref)
    (hupdate : LiveUpdate st ref specTokens generated pooler st') :
    st'.sched.HeapsOrdered st'.Rebuilds := by
  cases hupdate with
  | @goesOn s r _ _ hcaches hcalls hgenerated =>
    have hs : s.HeapsOrdered st.Rebuilds := h.requestsKept hcaches
    exact hs.setSameKey (hgenerated.key.trans (afterRejection_key _ _ _))
  | @finished s s' r r' _ _ hcaches hcalls hgenerated hstopped hfree =>
    have hs : s.HeapsOrdered (st.noteStopped ref (s.objs ref).status).Rebuilds :=
      (h.requestsKept hcaches).mono fun hnot => (UpdatePass.rebuilds_noteStopped hnot).1
    have hkey : r'.key = (s.objs ref).key := by
      cases hstopped with
      | finished => exact hgenerated.key.trans (afterRejection_key _ _ _)
    exact (hs.setSameKey hkey).freeRequest hfree
  | @queued s r r' _ n _ hcaches hcalls hgenerated hstopped =>
    have hs := h.requestsKept hcaches
    have hkey := hgenerated.key.trans (afterRejection_key _ _ _)
    have hobjs := hcaches.objs
    have hknown : s.Knows [] ref := by
      have hget : s.requests.get? rid = some ref := by
        rw [hcaches.eq]
        exact href
      exact knows_of_get hget
    suffices hmodified : HeapsOrdered (s.modify ref fun _ => r')
        (st.noteStopped ref (s.objs ref).status).Rebuilds by
      have hcount : HeapsOrdered ({ s with numWaitingForStreamingInput := n }.modify ref
          fun _ => r') (st.noteStopped ref (s.objs ref).status).Rebuilds :=
        hmodified.same ⟨rfl, rfl, fun _ => rfl, fun _ => id⟩ rfl rfl
      exact hcount.enqueue hknown
    cases hstopped with
    | waits =>
      have hs' : s.HeapsOrdered (st.noteStopped ref (s.objs ref).status).Rebuilds :=
        hs.mono fun hnot => (UpdatePass.rebuilds_noteStopped hnot).1
      exact hs'.setSameKey hkey
    | @continued update rest _ hresumable hqueue hsession =>
      obtain ⟨htime, hkey'⟩ := Stopped.continued_key hkey hsession
      have hstops := hgenerated.stops
      have hconfig : s.config = st.sched.config := by rw [hcaches.eq]
      obtain ⟨hresumable', hqueue'⟩ := hgenerated.session
      rw [hobjs] at hstops hresumable' hqueue'
      rw [hconfig] at hstops
      obtain ⟨hskipped, hwaiting⟩ := hplace hstops update rest (hresumable' ▸ hresumable)
        (hqueue' ▸ hqueue)
      rw [← htime] at hskipped hwaiting hkey'
      have hsameSkipped : s.skippedWaiting = st.sched.skippedWaiting := by rw [hcaches.eq]
      have hsameWaiting : s.waiting = st.sched.waiting := by rw [hcaches.eq]
      apply hs.setArrivalTime hkey'
      · intro hnot
        obtain ⟨hbuilt, hrunning⟩ := UpdatePass.rebuilds_noteStopped hnot
        rw [hobjs] at hrunning
        rw [hsameWaiting]
        exact ⟨hbuilt, (hwaiting hrunning).congr hobjs⟩
      · rw [hsameSkipped]
        exact hskipped.congr hobjs

theorem HeapsOrdered.updateLoop {failed : List ReqId} (h : s.HeapsOrdered False)
    (hplace : ∀ done e rest,
      output.numScheduledTokens.entries = done ++ e :: rest → e.1 ∉ failed →
      ∀ st, done.foldlM (updateRequest output out failed) { sched := s } = .ok st →
      ∀ ref reqIndex generated pooler, st.sched.requests.get? e.1 = some ref →
        (st.sched.objs ref).isFinished = false → out.reqIdToIndex.get? e.1 = some reqIndex →
        out.generatedTokenIds reqIndex = .ok generated →
        out.poolerOutputOf reqIndex = .ok pooler →
        stops st.sched.config (afterRejection
          ((output.scheduledSpecDecodeTokens.get? e.1).getD []) generated (st.sched.objs ref))
          generated pooler = true → st.SessionInPlace ref)
    (hloop : output.numScheduledTokens.entries.foldlM (updateRequest output out failed)
      { sched := s } = .ok st) : st.sched.HeapsOrdered st.Rebuilds := by
  -- The induction is on the entries that were processed.
  have hprefix : ∀ done rest, output.numScheduledTokens.entries = done ++ rest → ∀ st,
      done.foldlM (updateRequest output out failed) { sched := s } = .ok st →
      st.sched.HeapsOrdered st.Rebuilds := by
    intro done
    induction done using List.reverseRecOn with
    | nil =>
      intro rest _ st hrun
      simp only [foldlM_nil, pure_ok] at hrun
      subst hrun
      exact h.mono fun _ => not_false
    | append_singleton done e ih =>
      intro rest hentries st hrun
      rw [foldlM_append, bind_ok] at hrun
      obtain ⟨st₁, hrun₁, hrun⟩ := hrun
      simp only [foldlM_cons, foldlM_nil, bind_pure] at hrun
      have hentries' : output.numScheduledTokens.entries = done ++ e :: rest := by
        rw [hentries, append_assoc]
        rfl
      have h₁ := ih (e :: rest) hentries' st₁ hrun₁
      rcases updateRequest_spec hrun with ⟨rfl, _⟩ | ⟨hfailed, ref, reqIndex, generated, pooler,
        href, hfinished, hindex, hgenerated, hpooler, hlive⟩
      · exact h₁
      · exact hlive.heapsOrdered h₁ href (hplace done e rest hentries' hfailed st₁ hrun₁ ref
          reqIndex generated pooler href hfinished hindex hgenerated hpooler)
  exact hprefix _ [] (append_nil _).symm st hloop

theorem HeapsOrdered.removeStopped (h : st.sched.HeapsOrdered st.Rebuilds) :
    (Scheduler.removeStopped st).HeapsOrdered False := by
  refine h.keep ⟨rfl, rfl, fun _ => rfl, ?_⟩ ?_ h.skippedWaiting
  · rintro x (hx | hx | hx)
    · refine .inl ?_
      simp only [Scheduler.removeStopped] at hx
      split at hx
      · exact hx
      · exact mem_removeAll hx
    · refine .inr (.inl ?_)
      simp only [Scheduler.removeStopped] at hx
      split at hx
      · exact hx
      · exact RequestQueue.mem_removeRequests hx
    · exact .inr (.inr hx)
  · intro _
    simp only [Scheduler.removeStopped]
    split
    next hempty => exact h.waiting (not_not.mpr (isEmpty_iff.mp hempty))
    · rw [h.policy]
      exact RequestQueue.removeRequests_ordered st.sched.lt_comparison _ _

end Scheduler

/-! ## Runs -/

theorem Request.create_key {args : Request.Args}
    {r : Request D} (h : Request.create hasher args = .ok r) :
    r.requestId = args.requestId ∧ r.arrivalTime = args.arrivalTime ∧
      r.resumable = args.resumable := by
  simp only [Request.create, bind_ok, pure_ok] at h
  obtain ⟨_, _, _, _, rfl⟩ := h
  cases hasher <;> exact ⟨rfl, rfl, rfl⟩

namespace EngineCore

variable [DecidableEq D] {C : KVConnector D}

/-- What a queue pops is minimal in it by the current keys. -/
def PopsMinimal (s : Scheduler D C) : Prop :=
  ∀ q ref rest, RequestQueue.popRequest s.config.policy s.lt (s.queue q) = .ok (ref, rest) →
    ∀ x ∈ s.queue q, (s.objs x).lt (s.objs ref) = false

/-- A session in a heap that gets its next input keeps its place there with the new arrival
time. -/
def UpdatesInPlace (e : EngineCore D C) : Call C → Prop
  | .addRequest args => ∀ ref, e.scheduler.requests.get? args.requestId = some ref →
      (e.scheduler.objs ref).status = .waitingForStreamingReq → args.resumable = true →
      ∀ q, e.scheduler.StaysInPlace (e.scheduler.queue q) ref args.arrivalTime
  | .updateFromOutput out =>
    ∀ step ∈ e.inFlight.head?, e.scheduler.SessionsInPlace step.output out
  | _ => True

variable {e : EngineCore D C}

theorem heapsOrdered_run {e' : EngineCore D C} {call : Call C}
    (h : e.scheduler.HeapsOrdered False) (hcond : e.UpdatesInPlace call)
    (hrun : e.run call = .ok e') : e'.scheduler.HeapsOrdered False := by
  refine Scheduler.HeapsOrdered.preserved.run h ?_ (fun hs => h.schedule hs) ?_ hrun
  · rintro args r s rfl hr hs
    obtain ⟨hid, htime, hresumable⟩ := Request.create_key hr
    apply h.addRequest ?_ hs
    rw [hid, htime, hresumable]
    exact hcond
  · rintro out step failed s st rfl hstep hfailed hloop
    have hcut := h.quiet (.of_cutBackOnly (Scheduler.failedLoads_spec hfailed))
    exact (hcut.updateLoop (hcond step hstep failed s hfailed) hloop).removeStopped

theorem heapsOrdered_init (h : e.Init)
    (hpolicy : e.scheduler.config.policy = .priority) : e.scheduler.HeapsOrdered False := by
  obtain ⟨config, kv, connector, rfl⟩ := h
  refine ⟨hpolicy, ?_, fun _ => ?_, ?_⟩
  · rintro x (hx | hx | hx | hx | ⟨rid, hx⟩)
    all_goals cases hx
  · intro j _ _ a b ha
    cases ha
  · intro j _ _ a b ha
    cases ha

theorem popsMinimal_of_inOrder {s : Scheduler D C} {held : List Ref}
    (hpolicy : s.config.policy = .priority) (h : s.InOrder held) : PopsMinimal s := by
  intro q ref rest hpop
  rw [hpolicy] at hpop
  exact RequestQueue.popRequest_smallest s.lt_comparison (h.queue q) hpop

/-- In every run in which the updated sessions keep their place, what a queue pops is minimal
in it, after each call and at every point of a pass. -/
theorem pops_minimal {e : EngineCore D C}
    (h : Reachable (fun e => e.Init ∧ e.scheduler.config.policy = .priority)
      (OpStep UpdatesInPlace run) e) :
    PopsMinimal e.scheduler ∧ ∀ env p,
      Scheduler.Pass.PassSteps env (.start e.scheduler) p → PopsMinimal p.sched := by
  have hheaps : e.scheduler.HeapsOrdered False := by
    refine Reachable.invariant (P := fun e : EngineCore D C => e.scheduler.HeapsOrdered False)
      (fun _ hinit => heapsOrdered_init hinit.1 hinit.2) ?_ h
    rintro e₁ e₂ h₁ ⟨call, hcond, hrun⟩
    exact heapsOrdered_run h₁ hcond hrun
  refine ⟨popsMinimal_of_inOrder hheaps.policy hheaps.inOrder, ?_⟩
  intro env p hsteps
  have hp : p.QueuesInOrder e.scheduler :=
    Scheduler.Pass.steps_invariant (fun _ _ hp hstep => hp.step hheaps.policy hstep)
      hheaps.queuesInOrder hsteps
  apply popsMinimal_of_inOrder ?_ hp.inOrder
  rw [hp.keeps.config]
  exact hheaps.policy

def sessionArgs (requestId : ReqId) (arrivalTime : Nat) : Request.Args where
  requestId := requestId
  arrivalTime := arrivalTime
  promptTokenIds := some [1]
  samplingParams := some { maxTokens := 1 }
  resumable := true

def sessionsOutput : ModelRunnerOutput (KVConnector.noConnector Transcript).WorkerMeta where
  reqIdToIndex := (Dict.empty.set 0 0).set 1 1
  sampledTokenIds := [[9], [9]]

/-- Two sessions have used up their input and wait for more. -/
def waitingSessions : List (Call (.noConnector Transcript)) :=
  [.addRequest (sessionArgs 0 1), .addRequest (sessionArgs 1 2), .schedule {},
    .updateFromOutput sessionsOutput]

def priorityConfig : SchedulerConfig Transcript := { smallConfig with policy := .priority }

/-- The session that arrived last gets its next input, with a later arrival time, and the other
one is popped. -/
theorem pops_minimal_lateSession : ∃ e : EngineCore Transcript (.noConnector Transcript),
    Reachable (fun e => e.Init ∧ e.scheduler.config.policy = .priority)
      (OpStep UpdatesInPlace run) e ∧ PopsMinimal e.scheduler ∧
      e.scheduler.skippedWaiting = [0, 1] ∧ (e.scheduler.objs 1).arrivalTime = 5 := by
  obtain ⟨e₀, hcreate⟩ : ∃ e₀, small priorityConfig 8 = .ok e₀ := ⟨_, rfl⟩
  obtain ⟨e', hfirst⟩ : ∃ e', e₀.run (.addRequest (sessionArgs 0 1)) = .ok e' := by
    cases hcreate
    exact ⟨_, rfl⟩
  obtain ⟨e'', hsecond⟩ : ∃ e'', e'.run (.addRequest (sessionArgs 1 2)) = .ok e'' := by
    cases hcreate
    cases hfirst
    exact ⟨_, rfl⟩
  obtain ⟨e₁, hrun⟩ : ∃ e₁, e''.run (.schedule {}) = .ok e₁ := by
    cases hcreate
    cases hfirst
    cases hsecond
    exact ⟨_, rfl⟩
  obtain ⟨e₂, hupdate⟩ : ∃ e₂, e₁.run (.updateFromOutput sessionsOutput) = .ok e₂ := by
    cases hcreate
    cases hfirst
    cases hsecond
    cases hrun
    exact ⟨_, rfl⟩
  obtain ⟨e₃, hlate, hskipped, htime⟩ : ∃ e₃, e₂.run (.addRequest (sessionArgs 1 5)) = .ok e₃ ∧
      e₃.scheduler.skippedWaiting = [0, 1] ∧ (e₃.scheduler.objs 1).arrivalTime = 5 := by
    cases hcreate
    cases hfirst
    cases hsecond
    cases hrun
    cases hupdate
    exact ⟨_, rfl, by decide, by decide⟩
  have hinit : e₀.Init ∧ e₀.scheduler.config.policy = .priority := by
    cases hcreate
    exact ⟨⟨_, _, _, rfl⟩, rfl⟩
  have hreach₁ : Reachable (fun e => e.Init ∧ e.scheduler.config.policy = .priority)
      (OpStep UpdatesInPlace run) e₁ := by
    refine .next (.next (.next (.start hinit) ⟨_, ?_, hfirst⟩) ⟨_, ?_, hsecond⟩)
      ⟨.schedule {}, trivial, hrun⟩
    · cases hcreate
      rintro ref ⟨⟩
    · cases hcreate
      cases hfirst
      rintro ref ⟨⟩
  have hplace : e₁.UpdatesInPlace (.updateFromOutput sessionsOutput) := by
    cases hcreate
    cases hfirst
    cases hsecond
    cases hrun
    rintro step ⟨⟩ failed s₁ ⟨⟩ done e rest hentries _ st hdone ref _ _ _ href _ _ _ _ _ update
      updates _ hqueue
    rcases done with _ | ⟨d, _ | ⟨d', done⟩⟩
    · cases hentries
      cases hdone
      cases href
      cases hqueue
    · cases hentries
      cases hdone
      cases href
      cases hqueue
    · injection hentries with _ htail
      injection htail with _ htail
      exact absurd htail.symm (append_ne_nil_of_right_ne_nil _ (cons_ne_nil _ _))
  have hplace₂ : e₂.UpdatesInPlace (.addRequest (sessionArgs 1 5)) := by
    cases hcreate
    cases hfirst
    cases hsecond
    cases hrun
    cases hupdate
    rintro ref ⟨⟩ _ _ q j hj _ a b ha hb
    cases q with
    | waiting => cases hb
    | skippedWaiting =>
      rcases j with _ | _ | j
      · cases hj
      · cases ha
        cases hb
        decide
      · cases hb
  have hreach := (hreach₁.next ⟨_, hplace, hupdate⟩).next ⟨_, hplace₂, hlate⟩
  exact ⟨e₃, hreach, (pops_minimal hreach).1, hskipped, htime⟩

/-- The session that arrived first gets its next input with a later arrival time, and is popped
although the other one arrived before. -/
theorem pops_not_minimal : ¬∀ e : EngineCore Transcript (.noConnector Transcript),
    Reachable (fun e => e.Init ∧ e.scheduler.config.policy = .priority)
      (OpStep (fun _ _ => True) run) e → PopsMinimal e.scheduler := by
  intro hall
  obtain ⟨e₀, hcreate⟩ : ∃ e₀, small priorityConfig 8 = .ok e₀ := ⟨_, rfl⟩
  obtain ⟨e, hrun, hpop, hmem, hlt⟩ : ∃ e, runOps run e₀
      (waitingSessions ++ [.addRequest (sessionArgs 0 5)]) = .ok e ∧
      RequestQueue.popRequest e.scheduler.config.policy e.scheduler.lt
        e.scheduler.skippedWaiting = .ok (0, [1]) ∧ 1 ∈ e.scheduler.skippedWaiting ∧
      (e.scheduler.objs 1).lt (e.scheduler.objs 0) = true := by
    cases hcreate
    exact ⟨_, rfl, rfl, by decide, by decide⟩
  have hinit : e₀.Init ∧ e₀.scheduler.config.policy = .priority := by
    cases hcreate
    exact ⟨⟨_, _, _, rfl⟩, rfl⟩
  have hminimal := hall e (Reachable.runOps_of_forall (.start hinit) (fun _ _ _ => trivial) hrun)
  rw [hminimal .skippedWaiting 0 [1] hpop 1 hmem] at hlt
  cases hlt

end EngineCore

end VllmCore
