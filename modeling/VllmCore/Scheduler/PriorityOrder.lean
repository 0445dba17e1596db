import VllmCore.Support.HeapOrder
import VllmCore.Scheduler.QueuePartition
/-!
# The order of the priority queues

With the priority policy both waiting queues are heaps over the keys of the requests.
No step of `schedule` changes a key, so that every step keeps the order and every pop
takes a smallest request.
-/

namespace VllmCore

open List Support

variable {D : Type}

def Request.key (r : Request D) : Int × Nat × ReqId := (r.priority, r.arrivalTime, r.requestId)

theorem Request.lt_congr {a a' b b' : Request D} (ha : a'.key = a.key) (hb : b'.key = b.key) :
    a'.lt b' = a.lt b := by
  simp only [Request.key, Prod.mk.injEq] at ha hb
  obtain ⟨hap, hat, hai⟩ := ha
  obtain ⟨hbp, hbt, hbi⟩ := hb
  unfold Request.lt
  rw [hap, hat, hai, hbp, hbt, hbi]

theorem Request.lt_iff (a b : Request D) :
    a.lt b = true ↔ a.priority < b.priority ∨ a.priority = b.priority ∧
      (a.arrivalTime < b.arrivalTime ∨
        a.arrivalTime = b.arrivalTime ∧ a.requestId < b.requestId) := by
  unfold Request.lt
  split
  next hne =>
    rw [decide_eq_true_iff]
    omega
  · split
    next hne =>
      rw [decide_eq_true_iff]
      omega
    next hp ht =>
      rw [not_not] at hp ht
      simp [hp, ht]

theorem lex_asymm {p q : Int} {t u i j : Nat} (h : p < q ∨ p = q ∧ (t < u ∨ t = u ∧ i < j)) :
    ¬(q < p ∨ q = p ∧ (u < t ∨ u = t ∧ j < i)) := by
  omega

theorem lex_trans {p q r : Int} {t u v i j k : Nat} (h : ¬(q < p ∨ q = p ∧ (u < t ∨ u = t ∧ j < i)))
    (h' : ¬(r < q ∨ r = q ∧ (v < u ∨ v = u ∧ k < j))) :
    ¬(r < p ∨ r = p ∧ (v < t ∨ v = t ∧ k < i)) := by
  omega

theorem Request.lt_comparison : Heap.Comparison (Request.lt (D := D)) := by
  constructor
  · intro a b hab
    rw [← Bool.not_eq_true, Request.lt_iff]
    rw [Request.lt_iff] at hab
    exact lex_asymm hab
  · intro a b c hba hcb
    rw [← Bool.not_eq_true, Request.lt_iff] at *
    exact lex_trans hba hcb

namespace RequestQueue

variable {lt : Ref → Ref → Bool}

section

variable (hlt : Heap.Comparison lt)

include hlt

theorem addRequest_ordered {q : RequestQueue}
    (h : Heap.Ordered lt q) (ref : Ref) : Heap.Ordered lt (addRequest .priority lt q ref) :=
  Heap.push_ordered hlt h ref

theorem prependRequest_ordered {q : RequestQueue}
    (h : Heap.Ordered lt q) (ref : Ref) : Heap.Ordered lt (prependRequest .priority lt q ref) :=
  addRequest_ordered hlt h ref

theorem prependRequests_ordered {q requests : RequestQueue}
    (h : Heap.Ordered lt q) : Heap.Ordered lt (prependRequests .priority lt q requests) := by
  unfold prependRequests
  generalize iter .priority lt requests = refs
  induction refs generalizing q with
  | nil => exact h
  | cons ref refs ih => exact ih (addRequest_ordered hlt h ref)

theorem popRequest_ordered {q rest : RequestQueue} {ref : Ref}
    (h : Heap.Ordered lt q) (hpop : popRequest .priority lt q = .ok (ref, rest)) :
    Heap.Ordered lt rest := by
  simp only [popRequest] at hpop
  split at hpop
  · cases hpop
  next res hres =>
    cases hpop
    exact Heap.pop_ordered hlt h hres

theorem removeRequests_ordered (q : RequestQueue)
    (requests : List Ref) : Heap.Ordered lt (removeRequests .priority lt q requests) :=
  Heap.heapify_ordered hlt _

theorem popRequest_smallest {q rest : RequestQueue} {ref : Ref}
    (h : Heap.Ordered lt q) (hpop : popRequest .priority lt q = .ok (ref, rest)) :
    ∀ x ∈ q, lt x ref = false := by
  simp only [popRequest] at hpop
  split at hpop
  · cases hpop
  next res hres =>
    cases hpop
    exact h.first_le hlt (Heap.pop_head lt hres)

end

end RequestQueue

namespace Scheduler

variable [DecidableEq D] {C : KVConnector D}

theorem lt_comparison (s : Scheduler D C) : Heap.Comparison s.lt := by
  constructor
  · exact fun a b => Request.lt_comparison.asymm (s.objs a) (s.objs b)
  · exact fun a b c => Request.lt_comparison.trans (s.objs a) (s.objs b) (s.objs c)

/-! ## What stays when keys stay -/

/-- A reference that the scheduler holds; `held` are the requests that a pass puts aside. -/
def Knows (s : Scheduler D C) (held : List Ref) (x : Ref) : Prop :=
  x ∈ s.running ∨ x ∈ s.waiting ∨ x ∈ s.skippedWaiting ∨ x ∈ held ∨
    ∃ rid, s.requests.get? rid = some x

/-- No key changes, and no reference is new. -/
structure KeepsKeys (s : Scheduler D C) (held : List Ref) (s' : Scheduler D C)
    (held' : List Ref) : Prop where
  config : s'.config = s.config
  numObjs : s'.numObjs = s.numObjs
  key : ∀ x, (s'.objs x).key = (s.objs x).key
  knows : ∀ x, s'.Knows held' x → s.Knows held x

namespace KeepsKeys

variable {s s₁ s' : Scheduler D C} {held held₁ held' : List Ref}

theorem trans (h : KeepsKeys s held s₁ held₁) (h' : KeepsKeys s₁ held₁ s' held') :
    KeepsKeys s held s' held' where
  config := h'.config.trans h.config
  numObjs := h'.numObjs.trans h.numObjs
  key := fun x => (h'.key x).trans (h.key x)
  knows := fun x hx => h.knows x (h'.knows x hx)

theorem lt (h : KeepsKeys s held s' held') : s'.lt = s.lt := by
  funext a b
  exact Request.lt_congr (h.key a) (h.key b)

theorem of_requestsKept (h : s.RequestsKept s') : KeepsKeys s held s' held := by
  rw [h.eq]
  exact ⟨rfl, rfl, fun _ => rfl, fun _ => id⟩

theorem of_cachesOnly (h : s.CachesOnly s') : KeepsKeys s held s' held := .of_requestsKept h.kept

theorem modify (s : Scheduler D C) (held : List Ref) (ref : Ref) {f : Request D → Request D}
    (hf : ∀ r, (f r).key = r.key) : KeepsKeys s held (s.modify ref f) held := by
  refine ⟨rfl, rfl, ?_, fun _ => id⟩
  intro x
  rw [modify_objs]
  split
  next hx => rw [hf, hx]
  · rfl

theorem of_quiet (h : s.Quiet s') : KeepsKeys s held s' held := by
  have hkey : ∀ x, (s'.objs x).key = (s.objs x).key := by
    intro x
    rw [h.objs x]
    rfl
  refine ⟨h.config, h.numObjs, hkey, fun x hx => ?_⟩
  rw [h.eq] at hx
  exact hx

theorem of_lists (hconfig : s'.config = s.config) (hnum : s'.numObjs = s.numObjs)
    (hobjs : s'.objs = s.objs) (hrequests : s'.requests = s.requests)
    (hlists : ∀ x, x ∈ s'.running ∨ x ∈ s'.waiting ∨ x ∈ s'.skippedWaiting ∨ x ∈ held' →
      x ∈ s.running ∨ x ∈ s.waiting ∨ x ∈ s.skippedWaiting ∨ x ∈ held) :
    KeepsKeys s held s' held' := by
  refine ⟨hconfig, hnum, fun x => by rw [hobjs], ?_⟩
  intro x hx
  unfold Knows at hx ⊢
  rw [hrequests] at hx
  have := hlists x
  tauto

end KeepsKeys

theorem mem_queue {s : Scheduler D C} {q : QueueName} {x : Ref} (h : x ∈ s.queue q) :
    x ∈ s.waiting ∨ x ∈ s.skippedWaiting := by
  cases q with
  | waiting => exact .inl h
  | skippedWaiting => exact .inr h

theorem KeepsKeys.pop {s : Scheduler D C} {held held' : List Ref} {q : QueueName} {ref : Ref}
    {rest : RequestQueue} (hpop : RequestQueue.popRequest s.config.policy s.lt (s.queue q) =
      .ok (ref, rest)) (hheld : ∀ x ∈ held', x = ref ∨ x ∈ held) :
    KeepsKeys s held (s.setQueue q rest) held' := by
  have hperm := RequestQueue.popRequest_perm _ _ hpop
  have href : ref ∈ s.queue q := hperm.mem_iff.mpr mem_cons_self
  have hrest : ∀ x ∈ rest, x ∈ s.queue q := fun x hx =>
    hperm.mem_iff.mpr (mem_cons_of_mem ref hx)
  have hheld' : ∀ x ∈ held', x ∈ s.waiting ∨ x ∈ s.skippedWaiting ∨ x ∈ held := by
    intro x hx
    rcases hheld x hx with rfl | hx
    · exact (or_assoc.mp (.inl (mem_queue href)))
    · exact .inr (.inr hx)
  cases q with
  | waiting =>
    refine .of_lists rfl rfl rfl rfl ?_
    rintro x (hx | hx | hx | hx)
    · exact .inl hx
    · exact .inr (.inl (hrest x hx))
    · exact .inr (.inr (.inl hx))
    · exact .inr (hheld' x hx)
  | skippedWaiting =>
    refine .of_lists rfl rfl rfl rfl ?_
    rintro x (hx | hx | hx | hx)
    · exact .inl hx
    · exact .inr (.inl hx)
    · exact .inr (.inr (.inl (hrest x hx)))
    · exact .inr (hheld' x hx)

theorem KeepsKeys.preemptRequest {s s' : Scheduler D C} {held : List Ref} {running : List Ref}
    {ref : Ref} (href : ref ∈ running) (hsub : ∀ x ∈ s.running, x ∈ running)
    (h : s.preemptRequest ref = .ok s') : KeepsKeys { s with running := running } held s' held := by
  obtain ⟨_, kv, encoder, _, _, rfl⟩ := Pass.preemptRequest_spec h
  refine ⟨rfl, rfl, ?_, ?_⟩
  · intro x
    show (((s.modify ref preempted).objs x)).key = (s.objs x).key
    rw [modify_objs]
    split
    next hx =>
      rw [hx]
      rfl
    · rfl
  · rintro x (hx | hx | hx | hx | hx)
    · exact .inl (hsub x hx)
    · rcases mem_cons.mp ((RequestQueue.prependRequest_perm _ _ _ _).mem_iff.mp hx) with
        rfl | hx
      · exact .inl href
      · exact .inr (.inl hx)
    · exact .inr (.inr (.inl hx))
    · exact .inr (.inr (.inr (.inl hx)))
    · exact .inr (.inr (.inr (.inr hx)))

/-! ## The order in a pass -/

/-- Both queues, and the requests that a pass has put aside, are in order. -/
structure InOrder (s : Scheduler D C) (held : List Ref) : Prop where
  waiting : Heap.Ordered s.lt s.waiting
  skippedWaiting : Heap.Ordered s.lt s.skippedWaiting
  held : Heap.Ordered s.lt held

namespace InOrder

variable {s s' : Scheduler D C} {held held' : List Ref}

theorem queue (h : s.InOrder held) (q : QueueName) : Heap.Ordered s.lt (s.queue q) := by
  cases q with
  | waiting => exact h.waiting
  | skippedWaiting => exact h.skippedWaiting

theorem congr (h : s.InOrder held) (hlt : s'.lt = s.lt) (hwaiting : s'.waiting = s.waiting)
    (hskipped : s'.skippedWaiting = s.skippedWaiting) : s'.InOrder held := by
  refine ⟨?_, ?_, ?_⟩
  · rw [hlt, hwaiting]
    exact h.waiting
  · rw [hlt, hskipped]
    exact h.skippedWaiting
  · rw [hlt]
    exact h.held

theorem setQueue {q : QueueName} {xs : RequestQueue} (h : s.InOrder held)
    (hxs : Heap.Ordered s.lt xs) (hheld : Heap.Ordered s.lt held') :
    (s.setQueue q xs).InOrder held' := by
  cases q with
  | waiting => exact ⟨hxs, h.skippedWaiting, hheld⟩
  | skippedWaiting => exact ⟨h.waiting, hxs, hheld⟩

theorem pop {q : QueueName} {ref : Ref} {rest : RequestQueue} (h : s.InOrder held)
    (hpolicy : s.config.policy = .priority)
    (hpop : RequestQueue.popRequest s.config.policy s.lt (s.queue q) = .ok (ref, rest)) :
    (s.setQueue q rest).InOrder held := by
  rw [hpolicy] at hpop
  exact h.setQueue (RequestQueue.popRequest_ordered s.lt_comparison (h.queue q) hpop) h.held

theorem preemptRequest {running : List Ref} {ref : Ref} (h : s.InOrder held)
    (hpolicy : s.config.policy = .priority)
    (hpreempt : Scheduler.preemptRequest { s with running := running } ref = .ok s') :
    s'.InOrder held := by
  obtain ⟨_, kv, encoder, _, _, rfl⟩ := Pass.preemptRequest_spec hpreempt
  have hkeys : KeepsKeys s held (s.modify ref preempted) held := .modify s held ref fun _ => rfl
  have hlt := hkeys.lt
  refine ⟨?_, ?_, ?_⟩
  · show Heap.Ordered (s.modify ref preempted).lt (RequestQueue.prependRequest s.config.policy
      (s.modify ref preempted).lt s.waiting ref)
    rw [hlt, hpolicy]
    exact RequestQueue.prependRequest_ordered s.lt_comparison h.waiting ref
  · show Heap.Ordered (s.modify ref preempted).lt s.skippedWaiting
    rw [hlt]
    exact h.skippedWaiting
  · show Heap.Ordered (s.modify ref preempted).lt held
    rw [hlt]
    exact h.held

end InOrder

namespace Pass

variable {p p₁ p' : Pass D C}

theorem selectVictim_lists {victim : Ref} (h : p.selectVictim = .ok (victim, p₁)) :
    p₁.stepSkippedWaiting = p.stepSkippedWaiting := by
  rcases selectVictim_cases h with ⟨_, _, rfl⟩ | ⟨_, _, ⟨_, rfl⟩ | ⟨_, hun⟩⟩
  · rfl
  · rfl
  · obtain ⟨_, _, _, rfl⟩ := unschedule_spec hun
    rfl

/-- The order holds, and every key is kept from the start of the call. -/
structure QueuesInOrder (s : Scheduler D C) (p : Pass D C) : Prop where
  keeps : KeepsKeys s [] p.sched p.stepSkippedWaiting
  inOrder : p.sched.InOrder p.stepSkippedWaiting

namespace QueuesInOrder

variable {s : Scheduler D C} {q : QueueName} {ref : Ref} {rest : RequestQueue} {c : Computed}
  {plan : Plan}

theorem cachesOnly (h : p.QueuesInOrder s) (hsame : p.sched.CachesOnly p'.sched)
    (heq : p' = p.withSched p'.sched) : p'.QueuesInOrder s := by
  have hheld : p'.stepSkippedWaiting = p.stepSkippedWaiting := by
    rw [heq]
    rfl
  have hkeys : KeepsKeys p.sched p.stepSkippedWaiting p'.sched p.stepSkippedWaiting :=
    .of_cachesOnly hsame
  refine ⟨?_, ?_⟩
  · rw [hheld]
    exact h.keeps.trans hkeys
  · rw [hheld]
    exact h.inOrder.congr hkeys.lt (by rw [hsame.eq]) (by rw [hsame.eq])

theorem modify (h : p.QueuesInOrder s) {s₁ : Scheduler D C} {ref : Ref}
    {f : Request D → Request D} (hkept : p.sched.RequestsKept s₁) (hf : ∀ r, (f r).key = r.key)
    (hobjs : p'.sched = { s₁.modify ref f with
      finishedRecvingKvReqIds := p'.sched.finishedRecvingKvReqIds
      failedRecvingKvReqIds := p'.sched.failedRecvingKvReqIds
      encoderCacheManager := p'.sched.encoderCacheManager })
    (hheld : p'.stepSkippedWaiting = p.stepSkippedWaiting) : p'.QueuesInOrder s := by
  have hfirst : KeepsKeys p.sched p.stepSkippedWaiting (s₁.modify ref f) p.stepSkippedWaiting :=
    (KeepsKeys.of_requestsKept hkept).trans (.modify s₁ p.stepSkippedWaiting ref hf)
  have hkeys : KeepsKeys p.sched p.stepSkippedWaiting p'.sched p.stepSkippedWaiting := by
    rw [hobjs]
    exact ⟨hfirst.config, hfirst.numObjs, hfirst.key, hfirst.knows⟩
  refine ⟨?_, ?_⟩
  · rw [hheld]
    exact h.keeps.trans hkeys
  · rw [hheld]
    refine h.inOrder.congr hkeys.lt ?_ ?_
    · rw [hobjs, hkept.eq]
      rfl
    · rw [hobjs, hkept.eq]
      rfl

theorem policy (h : p.QueuesInOrder s) (hpolicy : s.config.policy = .priority) :
    p.sched.config.policy = .priority := by
  rw [h.keeps.config]
  exact hpolicy

theorem preempt {victim : Ref} (h : p.QueuesInOrder s)
    (hpolicy : s.config.policy = .priority) (hselect : p.selectVictim = .ok (victim, p₁))
    (hpreempt : p₁.preempt victim = .ok p') : p'.QueuesInOrder s := by
  obtain ⟨hmem, running, hsched, hperm⟩ := selectVictim_sched hselect
  have hheld := selectVictim_lists hselect
  obtain ⟨s₁, hs₁, rfl⟩ := preempt_spec hpreempt
  rw [hsched] at hs₁
  refine ⟨?_, ?_⟩
  · have hkeys := @KeepsKeys.preemptRequest D _ C { p.sched with running := running } s₁
      p.stepSkippedWaiting p.sched.running victim hmem
      (fun x hx => hperm.mem_iff.mpr (mem_cons_of_mem victim hx)) hs₁
    rw [hheld]
    exact h.keeps.trans hkeys
  · show s₁.InOrder p₁.stepSkippedWaiting
    rw [hheld]
    exact h.inOrder.preemptRequest (h.policy hpolicy) hs₁

theorem pop (h : p.QueuesInOrder s) (hpolicy : s.config.policy = .priority)
    (hpop : p.Pops q ref rest) : (p.withSched (p.sched.setQueue q rest)).QueuesInOrder s := by
  exact ⟨h.keeps.trans (.pop hpop fun x hx => .inr hx), h.inOrder.pop (h.policy hpolicy) hpop⟩

theorem hold {policy : SchedulingPolicy} {lt : Ref → Ref → Bool}
    (h : p.QueuesInOrder s) (hpolicy : policy = .priority) (hlt : lt = p.sched.lt)
    (hknown : s.Knows [] ref) :
    QueuesInOrder s { p with
      stepSkippedWaiting := RequestQueue.prependRequest policy lt p.stepSkippedWaiting ref } := by
  refine ⟨⟨h.keeps.config, h.keeps.numObjs, h.keeps.key, ?_⟩,
    h.inOrder.waiting, h.inOrder.skippedWaiting, ?_⟩
  · rintro x (hx | hx | hx | hx | hx)
    · exact h.keeps.knows x (.inl hx)
    · exact h.keeps.knows x (.inr (.inl hx))
    · exact h.keeps.knows x (.inr (.inr (.inl hx)))
    · rcases mem_cons.mp ((RequestQueue.prependRequest_perm _ _ _ _).mem_iff.mp hx) with
        rfl | hx
      · exact hknown
      · exact h.keeps.knows x (.inr (.inr (.inr (.inl hx))))
    · exact h.keeps.knows x (.inr (.inr (.inr (.inr hx))))
  · show Heap.Ordered p.sched.lt (RequestQueue.prependRequest policy lt p.stepSkippedWaiting ref)
    rw [hlt, hpolicy]
    exact RequestQueue.prependRequest_ordered p.sched.lt_comparison h.inOrder.held ref

theorem knows_popped (h : p.QueuesInOrder s) (hpop : p.Pops q ref rest) : s.Knows [] ref := by
  have hmem : ref ∈ p.sched.queue q :=
    (RequestQueue.popRequest_perm _ _ hpop).mem_iff.mpr mem_cons_self
  apply h.keeps.knows
  cases q with
  | waiting => exact .inr (.inl hmem)
  | skippedWaiting => exact .inr (.inr (.inl hmem))

theorem admitLoading
    (h : p.QueuesInOrder s) (hpolicy : s.config.policy = .priority) (hpop : p.Pops q ref rest) :
    ((p.withSched (p.sched.setQueue q rest)).admitLoading ref c).QueuesInOrder s := by
  have hpopped := h.pop hpolicy hpop
  have hheld := hpopped.hold (hpopped.policy hpolicy) rfl (h.knows_popped hpop)
  exact @modify D _ C _ _ s hheld _ ref (fun r =>
    { r with status := .waitingForRemoteKvs, numComputedTokens := c.numComputedTokens })
    (.refl _) (fun _ => rfl) rfl rfl

theorem admitRunning (h : p.QueuesInOrder s) (hpolicy : s.config.policy = .priority)
    (hpop : p.Pops q ref rest)
    (hstarted : (p.withSched (p.sched.setQueue q rest)).admitRunning ref c plan = .ok p') :
    p'.QueuesInOrder s := by
  have hpopped := h.pop hpolicy hpop
  have hknown := h.knows_popped hpop
  generalize p.withSched (p.sched.setQueue q rest) = p₁ at hpopped hstarted
  obtain ⟨_, heq⟩ := admitRunning_spec hstarted
  have hmodified : (p₁.withSched (p₁.sched.modify ref
      (admitted c.numComputedTokens))).QueuesInOrder s :=
    @modify D _ C _ _ s hpopped _ ref (admitted c.numComputedTokens) (.refl _)
      (fun _ => rfl) rfl rfl
  rw [heq]
  refine ⟨⟨hmodified.keeps.config, hmodified.keeps.numObjs, hmodified.keeps.key, ?_⟩,
    hmodified.inOrder.waiting, hmodified.inOrder.skippedWaiting, hmodified.inOrder.held⟩
  rintro x (hx | hx)
  · rcases mem_append.mp hx with hx | hx
    · exact hmodified.keeps.knows x (.inl hx)
    · rw [mem_singleton.mp hx]
      exact hknown
  · exact hmodified.keeps.knows x (.inr hx)

theorem requeueSkipped (h : p.QueuesInOrder s) (hpolicy : s.config.policy = .priority) :
    p.requeueSkipped.QueuesInOrder s := by
  refine ⟨⟨h.keeps.config, h.keeps.numObjs, h.keeps.key, ?_⟩, h.inOrder.waiting, ?_, ?_⟩
  · rintro x (hx | hx | hx | hx | hx)
    · exact h.keeps.knows x (.inl hx)
    · exact h.keeps.knows x (.inr (.inl hx))
    · have hx' := (RequestQueue.prependRequests_perm _ _ _ _).mem_iff.mp hx
      rcases mem_append.mp hx' with hx | hx
      · exact h.keeps.knows x (.inr (.inr (.inr (.inl hx))))
      · exact h.keeps.knows x (.inr (.inr (.inl hx)))
    · cases hx
    · exact h.keeps.knows x (.inr (.inr (.inr (.inr hx))))
  · show Heap.Ordered p.sched.lt (RequestQueue.prependRequests p.sched.config.policy p.sched.lt
      p.sched.skippedWaiting p.stepSkippedWaiting)
    rw [h.policy hpolicy]
    exact RequestQueue.prependRequests_ordered p.sched.lt_comparison h.inOrder.skippedWaiting
  · intro j _ _ a b ha
    cases ha

theorem step {env : ScheduleEnv} (h : p.QueuesInOrder s) (hpolicy : s.config.policy = .priority)
    (hstep : PassStep env p p') : p'.QueuesInOrder s := by
  cases hstep with
  | skipRunning => exact ⟨h.keeps, h.inOrder⟩
  | encoders hscan =>
    have hsame := tryScheduleEncoderInputs_same hscan
    rw [hsame.eq]
    exact ⟨⟨h.keeps.config, h.keeps.numObjs, h.keeps.key, h.keeps.knows⟩, h.inOrder.waiting,
      h.inOrder.skippedWaiting, h.inOrder.held⟩
  | allocationFailed _ halloc =>
    obtain ⟨hsame, heq⟩ := allocateRunning_spec halloc
    exact h.cachesOnly hsame heq
  | preempt _ hselect hpreempt => exact h.preempt hpolicy hselect hpreempt
  | @scheduleRunning p₁ _ ref plan _ _ halloc hschedule =>
    obtain ⟨hsame, heq⟩ := allocateRunning_spec halloc
    have hp₁ := h.cachesOnly hsame heq
    have hspec := scheduleRunning_spec hschedule
    refine @modify D _ C p₁ _ s hp₁ p₁.sched ref (fun r => { r with specTokenIds := [] })
      (.refl _) (fun _ => rfl) ?_ ?_
    · rw [hspec]
    · rw [hspec]
  | recordLoras hloras =>
    rw [recordLoras_spec hloras]
    exact ⟨h.keeps, h.inOrder⟩
  | @promote _ ref res _ hpromote =>
    rcases tryPromote_spec hpromote with rfl | ⟨_, s₁, f, status, hkept, _, hf, _, heq⟩
    · exact h
    · refine @modify D _ C p _ s h s₁ ref (fun r => { f r with status := status }) hkept ?_ ?_ rfl
      · intro r
        rcases hf with rfl | rfl <;> rfl
      · show res.2 = _
        rw [heq]
        rfl
  | @skipWaiting _ q hskip =>
    obtain ⟨ref, rest, hpop, rfl⟩ := skipWaiting_spec hskip
    have hlt : p.sched.lt = (p.withSched (p.sched.setQueue q rest)).sched.lt := by
      cases q <;> rfl
    exact (h.pop hpolicy hpop).hold (h.policy hpolicy) hlt (h.knows_popped hpop)
  | @findComputed _ _ ref _ _ hfind =>
    obtain ⟨s₁, n, hcaches, heq⟩ := findComputed_spec hfind
    refine @modify D _ C p _ s h s₁ ref (fun r => { r with numExternalComputedTokens := n })
      hcaches.kept (fun _ => rfl) ?_ ?_
    · rw [heq]
    · rw [heq]
  | admissionFailed _ _ halloc =>
    obtain ⟨hsame, heq⟩ := allocateWaiting_spec halloc
    exact h.cachesOnly hsame heq
  | admitLoading _ _ halloc hupdate hpop =>
    obtain ⟨hsame, heq⟩ := reserve_spec halloc hupdate
    exact (h.cachesOnly hsame heq).admitLoading hpolicy hpop
  | admitRunning _ _ halloc hupdate hpop hstarted =>
    obtain ⟨hsame, heq⟩ := reserve_spec halloc hupdate
    exact (h.cachesOnly hsame heq).admitRunning hpolicy hpop hstarted
  | requeueSkipped => exact h.requeueSkipped hpolicy

end QueuesInOrder

end Pass

end Scheduler

end VllmCore
