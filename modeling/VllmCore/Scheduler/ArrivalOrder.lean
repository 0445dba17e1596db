import VllmCore.Scheduler.QueuePartition
/-!
# The order of the waiting queues

Under the FCFS policy a pass takes requests from the front of the line, which is the
skipped queue followed by the waiting queue.  A request that is skipped is prepended to
the queue of the step, and that queue is put back in reverse, so that the two reversals
cancel.  The line of a pass has the requests that were put aside in front.
-/

namespace VllmCore

open List Support

variable {D : Type} [DecidableEq D] {C : KVConnector D}

namespace Scheduler

/-- The waiting requests in the order in which they are considered. -/
def line (s : Scheduler D C) : List Ref := s.skippedWaiting ++ s.waiting

theorem line_select {s : Scheduler D C} {q : QueueName} {ref : Ref} {rest : RequestQueue}
    (hpolicy : s.config.policy = .fcfs) (hselect : s.selectWaitingQueueForScheduling = some q)
    (hpop : RequestQueue.popRequest s.config.policy s.lt (s.queue q) = .ok (ref, rest)) :
    s.line = ref :: (s.setQueue q rest).line := by
  have hqueue : s.queue q = ref :: rest := by
    rw [hpolicy] at hpop
    cases hq : s.queue q with
    | nil =>
      rw [hq] at hpop
      cases hpop
    | cons first tail =>
      rw [hq] at hpop
      cases hpop
      rfl
  cases q with
  | skippedWaiting =>
    have hskipped : s.skippedWaiting = ref :: rest := hqueue
    simp only [line, setQueue, hskipped, cons_append]
  | waiting =>
    have hwaiting : s.waiting = ref :: rest := hqueue
    have hskipped : s.skippedWaiting = [] := by
      unfold selectWaitingQueueForScheduling at hselect
      rw [hpolicy, hwaiting] at hselect
      cases hs : s.skippedWaiting with
      | nil => rfl
      | cons first tail =>
        rw [hs] at hselect
        cases hselect
    simp only [line, setQueue, hskipped, hwaiting, nil_append]

namespace Pass

theorem SameLists.line {s s' : Scheduler D C} (h : SameLists s s') : s'.line = s.line := by
  have hskipped : s'.skippedWaiting = s.skippedWaiting := h.queue .skippedWaiting
  have hwaiting : s'.waiting = s.waiting := h.queue .waiting
  rw [Scheduler.line, hskipped, hwaiting]
  rfl

/-! ## The loop over the running requests -/

/-- Unless a request is preempted, the lists stay as they are. -/
def SameUnlessPreempted (p p' : Pass D C) : Prop :=
  p'.preemptedReqs = [] → p.preemptedReqs = [] ∧ p.SameQueues p'

variable {p p' p₁ : Pass D C} {fuel : Nat} {ref : Ref} {env : ScheduleEnv} {goOn : Bool}
  {q : QueueName} {rest : RequestQueue}

theorem SameUnlessPreempted.trans (h : p.SameUnlessPreempted p₁) (h' : p₁.SameUnlessPreempted p') :
    p.SameUnlessPreempted p' := by
  intro hnone
  obtain ⟨hnone₁, hsame'⟩ := h' hnone
  obtain ⟨hnone₀, hsame⟩ := h hnone₁
  exact ⟨hnone₀, hsame.trans hsame'⟩

theorem SameUnlessPreempted.of_same (hpreempted : p'.preemptedReqs = p.preemptedReqs)
    (hsame : p.SameQueues p') : p.SameUnlessPreempted p' := by
  intro hnone
  exact ⟨hpreempted ▸ hnone, hsame⟩

theorem RunningStep.sameUnlessPreempted (h : RunningStep env p p') : p.SameUnlessPreempted p' := by
  cases h with
  | skipRunning => exact .of_same rfl ⟨rfl, rfl, fun _ => rfl⟩
  | encoders _ hscan =>
    have hsame := tryScheduleEncoderInputs_same hscan
    exact .of_same (by rw [hsame.eq]) hsame.queues
  | allocationFailed _ halloc =>
    rw [allocateRunning_same halloc]
    exact .of_same rfl ⟨rfl, rfl, fun q => by cases q <;> rfl⟩
  | preempt _ _ hpreempt =>
    obtain ⟨s, _, rfl⟩ := preempt_spec hpreempt
    intro hnone
    exact absurd hnone (by simp)
  | scheduleRunning _ halloc hschedule =>
    rw [scheduleRunning_spec hschedule, allocateRunning_same halloc]
    exact .of_same rfl ⟨rfl, rfl, fun q => by cases q <;> rfl⟩

/-! ## The loop over the waiting queues -/

/-- The requests that were put aside, and then the line. -/
def line (p : Pass D C) : List Ref := p.stepSkippedWaiting.reverse ++ p.sched.line

/-- Requests have left the line to run; the others stand in the same order. -/
structure Advances (p p' : Pass D C) : Prop where
  config : p'.sched.config = p.sched.config
  order : p'.line.Sublist p.line
  admitted : ∃ refs, p'.sched.running = p.sched.running ++ refs ∧ (p'.line ++ refs).Perm p.line

theorem Advances.of_line (hconfig : p'.sched.config = p.sched.config)
    (hrunning : p'.sched.running = p.sched.running) (hline : p'.line = p.line) : p.Advances p' := by
  refine ⟨hconfig, ?_, [], ?_, ?_⟩
  · rw [hline]
  · rw [hrunning, append_nil]
  · rw [hline, append_nil]

theorem Advances.refl (p : Pass D C) : p.Advances p := .of_line rfl rfl rfl

theorem Advances.trans (h : p.Advances p₁) (h' : p₁.Advances p') : p.Advances p' := by
  obtain ⟨refs, hrunning, hperm⟩ := h.admitted
  obtain ⟨refs', hrunning', hperm'⟩ := h'.admitted
  refine ⟨h'.config.trans h.config, h'.order.trans h.order, refs ++ refs', ?_, ?_⟩
  · rw [hrunning', hrunning, append_assoc]
  · calc
      (p'.line ++ (refs ++ refs')).Perm (p'.line ++ refs' ++ refs) := by
        rw [append_assoc]
        exact perm_append_comm.append_left p'.line
      List.Perm _ (p₁.line ++ refs) := hperm'.append_right refs
      List.Perm _ p.line := hperm

/-- The lists stay as they are, also the requests that were put aside. -/
structure SameLine (p p' : Pass D C) : Prop where
  queues : p.SameQueues p'
  aside : p'.stepSkippedWaiting = p.stepSkippedWaiting

theorem SameLine.trans (h : p.SameLine p₁) (h' : p₁.SameLine p') : p.SameLine p' :=
  ⟨h.queues.trans h'.queues, h'.aside.trans h.aside⟩

theorem SameLine.line (h : p.SameLine p') : p'.line = p.line := by
  rw [Pass.line, h.aside, h.queues.line]
  rfl

theorem SameLine.advances (h : p.SameLine p') : p.Advances p' :=
  .of_line h.queues.config h.queues.running h.line

/-- The queue `q` is selected, under the FCFS policy. -/
structure Selected (p : Pass D C) (q : QueueName) : Prop where
  policy : p.sched.config.policy = .fcfs
  select : p.sched.selectWaitingQueueForScheduling = some q

theorem Selected.same (h : p.Selected q) (hsame : p.SameQueues p') : p'.Selected q := by
  have hskipped : p'.sched.skippedWaiting = p.sched.skippedWaiting := hsame.queue .skippedWaiting
  have hwaiting : p'.sched.waiting = p.sched.waiting := hsame.queue .waiting
  constructor
  · rw [hsame.config]
    exact h.policy
  · rw [← h.select]
    unfold selectWaitingQueueForScheduling
    rw [hsame.config, hskipped, hwaiting, h.policy]
    cases p.sched.waiting <;> cases p.sched.skippedWaiting <;> rfl

theorem Selected.putAside (h : p.Selected q) (hpop : p.Pops q ref rest) :
    (ref :: p.stepSkippedWaiting).reverse ++ (p.sched.setQueue q rest).line = p.line := by
  rw [line, line_select h.policy h.select hpop, reverse_cons, append_assoc]
  rfl

theorem Selected.skipWaiting (h : p.Selected q)
    (hskip : p.skipWaiting q = .ok p') : p.Advances p' := by
  obtain ⟨ref, rest, hpop, rfl⟩ := skipWaiting_spec hskip
  apply Advances.of_line
  · cases q <;> rfl
  · cases q <;> rfl
  · rw [← h.putAside hpop, h.policy]
    rfl

theorem Selected.admitLoading (h : p.Selected q) (hpop : p.Pops q ref rest) (c : Computed) :
    p.Advances ((p.withSched (p.sched.setQueue q rest)).admitLoading ref c) := by
  have hconfig : (p.sched.setQueue q rest).config = p.sched.config := by cases q <;> rfl
  have hpolicy : (p.sched.setQueue q rest).config.policy = .fcfs := by rw [hconfig, h.policy]
  apply Advances.of_line
  · exact hconfig
  · cases q <;> rfl
  · rw [← h.putAside hpop]
    simp only [line, Pass.admitLoading, withSched, modify, hpolicy, RequestQueue.prependRequest]
    rfl

theorem Selected.admitRunning
    {c : Computed} {plan : Plan} (h : p.Selected q) (hpop : p.Pops q ref rest)
    (hstarted : (p.withSched (p.sched.setQueue q rest)).admitRunning ref c plan = .ok p') :
    p.Advances p' := by
  have hline := h.putAside hpop
  have hp' := (admitRunning_spec hstarted).2
  have hline' : p'.line =
      p.stepSkippedWaiting.reverse ++ (p.sched.setQueue q rest).line := by
    rw [hp']
    rfl
  rw [reverse_cons, append_assoc] at hline
  refine ⟨?_, ?_, [ref], ?_, ?_⟩
  · rw [hp']
    cases q <;> rfl
  · rw [hline', ← hline]
    exact (sublist_append_right [ref] _).append_left _
  · rw [hp']
    cases q <;> rfl
  · rw [hline', ← hline, append_assoc]
    exact perm_append_comm.append_left _

theorem admitWaiting_advances {c : Computed} (hselected : p.Selected q)
    (h : p.admitWaiting env q ref c = .ok (goOn, p')) : p.Advances p' := by
  simp only [admitWaiting, bind_ok] at h
  obtain ⟨⟨plan, p₁⟩, hplan, h⟩ := h
  have hp₁ : p.SameLine p₁ := by
    have hsame := planWaiting_same hplan
    exact ⟨hsame.queues, by rw [hsame.eq]⟩
  cases plan with
  | none =>
    obtain ⟨rfl, rfl⟩ := h
    exact hp₁.advances
  | some plan =>
    simp only [bind_ok] at h
    obtain ⟨⟨allocated, p₂⟩, halloc, h⟩ := h
    have hp₂ : p.SameLine p₂ := by
      refine hp₁.trans ⟨allocateWaiting_queues halloc, ?_⟩
      rw [(allocateWaiting_spec halloc).2]
      rfl
    cases allocated with
    | false =>
      simp only [if_true, pure_ok, Prod.mk.injEq] at h
      exact h.2 ▸ hp₂.advances
    | true =>
      simp only [Bool.true_eq_false, if_false, bind_ok] at h
      obtain ⟨p₃, hupdate, ⟨ref', rest⟩, hpop, h⟩ := h
      have hp₃ : p.SameLine p₃ := by
        refine hp₂.trans ⟨updateStateAfterAlloc_queues hupdate, ?_⟩
        rw [(updateStateAfterAlloc_spec hupdate).2]
        rfl
      have hselected₃ := hselected.same hp₃.queues
      apply hp₃.advances.trans
      split at h
      · obtain ⟨rfl, rfl⟩ := h
        exact hselected₃.admitLoading hpop c
      · simp only [bind_ok] at h
        obtain ⟨p₄, hstarted, _, rfl⟩ := h
        exact hselected₃.admitRunning hpop hstarted

theorem waitingTurn_advances (hselected : p.Selected q)
    (h : p.waitingTurn env q ref = .ok (goOn, p')) : p.Advances p' := by
  simp only [waitingTurn, bind_ok] at h
  obtain ⟨⟨schedulable, s⟩, hpromote, h⟩ := h
  have hfirst : p.SameLine (p.withSched s) := by
    split at hpromote
    · exact ⟨tryPromote_queues hpromote, rfl⟩
    · simp only [pure_ok, Prod.mk.injEq] at hpromote
      obtain ⟨_, rfl⟩ := hpromote
      exact ⟨⟨rfl, rfl, fun _ => rfl⟩, rfl⟩
  split at h
  · simp only [bind_ok] at h
    obtain ⟨p₁, hskip, _, rfl⟩ := h
    exact hfirst.advances.trans ((hselected.same hfirst.queues).skipWaiting hskip)
  · simp only [bind_ok] at h
    obtain ⟨⟨computed, p₁⟩, hfind, h⟩ := h
    have hsame : p.SameLine p₁ := by
      refine hfirst.trans ⟨findComputed_queues hfind, ?_⟩
      obtain ⟨s₁, n, _, heq⟩ := findComputed_spec hfind
      rw [heq]
    have hselected₁ := hselected.same hsame.queues
    cases computed with
    | none =>
      simp only [bind_ok] at h
      obtain ⟨p₂, hskip, _, rfl⟩ := h
      exact hsame.advances.trans (hselected₁.skipWaiting hskip)
    | some c =>
      apply hsame.advances.trans
      exact admitWaiting_advances hselected₁ h

theorem waitingLoop_advances (hpolicy : p.sched.config.policy = .fcfs)
    (h : waitingLoop env fuel p = .ok p') : p.Advances p' := by
  induction fuel generalizing p with
  | zero =>
    simp only [waitingLoop, pure_ok] at h
    exact h ▸ .refl p
  | succ fuel ih =>
    unfold waitingLoop at h
    split at h
    · rw [pure_ok] at h
      exact h ▸ .refl p
    next q hselect =>
      split at h
      · rw [pure_ok] at h
        exact h ▸ .refl p
      · simp only [bind_ok] at h
        obtain ⟨ref, _, ⟨goOn, p₁⟩, hturn, h⟩ := h
        have hp₁ := waitingTurn_advances ⟨hpolicy, hselect⟩ hturn
        split at h
        · apply hp₁.trans
          apply ih _ h
          rw [hp₁.config]
          exact hpolicy
        · rw [pure_ok] at h
          exact h ▸ hp₁

theorem requeueSkipped_line (hpolicy : p.sched.config.policy = .fcfs) :
    p.requeueSkipped.line = p.line := by
  simp only [line, requeueSkipped, hpolicy, RequestQueue.prependRequests, RequestQueue.iter,
    Scheduler.line, reverse_nil, nil_append, append_assoc]

theorem loops_advances {s : Scheduler D C} (hpolicy : s.config.policy = .fcfs)
    (h : loops env s = .ok p) (hnone : p.preemptedReqs = []) : (start s).Advances p := by
  simp only [loops, bind_ok] at h
  obtain ⟨p₁, hrunning, p₂, hloras, h⟩ := h
  have hloop : (start s).SameUnlessPreempted p₁ :=
    runningLoop_invariant (P := fun p => (start s).SameUnlessPreempted p)
      (fun _ _ hp hstep => hp.trans hstep.sameUnlessPreempted)
      (.of_same rfl ⟨rfl, rfl, fun _ => rfl⟩) hrunning
  have haside := runningLoop_stepSkippedWaiting hrunning
  have hp₂ : p₂ = { p₁ with scheduledLoras := p₂.scheduledLoras } := recordLoras_spec hloras
  have hadvances : (start s).SameUnlessPreempted p₂ := by
    rw [hp₂]
    exact hloop.trans (.of_same rfl ⟨rfl, rfl, fun _ => rfl⟩)
  have haside₂ : p₂.stepSkippedWaiting = (start s).stepSkippedWaiting := by
    rw [hp₂]
    exact haside
  unfold scheduleWaiting at h
  split at h
  next hquiet =>
    simp only [bind_ok, pure_ok] at h
    obtain ⟨p₃, hwaiting, rfl⟩ := h
    have hsame : (start s).SameLine p₂ :=
      ⟨(hadvances (isEmpty_iff.mp hquiet.1)).2, haside₂⟩
    have hpolicy₂ : p₂.sched.config.policy = .fcfs := by
      rw [hsame.queues.config]
      exact hpolicy
    have hp₃ := waitingLoop_advances hpolicy₂ hwaiting
    have hpolicy₃ : p₃.sched.config.policy = .fcfs := by
      rw [hp₃.config]
      exact hpolicy₂
    apply (hsame.advances.trans hp₃).trans
    exact .of_line rfl rfl (requeueSkipped_line hpolicy₃)
  · rw [pure_ok] at h
    subst h
    exact SameLine.advances ⟨(hadvances hnone).2, haside₂⟩

end Pass

/-! ## The call -/

theorem finishPass_preemptedReqIds {p : Pass D C} {output : SchedulerOutput C.Metadata}
    {s : Scheduler D C} (h : finishPass p = .ok (output, s)) :
    output.preemptedReqIds =
      (p.preemptedReqs.map fun ref => (p.sched.objs ref).requestId).dedup := by
  obtain ⟨made, hmake, heq⟩ := finishPass_output h
  simp only [makeSchedulerOutput, bind_ok, pure_ok] at hmake
  obtain ⟨_, _, _, _, _, _, rfl⟩ := hmake
  rw [heq]

/-- A call of `schedule` that preempts no request only takes requests out of the line, and
those it takes out are running afterwards. -/
theorem fcfs_order {env : ScheduleEnv} {s s' : Scheduler D C}
    {output : SchedulerOutput C.Metadata} (hpolicy : s.config.policy = .fcfs)
    (h : s.schedule env = .ok (output, s')) (hnone : output.preemptedReqIds = []) :
    (s'.skippedWaiting ++ s'.waiting).Sublist (s.skippedWaiting ++ s.waiting) ∧
      ∃ refs, s'.running = s.running ++ refs ∧
        (s'.skippedWaiting ++ s'.waiting ++ refs).Perm (s.skippedWaiting ++ s.waiting) := by
  simp only [schedule, bind_ok] at h
  obtain ⟨p, hloops, hfinish⟩ := h
  have hpreempted : p.preemptedReqs = [] := by
    rw [finishPass_preemptedReqIds hfinish] at hnone
    simpa using hnone
  have hframe := finishPass_quiet hfinish
  have hadvances := Pass.loops_advances hpolicy hloops hpreempted
  have hline : p.line = s'.skippedWaiting ++ s'.waiting := by
    rw [Pass.line, Pass.loops_stepSkippedWaiting hloops, hframe.skippedWaiting, hframe.waiting]
    rfl
  have hstart : (Pass.start s).line = s.skippedWaiting ++ s.waiting := rfl
  obtain ⟨refs, hrunning, hperm⟩ := hadvances.admitted
  rw [hline, hstart] at hperm
  constructor
  · rw [← hline, ← hstart]
    exact hadvances.order
  · refine ⟨refs, ?_, hperm⟩
    rw [hframe.running, hrunning]
    rfl

end Scheduler

open EngineCore

def twoRunning : SchedulerConfig Transcript := { smallConfig with maxNumRunningReqs := 2 }

def threePrompt (requestId : ReqId) (usesStructuredOutput : Bool) : Request.Args where
  requestId := requestId
  promptTokenIds := some [1, 2, 3]
  samplingParams := some { maxTokens := 8 }
  usesStructuredOutput := usesStructuredOutput

def fourWaiting : List (Call (.noConnector Transcript)) :=
  [.addRequest (threePrompt 0 true), .addRequest (threePrompt 1 true),
    .addRequest (threePrompt 2 false), .addRequest (threePrompt 3 false)]

/-- The first request is skipped and stays in front; the second and the third start. -/
theorem fcfs_order_fourWaiting : ∃ e : EngineCore Transcript (.noConnector Transcript),
    (do runOps run (← small twoRunning 16) fourWaiting) = .ok e ∧
      ∃ output s', e.scheduler.schedule { grammarReady := fun ref => ref == 1 } =
          .ok (output, s') ∧
        (s'.skippedWaiting ++ s'.waiting).Sublist
          (e.scheduler.skippedWaiting ++ e.scheduler.waiting) ∧
        s'.skippedWaiting = [0] ∧ s'.waiting = [3] ∧ s'.running = [1, 2] := by
  obtain ⟨e, hrun, output, s', hschedule, hpolicy, hnone, hlists⟩ :
      ∃ e, (do runOps run (← small twoRunning 16) fourWaiting) = .ok e ∧
        ∃ output s', e.scheduler.schedule { grammarReady := fun ref => ref == 1 } =
            .ok (output, s') ∧
          e.scheduler.config.policy = .fcfs ∧ output.preemptedReqIds = [] ∧
          s'.skippedWaiting = [0] ∧ s'.waiting = [3] ∧ s'.running = [1, 2] :=
    ⟨_, rfl, _, _, rfl, rfl, rfl, rfl, rfl, rfl⟩
  exact ⟨e, hrun, output, s', hschedule, (Scheduler.fcfs_order hpolicy hschedule hnone).1, hlists⟩

end VllmCore
