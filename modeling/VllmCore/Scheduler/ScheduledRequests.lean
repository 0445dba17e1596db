import VllmCore.Scheduler.QueuePartition
/-!
# The requests that a pass has scheduled

Every entry of `num_scheduled_tokens` belongs to a running request.  A request that is
preempted has no entry: with the first-come policy it stands behind the requests that
were scheduled, and with priorities its entry is taken back.
-/

namespace VllmCore

open List Support Dict

variable {D : Type}

namespace Scheduler

variable [DecidableEq D] {C : KVConnector D}

namespace Pass

def IsScheduled (p : Pass D C) (ref : Ref) : Prop :=
  ref ∈ p.scheduledRunningReqs ∨ ref ∈ p.scheduledNewReqs ∨ ref ∈ p.scheduledResumedReqs

structure Scheduled (p : Pass D C) : Prop where
  partitioned : p.Partitioned
  owner : ∀ rid ∈ p.numScheduledTokens.keys, ∃ ref ∈ p.sched.running,
    (p.sched.objs ref).requestId = rid ∧ p.IsScheduled ref
  before : p.sched.config.policy = .fcfs →
    ∀ ref ∈ p.scheduledRunningReqs, ref ∈ p.sched.running.take p.reqIndex

namespace Scheduled

variable {p p₁ p' : Pass D C} {ref victim : Ref} {n : Int}

theorem selectVictim (h : p.Scheduled)
    (hplanned : p.PlannedRunning ref n) (hselect : p.selectVictim = .ok (victim, p₁)) :
    (∀ rid ∈ p₁.numScheduledTokens.keys, ∃ x ∈ p₁.sched.running, x ≠ victim ∧
      (p.sched.objs x).requestId = rid ∧ p₁.IsScheduled x) ∧
    (p₁.sched.config.policy = .fcfs →
      ∀ x ∈ p₁.scheduledRunningReqs, x ∈ p₁.sched.running.take p₁.reqIndex) := by
  have hnodup : p.sched.running.Nodup := Multiset.coe_nodup.mp h.partitioned.nodup_running
  obtain ⟨hnew, hresumed⟩ := hplanned.noAdmission
  have hrunning : ∀ x, p.IsScheduled x → x ∈ p.scheduledRunningReqs := by
    intro x hx
    rcases hx with hx | hx | hx
    · exact hx
    · rw [hnew] at hx
      exact absurd hx not_mem_nil
    · rw [hresumed] at hx
      exact absurd hx not_mem_nil
  rcases selectVictim_cases hselect with ⟨hpolicy, hlast, rfl⟩ |
    ⟨hpolicy, hmem, ⟨hnot, rfl⟩ | ⟨hin, hun⟩⟩
  · -- The last request stands behind those that were scheduled.
    have hget := hplanned.index hpolicy
    have hlt := (List.getElem?_eq_some_iff.mp hget).1
    have hbefore : ∀ x ∈ p.scheduledRunningReqs,
        x ∈ p.sched.running.dropLast.take p.reqIndex := by
      intro x hx
      have htake := h.before hpolicy x hx
      rw [dropLast_eq_take, take_take, min_eq_left (by omega)]
      exact htake
    have hsplit := dropLast_append_getLast? victim hlast
    rw [← hsplit] at hnodup
    have hdisjoint : victim ∉ p.sched.running.dropLast := fun hin =>
      (nodup_append.mp hnodup).2.2 victim hin victim (mem_singleton_self victim) rfl
    refine ⟨?_, fun _ => hbefore⟩
    intro rid hrid
    obtain ⟨x, hx, hid, hscheduled⟩ := h.owner rid hrid
    have hdrop := mem_of_mem_take (hbefore x (hrunning x hscheduled))
    exact ⟨x, hdrop, fun heq => hdisjoint (heq ▸ hdrop), hid, hscheduled⟩
  · refine ⟨?_, fun hfcfs => absurd (hpolicy.symm.trans hfcfs) (by decide)⟩
    intro rid hrid
    obtain ⟨x, hx, hid, hscheduled⟩ := h.owner rid hrid
    have hne : x ≠ victim := fun heq => hnot (heq ▸ hrunning x hscheduled)
    exact ⟨x, (mem_erase_of_ne hne).mpr hx, hne, hid, hscheduled⟩
  · obtain ⟨n, restored, _, rfl⟩ := unschedule_spec hun
    refine ⟨?_, fun hfcfs => absurd (hpolicy.symm.trans hfcfs) (by decide)⟩
    intro rid hrid
    rw [mem_keys_erase] at hrid
    obtain ⟨x, hx, hid, hscheduled⟩ := h.owner rid hrid.2
    have hne : x ≠ victim := by
      rintro rfl
      exact hrid.1 hid.symm
    refine ⟨x, (mem_erase_of_ne hne).mpr hx, hne, hid, .inl ?_⟩
    exact (mem_erase_of_ne hne).mpr (hrunning x hscheduled)

theorem preempt (h : p.Scheduled)
    (hplanned : p.PlannedRunning ref n) (hselect : p.selectVictim = .ok (victim, p₁))
    (hpreempt : p₁.preempt victim = .ok p') : p'.Scheduled := by
  have hpartitioned := h.partitioned.preempt hselect hpreempt
  obtain ⟨howner, hbefore⟩ := h.selectVictim hplanned hselect
  obtain ⟨_, running, hsched, _⟩ := selectVictim_sched hselect
  obtain ⟨s, hs, rfl⟩ := preempt_spec hpreempt
  obtain ⟨_, kv, encoder, _, _, rfl⟩ := preemptRequest_spec hs
  refine ⟨hpartitioned, ?_, hbefore⟩
  intro rid hrid
  obtain ⟨x, hx, hne, hid, hscheduled⟩ := howner rid hrid
  refine ⟨x, hx, ?_, hscheduled⟩
  show (Function.update p₁.sched.objs victim (preempted (p₁.sched.objs victim)) x).requestId = rid
  rw [Function.update_of_ne hne, hsched]
  exact hid

theorem congr (h : p.Scheduled) (hpartitioned : p'.Partitioned)
    (hkeys : p'.numScheduledTokens = p.numScheduledTokens)
    (hrunning : p'.sched.running = p.sched.running)
    (hid : ∀ x, (p'.sched.objs x).requestId = (p.sched.objs x).requestId)
    (hscheduled : p'.scheduledRunningReqs = p.scheduledRunningReqs ∧
      p'.scheduledNewReqs = p.scheduledNewReqs ∧ p'.scheduledResumedReqs = p.scheduledResumedReqs)
    (hconfig : p'.sched.config = p.sched.config) (hindex : p.reqIndex ≤ p'.reqIndex) :
    p'.Scheduled := by
  obtain ⟨hr, hn, hs⟩ := hscheduled
  refine ⟨hpartitioned, ?_, ?_⟩
  · intro rid hrid
    rw [hkeys] at hrid
    obtain ⟨x, hx, hxid, hx'⟩ := h.owner rid hrid
    refine ⟨x, ?_, (hid x).trans hxid, ?_⟩
    · rw [hrunning]
      exact hx
    · unfold IsScheduled
      rw [hr, hn, hs]
      exact hx'
  · intro hfcfs x hx
    rw [hconfig] at hfcfs
    rw [hr] at hx
    rw [hrunning]
    exact take_subset_take_left p.sched.running hindex (h.before hfcfs x hx)

theorem scheduleRunning {p p' : Pass D C} {ref : Ref} {plan : Plan} {blocks : KVCacheBlocks}
    (h : p.Scheduled) (hplanned : p.PlannedRunning ref plan.numNewTokens)
    (hschedule : p.scheduleRunning ref plan blocks = .ok p') : p'.Scheduled := by
  have hpartitioned := h.partitioned.scheduleRunning hschedule
  have heq := scheduleRunning_spec hschedule
  have hids : ∀ x, (p'.sched.objs x).requestId = (p.sched.objs x).requestId := by
    intro x
    rw [heq]
    simp only [modify_objs]
    split
    next hx => rw [hx]
    · rfl
  have hrunning : p'.sched.running = p.sched.running := by
    rw [heq]
    rfl
  refine ⟨hpartitioned, ?_, ?_⟩
  · intro rid hrid
    rw [heq] at hrid
    rcases (mem_keys_set _ _ _ _).mp hrid with rfl | hrid
    · refine ⟨ref, hrunning ▸ hplanned.running, hids ref, ?_⟩
      rw [heq]
      exact .inl (mem_append_right _ mem_cons_self)
    · obtain ⟨x, hx, hid, hscheduled⟩ := h.owner rid hrid
      refine ⟨x, hrunning ▸ hx, (hids x).trans hid, ?_⟩
      rw [heq]
      rcases hscheduled with hscheduled | hscheduled
      · exact .inl (mem_append_left _ hscheduled)
      · exact .inr hscheduled
  · intro hfcfs x hx
    have hpolicy : p.sched.config.policy = .fcfs := by
      rw [heq] at hfcfs
      exact hfcfs
    have hindex : p'.reqIndex = p.reqIndex + 1 := by rw [heq]
    rw [heq] at hx
    rw [hrunning, hindex]
    rcases mem_append.mp hx with hx | hx
    · exact take_subset_take_left p.sched.running (Nat.le_succ p.reqIndex)
        (h.before hpolicy x hx)
    · rw [mem_singleton.mp hx]
      apply mem_of_getElem? (i := p.reqIndex)
      rw [getElem?_take_of_lt (Nat.lt_succ_self _)]
      exact hplanned.index hpolicy

theorem admitRunning {p p' : Pass D C} {q : QueueName} {ref : Ref} {rest : RequestQueue}
    {c : Computed} {plan : Plan} (h : p.Scheduled) (hpartitioned : p'.Partitioned)
    (hstarted : (p.withSched (p.sched.setQueue q rest)).admitRunning ref c plan = .ok p') :
    p'.Scheduled := by
  obtain ⟨hcases, heq⟩ := admitRunning_spec hstarted
  have hsched : ∀ x, p.IsScheduled x → p'.IsScheduled x := by
    intro x hx
    have hnew : x ∈ p.scheduledNewReqs → x ∈ p'.scheduledNewReqs := by
      rcases hcases with ⟨_, hn, _⟩ | ⟨_, hn, _⟩
      · rw [hn]
        exact mem_append_left _
      · rw [hn]
        exact id
    have hresumed : x ∈ p.scheduledResumedReqs → x ∈ p'.scheduledResumedReqs := by
      rcases hcases with ⟨_, _, hs⟩ | ⟨_, _, hs⟩
      · rw [hs]
        exact id
      · rw [hs]
        exact mem_append_left _
    rcases hx with hx | hx | hx
    · rw [heq]
      exact .inl hx
    · exact .inr (.inl (hnew hx))
    · exact .inr (.inr (hresumed hx))
  have hself : p'.IsScheduled ref := by
    rcases hcases with ⟨_, hn, _⟩ | ⟨_, _, hs⟩
    · refine .inr (.inl ?_)
      rw [hn]
      exact mem_append_right _ mem_cons_self
    · refine .inr (.inr ?_)
      rw [hs]
      exact mem_append_right _ mem_cons_self
  have hobjs : (p.withSched (p.sched.setQueue q rest)).sched.objs = p.sched.objs := by
    cases q <;> rfl
  have hrunning : (p.withSched (p.sched.setQueue q rest)).sched.running = p.sched.running := by
    cases q <;> rfl
  have hids : ∀ x, (p'.sched.objs x).requestId = (p.sched.objs x).requestId := by
    intro x
    rw [heq]
    simp only [modify_objs, hobjs]
    split
    next hx =>
      rw [hx]
      rfl
    · rfl
  have hrunning' : p'.sched.running = p.sched.running ++ [ref] := by
    rw [heq]
    exact congrArg (· ++ [ref]) hrunning
  refine ⟨hpartitioned, ?_, ?_⟩
  · intro rid hrid
    rw [heq] at hrid
    rcases (mem_keys_set _ _ _ _).mp hrid with rfl | hrid
    · refine ⟨ref, ?_, ?_, hself⟩
      · rw [hrunning']
        exact mem_append_right _ mem_cons_self
      · rw [hids ref]
        cases q <;> rfl
    · obtain ⟨x, hx, hid, hx'⟩ := h.owner rid hrid
      refine ⟨x, ?_, (hids x).trans hid, hsched x hx'⟩
      rw [hrunning']
      exact mem_append_left _ hx
  · intro hfcfs x hx
    have hpolicy : p.sched.config.policy = .fcfs := by
      rw [heq] at hfcfs
      cases q <;> exact hfcfs
    have hx' : x ∈ p.scheduledRunningReqs := by
      rw [heq] at hx
      exact hx
    have hindex : p'.reqIndex = p.reqIndex := by
      rw [heq]
      rfl
    rw [hrunning', hindex, take_append]
    exact mem_append_left _ (h.before hpolicy x hx')

theorem cachesOnly (h : p.Scheduled) (hsame : p.sched.CachesOnly p'.sched)
    (heq : p' = p.withSched p'.sched) : p'.Scheduled := by
  have hpartitioned := h.partitioned.cachesOnly hsame (by rw [heq]; rfl)
  refine h.congr hpartitioned ?_ ?_ ?_ ?_ ?_ ?_
  · rw [heq]
    rfl
  · rw [hsame.eq]
  · intro x
    rw [hsame.objs]
  · rw [heq]
    exact ⟨rfl, rfl, rfl⟩
  · rw [hsame.eq]
  · rw [heq]
    exact le_rfl

theorem step {env : ScheduleEnv} (h : p.Scheduled) (hstep : PassStep env p p') : p'.Scheduled := by
  have hpartitioned := h.partitioned.step hstep
  cases hstep with
  | skipRunning =>
    exact h.congr hpartitioned rfl rfl (fun _ => rfl) ⟨rfl, rfl, rfl⟩ rfl (Nat.le_succ _)
  | encoders hscan =>
    have hsame := tryScheduleEncoderInputs_same hscan
    rw [hsame.eq] at hpartitioned ⊢
    exact h.congr hpartitioned rfl rfl (fun _ => rfl) ⟨rfl, rfl, rfl⟩ rfl le_rfl
  | allocationFailed _ halloc =>
    obtain ⟨hsame, heq⟩ := allocateRunning_spec halloc
    exact h.cachesOnly hsame heq
  | preempt hplanned hselect hpreempt => exact h.preempt hplanned hselect hpreempt
  | scheduleRunning hplanned halloc hschedule =>
    obtain ⟨hsame, heq⟩ := allocateRunning_spec halloc
    exact (h.cachesOnly hsame heq).scheduleRunning (hplanned.allocateRunning halloc) hschedule
  | recordLoras hloras =>
    rw [recordLoras_spec hloras] at hpartitioned ⊢
    exact h.congr hpartitioned rfl rfl (fun _ => rfl) ⟨rfl, rfl, rfl⟩ rfl le_rfl
  | @promote q ref res hmem hpromote =>
    rcases tryPromote_spec hpromote with rfl | ⟨_, s₁, f, status, hkept, _, hf, _, heq⟩
    · exact h
    · have hid : ∀ r : Request D, (f r).requestId = r.requestId := by
        intro r
        rcases hf with rfl | rfl <;> rfl
      refine h.congr hpartitioned rfl ?_ ?_ ⟨rfl, rfl, rfl⟩ ?_ le_rfl
      · show res.2.running = p.sched.running
        rw [heq, hkept.eq]
        rfl
      · intro x
        show (res.2.objs x).requestId = (p.sched.objs x).requestId
        rw [heq]
        simp only [modify_objs, hkept.objs]
        split
        next hx => rw [hid, hx]
        · rfl
      · show res.2.config = p.sched.config
        rw [heq, hkept.eq]
        rfl
  | @skipWaiting _ q hskip =>
    obtain ⟨ref, rest, _, rfl⟩ := skipWaiting_spec hskip
    cases q with
    | waiting =>
      exact h.congr hpartitioned rfl rfl (fun _ => rfl) ⟨rfl, rfl, rfl⟩ rfl le_rfl
    | skippedWaiting =>
      exact h.congr hpartitioned rfl rfl (fun _ => rfl) ⟨rfl, rfl, rfl⟩ rfl le_rfl
  | findComputed _ hfind =>
    obtain ⟨s₁, n, hcaches, heq⟩ := findComputed_spec hfind
    rw [heq] at hpartitioned ⊢
    refine h.congr hpartitioned rfl ?_ ?_ ⟨rfl, rfl, rfl⟩ ?_ le_rfl
    · rw [hcaches.eq]
      rfl
    · intro x
      simp only [modify_objs, hcaches.objs]
      split
      next hx => rw [hx]
      · rfl
    · rw [hcaches.eq]
      rfl
  | admissionFailed _ _ halloc =>
    obtain ⟨hsame, heq⟩ := allocateWaiting_spec halloc
    exact h.cachesOnly hsame heq
  | @admitLoading p₁ p₂ q ref rest c plan _ _ halloc hupdate hpop =>
    obtain ⟨hsame, heq⟩ := reserve_spec halloc hupdate
    have hbefore := h.cachesOnly hsame heq
    have hid : ∀ x, ((((p₂.withSched (p₂.sched.setQueue q rest)).admitLoading ref c)).sched.objs
        x).requestId = (p₂.sched.objs x).requestId := by
      intro x
      simp only [Pass.admitLoading, modify_objs]
      split
      next hx =>
        rw [hx]
        cases q <;> rfl
      · cases q <;> rfl
    refine hbefore.congr hpartitioned rfl ?_ hid ⟨rfl, rfl, rfl⟩ ?_ le_rfl
    · cases q <;> rfl
    · cases q <;> rfl
  | admitRunning _ _ halloc hupdate hpop hstarted =>
    obtain ⟨hsame, heq⟩ := reserve_spec halloc hupdate
    exact (h.cachesOnly hsame heq).admitRunning hpartitioned hstarted
  | requeueSkipped =>
    exact h.congr hpartitioned rfl rfl (fun _ => rfl) ⟨rfl, rfl, rfl⟩ rfl le_rfl

theorem start {s : Scheduler D C} (h : s.Partitioned) : (Pass.start s).Scheduled := by
  refine ⟨?_, ?_, ?_⟩
  · unfold Pass.Partitioned
    simp only [Pass.start, Multiset.coe_nil, add_zero]
    exact Partition.congr h (.of_objs 0 rfl rfl rfl) rfl
  · exact fun rid hrid => absurd hrid not_mem_nil
  · exact fun _ x hx => absurd hx not_mem_nil

theorem lookup_owner (h : p.Scheduled) {rid : ReqId} (hrid : rid ∈ p.numScheduledTokens.keys) :
    ∃ ref ∈ p.sched.running, p.sched.requests.get? rid = some ref ∧
      (p.sched.objs ref).status = .running := by
  obtain ⟨ref, hmem, rfl, _⟩ := h.owner rid hrid
  obtain ⟨hreg, hstatus⟩ := (h.partitioned.mem_running ref).mp hmem
  exact ⟨ref, hmem, hreg, hstatus⟩

theorem waiting_not_mem (h : p.Scheduled) {q : QueueName} (hmem : ref ∈ p.sched.queue q) :
    p.sched.Registered ref ∧ (p.sched.objs ref).status.isWaiting = true ∧
      (p.sched.objs ref).requestId ∉ p.numScheduledTokens.keys := by
  have hwaits : ref ∈ p.sched.waitingRefs + ↑p.stepSkippedWaiting :=
    Multiset.mem_add.mpr (.inl (mem_waitingRefs hmem))
  obtain ⟨hreg, hstatus⟩ := (h.partitioned.mem_waiting ref).mp hwaits
  refine ⟨hreg, hstatus, fun hkey => ?_⟩
  obtain ⟨x, _, hx, hrun⟩ := h.lookup_owner hkey
  rw [hreg] at hx
  cases hx
  rw [hrun] at hstatus
  cases hstatus

end Scheduled

end Pass

end Scheduler

end VllmCore
