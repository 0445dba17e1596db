import VllmCore.Scheduler.ScheduledRequests
import VllmCore.Scheduler.StopConditions
import VllmCore.Scheduler.QueueRuns
import Mathlib.Algebra.BigOperators.Group.List.Basic
/-!
# The token budget of a pass

Throughout the two loops the budget and the scheduled tokens add up to the budget that
the call starts with, and the running list never outgrows its bound.  The budget stays
above zero when no running request is ahead of its tokens at the call.
-/

namespace VllmCore

open List Support Dict

variable {D : Type}

/-! ## The values of a dictionary -/

theorem Support.Dict.sum_values_set {K : Type} [DecidableEq K] {d : Dict K Int} {k : K}
    (h : k ∉ d.keys) (n : Int) : (d.set k n).values.sum = d.values.sum + n := by
  rw [Dict.values, entries_set_new d h]
  simp [Dict.values]

theorem Support.Dict.sum_values_erase {K : Type} [DecidableEq K] {d : Dict K Int} {k : K}
    {n : Int} (h : d.get? k = some n) : (d.erase k).values.sum + n = d.values.sum := by
  have hperm := ((d.entries_perm_erase h).map Prod.snd).sum_eq
  show (d.erase k).values.sum + n = (d.entries.map Prod.snd).sum
  rw [hperm]
  exact add_comm _ _

theorem Support.Dict.mem_values {K V : Type} [DecidableEq K] {d : Dict K V} {v : V} :
    v ∈ d.values ↔ ∃ k, d.get? k = some v := by
  unfold Dict.values
  rw [mem_map]
  constructor
  · rintro ⟨⟨k, w⟩, hmem, rfl⟩
    exact ⟨k, (get?_eq_some_iff d k w).mpr hmem⟩
  · rintro ⟨k, hk⟩
    exact ⟨(k, v), (get?_eq_some_iff d k v).mp hk, rfl⟩

namespace Scheduler

variable [DecidableEq D] {C : KVConnector D}

/-- The budget that `schedule` starts with: none while everything is paused. -/
def startBudget (s : Scheduler D C) : Int :=
  if s.pauseState = .pausedAll then 0 else s.config.maxNumScheduledTokens

def NoneAhead (s : Scheduler D C) : Prop :=
  ∀ ref ∈ s.running, (s.objs ref).NotAhead s.config.maxModelLen

namespace Pass

variable {p p₁ p' : Pass D C} {s : Scheduler D C}

def scheduledReqs (p : Pass D C) : List Ref :=
  p.scheduledRunningReqs ++ (p.scheduledNewReqs ++ p.scheduledResumedReqs)

def lists (p : Pass D C) : List Ref × List Ref × List Ref × List Ref :=
  (p.scheduledRunningReqs, p.scheduledNewReqs, p.scheduledResumedReqs, p.preemptedReqs)

theorem mem_scheduledReqs {ref : Ref} : ref ∈ p.scheduledReqs ↔ p.IsScheduled ref := by
  simp [scheduledReqs, IsScheduled]

/-! ## The balance -/

/-- The budget and the scheduled tokens add up, and the scheduled requests are running. -/
structure Balanced (s : Scheduler D C) (p : Pass D C) : Prop where
  scheduled : p.Scheduled
  config : p.sched.config = s.config
  balance : p.tokenBudget + p.numScheduledTokens.values.sum = s.startBudget
  room : p.sched.running.length ≤ s.config.maxNumRunningReqs
  distinct : p.NoAdmission → p.Distinct
  nodup : p.scheduledReqs.Nodup
  running : ∀ ref ∈ p.scheduledReqs, ref ∈ p.sched.running

namespace Balanced

theorem congr (h : p.Balanced s) (hscheduled : p'.Scheduled)
    (hentries : p'.numScheduledTokens = p.numScheduledTokens)
    (hbudget : p'.tokenBudget = p.tokenBudget) (hlists : p'.lists = p.lists)
    (hrunning : p'.sched.running = p.sched.running)
    (hconfig : p'.sched.config = p.sched.config) : p'.Balanced s := by
  simp only [lists, Prod.mk.injEq] at hlists
  obtain ⟨hold, hnew, hresumed, hpreempted⟩ := hlists
  have hreqs : p'.scheduledReqs = p.scheduledReqs := by
    unfold Pass.scheduledReqs
    rw [hold, hnew, hresumed]
  refine ⟨hscheduled, hconfig.trans h.config, ?_, ?_, ?_, ?_, ?_⟩
  · rw [hentries, hbudget]
    exact h.balance
  · rw [hrunning]
    exact h.room
  · unfold NoAdmission Distinct
    rw [hnew, hresumed, hpreempted, hrunning]
    exact h.distinct
  · rw [hreqs]
    exact h.nodup
  · rw [hreqs, hrunning]
    exact h.running

theorem not_mem_keys (h : p.Balanced s) {ref : Ref} (hmem : ref ∈ p.sched.running)
    (hfresh : ref ∉ p.scheduledReqs) :
    (p.sched.objs ref).requestId ∉ p.numScheduledTokens.keys := by
  intro hkey
  obtain ⟨x, hx, hid, hscheduled⟩ := h.scheduled.owner _ hkey
  have hx' := ((h.scheduled.partitioned.mem_running x).mp hx).1
  have href := ((h.scheduled.partitioned.mem_running ref).mp hmem).1
  unfold Registered at hx' href
  rw [hid, href] at hx'
  cases hx'
  exact hfresh (mem_scheduledReqs.mpr hscheduled)

theorem cachesOnly (h : p.Balanced s) (hsame : p.sched.CachesOnly p'.sched)
    (heq : p' = p.withSched p'.sched) : p'.Balanced s := by
  have hscheduled := h.scheduled.cachesOnly hsame heq
  refine h.congr hscheduled ?_ ?_ ?_ ?_ ?_
  · rw [heq]
    rfl
  · rw [heq]
    rfl
  · rw [heq]
    rfl
  · rw [hsame.eq]
  · rw [hsame.eq]

end Balanced

theorem NoAdmission.scheduledReqs (h : p.NoAdmission) :
    p.scheduledReqs = p.scheduledRunningReqs := by
  unfold Pass.scheduledReqs
  rw [h.1, h.2]
  simp

namespace Balanced

theorem scheduleRunning {ref : Ref} {plan : Plan} {blocks : KVCacheBlocks}
    (h : p.Balanced s) (hplanned : p.PlannedRunning ref plan.numNewTokens)
    (hscheduled : p'.Scheduled) (hschedule : p.scheduleRunning ref plan blocks = .ok p') :
    p'.Balanced s := by
  have hreqs := hplanned.noAdmission.scheduledReqs
  have hdistinct := h.distinct hplanned.noAdmission
  have hfresh : ref ∉ p.scheduledReqs := by
    rw [hreqs]
    exact hplanned.fresh hdistinct
  have hkey := h.not_mem_keys hplanned.running hfresh
  have heq := scheduleRunning_spec hschedule
  have hreqs' : p'.scheduledReqs = p.scheduledRunningReqs ++ [ref] := by
    rw [heq]
    show p.scheduledRunningReqs ++ [ref] ++ (p.scheduledNewReqs ++ p.scheduledResumedReqs) = _
    rw [hplanned.noAdmission.1, hplanned.noAdmission.2]
    simp
  have hnodup := h.nodup
  rw [hreqs] at hnodup
  refine ⟨hscheduled, ?_, ?_, ?_, ?_, ?_, ?_⟩
  · rw [heq]
    exact h.config
  · rw [heq]
    show p.tokenBudget - plan.numNewTokens +
      (p.numScheduledTokens.set (p.sched.objs ref).requestId plan.numNewTokens).values.sum =
        s.startBudget
    rw [sum_values_set hkey]
    have := h.balance
    omega
  · rw [heq]
    exact h.room
  · intro _
    rw [heq]
    exact hdistinct
  · rw [hreqs', ← concat_eq_append, nodup_concat]
    exact ⟨hplanned.fresh hdistinct, hnodup⟩
  · intro x hx
    rw [hreqs'] at hx
    have hmem : x ∈ p.sched.running := by
      rcases mem_append.mp hx with hx | hx
      · exact h.running x (hreqs ▸ hx)
      · rw [mem_singleton.mp hx]
        exact hplanned.running
    rw [heq]
    exact hmem

theorem preempt {ref victim : Ref} {n : Int} (h : p.Balanced s)
    (hplanned : p.PlannedRunning ref n) (hscheduled : p'.Scheduled)
    (hselect : p.selectVictim = .ok (victim, p₁)) (hpreempt : p₁.preempt victim = .ok p') :
    p'.Balanced s := by
  have hdistinct := h.distinct hplanned.noAdmission
  have hdistinct' := (distinct_preempt hselect hpreempt).mpr hdistinct
  obtain ⟨horder, _, _⟩ := hplanned.selectVictim hdistinct hselect
  obtain ⟨hnew, hresumed⟩ := selectVictim_noAdmission hselect
  obtain ⟨_, running, hsched, hperm⟩ := selectVictim_sched hselect
  have hlen : p₁.sched.running.length ≤ p.sched.running.length := by
    have := hperm.length_eq
    rw [hsched]
    simp only [length_cons] at this
    show running.length ≤ _
    omega
  have hbalance : p₁.tokenBudget + p₁.numScheduledTokens.values.sum = s.startBudget := by
    rcases selectVictim_cases hselect with ⟨_, _, rfl⟩ | ⟨_, _, ⟨_, rfl⟩ | ⟨_, hun⟩⟩
    · exact h.balance
    · exact h.balance
    · obtain ⟨m, restored, hm, rfl⟩ := unschedule_spec hun
      have hsum := sum_values_erase hm
      have hbalance := h.balance
      show p.tokenBudget + m + (p.numScheduledTokens.erase _).values.sum = s.startBudget
      change (p.numScheduledTokens.erase _).values.sum + m = p.numScheduledTokens.values.sum at hsum
      omega
  have hnoAdmission : p₁.NoAdmission :=
    ⟨hnew.trans hplanned.noAdmission.1, hresumed.trans hplanned.noAdmission.2⟩
  have hreqs := hnoAdmission.scheduledReqs
  have hconfig : p₁.sched.config = s.config := by
    rw [hsched]
    exact h.config
  obtain ⟨s₁, hs, rfl⟩ := preempt_spec hpreempt
  obtain ⟨_, kv, encoder, _, _, rfl⟩ := preemptRequest_spec hs
  refine ⟨hscheduled, hconfig, hbalance, hlen.trans h.room, fun _ => hdistinct', ?_, ?_⟩
  · show p₁.scheduledReqs.Nodup
    rw [hreqs]
    exact horder.nodup
  · intro x hx
    have hx' : x ∈ p₁.scheduledRunningReqs := hreqs ▸ hx
    exact mem_of_mem_take (horder.scheduled x hx')

theorem admitRunning {q : QueueName} {ref : Ref} {rest : RequestQueue} {c : Computed}
    {plan : Plan} (h : p.Balanced s) (hmem : ref ∈ p.sched.queue q)
    (hroom : p.sched.running.length ≠ s.config.maxNumRunningReqs) (hscheduled : p'.Scheduled)
    (hstarted : (p.withSched (p.sched.setQueue q rest)).admitRunning ref c plan = .ok p') :
    p'.Balanced s := by
  obtain ⟨_, hwaits, hkey⟩ := h.scheduled.waiting_not_mem hmem
  have hnotRunning : ref ∉ p.sched.running := by
    intro hrun
    have hstatus := ((h.scheduled.partitioned.mem_running ref).mp hrun).2
    rw [hstatus] at hwaits
    cases hwaits
  have hfresh : ref ∉ p.scheduledReqs := fun hin => hnotRunning (h.running ref hin)
  obtain ⟨hcases, heq⟩ := admitRunning_spec hstarted
  have hrid : ((p.withSched (p.sched.setQueue q rest)).request ref).requestId =
      (p.sched.objs ref).requestId := by cases q <;> rfl
  have hrunning : p'.sched.running = p.sched.running ++ [ref] := by
    rw [heq]
    cases q <;> rfl
  have hconfig : p'.sched.config = p.sched.config := by
    rw [heq]
    cases q <;> rfl
  have hperm : p'.scheduledReqs.Perm (ref :: p.scheduledReqs) := by
    have hold : p'.scheduledRunningReqs = p.scheduledRunningReqs := by
      rw [heq]
      rfl
    unfold Pass.scheduledReqs
    rcases hcases with ⟨_, hnew, hresumed⟩ | ⟨_, hnew, hresumed⟩
    · rw [hold, hnew, hresumed]
      have : p.scheduledRunningReqs ++ (p.scheduledNewReqs ++ [ref] ++ p.scheduledResumedReqs) =
          p.scheduledRunningReqs ++ p.scheduledNewReqs ++ ref :: p.scheduledResumedReqs := by simp
      show (p.scheduledRunningReqs ++
        (p.scheduledNewReqs ++ [ref] ++ p.scheduledResumedReqs)).Perm _
      rw [this, ← append_assoc]
      exact perm_middle
    · rw [hold, hnew, hresumed]
      rw [← append_assoc, ← append_assoc, ← append_assoc]
      exact perm_append_singleton ref _
  refine ⟨hscheduled, hconfig.trans h.config, ?_, ?_, ?_, ?_, ?_⟩
  · rw [heq]
    show p.tokenBudget - plan.numNewTokens + (p.numScheduledTokens.set
      ((p.withSched (p.sched.setQueue q rest)).request ref).requestId
      plan.numNewTokens).values.sum = s.startBudget
    rw [hrid, sum_values_set hkey]
    have := h.balance
    omega
  · rw [hrunning, length_append, length_singleton]
    have := h.room
    omega
  · rintro ⟨hnoNew, hnoResumed⟩
    rcases hcases with ⟨_, hnew, _⟩ | ⟨_, _, hresumed⟩
    · exact absurd (hnew.symm.trans hnoNew) (append_ne_nil_of_right_ne_nil _ (by simp))
    · exact absurd (hresumed.symm.trans hnoResumed) (append_ne_nil_of_right_ne_nil _ (by simp))
  · rw [hperm.nodup_iff]
    exact nodup_cons.mpr ⟨hfresh, h.nodup⟩
  · intro x hx
    rw [hrunning]
    rcases mem_cons.mp (hperm.mem_iff.mp hx) with rfl | hx
    · exact mem_append_right _ mem_cons_self
    · exact mem_append_left _ (h.running x hx)

theorem step {env : ScheduleEnv} (h : p.Balanced s) (hstep : PassStep env p p') :
    p'.Balanced s := by
  have hscheduled := h.scheduled.step hstep
  cases hstep with
  | skipRunning => exact h.congr hscheduled rfl rfl rfl rfl rfl
  | encoders hscan =>
    have hsame := tryScheduleEncoderInputs_same hscan
    rw [hsame.eq] at hscheduled ⊢
    exact h.congr hscheduled rfl rfl rfl rfl rfl
  | allocationFailed _ halloc =>
    obtain ⟨hsame, heq⟩ := allocateRunning_spec halloc
    exact h.cachesOnly hsame heq
  | preempt hplanned hselect hpreempt => exact h.preempt hplanned hscheduled hselect hpreempt
  | scheduleRunning hplanned halloc hschedule =>
    obtain ⟨hsame, heq⟩ := allocateRunning_spec halloc
    exact (h.cachesOnly hsame heq).scheduleRunning (hplanned.allocateRunning halloc) hscheduled
      hschedule
  | recordLoras hloras =>
    rw [recordLoras_spec hloras] at hscheduled ⊢
    exact h.congr hscheduled rfl rfl rfl rfl rfl
  | promote hmem hpromote =>
    have hlists := tryPromote_queues hpromote
    exact h.congr hscheduled rfl rfl rfl hlists.running hlists.config
  | @skipWaiting _ q hskip =>
    obtain ⟨ref, rest, _, rfl⟩ := skipWaiting_spec hskip
    cases q with
    | waiting => exact h.congr hscheduled rfl rfl rfl rfl rfl
    | skippedWaiting => exact h.congr hscheduled rfl rfl rfl rfl rfl
  | findComputed hmem hfind =>
    obtain ⟨s₁, n, hcaches, heq⟩ := findComputed_spec hfind
    rw [heq] at hscheduled ⊢
    refine h.congr hscheduled rfl rfl rfl ?_ ?_
    · rw [hcaches.eq]
      rfl
    · rw [hcaches.eq]
      rfl
  | admissionFailed _ _ halloc =>
    obtain ⟨hsame, heq⟩ := allocateWaiting_spec halloc
    exact h.cachesOnly hsame heq
  | @admitLoading p₁ p₂ q ref rest c plan _ _ halloc hupdate hpop =>
    obtain ⟨hsame, heq⟩ := reserve_spec halloc hupdate
    refine (h.cachesOnly hsame heq).congr hscheduled rfl rfl rfl ?_ ?_
    · cases q <;> rfl
    · cases q <;> rfl
  | @admitRunning p₁ p₂ _ q ref rest c plan hplanned _ halloc hupdate hpop hstarted =>
    obtain ⟨hsame, heq⟩ := reserve_spec halloc hupdate
    have hroom : p₂.sched.running.length ≠ s.config.maxNumRunningReqs := by
      rw [hsame.eq, ← h.config]
      exact hplanned.room
    have hmem : ref ∈ p₂.sched.queue q :=
      (RequestQueue.popRequest_perm _ _ hpop).mem_iff.mpr mem_cons_self
    exact (h.cachesOnly hsame heq).admitRunning hmem hroom hscheduled hstarted
  | requeueSkipped => exact h.congr hscheduled rfl rfl rfl rfl rfl

theorem start (h : s.Partitioned) (hroom : s.running.length ≤ s.config.maxNumRunningReqs) :
    (Pass.start s).Balanced s := by
  refine ⟨.start h, rfl, ?_, hroom, ?_, nodup_nil, fun x hx => absurd hx not_mem_nil⟩
  rotate_left
  · intro _
    show (s.running ++ []).Nodup
    rw [append_nil]
    exact Multiset.coe_nodup.mp h.nodup_running
  exact add_zero _

end Balanced

/-! ## The budget stays above zero -/

/-- Every entry is positive, and no running request that can still be scheduled is ahead
of its tokens. -/
structure Level (p : Pass D C) : Prop where
  nonneg : 0 ≤ p.tokenBudget
  positive : ∀ rid n, p.numScheduledTokens.get? rid = some n → 0 < n
  takenBack : ∀ m ∈ p.takenBack, 0 ≤ m
  notAhead : ∀ ref ∈ p.sched.running, ref ∉ p.scheduledReqs →
    (p.sched.objs ref).NotAhead p.sched.config.maxModelLen

namespace Level

theorem congr (h : p.Level) (hbudget : p'.tokenBudget = p.tokenBudget)
    (hentries : p'.numScheduledTokens = p.numScheduledTokens)
    (htakenBack : p'.takenBack = p.takenBack) (hreqs : p'.scheduledReqs = p.scheduledReqs)
    (hrunning : p'.sched.running = p.sched.running) (hconfig : p'.sched.config = p.sched.config)
    (hobjs : ∀ ref ∈ p.sched.running, p'.sched.objs ref = p.sched.objs ref) : p'.Level := by
  refine ⟨?_, ?_, ?_, ?_⟩
  · rw [hbudget]
    exact h.nonneg
  · rw [hentries]
    exact h.positive
  · rw [htakenBack]
    exact h.takenBack
  · intro ref hmem hfresh
    rw [hrunning] at hmem
    rw [hreqs] at hfresh
    rw [hobjs ref hmem, hconfig]
    exact h.notAhead ref hmem hfresh

theorem cachesOnly (h : p.Level) (hsame : p.sched.CachesOnly p'.sched)
    (heq : p' = p.withSched p'.sched) : p'.Level := by
  refine h.congr ?_ ?_ ?_ ?_ ?_ ?_ ?_
  · rw [heq]
    rfl
  · rw [heq]
    rfl
  · rw [heq]
    rfl
  · rw [heq]
    rfl
  · rw [hsame.eq]
  · rw [hsame.eq]
  · intro ref _
    rw [hsame.objs]

theorem congr_modify {ref : Ref} {f : Request D → Request D} (h : p.Level)
    (hnot : ref ∉ p.sched.running) (hbudget : p'.tokenBudget = p.tokenBudget)
    (hentries : p'.numScheduledTokens = p.numScheduledTokens)
    (htakenBack : p'.takenBack = p.takenBack) (hreqs : p'.scheduledReqs = p.scheduledReqs)
    (hrunning : p'.sched.running = p.sched.running) (hconfig : p'.sched.config = p.sched.config)
    (hs : s.objs = p.sched.objs) (hobjs : p'.sched.objs = (s.modify ref f).objs) : p'.Level := by
  refine h.congr hbudget hentries htakenBack hreqs hrunning hconfig ?_
  intro x hx
  have hne : x ≠ ref := by
    rintro rfl
    exact hnot hx
  rw [hobjs, modify_objs, if_neg hne, hs]

theorem scheduleRunning {ref : Ref} {plan : Plan} {blocks : KVCacheBlocks} (h : p.Level)
    (hdistinct : p.Distinct) (hplanned : p.PlannedRunning ref plan.numNewTokens)
    (hschedule : p.scheduleRunning ref plan blocks = .ok p') : p'.Level := by
  have hreqs := hplanned.noAdmission.scheduledReqs
  have hlevel := h.notAhead ref hplanned.running (by rw [hreqs]; exact hplanned.fresh hdistinct)
  have hpositive := hplanned.positive hlevel
  have hle := hplanned.le_budget h.takenBack
  have heq := scheduleRunning_spec hschedule
  refine ⟨?_, ?_, ?_, ?_⟩
  · rw [heq]
    show 0 ≤ p.tokenBudget - plan.numNewTokens
    omega
  · intro rid n hn
    rw [heq] at hn
    rw [get?_set] at hn
    split at hn
    · cases hn
      exact hpositive
    · exact h.positive rid n hn
  · rw [heq]
    exact h.takenBack
  · intro x hx hfresh
    have hreqs' : p'.scheduledReqs = p.scheduledRunningReqs ++ [ref] ++
        (p.scheduledNewReqs ++ p.scheduledResumedReqs) := by
      rw [heq]
      rfl
    rw [hreqs'] at hfresh
    have hne : x ≠ ref := by
      rintro rfl
      simp at hfresh
    have hfresh' : x ∉ p.scheduledReqs := by
      rw [hreqs]
      intro hin
      exact hfresh (mem_append_left _ (mem_append_left _ hin))
    have hobjs : p'.sched.objs x = p.sched.objs x := by
      rw [heq]
      simp only [modify_objs, if_neg hne]
    have hconfig : p'.sched.config = p.sched.config := by
      rw [heq]
      rfl
    rw [heq] at hx
    rw [hobjs, hconfig]
    exact h.notAhead x hx hfresh'

theorem preempt {ref victim : Ref} {n : Int} (h : p.Level) (hdistinct : p.Distinct)
    (hplanned : p.PlannedRunning ref n) (hselect : p.selectVictim = .ok (victim, p₁))
    (hpreempt : p₁.preempt victim = .ok p') :
    p'.Level := by
  obtain ⟨_, running, hsched, hperm⟩ := selectVictim_sched hselect
  have hnodup : (victim :: running).Nodup := hperm.nodup_iff.mp hdistinct.running
  have hreqs := hplanned.noAdmission.scheduledReqs
  have hentries : 0 ≤ p₁.tokenBudget ∧
      (∀ rid n, p₁.numScheduledTokens.get? rid = some n → 0 < n) ∧
      (∀ m ∈ p₁.takenBack, 0 ≤ m) ∧
      ∀ x, x ≠ victim → x ∉ p₁.scheduledReqs → x ∉ p.scheduledReqs := by
    rcases selectVictim_cases hselect with ⟨_, _, rfl⟩ | ⟨_, _, ⟨_, rfl⟩ | ⟨_, hun⟩⟩
    · exact ⟨h.nonneg, h.positive, h.takenBack, fun _ _ => id⟩
    · exact ⟨h.nonneg, h.positive, h.takenBack, fun _ _ => id⟩
    · obtain ⟨m, restored, hm, rfl⟩ := unschedule_spec hun
      have hpos : 0 < m := h.positive _ m hm
      have hbudget := h.nonneg
      refine ⟨?_, ?_, ?_, ?_⟩
      · show 0 ≤ p.tokenBudget + m
        omega
      · intro rid k hk
        rw [get?_erase] at hk
        split at hk
        · cases hk
        · exact h.positive rid k hk
      · intro k hk
        rcases mem_append.mp hk with hk | hk
        · exact h.takenBack k hk
        · rw [mem_singleton.mp hk]
          exact hpos.le
      · intro x hne hx hin
        apply hx
        rw [hreqs] at hin
        exact mem_append_left _ ((mem_erase_of_ne hne).mpr hin)
  obtain ⟨hnonneg, hpositive, htakenBack, hscheduled⟩ := hentries
  obtain ⟨s₁, hs, rfl⟩ := preempt_spec hpreempt
  obtain ⟨_, kv, encoder, _, _, rfl⟩ := preemptRequest_spec hs
  refine ⟨hnonneg, hpositive, htakenBack, ?_⟩
  intro x hx hfresh
  have hmem : x ∈ running := by
    rw [hsched] at hx
    exact hx
  have hne : x ≠ victim := by
    rintro rfl
    exact (nodup_cons.mp hnodup).1 hmem
  have hlevel := h.notAhead x (hperm.mem_iff.mpr (mem_cons_of_mem victim hmem))
    (hscheduled x hne hfresh)
  change (Function.update p₁.sched.objs victim (preempted (p₁.sched.objs victim)) x).NotAhead
    p₁.sched.config.maxModelLen
  rw [Function.update_of_ne hne, hsched]
  exact hlevel

theorem admitRunning {q : QueueName} {ref : Ref} {rest : RequestQueue} {c : Computed}
    {plan : Plan} (h : p.Level) (hnot : ref ∉ p.sched.running)
    (hpositive : 0 < plan.numNewTokens) (hle : plan.numNewTokens ≤ p.tokenBudget)
    (hstarted : (p.withSched (p.sched.setQueue q rest)).admitRunning ref c plan = .ok p') :
    p'.Level := by
  obtain ⟨hcases, heq⟩ := admitRunning_spec hstarted
  have hrunning : p'.sched.running = p.sched.running ++ [ref] := by
    rw [heq]
    cases q <;> rfl
  have hold : p'.scheduledRunningReqs = p.scheduledRunningReqs := by
    rw [heq]
    rfl
  have hreqs : ∀ x, x ∈ p.scheduledReqs ∨ x = ref → x ∈ p'.scheduledReqs := by
    intro x hx
    unfold Pass.scheduledReqs at hx ⊢
    rw [hold]
    rcases hcases with ⟨_, hnew, hresumed⟩ | ⟨_, hnew, hresumed⟩
    all_goals
      rw [hnew, hresumed]
      simp only [mem_append, mem_singleton] at hx ⊢
      tauto
  refine ⟨?_, ?_, ?_, ?_⟩
  · rw [heq]
    show 0 ≤ p.tokenBudget - plan.numNewTokens
    omega
  · intro rid n hn
    rw [heq] at hn
    rw [get?_set] at hn
    split at hn
    · cases hn
      exact hpositive
    · exact h.positive rid n hn
  · rw [heq]
    exact h.takenBack
  · intro x hx hfresh
    have hne : x ≠ ref := by
      rintro rfl
      exact hfresh (hreqs x (.inr rfl))
    have hmem : x ∈ p.sched.running := by
      rw [hrunning] at hx
      rcases mem_append.mp hx with hx | hx
      · exact hx
      · exact absurd (mem_singleton.mp hx) hne
    have hlevel := h.notAhead x hmem fun hin => hfresh (hreqs x (.inl hin))
    have hobjs : p'.sched.objs x = p.sched.objs x := by
      rw [heq]
      simp only [modify_objs, if_neg hne]
      cases q <;> rfl
    have hconfig : p'.sched.config = p.sched.config := by
      rw [heq]
      cases q <;> rfl
    rw [hobjs, hconfig]
    exact hlevel

theorem step {env : ScheduleEnv} (hb : p.Balanced s) (h : p.Level)
    (hstep : PassStep env p p') : p'.Level := by
  -- A request that waits is not running.
  have hnot : ∀ {p : Pass D C} {q : QueueName} {ref : Ref}, p.Scheduled → ref ∈ p.sched.queue q →
      ref ∉ p.sched.running := by
    intro p q ref hscheduled hmem hrun
    obtain ⟨_, hwaits, _⟩ := hscheduled.waiting_not_mem hmem
    have hstatus := ((hscheduled.partitioned.mem_running ref).mp hrun).2
    rw [hstatus] at hwaits
    cases hwaits
  cases hstep with
  | skipRunning => exact h.congr rfl rfl rfl rfl rfl rfl fun _ _ => rfl
  | encoders hscan =>
    have hsame := tryScheduleEncoderInputs_same hscan
    rw [hsame.eq]
    exact h.congr rfl rfl rfl rfl rfl rfl fun _ _ => rfl
  | allocationFailed _ halloc =>
    obtain ⟨hsame, heq⟩ := allocateRunning_spec halloc
    exact h.cachesOnly hsame heq
  | preempt hplanned hselect hpreempt =>
    exact h.preempt (hb.distinct hplanned.noAdmission) hplanned hselect hpreempt
  | scheduleRunning hplanned halloc hschedule =>
    obtain ⟨hsame, heq⟩ := allocateRunning_spec halloc
    have hplanned' := hplanned.allocateRunning halloc
    exact (h.cachesOnly hsame heq).scheduleRunning
      ((hb.cachesOnly hsame heq).distinct hplanned'.noAdmission) hplanned' hschedule
  | recordLoras hloras =>
    rw [recordLoras_spec hloras]
    exact h.congr rfl rfl rfl rfl rfl rfl fun _ _ => rfl
  | promote hmem hpromote =>
    have hlists := tryPromote_queues hpromote
    rcases tryPromote_spec hpromote with rfl | ⟨_, s₁, f, status, hkept, _, _, _, heq⟩
    · exact h
    · refine @congr_modify D _ C p _ s₁ _ (fun r => { f r with status := status }) h
        (hnot hb.scheduled hmem) rfl rfl rfl rfl hlists.running hlists.config hkept.objs ?_
      exact (congrArg Scheduler.objs heq :)
  | @skipWaiting _ q hskip =>
    obtain ⟨ref, rest, _, rfl⟩ := skipWaiting_spec hskip
    cases q with
    | waiting => exact h.congr rfl rfl rfl rfl rfl rfl fun _ _ => rfl
    | skippedWaiting => exact h.congr rfl rfl rfl rfl rfl rfl fun _ _ => rfl
  | findComputed hmem hfind =>
    obtain ⟨s₁, n, hcaches, heq⟩ := findComputed_spec hfind
    rw [heq]
    refine h.congr_modify (hnot hb.scheduled hmem) rfl rfl rfl rfl ?_ ?_ hcaches.objs rfl
    · rw [hcaches.eq]
      rfl
    · rw [hcaches.eq]
      rfl
  | admissionFailed _ _ halloc =>
    obtain ⟨hsame, heq⟩ := allocateWaiting_spec halloc
    exact h.cachesOnly hsame heq
  | @admitLoading p₁ p₂ q ref rest c plan _ _ halloc hupdate hpop =>
    obtain ⟨hsame, heq⟩ := reserve_spec halloc hupdate
    have hmem : ref ∈ p₂.sched.queue q :=
      (RequestQueue.popRequest_perm _ _ hpop).mem_iff.mpr mem_cons_self
    have hb₂ := hb.cachesOnly hsame heq
    have h₂ := h.cachesOnly hsame heq
    refine @congr_modify D _ C p₂ _ (p₂.sched.setQueue q rest) ref _ h₂
      (hnot hb₂.scheduled hmem) rfl rfl rfl rfl ?_ ?_ ?_ rfl
    · cases q <;> rfl
    · cases q <;> rfl
    · cases q <;> rfl
  | @admitRunning p₁ p₂ _ q ref rest c plan hplanned hload halloc hupdate hpop hstarted =>
    obtain ⟨hsame, heq⟩ := reserve_spec halloc hupdate
    have hmem : ref ∈ p₂.sched.queue q :=
      (RequestQueue.popRequest_perm _ _ hpop).mem_iff.mpr mem_cons_self
    have hb₂ := hb.cachesOnly hsame heq
    have hbudget : p₂.tokenBudget = p.tokenBudget := by
      rw [heq]
      rfl
    refine (h.cachesOnly hsame heq).admitRunning (hnot hb₂.scheduled hmem)
      (hplanned.positive hload) ?_ hstarted
    rw [hbudget]
    exact hplanned.le_budget hload
  | requeueSkipped => exact h.congr rfl rfl rfl rfl rfl rfl fun _ _ => rfl

theorem start (h : s.NoneAhead) : (Pass.start s).Level := by
  refine ⟨?_, ?_, ?_, ?_⟩
  · show 0 ≤ s.startBudget
    unfold startBudget
    split <;> omega
  · intro rid n hn
    cases hn
  · exact fun m hm => absurd hm not_mem_nil
  · exact fun ref hmem _ => h ref hmem

end Level

theorem Level.checkPass (hb : p.Balanced s) (h : p.Level) : Scheduler.checkPass p = .ok () := by
  have hbalance := hb.balance
  have hnonneg := h.nonneg
  have hbound : s.startBudget ≤ s.config.maxNumScheduledTokens := by
    unfold startBudget
    split <;> omega
  have hlen : p.scheduledReqs.length ≤ p.sched.running.length :=
    (subperm_of_subset hb.nodup hb.running).length_le
  unfold Pass.scheduledReqs at hlen
  simp only [length_append] at hlen
  have hroom := hb.room
  rw [← hb.config] at hroom hbound
  simp only [Scheduler.checkPass, bind_ok, pyAssert_ok]
  exact ⟨(), by omega, (), hnonneg, (), hroom, by omega⟩

end Pass

/-! ## The running list between the calls of `schedule` -/

def HasRoom (s : Scheduler D C) : Prop := s.running.length ≤ s.config.maxNumRunningReqs

namespace HasRoom

variable {s s' : Scheduler D C} {requestIds : Option (List ReqId)} {status : RequestStatus}

theorem of_eq (h : s.HasRoom) (hconfig : s'.config = s.config) (hrunning : s'.running = s.running) :
    s'.HasRoom := by
  unfold HasRoom
  rw [hconfig, hrunning]
  exact h

theorem quiet (h : s.HasRoom) (hquiet : s.Quiet s') : s'.HasRoom :=
  h.of_eq hquiet.config hquiet.running

theorem removeAll_length (xs items : List Ref) : (removeAll xs items).length ≤ xs.length := by
  unfold removeAll
  split
  · exact length_erase_le
  · exact length_filter_le _ _

theorem finishRequests (h : s.HasRoom) (hfinish : s.finishRequests requestIds status = .ok s') :
    s'.HasRoom := by
  simp only [Scheduler.finishRequests, bind_ok, pyAssert_ok] at hfinish
  obtain ⟨_, _, hloop⟩ := hfinish
  refine foldlM_inv (P := HasRoom) ?_ ?_ hloop
  · intro s₁ ref s₂ _ h₁ hone
    obtain ⟨s₃, hcaches, heq, _⟩ := finishOne_spec hone
    apply (h₁.quiet (.of_cachesOnly hcaches)).of_eq
    · rw [heq]
      rfl
    · rw [heq]
      rfl
  · exact (removeAll_length _ _).trans h

theorem addRequest {r : Request D} (h : s.HasRoom) (hadd : s.addRequest r = .ok s') :
    s'.HasRoom := by
  unfold Scheduler.addRequest at hadd
  split at hadd
  · dsimp only at hadd
    split at hadd
    · split at hadd
      · cases hadd
      · exact pure_ok.mp hadd ▸ h
    · split at hadd
      · simp only [updateRequestAsSession, bind_ok, pure_ok] at hadd
        obtain ⟨session, _, rfl⟩ := hadd
        split <;> exact h
      · exact h.finishRequests hadd
  · rw [pure_ok] at hadd
    subst hadd
    obtain ⟨hconfig, hrunning, _⟩ := enqueueWaitingRequest_frame
      (s.allocObject (if r.resumable then { r with streamingQueue := some [] } else r)).2 s.numObjs
    exact h.of_eq hconfig hrunning

theorem preserved : Preserved (HasRoom : Scheduler D C → Prop) where
  quiet := HasRoom.quiet
  preempt {s s' ref} h hlast hpreempt := by
    obtain ⟨_, kv, encoder, _, _, rfl⟩ := Pass.preemptRequest_spec hpreempt
    have hle : s.running.dropLast.length ≤ s.running.length := by
      rw [length_dropLast]
      omega
    exact hle.trans h
  free h _ hfree := by
    obtain ⟨_, kv, _, rfl⟩ := freeBlocks_spec hfree
    exact h
  finish := HasRoom.finishRequests

theorem updateLoop {output : SchedulerOutput C.Metadata} {out : ModelRunnerOutput C.WorkerMeta}
    {failed : List ReqId} {st : UpdatePass D C} (h : s.HasRoom)
    (hloop : output.numScheduledTokens.entries.foldlM (updateRequest output out failed)
      { sched := s } = .ok st) : (removeStopped st).HasRoom := by
  have hst : st.sched.HasRoom := by
    refine foldlM_inv (P := fun st : UpdatePass D C => st.sched.HasRoom) ?_ h hloop
    intro st₁ entry st₂ _ h₁ hone
    rcases updateRequest_spec hone with ⟨rfl, _⟩ | ⟨_, ref, _, _, _, _, _, _, _, _, hlive⟩
    · exact h₁
    · exact h₁.of_eq hlive.leavesOthers.config hlive.leavesOthers.running
  unfold HasRoom removeStopped
  dsimp only
  split
  · exact hst
  · exact (removeAll_length _ _).trans hst

end HasRoom

end Scheduler

namespace EngineCore

variable [DecidableEq D] {C : KVConnector D}

variable {s : Scheduler D C} {p : Scheduler.Pass D C}

theorem hasRoom_run {e e' : EngineCore D C} {call : Call C} (hp : e.scheduler.Partitioned)
    (h : e.scheduler.HasRoom) (hrun : e.run call = .ok e') : e'.scheduler.HasRoom := by
  refine Scheduler.HasRoom.preserved.run h (fun _ _ hs => h.addRequest hs) ?_ ?_ hrun
  · intro env output s hs
    simp only [Scheduler.schedule, bind_ok] at hs
    obtain ⟨p, hloops, hfinish⟩ := hs
    have hend := Scheduler.Pass.loops_invariant
      (P := Scheduler.Pass.Balanced e.scheduler) (fun _ _ hb hstep => hb.step hstep)
      (.start hp h) hloops
    have hroom : p.sched.HasRoom := by
      unfold Scheduler.HasRoom
      rw [hend.config]
      exact hend.room
    exact hroom.quiet (Scheduler.finishPass_quiet hfinish)
  · rintro out step failed s st _ _ hfailed hloop
    exact (h.quiet (.of_cutBackOnly (Scheduler.failedLoads_spec hfailed))).updateLoop hloop

/-- What holds at every point of the two loops of a call: the budget and the scheduled
tokens add up to what the call starts with, every scheduled request is running, and the
running list has room.  When no running request is ahead of its tokens at the call, the
budget is not negative and every scheduled request has a token. -/
structure WithinBudget (s : Scheduler D C) (p : Scheduler.Pass D C) : Prop where
  balance : p.tokenBudget + p.numScheduledTokens.values.sum = s.startBudget
  running : ∀ rid ∈ p.numScheduledTokens.keys, ∃ ref ∈ p.sched.running,
    (p.sched.objs ref).requestId = rid
  room : p.sched.running.length ≤ s.config.maxNumRunningReqs
  nonneg : s.NoneAhead → 0 ≤ p.tokenBudget
  positive : s.NoneAhead → ∀ n ∈ p.numScheduledTokens.values, 0 < n

theorem WithinBudget.of_level (hb : p.Balanced s)
    (h : s.NoneAhead → p.Level) : WithinBudget s p where
  balance := hb.balance
  running := fun rid hrid => by
    obtain ⟨ref, hmem, hid, _⟩ := hb.scheduled.owner rid hrid
    exact ⟨ref, hmem, hid⟩
  room := hb.room
  nonneg := fun hnone => (h hnone).nonneg
  positive := fun hnone n hn => by
    obtain ⟨rid, hrid⟩ := mem_values.mp hn
    exact (h hnone).positive rid n hrid

theorem pass_invariants (hp : s.Partitioned) (hroom : s.HasRoom) {env : Scheduler.ScheduleEnv}
    (hsteps : Scheduler.Pass.PassSteps env (.start s) p) :
    p.Balanced s ∧ (s.NoneAhead → p.Level) := by
  refine Scheduler.Pass.steps_invariant
    (P := fun p => Scheduler.Pass.Balanced s p ∧ (s.NoneAhead → p.Level)) ?_
    ⟨.start hp hroom, fun hnone => .start hnone⟩ hsteps
  rintro p₁ p₂ ⟨hb, hlevel⟩ hstep
  exact ⟨hb.step hstep, fun hnone => (hlevel hnone).step hb hstep⟩

/-- The token budget over whole runs: every call keeps it at every point of its loops, and
the assertions at the end hold. -/
theorem token_budget {e : EngineCore D C} (h : ReachableBy StopsInPlace e)
    (env : Scheduler.ScheduleEnv) :
    (∀ p, Scheduler.Pass.PassSteps env (.start e.scheduler) p → WithinBudget e.scheduler p) ∧
      ∀ p, Scheduler.Pass.loops env e.scheduler = .ok p →
        Scheduler.Pass.PassSteps env (.start e.scheduler) p ∧
          (e.scheduler.NoneAhead → Scheduler.checkPass p = .ok ()) := by
  have hinv : e.scheduler.Partitioned ∧ e.scheduler.HasRoom := by
    refine Reachable.invariant
      (P := fun e : EngineCore D C => e.scheduler.Partitioned ∧ e.scheduler.HasRoom) ?_ ?_ h
    · intro e₀ hinit
      refine ⟨partitioned_init hinit, ?_⟩
      obtain ⟨config, kv, connector, rfl⟩ := hinit
      exact Nat.zero_le config.maxNumRunningReqs
    · rintro e₁ e₂ ⟨hp, hroom⟩ ⟨call, hcond, hrun⟩
      exact ⟨partitioned_run hp hcond hrun, hasRoom_run hp hroom hrun⟩
  obtain ⟨hp, hroom⟩ := hinv
  constructor
  · intro p hsteps
    obtain ⟨hb, hlevel⟩ := pass_invariants hp hroom hsteps
    exact .of_level hb hlevel
  · intro p hloops
    have hsteps := Scheduler.Pass.loops_steps hloops
    obtain ⟨hb, hlevel⟩ := pass_invariants hp hroom hsteps
    exact ⟨hsteps, fun hnone => (hlevel hnone).checkPass hb⟩

def threeTokens : Request.Args where
  requestId := 0
  promptTokenIds := some [1, 2, 3]
  samplingParams := some { maxTokens := 8, minTokens := 2 }

/-- The request is admitted and takes three tokens of the budget. -/
theorem token_budget_threeTokens : ∃ e : EngineCore Transcript (.noConnector Transcript),
    ReachableBy StopsInPlace e ∧ ∃ p, Scheduler.Pass.loops {} e.scheduler = .ok p ∧
      p.tokenBudget = 13 ∧ WithinBudget e.scheduler p ∧ Scheduler.checkPass p = .ok () := by
  obtain ⟨e₀, hcreate⟩ : ∃ e₀, small smallConfig 8 = .ok e₀ := ⟨_, rfl⟩
  obtain ⟨e, hrun, p, hloops, hbudget, hempty⟩ : ∃ e, e₀.run (.addRequest threeTokens) = .ok e ∧
      ∃ p, Scheduler.Pass.loops {} e.scheduler = .ok p ∧ p.tokenBudget = 13 ∧
        e.scheduler.running = [] := by
    cases hcreate
    exact ⟨_, rfl, _, rfl, by decide, by decide⟩
  have hinit : e₀.Init := by
    cases hcreate
    exact ⟨_, _, _, rfl⟩
  have hreach : ReachableBy StopsInPlace e := .next (.start hinit) ⟨.addRequest threeTokens, trivial, hrun⟩
  have hnone : e.scheduler.NoneAhead := by
    intro ref hmem
    rw [hempty] at hmem
    cases hmem
  obtain ⟨hpoints, hend⟩ := token_budget hreach {}
  obtain ⟨hsteps, hcheck⟩ := hend p hloops
  exact ⟨e, hreach, p, hloops, hbudget, hpoints p hsteps, hcheck hnone⟩

/-- The request has reached the model length, and is preempted and admitted again. -/
def readmittedCalls : List (Call (.noConnector Transcript)) :=
  [.resetPrefixCache true false, .schedule {}]

/-- While everything is paused the budget is zero.  A request that was admitted with as
many tokens as the model length is scheduled with minus one token. -/
theorem token_budget_not_max :
    (¬∀ e : EngineCore Transcript (.noConnector Transcript), ReachableBy StopsInPlace e →
      ∀ env p, Scheduler.Pass.PassSteps env (.start e.scheduler) p →
        p.tokenBudget + p.numScheduledTokens.values.sum =
          e.scheduler.config.maxNumScheduledTokens) ∧
    ¬∀ e : EngineCore Transcript (.noConnector Transcript), ReachableBy StopsInPlace e →
      ∀ env p, Scheduler.Pass.PassSteps env (.start e.scheduler) p →
        ∀ n ∈ p.numScheduledTokens.values, 0 < n := by
  constructor
  · intro hall
    obtain ⟨e₀, hcreate⟩ : ∃ e₀, small smallConfig 8 = .ok e₀ := ⟨_, rfl⟩
    have hinit : e₀.Init := by
      cases hcreate
      exact ⟨_, _, _, rfl⟩
    have hreach : ReachableBy StopsInPlace
        { e₀ with scheduler := e₀.scheduler.setPauseState .pausedAll } :=
      .next (.start hinit) ⟨.setPauseState .pausedAll, trivial, rfl⟩
    have hbalance := hall _ hreach {} _ .refl
    cases hcreate
    exact absurd hbalance (by decide)
  · intro hall
    obtain ⟨e₀, hcreate⟩ : ∃ e₀, small Scheduler.shortConfig 8 = .ok e₀ := ⟨_, rfl⟩
    obtain ⟨e₁, hadd⟩ : ∃ e₁, runOps run e₀ [.addRequest threeTokens, .schedule {}] = .ok e₁ := by
      cases hcreate
      exact ⟨_, rfl⟩
    obtain ⟨e₂, hupdate⟩ : ∃ e₂, e₁.run (.updateFromOutput oneTokenOutput) = .ok e₂ := by
      cases hcreate
      cases hadd
      exact ⟨_, rfl⟩
    obtain ⟨e₃, hrun⟩ : ∃ e₃, runOps run e₂ readmittedCalls = .ok e₃ := by
      cases hcreate
      cases hadd
      cases hupdate
      exact ⟨_, rfl⟩
    obtain ⟨p, hloops, hvalues⟩ : ∃ p, Scheduler.Pass.loops {} e₃.scheduler = .ok p ∧
        p.numScheduledTokens.values = [-1] := by
      cases hcreate
      cases hadd
      cases hupdate
      cases hrun
      exact ⟨_, rfl, by decide⟩
    have hinit : e₀.Init := by
      cases hcreate
      exact ⟨_, _, _, rfl⟩
    have hreach₁ : ReachableBy StopsInPlace e₁ := by
      refine Reachable.runOps_of_forall (.start hinit) ?_ hadd
      intro call hcall u
      simp only [mem_cons, not_mem_nil, or_false] at hcall
      rcases hcall with rfl | rfl
      all_goals trivial
    have hplace : e₁.StopsInPlace (.updateFromOutput oneTokenOutput) := by
      cases hcreate
      cases hadd
      rintro step ⟨⟩ failed s₁ ⟨⟩ rid hrid _ ref _ _ _ href hwaits _ _ _ _
      have hzero : rid = 0 := mem_singleton.mp hrid
      subst hzero
      cases href
      exact absurd hwaits (by decide)
    have hreach₃ : ReachableBy StopsInPlace e₃ := by
      refine Reachable.runOps_of_forall (hreach₁.next ⟨_, hplace, hupdate⟩) ?_ hrun
      intro call hcall u
      simp only [readmittedCalls, mem_cons, not_mem_nil, or_false] at hcall
      rcases hcall with rfl | rfl
      all_goals trivial
    have hpositive := hall e₃ hreach₃ {} p (Scheduler.Pass.loops_steps hloops) (-1)
    rw [hvalues] at hpositive
    exact absurd (hpositive mem_cons_self) (by decide)

end EngineCore

end VllmCore
