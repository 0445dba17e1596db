import VllmCore.Scheduler.StoppedRequests
/-!
# The partition over whole runs

Aborts, new requests, resets and the processing of outputs keep the partition, and with
them every run of the engine.
-/

namespace VllmCore

open List Support

variable {D : Type}

namespace Scheduler

variable [DecidableEq D] {C : KVConnector D}

/-! ## Aborts -/

theorem filter_not_mem_add {W : Multiset Ref} {xs : List Ref} (hW : W.Nodup) (hxs : xs.Nodup)
    (hsub : ∀ x ∈ xs, x ∈ W) : W.filter (fun x => x ∉ xs) + ↑xs = W := by
  ext x
  rw [Multiset.count_add, Multiset.count_filter]
  by_cases hx : x ∈ xs
  · rw [if_neg (not_not.mpr hx), zero_add, Multiset.count_eq_one_of_mem hW (hsub x hx)]
    rw [Multiset.coe_count]
    exact count_eq_one_of_mem hxs hx
  · rw [if_pos hx, Multiset.coe_count, count_eq_zero_of_not_mem hx, add_zero]

theorem without_eq_filter (xs removed : List Ref) :
    without xs removed = (↑xs : Multiset Ref).filter fun x => x ∉ removed :=
  (Multiset.filter_coe _ xs).symm

variable {ref : Ref} {s s' : Scheduler D C} {running waiting : Multiset Ref}
  {status : RequestStatus}
variable {requestIds : List ReqId} {s₀ : Scheduler D C} {refs : List Ref} {r : Request D}

theorem mem_validRequests (hs : s.Partitioned) (h : ref ∈ s.validRequests requestIds) :
    s.Registered ref ∧ (s.objs ref).isFinished = false := by
  simp only [validRequests, mem_filter, mem_filterMap] at h
  obtain ⟨⟨rid, _, hrid⟩, hfinished⟩ := h
  refine ⟨?_, by simpa using hfinished⟩
  unfold Registered
  rw [(hs.ids rid ref hrid).2]
  exact hrid

theorem nodup_validRequests (hs : s.Partitioned) (h : requestIds.Nodup) :
    (s.validRequests requestIds).Nodup := by
  refine List.Nodup.filter _ (List.Nodup.filterMap ?_ h)
  intro rid rid' ref href href'
  rw [← (hs.ids rid ref href).2, ← (hs.ids rid' ref href').2]

/-- The partition while requests are aborted, with those that are left. -/
structure Aborting (s₀ : Scheduler D C) (running waiting : Multiset Ref) (refs : List Ref)
    (s : Scheduler D C) : Prop where
  partition : s.Partition
    (running + ↑(refs.filter fun ref => decide ((s₀.objs ref).status = .running)))
    (waiting + ↑(refs.filter fun ref => decide ((s₀.objs ref).status ≠ .running)))
  objs : ∀ ref ∈ refs, s.objs ref = s₀.objs ref

theorem Aborting.finishOne (hstatus : status.isFinished = true) (hnodup : (ref :: refs).Nodup)
    (h : Aborting s₀ running waiting (ref :: refs) s)
    (hfinish : Scheduler.finishOne status s ref = .ok s') :
    Aborting s₀ running waiting refs s' := by
  obtain ⟨s₁, hcaches, heq, _⟩ := finishOne_spec hfinish
  have hobjs : ∀ x, x ≠ ref → s'.objs x = s.objs x := by
    intro x hx
    rw [heq]
    simp only [modify_objs, if_neg hx]
    rw [hcaches.objs]
  refine ⟨?_, ?_⟩
  · simp only [Scheduler.finishOne] at hfinish
    generalize hmarked : Scheduler.modify _ ref (fun r => { r with status := status }) = marked
      at hfinish
    have hmarkedReq : marked.requests = s.requests := by
      rw [← hmarked]
      split <;> rfl
    have hmarkedNum : marked.numObjs = s.numObjs := by
      rw [← hmarked]
      split <;> rfl
    have hmarkedObjs : marked.objs = Function.update s.objs ref
        { s.objs ref with status := status } := by
      rw [← hmarked]
      split <;> rfl
    have hsame : s.SameRequests marked ref := .of_update ref hmarkedReq hmarkedNum hmarkedObjs rfl
    have hfinished : (marked.objs ref).isFinished = true := by
      rw [hmarkedObjs, Function.update_self]
      exact hstatus
    have hmarkedPartition : s.Registered ref ∧ marked.Partition
        (running + ↑(refs.filter fun ref => decide ((s₀.objs ref).status = .running)))
        (waiting + ↑(refs.filter fun ref => decide ((s₀.objs ref).status ≠ .running))) := by
      have hpartition := h.partition
      by_cases hrun : (s₀.objs ref).status = .running
      · rw [filter_cons_of_pos (by simpa using hrun),
          filter_cons_of_neg (by simpa using hrun), ← Multiset.cons_coe,
          Multiset.add_cons] at hpartition
        exact ⟨((hpartition.mem_running ref).mp (Multiset.mem_cons_self _ _)).1,
          hpartition.finishRunning hsame hfinished⟩
      · rw [filter_cons_of_neg (by simpa using hrun),
          filter_cons_of_pos (by simpa using hrun), ← Multiset.cons_coe,
          Multiset.add_cons] at hpartition
        exact ⟨((hpartition.mem_waiting ref).mp (Multiset.mem_cons_self _ _)).1,
          hpartition.finishWaiting hsame hfinished⟩
    obtain ⟨hreg, hpartition⟩ := hmarkedPartition
    refine hpartition.freeRequest ?_ hfinish
    unfold Registered
    rw [hmarkedReq, hmarkedObjs, Function.update_self]
    exact hreg
  · intro x hx
    have hne : x ≠ ref := by
      rintro rfl
      exact (nodup_cons.mp hnodup).1 hx
    exact (hobjs x hne).trans (h.objs x (mem_cons_of_mem ref hx))

theorem Aborting.loop (hstatus : status.isFinished = true)
    (hnodup : refs.Nodup) (h : Aborting s₀ running waiting refs s)
    (hloop : refs.foldlM (Scheduler.finishOne status) s = .ok s') :
    Aborting s₀ running waiting [] s' ∧ s'.running = s.running ∧
      s'.waitingRefs = s.waitingRefs := by
  induction refs generalizing s with
  | nil =>
    simp only [foldlM_nil, pure_ok] at hloop
    exact hloop ▸ ⟨h, rfl, rfl⟩
  | cons ref refs ih =>
    rw [foldlM_cons, bind_ok] at hloop
    obtain ⟨s₁, hfirst, hloop⟩ := hloop
    obtain ⟨hend, hrunning, hwaiting⟩ :=
      ih (nodup_cons.mp hnodup).2 (h.finishOne hstatus hnodup hfirst) hloop
    obtain ⟨s₂, hcaches, heq, _⟩ := finishOne_spec hfirst
    refine ⟨hend, hrunning.trans ?_, hwaiting.trans ?_⟩
    · rw [heq, hcaches.eq]
      rfl
    · unfold waitingRefs
      rw [heq, hcaches.eq]
      rfl

theorem Partitioned.finishRequests {requestIds : Option (List ReqId)} (h : s.Partitioned)
    (hfinish : s.finishRequests requestIds status = .ok s') : s'.Partitioned := by
  simp only [Scheduler.finishRequests, bind_ok, pyAssert_ok] at hfinish
  obtain ⟨_, hstatus, hloop⟩ := hfinish
  have hids : (requestIds.elim s.requests.keys List.dedup).Nodup := by
    cases requestIds with
    | none => exact s.requests.nodup
    | some ids => exact ids.nodup_dedup
  have hnodup := nodup_validRequests h hids
  have hvalid : ∀ ref ∈ s.validRequests (requestIds.elim s.requests.keys List.dedup),
      s.Registered ref ∧ (s.objs ref).isFinished = false := fun ref href => mem_validRequests h href
  generalize s.validRequests (requestIds.elim s.requests.keys List.dedup) = refs
    at hloop hnodup hvalid
  generalize hrefsRunning :
    (refs.filter fun ref => decide ((s.objs ref).status = .running)) = refsRunning at hloop
  generalize hrefsWaiting :
    (refs.filter fun ref => decide ((s.objs ref).status ≠ .running)) = refsWaiting at hloop
  have hrunning : without s.running refsRunning + ↑refsRunning = (↑s.running : Multiset Ref) := by
    refine filter_not_mem_add h.nodup_running (hrefsRunning ▸ hnodup.filter _) ?_
    intro x hx
    rw [← hrefsRunning, mem_filter, decide_eq_true_eq] at hx
    exact (h.mem_running x).mpr ⟨(hvalid x hx.1).1, hx.2⟩
  have hwaiting : (without s.waiting refsWaiting + without s.skippedWaiting refsWaiting) +
      ↑refsWaiting = s.waitingRefs := by
    rw [without_eq_filter, without_eq_filter, ← Multiset.filter_add]
    refine filter_not_mem_add h.nodup_waiting (hrefsWaiting ▸ hnodup.filter _) ?_
    intro x hx
    rw [← hrefsWaiting, mem_filter, decide_eq_true_eq] at hx
    have hunfinished : (s.objs x).status.isFinished = false := (hvalid x hx.1).2
    exact (h.mem_waiting x).mpr ⟨(hvalid x hx.1).1,
      by simp [RequestStatus.isWaiting, hx.2, hunfinished]⟩
  have hstart : s.Partition (without s.running refsRunning + ↑refsRunning)
      ((without s.waiting refsWaiting + without s.skippedWaiting refsWaiting) + ↑refsWaiting) := by
    rw [hrunning, hwaiting]
    exact h
  -- The lists, once the requests are taken out.
  generalize htaken : ({ s with
    numWaitingForStreamingInput := _
    running := removeAll s.running refsRunning
    waiting := _
    skippedWaiting := _ } : Scheduler D C) = taken at hloop
  have htakenRunning : (↑taken.running : Multiset Ref) = without s.running refsRunning := by
    rw [← htaken]
    exact removeAll_coe h.nodup_running
  have htakenWaiting : taken.waitingRefs =
      without s.waiting refsWaiting + without s.skippedWaiting refsWaiting := by
    rw [← htaken]
    simp only [waitingRefs]
    split
    next hempty =>
      rw [isEmpty_iff.mp hempty, without_nil, without_nil]
    · rw [Multiset.coe_eq_coe.mpr (RequestQueue.removeRequests_perm _ _ _ _),
        Multiset.coe_eq_coe.mpr (RequestQueue.removeRequests_perm _ _ _ _)]
      rfl
  have haborting : Aborting s (without s.running refsRunning)
      (without s.waiting refsWaiting + without s.skippedWaiting refsWaiting) refs taken := by
    refine ⟨?_, ?_⟩
    · rw [hrefsRunning, hrefsWaiting, ← htaken]
      exact hstart.congr (.of_objs 0 rfl rfl rfl) rfl
    · rw [← htaken]
      exact fun _ _ => rfl
  obtain ⟨hend, hendRunning, hendWaiting⟩ := haborting.loop hstatus hnodup hloop
  have hpartition := hend.partition
  simp only [filter_nil, Multiset.coe_nil, add_zero] at hpartition
  unfold Scheduler.Partitioned
  rw [hendRunning, hendWaiting, htakenRunning, htakenWaiting]
  exact hpartition

theorem Partition.add (h : s.Partition running waiting)
    (hnew : s.requests.get? r.requestId = none) (hr : r.status.isWaiting = true) :
    Partition { s with
      objs := Function.update s.objs s.numObjs r
      numObjs := s.numObjs + 1
      requests := s.requests.set r.requestId s.numObjs } running (s.numObjs ::ₘ waiting) := by
  have hfresh : ∀ x, s.Registered x → x ≠ s.numObjs := by
    intro x hx heq
    exact Nat.ne_of_lt (h.ids _ x hx).1 heq
  generalize hs' : ({ s with
      objs := Function.update s.objs s.numObjs r
      numObjs := s.numObjs + 1
      requests := s.requests.set r.requestId s.numObjs } : Scheduler D C) = s'
  have hobjs : ∀ x, x ≠ s.numObjs → s'.objs x = s.objs x := by
    intro x hx
    rw [← hs']
    exact Function.update_of_ne hx _ _
  have hself : s'.objs s.numObjs = r := by
    rw [← hs']
    exact Function.update_self _ _ _
  have hget : ∀ rid, s'.requests.get? rid =
      if rid = r.requestId then some s.numObjs else s.requests.get? rid := by
    intro rid
    rw [← hs']
    exact Dict.get?_set _ _ _ _
  have hregSelf : s'.Registered s.numObjs := by
    unfold Registered
    rw [hself, hget, if_pos rfl]
  have hregOther : ∀ x, x ≠ s.numObjs → (s'.Registered x ↔ s.Registered x) := by
    intro x hx
    unfold Registered
    rw [hobjs x hx, hget]
    split
    next hid =>
      rw [hid, hnew, Option.some.injEq]
      exact ⟨fun heq => absurd heq.symm hx, (fun hnone => by cases hnone)⟩
    · exact .rfl
  have hnotMem : s.numObjs ∉ running ∧ s.numObjs ∉ waiting :=
    ⟨fun hmem => hfresh _ ((h.mem_running _).mp hmem).1 rfl,
      fun hmem => hfresh _ ((h.mem_waiting _).mp hmem).1 rfl⟩
  refine ⟨?_, h.nodup_running, Multiset.nodup_cons.mpr ⟨hnotMem.2, h.nodup_waiting⟩, ?_, ?_⟩
  · intro rid x hx
    have hnum : s'.numObjs = s.numObjs + 1 := by rw [← hs']
    rw [hget] at hx
    split at hx
    next hrid =>
      cases hx
      exact ⟨by rw [hnum]; exact Nat.lt_succ_self _, by rw [hself, hrid]⟩
    · obtain ⟨hlt, hid⟩ := h.ids rid x hx
      exact ⟨by rw [hnum]; exact Nat.lt_succ_of_lt hlt, by rw [hobjs x (Nat.ne_of_lt hlt), hid]⟩
  · intro x
    by_cases hx : x = s.numObjs
    · subst hx
      rw [hself]
      constructor
      · exact fun hmem => absurd hmem hnotMem.1
      · rintro ⟨_, hrun⟩
        rw [hrun] at hr
        cases hr
    · rw [hregOther x hx, hobjs x hx]
      exact h.mem_running x
  · intro x
    by_cases hx : x = s.numObjs
    · subst hx
      rw [hself]
      exact ⟨fun _ => ⟨hregSelf, hr⟩, fun _ => Multiset.mem_cons_self _ _⟩
    · rw [hregOther x hx, hobjs x hx, Multiset.mem_cons]
      exact ⟨fun hmem => (h.mem_waiting x).mp (hmem.resolve_left hx),
        fun hmem => .inr ((h.mem_waiting x).mpr hmem)⟩

theorem Partitioned.addRequest (h : s.Partitioned) (hr : r.status.isWaiting = true)
    (hadd : s.addRequest r = .ok s') : s'.Partitioned := by
  unfold Scheduler.addRequest at hadd
  split at hadd
  next existing hexisting =>
    have hreg : s.Registered existing := by
      unfold Registered
      rw [(h.ids _ _ hexisting).2]
      exact hexisting
    dsimp only at hadd
    split at hadd
    · split at hadd
      · cases hadd
      · rw [pure_ok] at hadd
        subst hadd
        exact h.quiet (.modify s existing fun _ => rfl)
    next hstatus =>
      rw [not_not] at hstatus
      split at hadd
      · simp only [updateRequestAsSession, bind_ok, pure_ok] at hadd
        obtain ⟨session, hsession, rfl⟩ := hadd
        obtain ⟨hid, hwaits⟩ := Request.updateAsSession_frame hsession
        rw [if_pos hstatus]
        have hmem : existing ∈ s.waitingRefs :=
          (h.mem_waiting existing).mpr ⟨hreg, by rw [hstatus]; rfl⟩
        refine Partition.wait h (.of_update existing (r := session) rfl rfl rfl hid) hmem ?_
        rw [modify_objs, if_pos rfl, hwaits]
        rfl
      · exact h.finishRequests hadd
  next hnew =>
    rw [pure_ok] at hadd
    subst hadd
    generalize hr' : (if r.resumable = true then { r with streamingQueue := some [] } else r) = r'
    have hid : r'.requestId = r.requestId := by
      rw [← hr']
      split <;> rfl
    have hstatus : r'.status = r.status := by
      rw [← hr']
      split <;> rfl
    have hadded := Partition.add (r := r') h (by rw [hid]; exact hnew) (by rw [hstatus]; exact hr)
    rw [hid] at hadded
    have hwaiting := waitingRefs_enqueueWaitingRequest (s.allocObject r').2 s.numObjs
    obtain ⟨_, hrunning, hrequests, hnumObjs, hobjs⟩ :=
      enqueueWaitingRequest_frame (s.allocObject r').2 s.numObjs
    have hsame : ∀ s' : Scheduler D C, s'.running = s.running →
        s'.waitingRefs = s.numObjs ::ₘ s.waitingRefs →
        s'.requests = s.requests.set r.requestId s.numObjs → s'.numObjs = s.numObjs + 1 →
        s'.objs = Function.update s.objs s.numObjs r' → s'.Partitioned := by
      intro s' hrunning hwaiting hrequests hnumObjs hobjs
      unfold Scheduler.Partitioned
      rw [hrunning, hwaiting]
      exact hadded.congr (.of_objs 0 hrequests hnumObjs hobjs) (by rw [hobjs])
    refine hsame _ hrunning hwaiting ?_ hnumObjs hobjs
    show ((s.allocObject r').2.enqueueWaitingRequest s.numObjs).requests.set r'.requestId
      s.numObjs = _
    rw [hrequests, hid]
    rfl

theorem Partitioned.preemptRequest (h : s.Partitioned) (hlast : s.running.getLast? = some ref)
    (hpreempt : { s with running := s.running.dropLast }.preemptRequest ref = .ok s') :
    s'.Partitioned := by
  have hcons : (↑s.running : Multiset Ref) = ref ::ₘ ↑s.running.dropLast := by
    refine Multiset.coe_eq_coe.mpr ?_
    nth_rewrite 1 [← dropLast_append_getLast? ref hlast]
    exact perm_append_comm
  have hstart : Partition { s with running := s.running.dropLast }
      (ref ::ₘ ↑s.running.dropLast) s.waitingRefs := by
    rw [← hcons]
    exact Partition.congr h (.of_objs ref rfl rfl rfl) rfl
  obtain ⟨hpartition, hrunning, hwaiting⟩ := hstart.preemptRequest hpreempt
  unfold Scheduler.Partitioned
  rw [hrunning, hwaiting]
  exact hpartition

theorem Partitioned.freeBlocks {rid : ReqId} (h : s.Partitioned)
    (href : s.requests.get? rid = some ref) (hfree : s.freeBlocks ref = .ok s') :
    s'.Partitioned := by
  obtain ⟨hfinished, kv, _, rfl⟩ := freeBlocks_spec hfree
  have hreg : s.Registered ref := by
    unfold Registered
    rw [(h.ids rid ref href).2]
    exact href
  exact (Partition.erase h hreg hfinished).congr (.of_objs ref rfl rfl rfl) rfl

theorem Partitioned.preserved : Preserved (Partitioned : Scheduler D C → Prop) where
  quiet := Partitioned.quiet
  preempt := Partitioned.preemptRequest
  free := Partitioned.freeBlocks
  finish := Partitioned.finishRequests

theorem Partitioned.updateLoop {output : SchedulerOutput C.Metadata}
    {out : ModelRunnerOutput C.WorkerMeta} {failed : List ReqId} {st : UpdatePass D C}
    (h : s.Partitioned) (hplace : s.KeepsPlace output out)
    (hfailed : s.failedLoads output out = .ok (failed, s'))
    (hloop : output.numScheduledTokens.entries.foldlM (updateRequest output out failed)
      { sched := s' } = .ok st) : (removeStopped st).Partitioned := by
  have hp := h.quiet (.of_cutBackOnly (failedLoads_spec hfailed))
  have hstart : UpdatePass.Inv s' output.numScheduledTokens.entries
      ({ sched := s' } : UpdatePass D C) := by
    refine ⟨rfl, rfl, ?_, ?_⟩
    · unfold UpdatePass.Partitioned UpdatePass.waitingRefs
      rw [without_nil, without_nil]
      exact hp
    · exact fun rid _ ref href => ⟨href, rfl, .rfl, not_mem_nil, not_mem_nil⟩
  have hend := hstart.loop (hplace failed s' hfailed) output.numScheduledTokens.nodup hloop
  refine hend.partitioned.removeStopped ?_
  rw [hend.running]
  exact Multiset.coe_nodup.mp hp.nodup_running

end Scheduler

/-! ## Runs -/

theorem Request.create_isWaiting {hasher : Option (Request D → List D)} {args : Request.Args}
    {r : Request D} (h : Request.create hasher args = .ok r) : r.status.isWaiting = true := by
  simp only [Request.create, bind_ok, pure_ok] at h
  obtain ⟨_, _, _, _, rfl⟩ := h
  cases hasher with
  | none =>
    split <;> rfl
  | some f =>
    split <;> rfl

namespace EngineCore

variable [DecidableEq D] {C : KVConnector D}

/-- Every live request is in the container that its status requires, once, and in no
other; finished requests are in none. -/
def QueuesMatch (s : Scheduler D C) : Prop :=
  (∀ rid ref, s.requests.get? rid = some ref → (s.objs ref).isFinished = false →
    if (s.objs ref).status = .running then
      s.running.count ref = 1 ∧ s.waiting.count ref + s.skippedWaiting.count ref = 0
    else s.running.count ref = 0 ∧ s.waiting.count ref + s.skippedWaiting.count ref = 1) ∧
  ∀ ref ∈ s.running ++ s.waiting ++ s.skippedWaiting, (s.objs ref).isFinished = false

/-- When an output is processed, the requests that stop while they wait keep their place. -/
def StopsInPlace (e : EngineCore D C) : Call C → Prop
  | .updateFromOutput out =>
    ∀ step ∈ e.inFlight.head?, e.scheduler.KeepsPlace step.output out
  | _ => True

variable {e : EngineCore D C}

theorem partitioned_init (h : e.Init) : e.scheduler.Partitioned := by
  obtain ⟨config, kv, connector, rfl⟩ := h
  refine ⟨?_, nodup_nil, nodup_nil, ?_, ?_⟩
  · intro rid ref href
    cases href
  · intro ref
    refine ⟨fun hmem => absurd hmem not_mem_nil, ?_⟩
    rintro ⟨hreg, _⟩
    cases hreg
  · intro ref
    refine ⟨fun hmem => absurd hmem not_mem_nil, ?_⟩
    rintro ⟨hreg, _⟩
    cases hreg

theorem partitioned_run {e' : EngineCore D C} {call : Call C} (h : e.scheduler.Partitioned)
    (hcond : e.StopsInPlace call) (hrun : e.run call = .ok e') : e'.scheduler.Partitioned := by
  refine Scheduler.Partitioned.preserved.run h ?_ (fun hs => h.schedule hs) ?_ hrun
  · intro args r s _ hr hs
    exact h.addRequest (Request.create_isWaiting hr) hs
  · rintro out step failed s st rfl hstep hfailed hloop
    exact h.updateLoop (hcond step hstep) hfailed hloop

theorem queuesMatch_of_partitioned {s : Scheduler D C} (h : s.Partitioned) : QueuesMatch s := by
  have hcount : ∀ ref, s.waiting.count ref + s.skippedWaiting.count ref =
      s.waitingRefs.count ref := by
    intro ref
    simp [Scheduler.waitingRefs]
  refine ⟨?_, ?_⟩
  · intro rid ref href hlive
    have hreg : s.Registered ref := by
      unfold Scheduler.Registered
      rw [(h.ids rid ref href).2]
      exact href
    rw [hcount]
    split
    next hrun =>
      have hmem := (h.mem_running ref).mpr ⟨hreg, hrun⟩
      exact ⟨count_eq_one_of_mem (Multiset.coe_nodup.mp h.nodup_running) hmem,
        Multiset.count_eq_zero_of_notMem (h.disjoint hmem)⟩
    next hrun =>
      have hunfinished : (s.objs ref).status.isFinished = false := hlive
      have hmem := (h.mem_waiting ref).mpr
        ⟨hreg, by simp [RequestStatus.isWaiting, hrun, hunfinished]⟩
      refine ⟨count_eq_zero_of_not_mem fun hin => ?_,
        Multiset.count_eq_one_of_mem h.nodup_waiting hmem⟩
      exact hrun ((h.mem_running ref).mp hin).2
  · intro ref href
    rw [append_assoc, mem_append] at href
    rcases href with href | href
    · have hrun := ((h.mem_running ref).mp href).2
      show (s.objs ref).status.isFinished = false
      rw [hrun]
      rfl
    · have hmem : ref ∈ s.waitingRefs := by
        exact href
      have hwait := ((h.mem_waiting ref).mp hmem).2
      simp only [RequestStatus.isWaiting, decide_eq_true_eq] at hwait
      exact hwait.2

/-- In every run whose stopped requests keep their place, the queues match the statuses. -/
theorem queues_match {e : EngineCore D C} (h : ReachableBy StopsInPlace e) :
    QueuesMatch e.scheduler := by
  refine queuesMatch_of_partitioned (Reachable.invariant (P := fun e => e.scheduler.Partitioned)
    (fun _ hinit => partitioned_init hinit) ?_ h)
  rintro e₁ e₂ hp ⟨call, hcond, hrun⟩
  exact partitioned_run hp hcond hrun

def oneToken (resumable : Bool) (t : Token) : Request.Args where
  requestId := 0
  promptTokenIds := some [t]
  samplingParams := some { maxTokens := 1 }
  resumable := resumable

def oneTokenOutput : ModelRunnerOutput (KVConnector.noConnector Transcript).WorkerMeta where
  reqIdToIndex := Dict.empty.set 0 0
  sampledTokenIds := [[9]]

/-- A request is preempted while its only step is in flight. -/
def preemptedInFlight : List (Call (.noConnector Transcript)) :=
  [.addRequest (oneToken false 1), .schedule {}, .resetPrefixCache true false]

/-- The request that is preempted and stops is found in `waiting`. -/
theorem queues_match_preempted : ∃ e : EngineCore Transcript (.noConnector Transcript),
    ReachableBy StopsInPlace e ∧ QueuesMatch e.scheduler ∧ e.inFlight = [] ∧
      (e.scheduler.objs 0).isFinished = true := by
  obtain ⟨e₀, hcreate⟩ : ∃ e₀, small smallConfig 8 = .ok e₀ := ⟨_, rfl⟩
  obtain ⟨e₁, hrun⟩ : ∃ e₁, runOps run e₀ preemptedInFlight = .ok e₁ := by
    cases hcreate
    exact ⟨_, rfl⟩
  obtain ⟨e₂, hupdate, hflight, hfinished⟩ : ∃ e₂, e₁.run (.updateFromOutput oneTokenOutput) =
      .ok e₂ ∧ e₂.inFlight = [] ∧ (e₂.scheduler.objs 0).isFinished = true := by
    cases hcreate
    cases hrun
    exact ⟨_, rfl, rfl, by decide⟩
  have hinit : e₀.Init := by
    cases hcreate
    exact ⟨_, _, _, rfl⟩
  have hreach : ReachableBy StopsInPlace e₁ := by
    refine Reachable.runOps_of_forall (.start hinit) ?_ hrun
    intro call hcall u
    simp only [preemptedInFlight, mem_cons, not_mem_nil, or_false] at hcall
    rcases hcall with rfl | rfl | rfl
    all_goals trivial
  have hplace : e₁.StopsInPlace (.updateFromOutput oneTokenOutput) := by
    cases hcreate
    cases hrun
    rintro step ⟨⟩ failed s₁ ⟨⟩ rid hrid _ ref _ _ _ href _ _ _ _ _
    have hzero : rid = 0 := mem_singleton.mp hrid
    subst hzero
    cases href
    decide
  have hreach₂ : ReachableBy StopsInPlace e₂ := hreach.next ⟨_, hplace, hupdate⟩
  exact ⟨e₂, hreach₂, queues_match hreach₂, hflight, hfinished⟩

/-- The session has its next input when it is preempted. -/
def lostRequestCalls : List (Call (.noConnector Transcript)) :=
  [.addRequest (oneToken true 1), .schedule {}, .addRequest (oneToken true 2),
    .resetPrefixCache true false, .updateFromOutput oneTokenOutput]

/-- The request is queued twice, and then both entries are removed. -/
theorem queues_not_match : ¬∀ e : EngineCore Transcript (.noConnector Transcript),
    ReachableBy (fun _ _ => True) e → QueuesMatch e.scheduler := by
  intro hall
  obtain ⟨e₀, hcreate⟩ : ∃ e₀, small smallConfig 8 = .ok e₀ := ⟨_, rfl⟩
  obtain ⟨e, hrun, hwaiting⟩ : ∃ e, runOps run e₀ lostRequestCalls = .ok e ∧
      e.scheduler.waiting = [] ∧ e.scheduler.skippedWaiting = [] ∧
        e.scheduler.requests.get? 0 = some 0 ∧ (e.scheduler.objs 0).status = .waiting := by
    cases hcreate
    exact ⟨_, rfl, by decide⟩
  have hinit : e₀.Init := by
    cases hcreate
    exact ⟨_, _, _, rfl⟩
  have hreach : ReachableBy (fun _ _ => True) e :=
    Reachable.runOps_of_forall (.start hinit) (fun _ _ _ => trivial) hrun
  obtain ⟨hw, hs, hget, hstatus⟩ := hwaiting
  have hmatch := (hall e hreach).1 0 0 hget (by
    unfold Request.isFinished
    rw [hstatus]
    rfl)
  rw [hstatus, hw, hs] at hmatch
  exact absurd hmatch.2 (by decide)

end EngineCore

end VllmCore
