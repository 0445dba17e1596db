import VllmCore.Scheduler.TokenBudget
/-!
# The order of the running loop

The loop over the running requests walks the list by index, and preemption takes
requests out of the list behind its back.  The index is corrected for a victim that was
scheduled in this pass.  A victim that was examined and not scheduled moves the next
request under the index, and the loop steps over it.
-/

namespace VllmCore

open List Support

variable {D : Type} [DecidableEq D] {C : KVConnector D}

namespace Scheduler

namespace Pass

/-! ## What the loop looks at -/

/-- The victims of the inner loop, each with the pass from which it is taken. -/
def victims (ref : Ref) (numNewTokens : Int) : Nat → Pass D C → List (Pass D C × Ref)
  | 0, _ => []
  | fuel + 1, p =>
    match p.allocateRunning ref numNewTokens with
    | .ok (none, p) =>
      match p.selectVictim with
      | .ok (victim, p₁) =>
        (p, victim) ::
          match p₁.preempt victim with
          | .ok p₂ => if victim = ref then [] else victims ref numNewTokens fuel p₂
          | .error _ => []
      | .error _ => []
    | _ => []

def turnVictims (env : ScheduleEnv) (p : Pass D C) (ref : Ref) : List (Pass D C × Ref) :=
  if reachesMaxTokens (p.request ref) then []
  else
    match p.planRunning env ref with
    | .ok (plan, p) =>
      if plan.numNewTokens = 0 then []
      else victims ref plan.numNewTokens (p.sched.running.length + 1) p
    | .error _ => []

/-- The turns of the loop: the request that is examined and the victims. -/
def turns (env : ScheduleEnv) : Nat → Pass D C → List (Ref × List (Pass D C × Ref))
  | 0, _ => []
  | fuel + 1, p =>
    match p.sched.running[p.reqIndex]? with
    | none => []
    | some ref =>
      if p.tokenBudget ≤ 0 then []
      else
        (ref, p.turnVictims env ref) ::
          match p.runningTurn env ref with
          | .ok (true, p) => turns env fuel p
          | _ => []

def examined (env : ScheduleEnv) (fuel : Nat) (p : Pass D C) : List Ref :=
  (turns env fuel p).map (·.1)

/-- Taking out this victim leaves the requests that are still to be examined where the
loop finds them: its place is given back, or it stands behind the request of this turn,
or nothing stands there. -/
def SafeVictim (p : Pass D C) (victim : Ref) : Prop :=
  victim ∈ p.scheduledRunningReqs ∨ victim ∉ p.sched.running.take (p.reqIndex + 1) ∨
    p.sched.running.length ≤ p.reqIndex + 1

instance (p : Pass D C) (victim : Ref) : Decidable (p.SafeVictim victim) :=
  inferInstanceAs (Decidable (_ ∨ _ ∨ _))

def SafeVictims (env : ScheduleEnv) (fuel : Nat) (p : Pass D C) : Prop :=
  ∀ turn ∈ turns env fuel p, ∀ v ∈ turn.2, v.1.SafeVictim v.2

variable {k : Nat} {p p' : Pass D C} {requests seen : List Ref} {ref : Ref} {n : Int}
variable {l : List Ref} {v victim : Ref} {p₁ : Pass D C} {fuel : Nat} {env : ScheduleEnv}

theorem erase_of_mem_take (hv : v ∈ l.take k) :
    ((l.erase v).take (k - 1)).Sublist (l.take k) ∧ (l.erase v).drop (k - 1) = l.drop k := by
  have hsplit : l.erase v = (l.take k).erase v ++ l.drop k := by
    conv_lhs => rw [← take_append_drop k l]
    exact erase_append_left (l.drop k) hv
  have hlength : ((l.take k).erase v).length = min k l.length - 1 := by
    rw [length_erase_of_mem hv, length_take]
  have hdrop : k ≤ l.length ∨ l.drop k = [] := by
    by_cases hk : k ≤ l.length
    · exact .inl hk
    · exact .inr (drop_eq_nil_of_le (by omega))
  rw [hsplit]
  rcases hdrop with hk | hnil
  · have hfirst : ((l.take k).erase v).length = k - 1 := by omega
    rw [take_left' hfirst, drop_left' hfirst]
    exact ⟨erase_sublist, rfl⟩
  · rw [hnil, append_nil]
    constructor
    · apply List.Sublist.trans (take_sublist (k - 1) ((l.take k).erase v))
      exact erase_sublist
    · apply drop_eq_nil_of_le
      omega

theorem erase_of_notMem_take (hv : v ∉ l.take k) :
    (l.erase v).take k = l.take k ∧ ((l.erase v).drop k).Sublist (l.drop k) := by
  have hsplit : l.erase v = l.take k ++ (l.drop k).erase v := by
    conv_lhs => rw [← take_append_drop k l]
    exact erase_append_right (l.drop k) hv
  by_cases hk : k ≤ l.length
  · have hfirst : (l.take k).length = k := by
      rw [length_take]
      omega
    rw [hsplit, take_left' hfirst, drop_left' hfirst]
    exact ⟨rfl, erase_sublist⟩
  · have hall : l.take k = l := take_of_length_le (by omega)
    have hnot : v ∉ l := hall ▸ hv
    rw [erase_of_not_mem hnot]
    exact ⟨rfl, List.Sublist.refl _⟩

/-! ## What one turn keeps -/

/-- The first `k` running requests were examined once, the others were not examined. -/
structure Seen (requests seen : List Ref) (k : Nat) (p : Pass D C) : Prop where
  distinct : p.Distinct
  kept : ∀ x ∈ requests, x ∉ p.preemptedReqs → x ∈ p.sched.running
  once : ∀ x ∈ p.sched.running.take k, seen.count x = 1
  unseen : ∀ x ∈ p.sched.running.drop k, x ∉ seen

/-- Every request that was not preempted was examined once. -/
def AllSeen (requests seen : List Ref) (p : Pass D C) : Prop :=
  ∀ x ∈ requests, x ∉ p.preemptedReqs → seen.count x = 1

theorem Seen.all (h : p.Seen requests seen k) (hend : p.sched.running.length ≤ k) :
    p.AllSeen requests seen := by
  intro x hx hnot
  apply h.once x
  rw [take_of_length_le hend]
  exact h.kept x hx hnot

theorem Seen.examine (h : p.Seen requests seen k) (href : p.sched.running[k]? = some ref) :
    p.Seen requests (seen ++ [ref]) (k + 1) := by
  have hlt := (List.getElem?_eq_some_iff.mp href).1
  have hget := (List.getElem?_eq_some_iff.mp href).2
  have hdrop : p.sched.running.drop k = ref :: p.sched.running.drop (k + 1) := by
    rw [drop_eq_getElem_cons hlt, hget]
  have hfresh : ref ∉ seen := by
    apply h.unseen
    rw [hdrop]
    exact mem_cons_self
  have hnodup := h.distinct.running
  rw [← take_append_drop k p.sched.running, hdrop, nodup_append] at hnodup
  obtain ⟨_, hrest, hapart⟩ := hnodup
  constructor
  · exact h.distinct
  · exact h.kept
  · intro x hx
    rw [take_add_one, href] at hx
    rw [count_append]
    rcases mem_append.mp hx with hx | hx
    · have hne : ref ≠ x := fun heq => hapart x hx ref mem_cons_self heq.symm
      rw [h.once x hx, count_singleton, if_neg (by simpa using hne)]
    · have heq : x = ref := by simpa using hx
      rw [heq, count_eq_zero_of_not_mem hfresh, count_singleton_self]
  · intro x hx hmem
    rcases mem_append.mp hmem with hmem | hmem
    · apply h.unseen x _ hmem
      rw [hdrop]
      exact mem_cons_of_mem ref hx
    · rw [mem_singleton.mp hmem] at hx
      exact (nodup_cons.mp hrest).1 hx

theorem Seen.congr (h : p.Seen requests seen k) (hrunning : p'.sched.running = p.sched.running)
    (hpreempted : p'.preemptedReqs = p.preemptedReqs) : p'.Seen requests seen k := by
  constructor
  · unfold Distinct
    rw [hrunning, hpreempted]
    exact h.distinct
  · rw [hrunning, hpreempted]
    exact h.kept
  · rw [hrunning]
    exact h.once
  · rw [hrunning]
    exact h.unseen

theorem selectVictim_parts (hp : p.PlannedRunning ref n)
    (hdistinct : p.Distinct) (hsafe : p.SafeVictim victim)
    (hselect : p.selectVictim = .ok (victim, p₁)) :
    (p₁.sched.running.take (p₁.reqIndex + 1)).Sublist (p.sched.running.take (p.reqIndex + 1)) ∧
      (p₁.sched.running.drop (p₁.reqIndex + 1)).Sublist
        (p.sched.running.drop (p.reqIndex + 1)) := by
  rcases selectVictim_cases hselect with ⟨_, _, rfl⟩ | ⟨_, hmem, ⟨hnot, rfl⟩ | ⟨hin, hun⟩⟩
  · show (p.sched.running.dropLast.take (p.reqIndex + 1)).Sublist _ ∧
      (p.sched.running.dropLast.drop (p.reqIndex + 1)).Sublist _
    rw [dropLast_eq_take, take_take, drop_take]
    exact ⟨take_sublist_take_left (Nat.min_le_left _ _), take_sublist _ _⟩
  · show ((p.sched.running.erase victim).take (p.reqIndex + 1)).Sublist _ ∧
      ((p.sched.running.erase victim).drop (p.reqIndex + 1)).Sublist _
    rcases hsafe with hin | hbehind | hend
    · exact absurd hin hnot
    · obtain ⟨htake, hdrop⟩ := erase_of_notMem_take hbehind
      rw [htake]
      exact ⟨List.Sublist.refl _, hdrop⟩
    · have hshorter : (p.sched.running.erase victim).length ≤ p.reqIndex + 1 := by
        have hle : (p.sched.running.erase victim).length ≤ p.sched.running.length :=
          erase_sublist.length_le
        omega
      rw [take_of_length_le hshorter, take_of_length_le hend,
        drop_eq_nil_of_le hshorter]
      exact ⟨erase_sublist, nil_sublist _⟩
  · -- The victim stands before the request, and the index goes back by one.
    have hbefore := (hp.order hdistinct).scheduled victim hin
    obtain ⟨m, restored, _, rfl⟩ := unschedule_spec hun
    have hindex : p.reqIndex - 1 + 1 = p.reqIndex + 1 - 1 := by
      cases hzero : p.reqIndex with
      | zero =>
        rw [hzero, take_zero] at hbefore
        cases hbefore
      | succ k => rfl
    have hmore := take_subset_take_left p.sched.running (Nat.le_succ p.reqIndex) hbefore
    obtain ⟨htake, hdrop⟩ := erase_of_mem_take hmore
    show ((p.sched.running.erase victim).take (p.reqIndex - 1 + 1)).Sublist _ ∧
      ((p.sched.running.erase victim).drop (p.reqIndex - 1 + 1)).Sublist _
    rw [hindex, hdrop]
    exact ⟨htake, List.Sublist.refl _⟩

theorem Seen.preempt (h : p.Seen requests seen (p.reqIndex + 1))
    (hp : p.PlannedRunning ref n) (hsafe : p.SafeVictim victim)
    (hselect : p.selectVictim = .ok (victim, p₁)) (hpreempt : p₁.preempt victim = .ok p') :
    p'.Seen requests seen (p'.reqIndex + 1) ∧
      p'.sched.running.length - (p'.reqIndex + 1) ≤ p.sched.running.length - (p.reqIndex + 1) := by
  have hdistinct := (distinct_preempt hselect hpreempt).mpr h.distinct
  obtain ⟨htake, hdrop⟩ := selectVictim_parts hp h.distinct hsafe hselect
  obtain ⟨_, running, hsched, hperm⟩ := selectVictim_sched hselect
  have hpreempted := selectVictim_preemptedReqs hselect
  have hlength := hdrop.length_le
  obtain ⟨s, hs, rfl⟩ := preempt_spec hpreempt
  obtain ⟨_, kv, encoder, _, _, rfl⟩ := preemptRequest_spec hs
  rw [length_drop, length_drop] at hlength
  constructor
  · constructor
    · exact hdistinct
    · intro x hx hnot
      have hne : x ∉ p₁.preemptedReqs ∧ x ≠ victim := by
        constructor
        · exact fun hmem => hnot (mem_append_left _ hmem)
        · exact fun heq => hnot (mem_append_right _ (mem_singleton.mpr heq))
      have hmem := h.kept x hx (hpreempted ▸ hne.1)
      rw [hsched]
      exact (mem_cons.mp (hperm.mem_iff.mp hmem)).resolve_left hne.2
    · exact fun x hx => h.once x (htake.subset hx)
    · exact fun x hx => h.unseen x (hdrop.subset hx)
  · exact hlength

theorem allocateOrPreempt_seen {res : Option KVCacheBlocks}
    (hp : p.PlannedRunning ref n) (hseen : p.Seen requests seen (p.reqIndex + 1))
    (hsafe : ∀ v ∈ victims ref n fuel p, v.1.SafeVictim v.2)
    (h : allocateOrPreempt ref n fuel p = .ok (res, p')) :
    (res = none → p'.AllSeen requests seen) ∧
      (res ≠ none → p'.Seen requests seen (p'.reqIndex + 1) ∧
        p'.sched.running.length - (p'.reqIndex + 1) ≤
          p.sched.running.length - (p.reqIndex + 1)) := by
  induction fuel generalizing p with
  | zero => cases h
  | succ fuel ih =>
    simp only [allocateOrPreempt, bind_ok] at h
    obtain ⟨⟨newBlocks, p₁⟩, halloc, h⟩ := h
    have hp₁ := hp.allocateRunning halloc
    have hsame := allocateRunning_same halloc
    have hrunning : p₁.sched.running = p.sched.running := by
      rw [hsame]
      rfl
    have hindex : p₁.reqIndex = p.reqIndex := by
      rw [hsame]
      rfl
    have hpreempted : p₁.preemptedReqs = p.preemptedReqs := by
      rw [hsame]
      rfl
    have hseen₁ : p₁.Seen requests seen (p₁.reqIndex + 1) := by
      rw [hindex]
      exact hseen.congr hrunning hpreempted
    cases newBlocks with
    | some blocks =>
      obtain ⟨rfl, rfl⟩ := h
      rw [← hrunning, ← hindex]
      exact ⟨(fun hnone => by cases hnone), fun _ => ⟨hseen₁, le_rfl⟩⟩
    | none =>
      simp only [bind_ok] at h
      obtain ⟨⟨victim, p₂⟩, hselect, p₃, hpreempt, h⟩ := h
      have hvictims : victims ref n (fuel + 1) p =
          (p₁, victim) :: if victim = ref then [] else victims ref n fuel p₃ := by
        simp only [victims, halloc, hselect, hpreempt]
      rw [hvictims] at hsafe
      have hvictim : p₁.SafeVictim victim := hsafe (p₁, victim) mem_cons_self
      obtain ⟨hseen₃, hless⟩ := hseen₁.preempt hp₁ hvictim hselect hpreempt
      simp only at h
      split at h
      next heq =>
        obtain ⟨rfl, rfl⟩ := h
        have hnothing : p₁.sched.running.length ≤ p₁.reqIndex + 1 := by
          rw [heq] at hvictim
          rcases hvictim with hin | hbehind | hend
          · exact absurd hin (hp₁.fresh hseen₁.distinct)
          · exact absurd (hp₁.place hseen₁.distinct) hbehind
          · exact hend
        refine ⟨fun _ => hseen₃.all ?_, fun hsome => absurd rfl hsome⟩
        omega
      next hne =>
        have hothers : ∀ v ∈ victims ref n fuel p₃, v.1.SafeVictim v.2 := by
          intro v hv
          apply hsafe v
          rw [if_neg hne]
          exact mem_cons_of_mem _ hv
        obtain ⟨hnone, hsome⟩ := ih (hp₁.preempt hne hselect hpreempt) hseen₃ hothers h
        rw [hrunning, hindex] at hless
        exact ⟨hnone, fun hres => ⟨(hsome hres).1, (hsome hres).2.trans hless⟩⟩

theorem runningTurn_seen {goOn : Bool}
    (href : p.sched.running[p.reqIndex]? = some ref) (hbudget : 0 < p.tokenBudget) (hp : p.Ordered)
    (hseen : p.Seen requests seen p.reqIndex)
    (hsafe : ∀ v ∈ p.turnVictims env ref, v.1.SafeVictim v.2)
    (h : p.runningTurn env ref = .ok (goOn, p')) :
    if goOn then p'.Seen requests (seen ++ [ref]) p'.reqIndex ∧
      p'.sched.running.length - p'.reqIndex < p.sched.running.length - p.reqIndex
    else p'.AllSeen requests (seen ++ [ref]) := by
  have hlt := (List.getElem?_eq_some_iff.mp href).1
  have hexamined := hseen.examine href
  unfold runningTurn at h
  unfold turnVictims at hsafe
  split at h
  · obtain ⟨rfl, rfl⟩ := h
    constructor
    · exact hexamined.congr rfl rfl
    · show p.sched.running.length - (p.reqIndex + 1) < p.sched.running.length - p.reqIndex
      omega
  next hneeded =>
    rw [if_neg hneeded] at hsafe
    simp only [bind_ok] at h
    obtain ⟨⟨plan, p₁⟩, hplan, h⟩ := h
    obtain ⟨_, hsame, hlowers⟩ := planRunning_steps hplan
    have hrunning : p₁.sched.running = p.sched.running := by rw [hsame.eq]
    have hindex : p₁.reqIndex = p.reqIndex := by rw [hsame.eq]
    have hseen₁ : p₁.Seen requests (seen ++ [ref]) (p₁.reqIndex + 1) := by
      rw [hindex]
      exact hexamined.congr hrunning (by rw [hsame.eq])
    simp only [hplan] at hsafe
    split at h
    · obtain ⟨rfl, rfl⟩ := h
      constructor
      · exact hseen₁.congr rfl rfl
      · show p₁.sched.running.length - (p₁.reqIndex + 1) < p.sched.running.length - p.reqIndex
        rw [hrunning, hindex]
        omega
    next hn =>
      rw [if_neg hn] at hsafe
      simp only [bind_ok] at h
      obtain ⟨⟨newBlocks, p₂⟩, halloc, h⟩ := h
      have hplanned : p₁.PlannedRunning ref plan.numNewTokens :=
        .of_plan href hp.noAdmission hp.order hbudget (by simpa using hneeded) hsame hlowers hn
      obtain ⟨hnone, hsome⟩ := allocateOrPreempt_seen hplanned hseen₁ hsafe halloc
      cases newBlocks with
      | none =>
        obtain ⟨rfl, rfl⟩ := h
        exact hnone rfl
      | some blocks =>
        simp only [bind_ok, pure_ok, Prod.mk.injEq] at h
        obtain ⟨p₃, hschedule, rfl, rfl⟩ := h
        obtain ⟨hseen₂, hless⟩ := hsome (by simp)
        have hspec := scheduleRunning_spec hschedule
        have hindex₃ : p₃.reqIndex = p₂.reqIndex + 1 := by rw [hspec]
        have hrunning₃ : p₃.sched.running = p₂.sched.running := by
          rw [hspec]
          rfl
        rw [if_pos rfl, hindex₃]
        constructor
        · exact hseen₂.congr hrunning₃ (by rw [hspec])
        · rw [hrunning₃]
          rw [hrunning, hindex] at hless
          omega

theorem runningLoop_seen (hp : p.Ordered)
    (hseen : p.Seen requests seen p.reqIndex) (hfuel : p.sched.running.length - p.reqIndex ≤ fuel)
    (hsafe : SafeVictims env fuel p) (h : runningLoop env fuel p = .ok p')
    (hbudget : 0 < p'.tokenBudget) : p'.AllSeen requests (seen ++ examined env fuel p) := by
  induction fuel generalizing p seen with
  | zero =>
    simp only [runningLoop, pure_ok] at h
    rw [← h]
    have hnone : examined env 0 p = [] := rfl
    rw [hnone, append_nil]
    apply hseen.all
    omega
  | succ fuel ih =>
    unfold runningLoop at h
    cases href : p.sched.running[p.reqIndex]? with
    | none =>
      simp only [href, pure_ok] at h
      have hnone : examined env (fuel + 1) p = [] := by
        simp only [examined, turns, href, map_nil]
      rw [hnone, append_nil, ← h]
      exact hseen.all (getElem?_eq_none_iff.mp href)
    | some ref =>
      simp only [href] at h
      split at h
      next hspent =>
        rw [pure_ok] at h
        rw [← h] at hbudget
        omega
      next hleft =>
        simp only [bind_ok] at h
        obtain ⟨⟨goOn, p₁⟩, hturn, h⟩ := h
        have hturns : turns env (fuel + 1) p = (ref, p.turnVictims env ref) ::
            if goOn then turns env fuel p₁ else [] := by
          simp only [turns, href, if_neg hleft, hturn]
          cases goOn <;> rfl
        have hexamined : seen ++ examined env (fuel + 1) p = seen ++ [ref] ++
            if goOn then examined env fuel p₁ else [] := by
          simp only [examined, hturns]
          cases goOn <;> simp
        unfold SafeVictims at hsafe
        rw [hturns] at hsafe
        have hone := runningTurn_seen href (by omega) hp hseen
          (hsafe _ mem_cons_self) hturn
        rw [hexamined]
        cases goOn with
        | true =>
          obtain ⟨hseen₁, hless⟩ := hone
          have hp₁ := (runningTurn_steps href (by omega) hp hturn).2 rfl
          apply ih hp₁ hseen₁ (by omega) _ h
          exact fun turn hmem => hsafe turn (mem_cons_of_mem _ hmem)
        | false =>
          simp only [Bool.false_eq_true, if_false, pure_ok] at h hone ⊢
          rw [append_nil, ← h]
          exact hone

def callTurns (env : ScheduleEnv) (s : Scheduler D C) : List (Ref × List (Pass D C × Ref)) :=
  turns env s.running.length (start s)

/-- No running request is skipped where every victim is a safe one: a loop that ends with
tokens left has examined every request that it did not preempt exactly once. -/
theorem examines_each {s : Scheduler D C} {env : ScheduleEnv} {p : Pass D C}
    (hnodup : s.running.Nodup) (hsafe : ∀ turn ∈ callTurns env s, ∀ v ∈ turn.2, v.1.SafeVictim v.2)
    (h : runningLoop env s.running.length (start s) = .ok p) (hbudget : 0 < p.tokenBudget) :
    ∀ ref ∈ s.running, ref ∉ p.preemptedReqs →
      ((callTurns env s).map (·.1)).count ref = 1 := by
  have hseen : (start s).Seen s.running [] (start s).reqIndex := by
    constructor
    · show (s.running ++ []).Nodup
      rw [append_nil]
      exact hnodup
    · exact fun x hx _ => hx
    · exact fun x hx => absurd hx not_mem_nil
    · exact fun x _ => not_mem_nil
  exact runningLoop_seen (start_ordered s) hseen (Nat.sub_le _ _) hsafe h hbudget

end Pass

end Scheduler

namespace EngineCore

open Scheduler.Pass

/-! ## Three prefills -/

def shortSteps : SchedulerConfig Transcript :=
  { smallConfig with policy := .priority, longPrefillTokenThreshold := 2 }

def promptOf (requestId : ReqId) (priority : Int) (length : Nat) : Request.Args where
  requestId := requestId
  promptTokenIds := some (List.replicate length 1)
  samplingParams := some { maxTokens := 8 }
  priority := priority

/-- A short prompt whose only step is still in flight, and two long prompts behind it. -/
def threePrefills (first last : Int) : List (Call (.noConnector Transcript)) :=
  [.addRequest (promptOf 0 first 2), .schedule {}, .addRequest (promptOf 1 0 8),
    .addRequest (promptOf 2 last 8), .schedule {}]

/-- The victim stands behind the request that needs its blocks. -/
theorem examines_each_threePrefills :
    ∃ e : EngineCore Transcript (.noConnector Transcript), ReachableBy (fun _ _ => True) e ∧
      ∃ p, runningLoop {} e.scheduler.running.length (start e.scheduler) = .ok p ∧
        p.preemptedReqs = [2] ∧
        ∀ ref ∈ e.scheduler.running, ref ∉ p.preemptedReqs →
          ((callTurns {} e.scheduler).map (·.1)).count ref = 1 := by
  obtain ⟨e₀, hcreate⟩ : ∃ e₀, small shortSteps 8 = .ok e₀ := ⟨_, rfl⟩
  obtain ⟨e, hrun, p, hloop, hpreempted, hbudget, hnodup, hsafe⟩ :
      ∃ e, runOps run e₀ (threePrefills 0 5) = .ok e ∧
        ∃ p, runningLoop {} e.scheduler.running.length (start e.scheduler) = .ok p ∧
          p.preemptedReqs = [2] ∧ 0 < p.tokenBudget ∧ e.scheduler.running.Nodup ∧
          ∀ turn ∈ callTurns {} e.scheduler, ∀ v ∈ turn.2, v.1.SafeVictim v.2 := by
    cases hcreate
    exact ⟨_, rfl, _, rfl, by decide, by decide, by decide, by decide⟩
  have hinit : e₀.Init := by
    cases hcreate
    exact ⟨_, _, _, rfl⟩
  have hreach : ReachableBy (fun _ _ => True) e :=
    Reachable.runOps_of_forall (.start hinit) (fun _ _ _ => trivial) hrun
  exact ⟨e, hreach, p, hloop, hpreempted, examines_each hnodup hsafe hloop hbudget⟩

/-- The victim was examined and not scheduled; the last request is stepped over. -/
theorem examines_not_each :
    ¬∀ e : EngineCore Transcript (.noConnector Transcript), ReachableBy (fun _ _ => True) e →
      e.scheduler.config.policy = .priority → ∀ env p,
        runningLoop env e.scheduler.running.length (start e.scheduler) = .ok p →
          0 < p.tokenBudget → ∀ ref ∈ e.scheduler.running, ref ∉ p.preemptedReqs →
            ((callTurns env e.scheduler).map (·.1)).count ref = 1 := by
  intro hall
  obtain ⟨e₀, hcreate⟩ : ∃ e₀, small shortSteps 8 = .ok e₀ := ⟨_, rfl⟩
  obtain ⟨e, hrun, hpolicy, p, hloop, hbudget, hmem, hkept, hcount⟩ :
      ∃ e, runOps run e₀ (threePrefills 5 0) = .ok e ∧ e.scheduler.config.policy = .priority ∧
        ∃ p, runningLoop {} e.scheduler.running.length (start e.scheduler) = .ok p ∧
          0 < p.tokenBudget ∧ 2 ∈ e.scheduler.running ∧ 2 ∉ p.preemptedReqs ∧
          ((callTurns {} e.scheduler).map (·.1)).count 2 = 0 := by
    cases hcreate
    exact ⟨_, rfl, rfl, _, rfl, by decide, by decide, by decide, by decide⟩
  have hinit : e₀.Init := by
    cases hcreate
    exact ⟨_, _, _, rfl⟩
  have hreach : ReachableBy (fun _ _ => True) e :=
    Reachable.runOps_of_forall (.start hinit) (fun _ _ _ => trivial) hrun
  have hone := hall e hreach hpolicy {} p hloop hbudget 2 hmem hkept
  omega

end EngineCore

end VllmCore
