import VllmCore.EncoderCacheManager.References
import VllmCore.Scheduler.QueuePartition
/-!
# References of waiting requests

Looking at the inputs of a request takes references to those that are cached.  A request
that is not scheduled has to give them back.  The waiting loop does so where the blocks
are missing, and does not where the request is left without tokens.
-/

namespace VllmCore

open EncoderCache List Support

variable {D : Type}

namespace EncoderArgs

variable {a : EncoderArgs D} {st st' : EncoderScan} {i : Nat} {f : MultiModalFeatureSpec}
  {goOn : Bool}

end EncoderArgs

namespace Scheduler

variable [DecidableEq D] {C : KVConnector D}

/-! ## References that are new -/

structure SameInputs (s s' : Scheduler D C) : Prop where
  requestId : ∀ x, (s'.objs x).requestId = (s.objs x).requestId
  features : ∀ x, (s'.objs x).mmFeatures = (s.objs x).mmFeatures

/-- New references since `s` are those of the requests in `held` to their inputs. -/
structure NewOnly (s : Scheduler D C) (held : List Ref) (s' : Scheduler D C) : Prop where
  same : s.SameInputs s'
  new : ∀ rid k, s'.encoderCacheManager.References rid k →
    s.encoderCacheManager.References rid k ∨
      ∃ x ∈ held, (s.objs x).requestId = rid ∧ Inputs (s.objs x) k

variable {s s₁ s' : Scheduler D C} {held held' : List Ref} {ref : Ref}

theorem SameInputs.of_objs (hobjs : s'.objs = s.objs) : s.SameInputs s' :=
  ⟨fun x => by rw [hobjs], fun x => by rw [hobjs]⟩

theorem SameInputs.trans (h : s.SameInputs s₁) (h' : s₁.SameInputs s') : s.SameInputs s' :=
  ⟨fun x => (h'.requestId x).trans (h.requestId x),
    fun x => (h'.features x).trans (h.features x)⟩

theorem SameInputs.modify (s : Scheduler D C) (ref : Ref) {f : Request D → Request D}
    (hid : ∀ r, (f r).requestId = r.requestId) (hfeatures : ∀ r, (f r).mmFeatures = r.mmFeatures) :
    s.SameInputs (s.modify ref f) := by
  refine ⟨fun x => ?_, fun x => ?_⟩
  · rw [modify_objs]
    split
    next hx => rw [hid, hx]
    · rfl
  · rw [modify_objs]
    split
    next hx => rw [hfeatures, hx]
    · rfl

namespace NewOnly

theorem refl (s : Scheduler D C) (held : List Ref) : s.NewOnly held s :=
  ⟨.of_objs rfl, fun _ _ hk => .inl hk⟩

theorem release (h : s.NewOnly held s₁) (hsame : s₁.SameInputs s')
    (hnone : NoneNew s₁.encoderCacheManager s'.encoderCacheManager)
    (hclear : ∀ x ∈ held, x ∉ held' → ∀ k, Inputs (s₁.objs x) k →
      ¬s'.encoderCacheManager.References (s₁.objs x).requestId k) :
    s.NewOnly held' s' where
  same := h.same.trans hsame
  new rid k hk := by
    rcases h.new rid k (hnone _ _ hk) with hold | ⟨x, hx, rfl, hinput⟩
    · exact .inl hold
    · refine .inr ⟨x, ?_, rfl, hinput⟩
      by_contra hout
      have hcleared := hclear x hx hout k
      rw [Inputs, h.same.features, h.same.requestId] at hcleared
      exact hcleared hinput hk

theorem frame (h : s.NewOnly held s₁) (hsame : s₁.SameInputs s')
    (hcache : s'.encoderCacheManager = s₁.encoderCacheManager) : s.NewOnly held s' :=
  h.release hsame (hcache ▸ .refl _) fun _ hx hout => absurd hx hout

theorem mono (h : s.NewOnly held s') (hsub : held ⊆ held') : s.NewOnly held' s' where
  same := h.same
  new rid k hk := (h.new rid k hk).imp_right fun ⟨x, hx, hinput⟩ => ⟨x, hsub hx, hinput⟩

theorem adds (h : s.NewOnly held s₁) (hsame : s₁.SameInputs s') (hmem : ref ∈ held)
    (hadds : Adds (s₁.objs ref) s₁.encoderCacheManager s'.encoderCacheManager) :
    s.NewOnly held s' where
  same := h.same.trans hsame
  new rid k hk := by
    rcases hadds rid k hk with hk | ⟨rfl, hinput⟩
    · exact h.new rid k hk
    · rw [Inputs, h.same.features] at hinput
      exact .inr ⟨ref, hmem, (h.same.requestId ref).symm, hinput⟩

end NewOnly

namespace Pass

variable {p p₁ p' : Pass D C} {env : ScheduleEnv} {plan : Plan} {n c : Int}

/-! ## The running loop -/

variable {fuel : Nat} {goOn : Bool} {q : QueueName} {computed : Computed} {turn : Pass D C × Ref}

/-- The loop stops at the request, because no tokens are left for it once its encoder inputs
were looked up or its tokens were aligned. -/
def LeavesWithoutTokens (env : ScheduleEnv) (p : Pass D C) (ref : Ref) (p' : Pass D C) : Prop :=
  ∃ s₁ p₁ computed,
    (if (p.request ref).status.isBlockedWaiting then tryPromote env p.sched ref
      else pure (true, p.sched)) = .ok (true, s₁) ∧
    (p.withSched s₁).exceedsMaxLoras ((p.withSched s₁).request ref) = false ∧
    (p.withSched s₁).findComputed ref = .ok (some computed, p₁) ∧
    p₁.planWaiting env ref computed = .ok (none, p')

theorem LeavesWithoutTokens.waitingTurn (h : p.LeavesWithoutTokens env ref p') :
    p.waitingTurn env q ref = .ok (false, p') := by
  obtain ⟨s₁, p₁, computed, hpromote, hloras, hfind, hplan⟩ := h
  refine bind_ok.mpr ⟨_, hpromote, ?_⟩
  dsimp only
  rw [if_neg (by simp [hloras])]
  exact bind_ok.mpr ⟨_, hfind, bind_ok.mpr ⟨_, hplan, rfl⟩⟩

theorem LeavesWithoutTokens.queues (h : p.LeavesWithoutTokens env ref p') : p.SameQueues p' := by
  obtain ⟨s₁, p₁, computed, hpromote, _, hfind, hplan⟩ := h
  have hs₁ : SameLists p.sched s₁ := by
    split at hpromote
    · exact tryPromote_queues hpromote
    · obtain ⟨_, rfl⟩ := Prod.mk.inj (pure_ok.mp hpromote)
      exact ⟨rfl, rfl, fun q => rfl⟩
  exact hs₁.trans ((findComputed_queues hfind).trans (planWaiting_same hplan).queues)

end Pass

/-! ## After the loops -/

open Pass

/-- No request with this id runs or is among the scheduled ones. -/
def Unscheduled (s : Scheduler D C) (scheduled : List ReqId) (rid : ReqId) : Prop :=
  (∀ x ∈ s.running, (s.objs x).requestId ≠ rid) ∧
    ∀ j ∈ scheduled, ∀ x, s.requests.get? j = some x → (s.objs x).requestId ≠ rid

variable {scheduled : List ReqId} {output : SchedulerOutput C.Metadata} {p : Pass D C}

/-- No reference is new, and those of requests that are not scheduled stay. -/
structure ReferencesKept (s : Scheduler D C) (scheduled : List ReqId) (s' : Scheduler D C) :
    Prop where
  queues : s.Quiet s'
  none : NoneNew s.encoderCacheManager s'.encoderCacheManager
  kept : ∀ rid k, s.Unscheduled scheduled rid →
    s.encoderCacheManager.References rid k → s'.encoderCacheManager.References rid k

theorem ReferencesKept.frame (h : s.ReferencesKept scheduled s₁)
    (hframe : s₁.Quiet s') (hcache : s'.encoderCacheManager = s₁.encoderCacheManager) :
    s.ReferencesKept scheduled s' where
  queues := h.queues.trans hframe
  none := by
    rw [hcache]
    exact h.none
  kept := by
    rw [hcache]
    exact h.kept

theorem ReferencesKept.advanceRequest
    {st st' : SchedulerOutput C.Metadata × Scheduler D C} {e : ReqId × Int}
    (h : s.ReferencesKept scheduled st.2) (he : e.1 ∈ scheduled)
    (hstep : Scheduler.advanceRequest st e = .ok st') : s.ReferencesKept scheduled st'.2 := by
  have hqueues := h.queues.trans (advanceRequest_quiet hstep)
  simp only [Scheduler.advanceRequest, bind_ok, Dict.get_ok, pure_ok] at hstep
  obtain ⟨x, hx, s₁, hfree, rfl⟩ := hstep
  rw [h.queues.requests] at hx
  split at hfree
  · simp only [freeEncoderInputs, bind_ok, pure_ok] at hfree
    obtain ⟨cache, hfold, rfl⟩ := hfree
    obtain ⟨hnone, hkeeps, _⟩ := foldlM_freeEncoderInput_spec hfold
    refine ⟨hqueues, fun rid k hk => h.none rid k (hnone rid k hk), fun rid k hout hk => ?_⟩
    have hother := hout.2 e.1 he x hx
    rw [← h.queues.requestId x] at hother
    refine hkeeps rid k ?_ (h.kept rid k hout hk)
    simp only [modify, Function.update_self]
    exact hother.symm
  · obtain rfl := pure_ok.mp hfree
    exact ⟨hqueues, h.none, h.kept⟩

end Scheduler

namespace EngineCore

open Scheduler

def imagePrompt (requestId : ReqId) (features : List MultiModalFeatureSpec) : Request.Args where
  requestId := requestId
  promptTokenIds := some [1, 1, 1, 1]
  samplingParams := some { maxTokens := 4 }
  mmFeatures := features

end EngineCore

end VllmCore
