import VllmCore.InputProcessor
import VllmCore.Scheduler.PassSteps
/-!
# The progress of a prefill

A running request that has tokens to compute is given at least one of them, unless the cap
`max_model_len - 1` stands in the way.  The cap leaves room for the token that is sampled;
a pooling request samples none, and the last token of a prompt of the whole model length is
never scheduled.
-/

namespace VllmCore

open Support

variable {D : Type} [DecidableEq D] {C : KVConnector D}

namespace Scheduler

namespace Pass

/-- The running loop reaches a request in the middle of its prefill: there are tokens to
compute and tokens left, and no encoder input, draft token or Mamba block is involved. -/
structure InPrefill (p : Pass D C) (ref : Ref) : Prop where
  reached : p.sched.running[p.reqIndex]? = some ref
  budget : 0 < p.tokenBudget
  unfinished : (p.request ref).numComputedTokens < (p.request ref).numTokens
  noEncoder : (p.request ref).hasEncoderInputs = false
  noMamba : p.sched.config.needMambaBlockAlignedSplit = false
  noDrafts : (p.request ref).specTokenIds = []

instance (p : Pass D C) (ref : Ref) : Decidable (p.InPrefill ref) :=
  decidable_of_iff (p.sched.running[p.reqIndex]? = some ref ∧ 0 < p.tokenBudget ∧
      (p.request ref).numComputedTokens < (p.request ref).numTokens ∧
      (p.request ref).hasEncoderInputs = false ∧
      p.sched.config.needMambaBlockAlignedSplit = false ∧ (p.request ref).specTokenIds = [])
    ⟨fun ⟨h₁, h₂, h₃, h₄, h₅, h₆⟩ => ⟨h₁, h₂, h₃, h₄, h₅, h₆⟩,
      fun ⟨h₁, h₂, h₃, h₄, h₅, h₆⟩ => ⟨h₁, h₂, h₃, h₄, h₅, h₆⟩⟩

variable {env : ScheduleEnv} {p p' : Pass D C} {ref : Ref} {plan : Plan}

theorem planRunning_plain (hencoder : (p.request ref).hasEncoderInputs = false)
    (hmamba : p.sched.config.needMambaBlockAlignedSplit = false)
    (h : p.planRunning env ref = .ok (plan, p')) :
    plan.numNewTokens = p.numNewTokensRunning (p.request ref) ∧ p' = p := by
  unfold planRunning tryScheduleEncoderInputs at h
  dsimp only at h
  rw [if_pos (.inr hencoder)] at h
  simp only [bind_ok, pure_ok] at h
  obtain ⟨⟨plan₁, p₁⟩, hfirst, n, hn, h⟩ := h
  obtain ⟨rfl, rfl⟩ := Prod.mk.inj hfirst
  rw [if_neg (by rw [hmamba]; exact Bool.false_ne_true), pure_ok] at hn
  obtain ⟨rfl, rfl⟩ := Prod.mk.inj h
  exact ⟨hn.symm, rfl⟩

/-- A request in its prefill is given a token exactly when it stays below the cap and its
counters leave one. -/
theorem prefill_progress_iff {env : ScheduleEnv} {p p' : Pass D C} {ref : Ref} {plan : Plan}
    (h : p.InPrefill ref) (hplan : p.planRunning env ref = .ok (plan, p')) :
    1 ≤ plan.numNewTokens ↔
      (p.request ref).numComputedTokens + 1 < p.sched.config.maxModelLen ∧
        (p.request ref).numComputedTokens <
          (p.request ref).numTokens + (p.request ref).numOutputPlaceholders := by
  obtain ⟨hplain, _⟩ := planRunning_plain h.noEncoder h.noMamba hplan
  have hbudget := h.budget
  have htokens : (p.request ref).numTokensWithSpec = (p.request ref).numTokens := by
    unfold Request.numTokensWithSpec Request.numTokens
    rw [h.noDrafts, List.length_nil, Nat.add_zero]
  rw [hplain]
  unfold numNewTokensRunning
  rw [htokens]
  dsimp only
  split
  next hthreshold =>
    omega
  · omega

end Pass

end Scheduler

namespace EngineCore

open Scheduler.Pass

/-! ## A prompt of four tokens in steps of three -/

def poolingModel (maxModelLen : Nat) : InputProcessor where
  maxModelLen := maxModelLen
  runnerType := .pooling
  vocabSize := 8

def fourTokens : Request.Args where
  requestId := 0
  promptTokenIds := some [1, 2, 3, 4]
  samplingParams := none
  poolingParams := some {}

def threeTokenSteps (maxModelLen : Nat) : SchedulerConfig Transcript :=
  { smallConfig with maxModelLen := maxModelLen, maxNumScheduledTokens := 3 }

/-- The pooler has nothing for request 0 yet. -/
def noPoolerOutput : ModelRunnerOutput (KVConnector.noConnector Transcript).WorkerMeta where
  reqIdToIndex := Dict.empty.set 0 0
  poolerOutput := [none]

def firstStep : List (Call (.noConnector Transcript)) :=
  [.addRequest fourTokens, .schedule {}, .updateFromOutput noPoolerOutput]

theorem firstStep_accepted {maxModelLen : Nat} (hlen : 4 ≤ maxModelLen) :
    ∀ call ∈ firstStep, (poolingModel maxModelLen).Accepts call := by
  have hcheck : (poolingModel maxModelLen).validatePromptLen 4 .decoder = .ok () :=
    (InputProcessor.validatePromptLen_ok rfl).mpr ⟨by decide, hlen, fun h => by cases h⟩
  have hinput : (poolingModel maxModelLen).validateModelInput
      { promptTokenIds := some [1, 2, 3, 4] } .decoder = .ok () := by
    show ((poolingModel maxModelLen).validatePromptLen 4 .decoder >>= fun _ => _) = _
    rw [hcheck]
    rfl
  intro call hcall
  simp only [firstStep, List.mem_cons, List.not_mem_nil, or_false] at hcall
  rcases hcall with rfl | rfl | rfl
  · exact ⟨_, rfl, rfl, hinput⟩
  · trivial
  · trivial

/-- With a model length of eight the last token is scheduled. -/
theorem prefill_progress_iff_fourTokens :
    ∃ e : EngineCore Transcript (.noConnector Transcript),
      ReachableBy (fun _ => (poolingModel 8).Accepts) e ∧ ∃ plan p',
        (start e.scheduler).planRunning {} 0 = .ok (plan, p') ∧ 1 ≤ plan.numNewTokens := by
  obtain ⟨e₀, hcreate⟩ : ∃ e₀, small (threeTokenSteps 8) 16 = .ok e₀ := ⟨_, rfl⟩
  obtain ⟨e, hrun, hprefill, plan, p', hplan, hroom⟩ :
      ∃ e, runOps run e₀ firstStep = .ok e ∧ (start e.scheduler).InPrefill 0 ∧
        ∃ plan p', (start e.scheduler).planRunning {} 0 = .ok (plan, p') ∧
          ((start e.scheduler).request 0).numComputedTokens + 1 <
              (start e.scheduler).sched.config.maxModelLen ∧
            ((start e.scheduler).request 0).numComputedTokens <
              ((start e.scheduler).request 0).numTokens +
                ((start e.scheduler).request 0).numOutputPlaceholders := by
    cases hcreate
    exact ⟨_, rfl, by decide, _, _, rfl, by decide⟩
  have hinit : e₀.Init := by
    cases hcreate
    exact ⟨_, _, _, rfl⟩
  have hreach : ReachableBy (fun _ => (poolingModel 8).Accepts) e :=
    Reachable.runOps_of_forall (.start hinit)
      (fun call hcall _ => firstStep_accepted (by decide) call hcall) hrun
  exact ⟨e, hreach, plan, p', hplan, (prefill_progress_iff hprefill hplan).mpr hroom⟩

/-- With a model length of four the cap leaves nothing for the last token. -/
theorem not_prefill_progress :
    ¬∀ (ip : InputProcessor) (e : EngineCore Transcript (.noConnector Transcript)),
      ReachableBy (fun _ => ip.Accepts) e → ip.maxModelLen = e.scheduler.config.maxModelLen →
        ∀ env p, PassSteps env (start e.scheduler) p → ∀ ref, p.InPrefill ref →
          (p.request ref).status = .running → ∀ plan p',
            p.planRunning env ref = .ok (plan, p') → 1 ≤ plan.numNewTokens := by
  intro hall
  obtain ⟨e₀, hcreate⟩ : ∃ e₀, small (threeTokenSteps 4) 16 = .ok e₀ := ⟨_, rfl⟩
  obtain ⟨e, hrun, hlen, hprefill, hstatus, plan, p', hplan, hzero⟩ :
      ∃ e, runOps run e₀ firstStep = .ok e ∧ 4 = e.scheduler.config.maxModelLen ∧
        (start e.scheduler).InPrefill 0 ∧ ((start e.scheduler).request 0).status = .running ∧
          ∃ plan p', (start e.scheduler).planRunning {} 0 = .ok (plan, p') ∧
            plan.numNewTokens = 0 := by
    cases hcreate
    exact ⟨_, rfl, rfl, by decide, by decide, _, _, rfl, by decide⟩
  have hinit : e₀.Init := by
    cases hcreate
    exact ⟨_, _, _, rfl⟩
  have hreach : ReachableBy (fun _ => (poolingModel 4).Accepts) e :=
    Reachable.runOps_of_forall (.start hinit)
      (fun call hcall _ => firstStep_accepted le_rfl call hcall) hrun
  have hpositive := hall (poolingModel 4) e hreach hlen {} _ .refl 0 hprefill hstatus plan p' hplan
  omega

end EngineCore

end VllmCore
