import VllmCore.Scheduler.Frames
import VllmCore.Engine
/-!
# The stop conditions

The generated tokens of a step are appended one by one, and the rest is dropped when the
request stops.  `check_stop` looks at `min_tokens` first, also where a limit is reached:
a request stops at its limits exactly when they leave room for `min_tokens`.
-/

namespace VllmCore

open List Support

variable {D : Type}

/-! ## What a request is to stop at -/

def Request.withOutput (r : Request D) (tokenIds : List Token) : Request D :=
  { r with
    outputTokenIds := r.outputTokenIds ++ tokenIds
    allTokenIds := r.allTokenIds ++ tokenIds }

def Request.atLimit (maxModelLen : Nat) (r : Request D) : Bool :=
  maxModelLen ≤ r.numTokens ∨ r.maxTokens ≤ r.numOutputTokens

/-- The last token ends the request: the end token, a stop token or a repetition. -/
def Request.endsHere (p : SamplingParams) (r : Request D) : Bool :=
  (r.outputTokenIds.getLast?.any fun t => some t = p.eosTokenId ∨ t ∈ p.stopTokenIds) ||
    p.repetitionDetection.elim false (checkSequenceRepetition r.outputTokenIds)

/-- A request stops at a limit, and after `min_tokens` at a token that ends it. -/
def Request.mustStop (maxModelLen : Nat) (p : SamplingParams) (r : Request D) : Bool :=
  r.atLimit maxModelLen || (decide (p.minTokens ≤ r.numOutputTokens) && r.endsHere p)

/-- The tokens that are kept: the shortest prefix after which the request stops, or all
of them. -/
structure ShortestStop (maxModelLen : Nat) (p : SamplingParams) (r : Request D)
    (tokenIds kept : List Token) (stopped : Bool) : Prop where
  isPrefix : kept <+: tokenIds
  before : ∀ pre, pre <+: kept → pre ≠ [] → pre ≠ kept →
    (r.withOutput pre).mustStop maxModelLen p = false
  stops : stopped = true → kept ≠ [] ∧ (r.withOutput kept).mustStop maxModelLen p = true
  goesOn : stopped = false → kept = tokenIds ∧
    (kept ≠ [] → (r.withOutput kept).mustStop maxModelLen p = false)

/-- A request within its limits, and finished where it has reached one. -/
structure Request.WithinLimits (maxModelLen : Nat) (r : Request D) : Prop where
  output : r.numOutputTokens ≤ r.maxTokens
  total : r.numTokens ≤ maxModelLen
  finished : r.atLimit maxModelLen = true → r.isFinished = true

/-- A request that generates tokens: `numPrompt` of its tokens were not generated. -/
structure Request.Generating (numPrompt : Nat) (p : SamplingParams) (r : Request D) : Prop where
  unfinished : r.isFinished = false
  noPooling : r.poolingParams = none
  sampling : r.samplingParams = some p
  numTokens : r.numTokens = numPrompt + r.numOutputTokens

variable {r : Request D} {p : SamplingParams} {maxModelLen : Nat}

theorem Request.mustStop_congr {r' : Request D}
    (houtput : r'.outputTokenIds = r.outputTokenIds) (hall : r'.allTokenIds = r.allTokenIds)
    (hmax : r'.maxTokens = r.maxTokens) : r'.mustStop maxModelLen p = r.mustStop maxModelLen p := by
  unfold Request.mustStop Request.atLimit Request.endsHere Request.numTokens Request.numOutputTokens
  rw [houtput, hall, hmax]

theorem Request.minTokens_of_mustStop {numPrompt : Nat}
    (houtput : p.minTokens ≤ r.maxTokens) (htotal : numPrompt + p.minTokens ≤ maxModelLen)
    (htokens : r.numTokens = numPrompt + r.numOutputTokens)
    (h : r.mustStop maxModelLen p = true) : p.minTokens ≤ r.numOutputTokens := by
  unfold Request.mustStop Request.atLimit at h
  rw [Bool.or_eq_true, Bool.and_eq_true, decide_eq_true_eq, decide_eq_true_eq] at h
  omega

theorem ShortestStop.cons {maxModelLen : Nat} {p : SamplingParams} {r r' : Request D} {t : Token}
    {rest kept : List Token} {stopped : Bool} (h : ShortestStop maxModelLen p r' rest kept stopped)
    (hfirst : (r.withOutput [t]).mustStop maxModelLen p = false)
    (houtput : r'.outputTokenIds = r.outputTokenIds ++ [t])
    (hall : r'.allTokenIds = r.allTokenIds ++ [t]) (hmax : r'.maxTokens = r.maxTokens) :
    ShortestStop maxModelLen p r (t :: rest) (t :: kept) stopped := by
  have hmust : ∀ pre, (r.withOutput (t :: pre)).mustStop maxModelLen p =
      (r'.withOutput pre).mustStop maxModelLen p := by
    intro pre
    apply Request.mustStop_congr
    · show r.outputTokenIds ++ t :: pre = r'.outputTokenIds ++ pre
      rw [houtput, append_assoc, singleton_append]
    · show r.allTokenIds ++ t :: pre = r'.allTokenIds ++ pre
      rw [hall, append_assoc, singleton_append]
    · exact hmax.symm
  refine ⟨(cons_prefix_cons).mpr ⟨rfl, h.isPrefix⟩, ?_, ?_, ?_⟩
  · intro pre hpre hne hnot
    cases pre with
    | nil => exact absurd rfl hne
    | cons x pre =>
      obtain ⟨rfl, hrest⟩ := (cons_prefix_cons).mp hpre
      by_cases hnil : pre = []
      · rw [hnil]
        exact hfirst
      · rw [hmust]
        exact h.before pre hrest hnil fun heq => hnot (heq ▸ rfl)
  · intro hstopped
    rw [hmust]
    exact ⟨cons_ne_nil t kept, (h.stops hstopped).2⟩
  · intro hgoes
    obtain ⟨hkept, hend⟩ := h.goesOn hgoes
    refine ⟨by rw [hkept], fun _ => ?_⟩
    by_cases hnil : kept = []
    · rw [hnil]
      exact hfirst
    · rw [hmust]
      exact hend hnil

namespace Scheduler

/-- The outputs of several steps, until the request stops. -/
def appendBatches (config : SchedulerConfig D) : List (List Token) → Request D → Py (Request D)
  | [], r => pure r
  | tokenIds :: rest, r => do
    let (_, stopped, r) ← appendUntilStop config tokenIds r
    if stopped then pure r else appendBatches config rest r

theorem checkStop_eq {r : Request D} {p : SamplingParams} {maxModelLen : Nat}
    (hpooling : r.poolingParams = none) (hsampling : r.samplingParams = some p)
    (hne : r.outputTokenIds ≠ []) :
    ∃ r', checkStop r maxModelLen =
      .ok (r', decide (p.minTokens ≤ r.numOutputTokens) && r.mustStop maxModelLen p) := by
  obtain ⟨t, hlast⟩ : ∃ t, r.outputTokenIds.getLast? = some t :=
    ⟨_, getLast?_eq_some_getLast hne⟩
  have hassert : pyAssert (r.poolingParams.isNone = true) "not request.pooling_params" = .ok () :=
    pyAssert_pos (by rw [hpooling]; rfl)
  unfold checkStop
  rw [hassert, ok_bind, hsampling]
  dsimp only
  by_cases hmin : r.numOutputTokens < p.minTokens
  · rw [if_pos hmin, decide_eq_false (Nat.not_le.mpr hmin)]
    exact ⟨r, rfl⟩
  · rw [if_neg hmin, decide_eq_true (Nat.not_lt.mp hmin), Bool.true_and, hlast]
    dsimp only
    have hends : r.endsHere p = (decide (some t = p.eosTokenId ∨ t ∈ p.stopTokenIds) ||
        p.repetitionDetection.elim false (checkSequenceRepetition r.outputTokenIds)) := by
      unfold Request.endsHere
      rw [hlast, Option.any_some]
    have hmust : r.mustStop maxModelLen p = (r.atLimit maxModelLen || r.endsHere p) := by
      unfold Request.mustStop
      rw [decide_eq_true (Nat.not_lt.mp hmin), Bool.true_and]
    rw [hmust, hends]
    split
    next heos => exact ⟨_, by simp [heos]; rfl⟩
    next heos =>
      split
      next hstop => exact ⟨_, by simp [hstop]; rfl⟩
      next hstop =>
        split
        next hlimit =>
          have hat : r.atLimit maxModelLen = true := by
            exact decide_eq_true hlimit
          exact ⟨_, by rw [hat, Bool.true_or]; rfl⟩
        next hlimit =>
          have hat : r.atLimit maxModelLen = false := by
            exact decide_eq_false hlimit
          rw [hat, Bool.false_or]
          split
          next hrepeats => exact ⟨_, by rw [hrepeats, Bool.or_true]; rfl⟩
          next hrepeats => exact ⟨_, by simp [heos, hstop, hrepeats]; rfl⟩

theorem appendToken {config : SchedulerConfig D} {r : Request D} {p : SamplingParams}
    {numPrompt : Nat} (h : r.Generating numPrompt p) (t : Token) :
    ∃ r', checkStop (r.appendOutputTokenIds config.blockHasher [t]) config.maxModelLen =
        .ok (r', decide (p.minTokens ≤ r.numOutputTokens + 1) &&
          (r.withOutput [t]).mustStop config.maxModelLen p) ∧
      r'.outputTokenIds = r.outputTokenIds ++ [t] ∧ r'.allTokenIds = r.allTokenIds ++ [t] ∧
      r'.maxTokens = r.maxTokens ∧ r'.poolingParams = none ∧ r'.samplingParams = some p := by
  have happend := Request.appendOutputTokenIds_spec config.blockHasher r [t]
  generalize r.appendOutputTokenIds config.blockHasher [t] = r₁ at happend
  obtain ⟨r', hcheck⟩ := @checkStop_eq D r₁ p config.maxModelLen
    (by rw [happend]; exact h.noPooling) (by rw [happend]; exact h.sampling)
    (by rw [happend]; simp)
  have hnum : r₁.numOutputTokens = r.numOutputTokens + 1 := by
    rw [happend]
    simp [Request.numOutputTokens]
  have hmust : r₁.mustStop config.maxModelLen p =
    (r.withOutput [t]).mustStop config.maxModelLen p :=
    Request.mustStop_congr (by rw [happend]; rfl) (by rw [happend]; rfl) (by rw [happend]; rfl)
  have hspec := (checkStop_spec hcheck).1
  rw [hnum, hmust] at hcheck
  refine ⟨r', hcheck, ?_, ?_, ?_, ?_, ?_⟩
  · rw [hspec, happend]
  · rw [hspec, happend]
  · rw [hspec, happend]
  · rw [hspec, happend]
    exact h.noPooling
  · rw [hspec, happend]
    exact h.sampling

variable {config : SchedulerConfig D} {numPrompt : Nat} {p : SamplingParams} {r r₁ : Request D}

theorem lengths_append {t : Token} (hout : r₁.outputTokenIds = r.outputTokenIds ++ [t])
    (hall : r₁.allTokenIds = r.allTokenIds ++ [t]) :
    r₁.numOutputTokens = r.numOutputTokens + 1 ∧ r₁.numTokens = r.numTokens + 1 := by
  simp [Request.numOutputTokens, Request.numTokens, hout, hall]

theorem unfinished_append (h : r.Generating numPrompt p) {t : Token} {n : Nat}
    (hcheck : checkStop (r.appendOutputTokenIds config.blockHasher [t]) n = .ok (r₁, false)) :
    r₁.isFinished = false := by
  have hstatus := ((checkStop_spec hcheck).2.1 rfl).trans (congrArg Request.status
    (Request.appendOutputTokenIds_spec config.blockHasher r [t]))
  show r₁.status.isFinished = false
  rw [hstatus]
  exact h.unfinished

theorem appendUntilStop_shortest (houtput : p.minTokens ≤ r.maxTokens)
    (htotal : numPrompt + p.minTokens ≤ config.maxModelLen) (h : r.Generating numPrompt p)
    (hlimit : r.atLimit config.maxModelLen = false) (tokenIds : List Token) :
    ∃ kept stopped r', appendUntilStop config tokenIds r = .ok (kept, stopped, r') ∧
      ShortestStop config.maxModelLen p r tokenIds kept stopped ∧
      (stopped = false → r'.Generating numPrompt p ∧ r'.maxTokens = r.maxTokens ∧
        r'.atLimit config.maxModelLen = false) ∧
      (stopped = true → r'.WithinLimits config.maxModelLen ∧ r'.isFinished = true) := by
  induction tokenIds generalizing r with
  | nil =>
    refine ⟨[], false, r, rfl, ?_, fun _ => ⟨h, rfl, hlimit⟩, (fun hstop => by cases hstop)⟩
    refine ⟨prefix_rfl, ?_, (fun hstop => by cases hstop),
      fun _ => ⟨rfl, fun hne => absurd rfl hne⟩⟩
    exact fun pre hpre hne _ => absurd (prefix_nil.mp hpre) hne
  | cons t rest ih =>
    obtain ⟨r₁, hcheck, hout, hall, hmax, hpooling, hsampling⟩ := @appendToken D config r p _ h t
    obtain ⟨_, hsame, hfinished⟩ := checkStop_spec hcheck
    obtain ⟨hnumOutput, hnumTokens⟩ := lengths_append hout hall
    have htokens := h.numTokens
    have hmust : (r.withOutput [t]).mustStop config.maxModelLen p =
        r₁.mustStop config.maxModelLen p := Request.mustStop_congr hout.symm hall.symm hmax.symm
    cases hstop : (r.withOutput [t]).mustStop config.maxModelLen p with
    | true =>
      have hmin : p.minTokens ≤ r.numOutputTokens + 1 := by
        rw [← hnumOutput]
        refine Request.minTokens_of_mustStop (by rw [hmax]; exact houtput) htotal ?_ (hmust ▸ hstop)
        omega
      rw [hstop, decide_eq_true hmin, Bool.true_and] at hcheck hfinished
      refine ⟨[t], true, r₁, ?_, ?_, (fun hgoes => by cases hgoes), fun _ => ⟨?_, hfinished rfl⟩⟩
      · rw [appendUntilStop, hcheck]
        rfl
      · refine ⟨⟨rest, rfl⟩, ?_, fun _ => ⟨cons_ne_nil t [], hstop⟩,
          (fun hgoes => by cases hgoes)⟩
        intro pre hpre hne hnot
        cases pre with
        | nil => exact absurd rfl hne
        | cons x pre =>
          obtain ⟨rfl, hrest⟩ := (cons_prefix_cons).mp hpre
          rw [prefix_nil.mp hrest] at hnot
          exact absurd rfl hnot
      · unfold Request.atLimit at hlimit
        rw [decide_eq_false_iff_not] at hlimit
        refine ⟨?_, ?_, fun _ => hfinished rfl⟩
        · omega
        · omega
    | false =>
      rw [hstop, Bool.and_false] at hcheck
      have hgenerating : r₁.Generating numPrompt p :=
        ⟨unfinished_append h hcheck, hpooling, hsampling, by omega⟩
      have hlimit₁ : r₁.atLimit config.maxModelLen = false := by
        rw [hmust] at hstop
        exact (Bool.or_eq_false_iff.mp hstop).1
      obtain ⟨kept, stopped, r', happend, hshortest, hgoes, hstops⟩ :=
        ih (by rw [hmax]; exact houtput) hgenerating hlimit₁
      refine ⟨t :: kept, stopped, r', ?_, hshortest.cons hstop hout hall hmax, ?_, hstops⟩
      · rw [appendUntilStop, hcheck]
        simp only [ok_bind, Bool.false_eq_true, if_false, happend]
        rfl
      · intro hno
        obtain ⟨hgen, hmax', hlim⟩ := hgoes hno
        exact ⟨hgen, hmax'.trans hmax, hlim⟩

theorem appendUntilStop_suppressed {config : SchedulerConfig D} {r : Request D}
    {p : SamplingParams} {numPrompt : Nat} (h : r.Generating numPrompt p) {tokenIds : List Token}
    (hmin : r.numOutputTokens + tokenIds.length < p.minTokens) :
    ∃ r', appendUntilStop config tokenIds r = .ok (tokenIds, false, r') ∧
      r'.isFinished = false ∧ r'.maxTokens = r.maxTokens ∧
      r'.numOutputTokens = r.numOutputTokens + tokenIds.length ∧
      r'.numTokens = r.numTokens + tokenIds.length := by
  induction tokenIds generalizing r with
  | nil => exact ⟨r, rfl, h.unfinished, rfl, rfl, rfl⟩
  | cons t rest ih =>
    obtain ⟨r₁, hcheck, hout, hall, hmax, hpooling, hsampling⟩ := @appendToken D config r p _ h t
    rw [length_cons] at hmin
    rw [decide_eq_false (by omega), Bool.false_and] at hcheck
    obtain ⟨hnumOutput, hnumTokens⟩ := lengths_append hout hall
    have htokens := h.numTokens
    have hgenerating : r₁.Generating numPrompt p :=
      ⟨unfinished_append h hcheck, hpooling, hsampling, by omega⟩
    obtain ⟨r', happend, hlive, hmax', hout', hall'⟩ := ih hgenerating (by omega)
    refine ⟨r', ?_, hlive, hmax'.trans hmax, ?_, ?_⟩
    · rw [appendUntilStop, hcheck]
      simp only [ok_bind, Bool.false_eq_true, if_false, happend]
      rfl
    · rw [length_cons]
      omega
    · rw [length_cons]
      omega

/-! ## Every sequence of outputs -/

/-- After any outputs the request is within its limits, and it has stopped where it has
reached one; of the tokens of the next step the shortest prefix that ends with a stop is
kept. -/
def StopsAtLimits (config : SchedulerConfig D) (p : SamplingParams) (r : Request D) : Prop :=
  ∀ batches, ∃ r', appendBatches config batches r = .ok r' ∧ r'.WithinLimits config.maxModelLen ∧
    (r'.isFinished = false → ∀ tokenIds, ∃ kept stopped r'',
      appendUntilStop config tokenIds r' = .ok (kept, stopped, r'') ∧
        ShortestStop config.maxModelLen p r' tokenIds kept stopped)

theorem withinLimits_of_atLimit (h : r.atLimit maxModelLen = false) :
    r.WithinLimits maxModelLen := by
  have hlimit := h
  unfold Request.atLimit at hlimit
  rw [decide_eq_false_iff_not] at hlimit
  constructor
  · omega
  · omega
  · intro hat
    rw [h] at hat
    cases hat

theorem stopsAtLimits (houtput : p.minTokens ≤ r.maxTokens)
    (htotal : numPrompt + p.minTokens ≤ config.maxModelLen) (h : r.Generating numPrompt p)
    (hlimit : r.atLimit config.maxModelLen = false) : StopsAtLimits config p r := by
  intro batches
  induction batches generalizing r with
  | nil =>
    refine ⟨r, rfl, withinLimits_of_atLimit hlimit, fun _ tokenIds => ?_⟩
    obtain ⟨kept, stopped, r', happend, hshortest, -⟩ :=
      appendUntilStop_shortest houtput htotal h hlimit tokenIds
    exact ⟨kept, stopped, r', happend, hshortest⟩
  | cons tokenIds rest ih =>
    obtain ⟨kept, stopped, r₁, happend, -, hgoes, hstops⟩ :=
      appendUntilStop_shortest houtput htotal h hlimit tokenIds
    cases stopped with
    | true =>
      obtain ⟨hwithin, hfinished⟩ := hstops rfl
      refine ⟨r₁, ?_, hwithin, fun hlive => ?_⟩
      · rw [appendBatches, happend]
        rfl
      · rw [hfinished] at hlive
        cases hlive
    | false =>
      obtain ⟨hgenerating, hmax, hbelow⟩ := hgoes rfl
      obtain ⟨r', hrest, hresult⟩ := ih (by rw [hmax]; exact houtput) hgenerating hbelow
      refine ⟨r', ?_, hresult⟩
      rw [appendBatches, happend]
      exact hrest

theorem not_stopsAtLimits (hroom : r.maxTokens < p.minTokens ∨
      config.maxModelLen < numPrompt + p.minTokens) (h : r.Generating numPrompt p)
    (hlimit : r.atLimit config.maxModelLen = false) : ¬StopsAtLimits config p r := by
  intro hstops
  have htokens := h.numTokens
  unfold Request.atLimit at hlimit
  rw [decide_eq_false_iff_not] at hlimit
  -- the tokens up to the first of the two limits
  obtain ⟨k, hk⟩ : ∃ k, k = min (r.maxTokens - r.numOutputTokens)
    (config.maxModelLen - r.numTokens) :=
    ⟨_, rfl⟩
  have hmin : r.numOutputTokens + (List.replicate k (0 : Token)).length < p.minTokens := by
    rw [length_replicate]
    omega
  obtain ⟨r₁, happend, hlive, hmax, hnumOutput, hnumTokens⟩ :=
    @appendUntilStop_suppressed D config r p numPrompt h (List.replicate k 0) hmin
  rw [length_replicate] at hnumOutput hnumTokens
  obtain ⟨r', hrun, hwithin, -⟩ := hstops [List.replicate k 0]
  have hsame : r' = r₁ := by
    rw [appendBatches, happend] at hrun
    exact (Except.ok.inj hrun).symm
  have hat : r'.atLimit config.maxModelLen = true := by
    unfold Request.atLimit
    rw [decide_eq_true_eq, hsame]
    omega
  have hfinished := hwithin.finished hat
  rw [hsame, hlive] at hfinished
  cases hfinished

theorem atLimit_of_stopsAtLimits (h : r.Generating numPrompt p)
    (hstops : StopsAtLimits config p r) : r.atLimit config.maxModelLen = false := by
  by_contra hat
  obtain ⟨r', hrun, hwithin, -⟩ := hstops []
  have hsame : r' = r := (Except.ok.inj hrun).symm
  rw [hsame] at hwithin
  have hfinished := hwithin.finished (Bool.eq_true_of_not_eq_false hat)
  rw [h.unfinished] at hfinished
  cases hfinished

/-- A request always stops at its limits exactly when it starts below them and both leave
room for `min_tokens`. -/
theorem stopsAtLimits_iff {config : SchedulerConfig D} {r : Request D} {p : SamplingParams}
    {numPrompt : Nat} (h : r.Generating numPrompt p) :
    StopsAtLimits config p r ↔ r.atLimit config.maxModelLen = false ∧
      p.minTokens ≤ r.maxTokens ∧ numPrompt + p.minTokens ≤ config.maxModelLen := by
  constructor
  · intro hstops
    have hlimit := atLimit_of_stopsAtLimits h hstops
    refine ⟨hlimit, ?_⟩
    by_contra hroom
    exact not_stopsAtLimits (by omega) h hlimit hstops
  · intro hroom
    exact stopsAtLimits hroom.2.1 hroom.2.2 h hroom.1

def shortConfig : SchedulerConfig Transcript := { smallConfig with maxModelLen := 4 }

def longPrompt : Request Transcript where
  requestId := 0
  samplingParams := some { maxTokens := 8, minTokens := 2 }
  status := .running
  maxTokens := 8
  promptTokenIds := some [1, 2, 3]
  numPromptTokens := 3
  allTokenIds := [1, 2, 3]

theorem longPrompt_generating :
    longPrompt.Generating 3 { maxTokens := 8, minTokens := 2 } := ⟨rfl, rfl, rfl, rfl⟩

/-- With a model length of sixteen there is room for them. -/
theorem longPrompt_stopsAtLimits :
    longPrompt.Generating 3 { maxTokens := 8, minTokens := 2 } ∧
      StopsAtLimits smallConfig { maxTokens := 8, minTokens := 2 } longPrompt :=
  ⟨longPrompt_generating, (stopsAtLimits_iff longPrompt_generating).mpr (by decide)⟩

/-- The first token reaches the model length, and the request goes on. -/
theorem longPrompt_not_stopsAtLimits :
    longPrompt.Generating 3 { maxTokens := 8, minTokens := 2 } ∧
      longPrompt.atLimit shortConfig.maxModelLen = false ∧
      ¬StopsAtLimits shortConfig { maxTokens := 8, minTokens := 2 } longPrompt :=
  ⟨longPrompt_generating, by decide,
    not_stopsAtLimits (.inr (by decide)) longPrompt_generating (by decide)⟩

end Scheduler

end VllmCore
