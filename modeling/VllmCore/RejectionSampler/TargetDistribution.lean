import VllmCore.RejectionSampler.Noise
/-!
# Rejection sampling draws from the target

At every position that is reached, the token of the output is a draw of the target at this
position, whatever the drafter is.  The tensors of the batch are functions of the drafts of a
request and of its noise; those of other requests are arbitrary.
-/

namespace VllmCore.RejectionSampler

open Finset MeasureTheory Nat Support

/-! ## Drafters -/

/-- Where the drafts come from, given the drafts before: a distribution that the kernels get, or
a deterministic choice, for which they get none. -/
inductive Drafter (K : Type)
  | sampled (draft : List Nat → Nat → K)
  | deterministic (draft : List Nat → Nat)

namespace Drafter

variable {K : Type} [Field K] [LinearOrder K]

def dist : Drafter K → List Nat → Nat → K
  | sampled draft => draft
  | deterministic draft => fun h => pointMass (draft h)

def prob : Drafter K → List Nat → Nat → K
  | sampled draft, h, d => draft h d
  | deterministic _, _, _ => 1

/-- The weights of the recovered token when `d` was the draft. -/
def weight (target : List Nat → Nat → K) : Drafter K → List Nat → Nat → Nat → K
  | sampled draft, h, _, v => max (target h v - draft h v) 0
  | deterministic _, h, d, v => if v ≠ d then target h v else 0

def Valid (V n : Nat) : Drafter K → Prop
  | sampled draft => ∀ h, Drafts V h → h.length < n → IsDistribution V (draft h)
  | deterministic draft => ∀ h, Drafts V h → h.length < n → draft h < V

theorem weight_nonneg (target : List Nat → Nat → K) (drafter : Drafter K) {h : List Nat}
    (d : Nat) {v : Nat} (hv : 0 ≤ target h v) : 0 ≤ drafter.weight target h d v := by
  cases drafter with
  | sampled draft => exact le_max_right _ _
  | deterministic draft =>
    show 0 ≤ if v ≠ d then target h v else 0
    split
    · exact hv
    · exact le_refl 0

variable [IsStrictOrderedRing K] {V n : Nat} {drafter : Drafter K} (hvalid : drafter.Valid V n)
include hvalid

theorem Valid.isDistribution {h : List Nat} (hh : Drafts V h) (hn : h.length < n) :
    IsDistribution V (drafter.dist h) := by
  cases drafter with
  | sampled draft => exact hvalid h hh hn
  | deterministic draft => exact isDistribution_pointMass (hvalid h hh hn)

theorem Valid.step {target : List Nat → Nat → K} {h : List Nat} (hh : Drafts V h)
    (hn : h.length < n) (htarget : IsDistribution V (target h)) {t : Nat} (ht : t < V)
    {ρ : Nat → K} (hρ : ∀ d < V, 0 < ∑ v ∈ range V, drafter.weight target h d v →
      ρ d = drafter.weight target h d t / ∑ v ∈ range V, drafter.weight target h d v) :
    ∑ d ∈ range V, drafter.dist h d * (acceptance (target h d) (drafter.prob h d) * pointMass d t +
        (1 - acceptance (target h d) (drafter.prob h d)) * ρ d) = target h t := by
  cases drafter with
  | sampled draft =>
    apply sampled_step htarget (hvalid h hh hn) ht
    intro hsum d hd
    exact hρ d hd hsum
  | deterministic draft =>
    have hd := hvalid h hh hn
    have hterm : ∀ d ∈ range V, pointMass (draft h) d *
        (acceptance (target h d) 1 * pointMass d t + (1 - acceptance (target h d) 1) * ρ d) =
        if d = draft h then acceptance (target h d) 1 * pointMass d t +
          (1 - acceptance (target h d) 1) * ρ d else 0 := by
      intro d _
      unfold pointMass
      rw [ite_mul, one_mul, zero_mul]
    show ∑ d ∈ range V, pointMass (draft h) d *
      (acceptance (target h d) 1 * pointMass d t + (1 - acceptance (target h d) 1) * ρ d) = _
    rw [sum_congr rfl hterm, sum_ite_eq', if_pos (mem_range.mpr hd)]
    exact deterministic_step htarget hd ht (hρ (draft h) hd)

end Drafter

/-! ## The tensors of a request -/

/-- The batch has the drafts `ds` of the request `r`, with their distributions and its noise. -/
structure Batch.Serves {K : Type} [Field K] [LinearOrder K] (b : Batch K) (V n r : Nat)
    (target : List Nat → Nat → K) (drafter : Drafter K) (ds : List Nat) (u : Fin n → K)
    (invQ : Nat → K) : Prop where
  vocabSize : b.vocabSize = V
  lt : r < b.batchSize
  accumulated : ∃ num, b.Accumulated num ∧ num r = n
  isGreedy : b.isGreedy r = false
  draftTokenIds : ∀ i < n, b.draftTokenIds (b.startIdx r + i) = ds.getD i 0
  draftProbs : match drafter with
    | .sampled draft => ∃ draftProbs, b.draftProbs = some draftProbs ∧
        ∀ i < n, ∀ v < V, draftProbs ((b.startIdx r + i) * V + v) = draft (ds.take i) v
    | .deterministic _ => b.draftProbs = none
  targetProbs : ∀ i < n, ∀ v < V,
    b.targetProbs ((b.startIdx r + i) * V + v) = target (ds.take i) v
  uniformProbs : ∀ i : Fin n, b.uniformProbs (b.startIdx r + i) = u i
  invQ : ∀ v < V, b.invQ (r * V + v) = invQ v

section Serves

variable {K : Type} [Field K] [LinearOrder K] {b : Batch K} {V n r : Nat}
  {target : List Nat → Nat → K} {drafter : Drafter K} {ds : List Nat} {u : Fin n → K}
  {invQ : Nat → K} (h : b.Serves V n r target drafter ds u invQ) {i : Nat} (hi : i < n)
include h hi

theorem Batch.Serves.accepts_iff (hd : ds.getD i 0 < V) :
    b.Accepts (b.startIdx r + i) ↔ 0 < drafter.prob (ds.take i) (ds.getD i 0) ∧
      u ⟨i, hi⟩ ≤ target (ds.take i) (ds.getD i 0) / drafter.prob (ds.take i) (ds.getD i 0) := by
  have hprobs := h.draftProbs
  have huniform := h.uniformProbs ⟨i, hi⟩
  unfold Batch.Accepts
  rw [h.vocabSize, h.draftTokenIds i hi]
  dsimp only
  rw [h.targetProbs i hi _ hd, huniform]
  cases drafter with
  | sampled draft =>
    obtain ⟨draftProbs, heq, hvalue⟩ := hprobs
    rw [heq]
    dsimp only
    rw [hvalue i hi _ hd]
    rfl
  | deterministic draft =>
    have hnone : b.draftProbs = none := hprobs
    rw [hnone]
    rfl

theorem Batch.Serves.score_eq : b.score (b.startIdx r + i) r =
    raced V (drafter.weight target (ds.take i) (ds.getD i 0)) invQ := by
  have hprobs := h.draftProbs
  funext v
  unfold Batch.score raced maskedLoad
  rw [h.vocabSize]
  by_cases hv : v < V
  · rw [if_pos hv, if_pos hv, h.invQ v hv]
    congr 1
    unfold Batch.prob maskedLoad
    rw [h.vocabSize, h.targetProbs i hi v hv, h.draftTokenIds i hi]
    cases drafter with
    | sampled draft =>
      obtain ⟨draftProbs, heq, hvalue⟩ := hprobs
      rw [heq]
      dsimp only
      rw [if_pos hv, if_pos hv, hvalue i hi v hv]
      rfl
    | deterministic draft =>
      have hnone : b.draftProbs = none := hprobs
      rw [hnone]
      rw [if_congr (and_iff_right hv) rfl rfl]
      rfl
  · rw [if_neg hv, if_neg hv, mul_zero]

theorem Batch.Serves.token_eq (empty : Nat → Nat) :
    b.token (sampleRecoveredTokens b empty) r i = if b.Accepts (b.startIdx r + i) then ds.getD i 0
      else recoveredId (raced V (drafter.weight target (ds.take i) (ds.getD i 0)) invQ) V 8192 := by
  obtain ⟨num, hnum, hn⟩ := h.accumulated
  unfold Batch.token
  rw [h.draftTokenIds i hi, hnum.sampleRecoveredTokens_eq empty h.lt (by omega), h.score_eq hi,
    h.vocabSize]

end Serves

/-! ## Probabilities -/

noncomputable def probability {E : Type} [MeasurableSpace E] (V n : Nat) (drafter : Drafter ℝ)
    (μ : Measure E) (event : List Nat → (Fin n → ℝ) × E → Prop) : ℝ :=
  expect V drafter.dist n [] fun ds =>
    ((Measure.pi fun _ : Fin n => uniform).prod μ).real {ω | event ds ω}

/-- The probability that the drafts `h` are accepted. -/
noncomputable def acceptedAll (target : List Nat → Nat → ℝ) (drafter : Drafter ℝ) (h : List Nat) :
    ℝ :=
  ∏ j ∈ range h.length,
    acceptance (target (h.take j) (h.getD j 0)) (drafter.prob (h.take j) (h.getD j 0))

theorem acceptedAll_take (target : List Nat → Nat → ℝ) (drafter : Drafter ℝ) {ds : List Nat}
    {i : Nat} (hi : i ≤ ds.length) : acceptedAll target drafter (ds.take i) = ∏ j ∈ range i,
        acceptance (target (ds.take j) (ds.getD j 0)) (drafter.prob (ds.take j) (ds.getD j 0)) := by
  unfold acceptedAll
  rw [List.length_take, min_eq_left hi]
  apply prod_congr rfl
  intro j hj
  have hj := mem_range.mp hj
  rw [List.take_take, min_eq_left hj.le, List.getD_eq_getElem?_getD, List.getElem?_take,
    if_pos hj, ← List.getD_eq_getElem?_getD]

/-- The uniform numbers that accept a draft of `ds`. -/
def acceptingAt (target : List Nat → Nat → ℝ) (drafter : Drafter ℝ) (ds : List Nat) (j : Nat) :
    Set ℝ :=
  accepting (target (ds.take j) (ds.getD j 0)) (drafter.prob (ds.take j) (ds.getD j 0))

section Drafted

variable {V n r : Nat} {target : List Nat → Nat → ℝ} {drafter : Drafter ℝ} {ds : List Nat}

theorem Batch.Serves.acceptsBefore_iff {b : Batch ℝ} {u : Fin n → ℝ} {invQ : Nat → ℝ}
    (h : b.Serves V n r target drafter ds u invQ) (hds : Drafts V ds) (hlength : ds.length = n)
    {i : Nat} (hi : i ≤ n) :
    b.AcceptsBefore r i ↔ ∀ j : Fin n, (j : Nat) < i → u j ∈ acceptingAt target drafter ds j := by
  constructor
  · intro hbefore j hj
    exact (h.accepts_iff j.isLt (hds.getD_lt (by omega))).mp (hbefore j hj)
  · intro hall j hj
    exact (h.accepts_iff (by omega) (hds.getD_lt (by omega))).mpr (hall ⟨j, by omega⟩ hj)

theorem uniform_acceptingAt (htarget : ∀ h, Drafts V h → h.length < n → IsDistribution V (target h))
    (hds : Drafts V ds) (hlength : ds.length = n) {i : Nat} (hi : i ≤ n) :
    ∏ j ∈ range i, uniform.real (acceptingAt target drafter ds j) =
      acceptedAll target drafter (ds.take i) := by
  rw [acceptedAll_take target drafter (by omega)]
  apply prod_congr rfl
  intro j hj
  have hj := mem_range.mp hj
  have hdistribution := htarget (ds.take j) (hds.take j) (by rw [List.length_take]; omega)
  exact uniform_accepting (hdistribution.nonneg _ (hds.getD_lt (by omega))) _

variable {E : Type} [MeasurableSpace E] {μ : Measure E} [IsProbabilityMeasure μ]
  {invQ : E → Nat → ℝ} {b : (Fin n → ℝ) × E → Batch ℝ}
  (h : ∀ ω, (b ω).Serves V n r target drafter ds ω.1 (invQ ω.2))
  (htarget : ∀ h, Drafts V h → h.length < n → IsDistribution V (target h))
  (hds : Drafts V ds) (hlength : ds.length = n) {i : Nat} (hi : i < n)
include h htarget hds hlength hi

theorem acceptsBefore_real :
    ((Measure.pi fun _ : Fin n => uniform).prod μ).real {ω | (b ω).AcceptsBefore r i} =
      acceptedAll target drafter (ds.take i) := by
  have hset : {ω : (Fin n → ℝ) × E | (b ω).AcceptsBefore r i} =
      {u : Fin n → ℝ | (∀ j : Fin n, (j : Nat) < i → u j ∈ acceptingAt target drafter ds j) ∧
        u ⟨i, hi⟩ ∈ Set.univ} ×ˢ Set.univ := by
    ext ω
    have hiff := (h ω).acceptsBefore_iff hds hlength hi.le
    constructor
    · intro hbefore
      exact ⟨⟨hiff.mp hbefore, Set.mem_univ _⟩, Set.mem_univ _⟩
    · intro hmem
      exact hiff.mpr hmem.1.1
  rw [hset, measureReal_prod_prod, uniforms_real hi, probReal_univ, probReal_univ, mul_one, mul_one,
    uniform_acceptingAt htarget hds hlength hi.le]

theorem token_real (empty : (Fin n → ℝ) × E → Nat → Nat) (output : (Fin n → ℝ) × E → Nat → Int)
    (t : Nat) :
    ((Measure.pi fun _ : Fin n => uniform).prod μ).real {ω | (b ω).AcceptsBefore r i ∧
        rejectionSample (b ω) (empty ω) (output ω) (r * ((b ω).maxSpecLen + 1) + i) = (t : Int)} =
      acceptedAll target drafter (ds.take i) *
        (acceptance (target (ds.take i) (ds.getD i 0)) (drafter.prob (ds.take i) (ds.getD i 0)) *
            pointMass (ds.getD i 0) t + (1 - acceptance (target (ds.take i) (ds.getD i 0))
              (drafter.prob (ds.take i) (ds.getD i 0))) *
            μ.real {e | recoveredId (raced V (drafter.weight target (ds.take i) (ds.getD i 0))
              (invQ e)) V 8192 = t}) := by
  have hd : ds.getD i 0 < V := hds.getD_lt (by omega)
  have hnonneg : 0 ≤ target (ds.take i) (ds.getD i 0) :=
    (htarget (ds.take i) (hds.take i) (by rw [List.length_take]; omega)).nonneg _ hd
  have hmeasurable := fun j => measurableSet_accepting (target (ds.take j) (ds.getD j 0))
    (drafter.prob (ds.take j) (ds.getD j 0))
  -- the draft is accepted, or the recovered token is used
  have hset : {ω : (Fin n → ℝ) × E | (b ω).AcceptsBefore r i ∧
      rejectionSample (b ω) (empty ω) (output ω) (r * ((b ω).maxSpecLen + 1) + i) = (t : Int)} =
      {u : Fin n → ℝ | (∀ j : Fin n, (j : Nat) < i → u j ∈ acceptingAt target drafter ds j) ∧
        u ⟨i, hi⟩ ∈ acceptingAt target drafter ds i} ×ˢ {_e : E | t = ds.getD i 0} ∪
      {u : Fin n → ℝ | (∀ j : Fin n, (j : Nat) < i → u j ∈ acceptingAt target drafter ds j) ∧
        u ⟨i, hi⟩ ∈ (acceptingAt target drafter ds i)ᶜ} ×ˢ
        {e : E | recoveredId (raced V (drafter.weight target (ds.take i) (ds.getD i 0))
          (invQ e)) V 8192 = t} := by
    ext ω
    have hbefore := (h ω).acceptsBefore_iff hds hlength hi.le
    have haccepts := (h ω).accepts_iff hi hd
    have htoken := (h ω).token_eq hi (empty ω)
    obtain ⟨num, hnum, hn⟩ := (h ω).accumulated
    have hrow := rejectionSample_eq hnum (h ω).lt (h ω).isGreedy (empty ω) (output ω)
      (k := i) (by omega)
    rw [if_pos (show i < num r by omega), htoken] at hrow
    show ((b ω).AcceptsBefore r i ∧ rejectionSample (b ω) (empty ω) (output ω)
      (r * ((b ω).maxSpecLen + 1) + i) = (t : Int)) ↔ _
    rw [hrow]
    constructor
    · rintro ⟨hall, heq⟩
      rw [if_pos hall] at heq
      by_cases hacc : (b ω).Accepts ((b ω).startIdx r + i)
      · rw [if_pos hacc] at heq
        exact .inl ⟨⟨hbefore.mp hall, haccepts.mp hacc⟩, (Int.natCast_inj.mp heq).symm⟩
      · rw [if_neg hacc] at heq
        exact .inr ⟨⟨hbefore.mp hall, fun hmem => hacc (haccepts.mpr hmem)⟩,
          Int.natCast_inj.mp heq⟩
    · rintro (⟨⟨hall, hacc⟩, heq⟩ | ⟨⟨hall, hacc⟩, heq⟩)
      · refine ⟨hbefore.mpr hall, ?_⟩
        rw [if_pos (hbefore.mpr hall), if_pos (haccepts.mpr hacc)]
        exact congrArg Nat.cast heq.symm
      · refine ⟨hbefore.mpr hall, ?_⟩
        rw [if_pos (hbefore.mpr hall), if_neg fun hmem => hacc (haccepts.mp hmem)]
        exact congrArg Nat.cast heq
  have hdraft : μ.real {_e : E | t = ds.getD i 0} = pointMass (ds.getD i 0) t := by
    unfold pointMass
    by_cases ht : t = ds.getD i 0
    · rw [if_pos ht]
      have huniv : {_e : E | t = ds.getD i 0} = Set.univ := Set.eq_univ_of_forall fun _ => ht
      rw [huniv, probReal_univ]
    · rw [if_neg ht]
      have hnone : {_e : E | t = ds.getD i 0} = ∅ := Set.eq_empty_of_forall_notMem fun _ => ht
      rw [hnone, measureReal_empty]
  rw [hset, measureReal_union']
  · rw [measureReal_prod_prod, measureReal_prod_prod, uniforms_real hi, uniforms_real hi,
      uniform_acceptingAt htarget hds hlength hi.le, hdraft]
    have haccept : uniform.real (acceptingAt target drafter ds i) = _ := uniform_accepting hnonneg _
    have hreject : uniform.real (acceptingAt target drafter ds i)ᶜ = _ :=
      uniform_rejecting hnonneg _
    rw [haccept, hreject]
    ring
  · apply Set.disjoint_left.mpr
    intro ω hω hω'
    exact hω'.1.2 hω.1.2
  · apply (measurableSet_uniforms hi hmeasurable (hmeasurable i)).prod
    by_cases ht : t = ds.getD i 0
    · simp only [ht, Set.ofPred_true]
      exact MeasurableSet.univ
    · simp only [ht, Set.ofPred_false]
      exact MeasurableSet.empty

end Drafted

/-- At every position that is reached, after any drafts, the token of the output is a draw of the
target; the bonus token is stored where all drafts are accepted, and only there. -/
theorem rejectionSample_target {E : Type} [MeasurableSpace E] {μ : Measure E}
    [IsProbabilityMeasure μ] {V n r : Nat} {invQ : E → Nat → ℝ} (race : Race V μ invQ)
    {target : List Nat → Nat → ℝ}
    (htarget : ∀ h, Drafts V h → h.length < n → IsDistribution V (target h))
    {drafter : Drafter ℝ} (hdrafter : drafter.Valid V n)
    {batch : List Nat → (Fin n → ℝ) × E → Batch ℝ} (hbatch : ∀ ds ω, Drafts V ds → ds.length = n →
      (batch ds ω).Serves V n r target drafter ds ω.1 (invQ ω.2))
    (empty : List Nat → (Fin n → ℝ) × E → Nat → Nat)
    (output : List Nat → (Fin n → ℝ) × E → Nat → Int)
    (houtput : ∀ ds ω, ∀ k ≤ (batch ds ω).maxSpecLen,
      output ds ω (r * ((batch ds ω).maxSpecLen + 1) + k) = placeholderTokenId) :
    (∀ i < n, ∀ h, Drafts V h → h.length = i → ∀ t < V,
      probability V n drafter μ (fun ds ω => ds.take i = h ∧ (batch ds ω).AcceptsBefore r i ∧
          rejectionSample (batch ds ω) (empty ds ω) (output ds ω)
            (r * ((batch ds ω).maxSpecLen + 1) + i) = (t : Int)) =
        probability V n drafter μ (fun ds ω => ds.take i = h ∧ (batch ds ω).AcceptsBefore r i) *
          target h t) ∧
    ∀ ds ω, Drafts V ds → ds.length = n →
      rejectionSample (batch ds ω) (empty ds ω) (output ds ω)
          (r * ((batch ds ω).maxSpecLen + 1) + n) =
        if (batch ds ω).AcceptsBefore r n then ((batch ds ω).bonusTokenIds r : Int)
        else placeholderTokenId := by
  have hnil : Drafts V [] := by
    intro v hv
    cases hv
  refine ⟨?_, ?_⟩
  · intro i hi h hh hi' t ht
    let A : List Nat → ℝ := fun h' => if h' = h then acceptedAll target drafter h' else 0
    let B : List Nat → Nat → ℝ := fun h' d =>
      acceptance (target h' d) (drafter.prob h' d) * pointMass d t +
        (1 - acceptance (target h' d) (drafter.prob h' d)) *
          μ.real {e | recoveredId (raced V (drafter.weight target h' d) (invQ e)) V 8192 = t}
    have hbefore : probability V n drafter μ
        (fun ds ω => ds.take i = h ∧ (batch ds ω).AcceptsBefore r i) =
        expect V drafter.dist n [] fun ds => A (ds.take i) := by
      apply expect_congr hnil
      intro ds _ hlength hds
      rw [List.length_nil, Nat.zero_add] at hlength
      show _ = if ds.take i = h then _ else _
      by_cases hstart : ds.take i = h
      · simp only [hstart, true_and, if_true]
        rw [← hstart]
        exact acceptsBefore_real (fun ω => hbatch ds ω hds hlength) htarget hds hlength hi
      · simp only [hstart, false_and, if_false]
        exact measureReal_empty
    have htoken : probability V n drafter μ
        (fun ds ω => ds.take i = h ∧ (batch ds ω).AcceptsBefore r i ∧
          rejectionSample (batch ds ω) (empty ds ω) (output ds ω)
            (r * ((batch ds ω).maxSpecLen + 1) + i) = (t : Int)) =
        expect V drafter.dist n [] fun ds => A (ds.take i) * B (ds.take i) (ds.getD i 0) := by
      apply expect_congr hnil
      intro ds _ hlength hds
      rw [List.length_nil, Nat.zero_add] at hlength
      show _ = (if ds.take i = h then _ else _) * _
      by_cases hstart : ds.take i = h
      · simp only [hstart, true_and, if_true]
        rw [← hstart]
        exact token_real (fun ω => hbatch ds ω hds hlength) htarget hds hlength hi
          (empty ds) (output ds) t
      · simp only [hstart, false_and, if_false, zero_mul]
        exact measureReal_empty
    rw [htoken, hbefore]
    apply expect_step hi fun h' hh' hn => hdrafter.isDistribution hh' hn
    intro h' hh' hlength hA
    have hsame : h' = h := by
      by_contra hne
      exact hA (if_neg hne)
    rw [hsame]
    have htargetH := htarget h hh (by omega)
    apply hdrafter.step hh (by omega) htargetH ht
    intro d _ hsum
    apply race.recovered _ hsum ht (by decide)
    intro v hv
    exact Drafter.weight_nonneg target drafter d (htargetH.nonneg v hv)
  · intro ds ω hds hlength
    have hserves := hbatch ds ω hds hlength
    obtain ⟨num, hnum, hn⟩ := hserves.accumulated
    have hrow := rejectionSample_eq hnum hserves.lt hserves.isGreedy (empty ds ω) (output ds ω)
      (k := n) (by omega)
    rw [if_neg (show ¬n < num r by omega), houtput ds ω n (by
      have := hnum.le r hserves.lt
      omega)] at hrow
    exact hrow

/-! ## Two tokens -/

/-- A number between `0` and `1`. -/
noncomputable def openUniform : Measure ℝ := volume.restrict (Set.Ioo 0 1)

instance : IsProbabilityMeasure openUniform := by
  constructor
  rw [openUniform, Measure.restrict_apply_univ, Real.volume_Ioo, sub_zero, ENNReal.ofReal_one]

noncomputable def twoTokenNoise (e : ℝ) (v : Nat) : ℝ :=
  if 0 < e ∧ e < 1 then if v = 0 then 1 - e else e else 1

theorem race_twoTokenNoise : Race 2 openUniform twoTokenNoise := by
  constructor
  · intro v
    apply Measurable.ite (measurableSet_Ioo (a := (0 : ℝ)) (b := 1)) _ measurable_const
    by_cases hv : v = 0
    · simp only [if_pos hv]
      exact measurable_const.sub measurable_id
    · simp only [if_neg hv]
      exact measurable_id
  · intro e v
    unfold twoTokenNoise
    split
    next he =>
      split
      · linarith [he.2]
      · exact he.1
    · exact one_pos
  · intro w hw hsum t ht
    rw [sum_range_succ, sum_range_one] at hsum ⊢
    have h0 := hw 0 (by omega)
    have h1 := hw 1 (by omega)
    have hc : 0 ≤ w 0 / (w 0 + w 1) := div_nonneg h0 hsum.le
    have hc1 : w 0 / (w 0 + w 1) ≤ 1 := (div_le_one hsum).mpr (by linarith)
    have hfirst : ∀ e : ℝ, 0 < e → e < 1 → twoTokenNoise e 0 = 1 - e ∧ twoTokenNoise e 1 = e := by
      intro e he he'
      unfold twoTokenNoise
      simp only [if_pos (And.intro he he'), if_true, one_ne_zero, if_false, and_self]
    rw [Measure.real, openUniform, Measure.restrict_apply' measurableSet_Ioo]
    rcases (by omega : t = 0 ∨ t = 1) with rfl | rfl
    · have hset : {e | ∀ v < 2, v ≠ 0 → w v * twoTokenNoise e v < w 0 * twoTokenNoise e 0} ∩
          Set.Ioo 0 1 = Set.Ioo 0 (w 0 / (w 0 + w 1)) := by
        ext e
        constructor
        · rintro ⟨he, hpos, hlt⟩
          have hrace := he 1 (by omega) (by omega)
          rw [(hfirst e hpos hlt).1, (hfirst e hpos hlt).2] at hrace
          refine ⟨hpos, (lt_div_iff₀ hsum).mpr ?_⟩
          linarith
        · rintro ⟨hpos, hlt⟩
          refine ⟨?_, hpos, hlt.trans_le hc1⟩
          intro v hv hne
          obtain rfl : v = 1 := by omega
          rw [(hfirst e hpos (hlt.trans_le hc1)).1, (hfirst e hpos (hlt.trans_le hc1)).2]
          have hrace := (lt_div_iff₀ hsum).mp hlt
          linarith
      rw [hset, Real.volume_Ioo, sub_zero, ENNReal.toReal_ofReal hc]
    · have hset : {e | ∀ v < 2, v ≠ 1 → w v * twoTokenNoise e v < w 1 * twoTokenNoise e 1} ∩
          Set.Ioo 0 1 = Set.Ioo (w 0 / (w 0 + w 1)) 1 := by
        ext e
        constructor
        · rintro ⟨he, hpos, hlt⟩
          have hrace := he 0 (by omega) (by omega)
          rw [(hfirst e hpos hlt).1, (hfirst e hpos hlt).2] at hrace
          refine ⟨(div_lt_iff₀ hsum).mpr ?_, hlt⟩
          linarith
        · rintro ⟨hlo, hlt⟩
          refine ⟨?_, hc.trans_lt hlo, hlt⟩
          intro v hv hne
          obtain rfl : v = 0 := by omega
          rw [(hfirst e (hc.trans_lt hlo) hlt).1, (hfirst e (hc.trans_lt hlo) hlt).2]
          have hrace := (div_lt_iff₀ hsum).mp hlo
          linarith
      have hrest : 1 - w 0 / (w 0 + w 1) = w 1 / (w 0 + w 1) := by
        rw [eq_div_iff hsum.ne', sub_mul, div_mul_cancel₀ _ hsum.ne']
        ring
      rw [hset, Real.volume_Ioo, hrest, ENNReal.toReal_ofReal (div_nonneg h1 hsum.le)]

noncomputable def oneDraft (target draft : Nat → ℝ) (ds : List Nat) (ω : (Fin 1 → ℝ) × ℝ) :
    Batch ℝ where
  batchSize := 1
  maxSpecLen := 1
  vocabSize := 2
  cuNumDraftTokens := fun _ => 1
  draftTokenIds := fun _ => ds.getD 0 0
  draftProbs := some draft
  targetProbs := target
  bonusTokenIds := fun _ => 1
  uniformProbs := fun _ => ω.1 ⟨0, one_pos⟩
  isGreedy := fun _ => false
  invQ := twoTokenNoise ω.2

/-- The draft is always the token `0`, the target mostly `1`. -/
theorem rejectionSample_target_oneDraft :
    probability 2 1 (.sampled fun _ => pointMass 0) openUniform (fun ds ω => ds.take 0 = [] ∧
        (oneDraft (fun v => if v = 0 then 1 / 4 else 3 / 4) (pointMass 0) ds ω).AcceptsBefore 0 0 ∧
        rejectionSample (oneDraft (fun v => if v = 0 then 1 / 4 else 3 / 4) (pointMass 0) ds ω)
          (fun _ => 0) (fun _ => placeholderTokenId) (0 * (1 + 1) + 0) = ((1 : Nat) : Int)) =
      probability 2 1 (.sampled fun _ => pointMass 0) openUniform (fun ds ω => ds.take 0 = [] ∧
        (oneDraft (fun v => if v = 0 then 1 / 4 else 3 / 4) (pointMass 0) ds ω).AcceptsBefore 0 0) *
        (3 / 4) := by
  have htarget : IsDistribution 2 fun v : Nat => if v = 0 then (1 / 4 : ℝ) else 3 / 4 := by
    constructor
    · intro v _
      split <;> norm_num
    · rw [sum_range_succ, sum_range_one]
      norm_num
  have hserves : ∀ ds ω, Drafts 2 ds → ds.length = 1 →
      (oneDraft (fun v => if v = 0 then 1 / 4 else 3 / 4) (pointMass 0) ds ω).Serves 2 1 0
        (fun _ v => if v = 0 then 1 / 4 else 3 / 4) (.sampled fun _ => pointMass 0) ds ω.1
        (twoTokenNoise ω.2) := by
    intro ds ω _ _
    have hzero : ∀ i < 1, i = 0 := fun i hi => by omega
    constructor
    · rfl
    · exact one_pos
    · exact ⟨fun _ => 1, ⟨fun r hr => by rw [hzero r hr]; rfl, fun _ _ => le_refl 1⟩, rfl⟩
    · rfl
    · intro i hi
      rw [hzero i hi]
      rfl
    · refine ⟨_, rfl, ?_⟩
      intro i hi v _
      rw [hzero i hi]
      show pointMass 0 ((0 + 0) * 2 + v) = pointMass 0 v
      rw [Nat.zero_mul, Nat.zero_add]
    · intro i hi v _
      rw [hzero i hi]
      show (if (0 + 0) * 2 + v = 0 then (1 / 4 : ℝ) else 3 / 4) = if v = 0 then 1 / 4 else 3 / 4
      rw [Nat.zero_mul, Nat.zero_add]
    · intro i
      rw [Subsingleton.elim i 0]
      rfl
    · intro v _
      show twoTokenNoise ω.2 (0 * 2 + v) = twoTokenNoise ω.2 v
      rw [Nat.zero_mul, Nat.zero_add]
  have hdrafter : (Drafter.sampled fun _ => pointMass 0 : Drafter ℝ).Valid 2 1 :=
    fun _ _ _ => isDistribution_pointMass (by omega)
  have hresult := (rejectionSample_target race_twoTokenNoise (fun _ _ _ => htarget) hdrafter hserves
    (fun _ _ _ => 0) (fun _ _ _ => placeholderTokenId) fun _ _ _ _ => rfl).1 0 one_pos []
    (fun v hv => by cases hv) rfl 1 (by omega)
  rw [if_neg one_ne_zero] at hresult
  exact hresult

end VllmCore.RejectionSampler
