import VllmCore.RejectionSampler.Rows
import VllmCore.Support.SpeculativeSampling
import Mathlib.MeasureTheory.Measure.Lebesgue.Basic
import Mathlib.MeasureTheory.Measure.Real
/-!
# The noise of the rejection sampler

The uniform numbers accept a draft with the probability that the test allows.  The exponential
noise is a race: the token with the greatest score is drawn proportionally to the weights, which
is assumed here.
-/

namespace VllmCore.RejectionSampler

open Support MeasureTheory Finset

/-! ## Uniform numbers -/

/-- The distribution of a uniform number of `[0, 1)`. -/
noncomputable def uniform : Measure ℝ := volume.restrict (Set.Ico 0 1)

instance : IsProbabilityMeasure uniform := by
  constructor
  rw [uniform, Measure.restrict_apply_univ, Real.volume_Ico, sub_zero, ENNReal.ofReal_one]

def accepting (p q : ℝ) : Set ℝ := {u | 0 < q ∧ u ≤ p / q}

theorem measurableSet_accepting (p q : ℝ) : MeasurableSet (accepting p q) := by
  unfold accepting
  by_cases hq : 0 < q
  · simp only [hq, true_and]
    exact measurableSet_Iic
  · simp only [hq, false_and]
    exact MeasurableSet.empty

theorem uniform_accepting {p : ℝ} (hp : 0 ≤ p) (q : ℝ) :
    uniform.real (accepting p q) = acceptance p q := by
  unfold accepting acceptance
  by_cases hq : 0 < q
  · have hratio : 0 ≤ p / q := div_nonneg hp hq.le
    have hset : {u : ℝ | 0 < q ∧ u ≤ p / q} = Set.Iic (p / q) := by
      ext u
      simp [hq]
    rw [if_pos hq, hset, Measure.real, uniform, Measure.restrict_apply measurableSet_Iic]
    rcases le_or_gt 1 (p / q) with hle | hlt
    · have hinter : Set.Iic (p / q) ∩ Set.Ico (0 : ℝ) 1 = Set.Ico 0 1 := by
        apply Set.inter_eq_right.mpr
        intro u hu
        exact hu.2.le.trans hle
      rw [hinter, Real.volume_Ico, sub_zero, ENNReal.ofReal_one, ENNReal.toReal_one,
        min_eq_left hle]
    · have hinter : Set.Iic (p / q) ∩ Set.Ico (0 : ℝ) 1 = Set.Icc 0 (p / q) := by
        ext u
        constructor
        · intro hu
          exact ⟨hu.2.1, hu.1⟩
        · intro hu
          exact ⟨hu.2, hu.1, hu.2.trans_lt hlt⟩
      rw [hinter, Real.volume_Icc, sub_zero, ENNReal.toReal_ofReal hratio, min_eq_right hlt.le]
  · have hset : {u : ℝ | 0 < q ∧ u ≤ p / q} = ∅ := by
      ext u
      simp [hq]
    rw [if_neg hq, hset, measureReal_empty]

theorem uniform_rejecting {p : ℝ} (hp : 0 ≤ p) (q : ℝ) :
    uniform.real (accepting p q)ᶜ = 1 - acceptance p q := by
  rw [probReal_compl_eq_one_sub (measurableSet_accepting p q), uniform_accepting hp]

theorem uniforms_real {n i : Nat} (hi : i < n) (S : Nat → Set ℝ) (T : Set ℝ) :
    (Measure.pi fun _ : Fin n => uniform).real
        {u | (∀ j : Fin n, (j : Nat) < i → u j ∈ S j) ∧ u ⟨i, hi⟩ ∈ T} =
      (∏ j ∈ range i, uniform.real (S j)) * uniform.real T := by
  let box : Nat → Set ℝ := fun j => if j < i then S j else if j = i then T else Set.univ
  have hset : {u : Fin n → ℝ | (∀ j : Fin n, (j : Nat) < i → u j ∈ S j) ∧ u ⟨i, hi⟩ ∈ T} =
      Set.pi Set.univ fun j : Fin n => box j := by
    ext u
    constructor
    · rintro ⟨hbefore, hlast⟩ j -
      show u j ∈ if (j : Nat) < i then S j else if (j : Nat) = i then T else Set.univ
      split
      next hj => exact hbefore j hj
      · split
        next hj =>
          have hji : j = ⟨i, hi⟩ := Fin.ext hj
          rw [hji]
          exact hlast
        · exact Set.mem_univ _
    · intro hu
      refine ⟨?_, ?_⟩
      · intro j hj
        have hj' := hu j (Set.mem_univ j)
        simp only [box, if_pos hj] at hj'
        exact hj'
      · have hi' := hu ⟨i, hi⟩ (Set.mem_univ _)
        simp only [box, lt_irrefl, if_false, if_true] at hi'
        exact hi'
  have hn : n = i + (1 + (n - i - 1)) := by omega
  have hbefore : ∏ j ∈ range i, uniform.real (box j) = ∏ j ∈ range i, uniform.real (S j) := by
    apply prod_congr rfl
    intro j hj
    simp only [box, if_pos (mem_range.mp hj)]
  have hafter : ∏ j ∈ range (n - i - 1), uniform.real (box (i + (1 + j))) = 1 := by
    apply prod_eq_one
    intro j _
    have hbox : box (i + (1 + j)) = Set.univ := by
      show (if i + (1 + j) < i then _ else if i + (1 + j) = i then T else Set.univ) = Set.univ
      rw [if_neg (by omega), if_neg (by omega)]
    rw [hbox, probReal_univ]
  have hat : box (i + 0) = T := by
    show (if i + 0 < i then _ else if i + 0 = i then T else Set.univ) = T
    rw [if_neg (by omega), if_pos (by omega)]
  rw [hset, Measure.real, Measure.pi_pi, ENNReal.toReal_prod]
  show ∏ j : Fin n, uniform.real (box j) = _
  rw [Fin.prod_univ_eq_prod_range (fun j => uniform.real (box j)) n]
  conv_lhs => rw [hn]
  rw [prod_range_add, prod_range_add, hbefore, hafter, prod_range_one, hat, mul_one]

theorem measurableSet_uniforms {n i : Nat} (hi : i < n) {S : Nat → Set ℝ} {T : Set ℝ}
    (hS : ∀ j, MeasurableSet (S j)) (hT : MeasurableSet T) :
    MeasurableSet {u : Fin n → ℝ | (∀ j : Fin n, (j : Nat) < i → u j ∈ S j) ∧ u ⟨i, hi⟩ ∈ T} := by
  apply MeasurableSet.inter
  · show MeasurableSet {u : Fin n → ℝ | ∀ j : Fin n, (j : Nat) < i → u j ∈ S j}
    simp only [Set.ofPred_forall]
    apply MeasurableSet.iInter
    intro j
    apply MeasurableSet.iInter
    intro _
    exact measurable_pi_apply j (hS j)
  · exact measurable_pi_apply _ hT

/-! ## The exponential race -/

def raced {K : Type} [Field K] (V : Nat) (w invQ : Nat → K) (v : Nat) : K :=
  if v < V then w v * invQ v else 0

/-- Noise whose greatest score is drawn proportionally to the weights. -/
structure Race (V : Nat) {E : Type} [MeasurableSpace E] (μ : Measure E) (invQ : E → Nat → ℝ) :
    Prop where
  measurable : ∀ v, Measurable fun e => invQ e v
  pos : ∀ e v, 0 < invQ e v
  proportional : ∀ w : Nat → ℝ, (∀ v < V, 0 ≤ w v) → 0 < ∑ v ∈ range V, w v → ∀ t < V,
    μ.real {e | ∀ v < V, v ≠ t → w v * invQ e v < w t * invQ e t} =
      w t / ∑ v ∈ range V, w v

section Race

variable {V : Nat} {E : Type} [MeasurableSpace E] {μ : Measure E} {invQ : E → Nat → ℝ}
  (race : Race V μ invQ) {w : Nat → ℝ}
include race

theorem Race.measurableSet (w : Nat → ℝ) (t : Nat) :
    MeasurableSet {e | ∀ v < V, v ≠ t → w v * invQ e v < w t * invQ e t} := by
  simp only [Set.ofPred_forall]
  apply MeasurableSet.iInter
  intro v
  apply MeasurableSet.iInter
  intro _
  apply MeasurableSet.iInter
  intro _
  exact measurableSet_lt ((race.measurable v).const_mul _) ((race.measurable t).const_mul _)

theorem Race.wins (hsum : 0 < ∑ v ∈ range V, w v) {t : Nat} (ht : t < V)
    {e : E} (he : ∀ v < V, v ≠ t → w v * invQ e v < w t * invQ e t) :
    Wins (raced V w (invQ e)) t := by
  have hpositive : 0 < w t * invQ e t := by
    obtain ⟨v, hv, hpos⟩ := exists_lt_of_sum_lt (f := fun _ => (0 : ℝ)) (g := w)
      (s := range V) (by rw [sum_const_zero]; exact hsum)
    have hscore : 0 < w v * invQ e v := mul_pos hpos (race.pos e v)
    by_cases hvt : v = t
    · rw [hvt] at hscore
      exact hscore
    · exact hscore.trans (he v (mem_range.mp hv) hvt)
  intro v hvt
  unfold raced
  split
  next hv => exact he v hv hvt
  · exact hpositive

theorem Race.recovered [IsProbabilityMeasure μ] (hw : ∀ v < V, 0 ≤ w v)
    (hsum : 0 < ∑ v ∈ range V, w v) {t : Nat} (ht : t < V) {blockSize : Nat}
    (hblock : 0 < blockSize) :
    μ.real {e | recoveredId (raced V w (invQ e)) V blockSize = t} = w t / ∑ v ∈ range V, w v := by
  have hahead : ∀ s < V, ∀ e, (∀ v < V, v ≠ s → w v * invQ e v < w s * invQ e s) →
      recoveredId (raced V w (invQ e)) V blockSize = s := by
    intro s hs e he
    exact (race.wins hsum hs he).recoveredId_eq hblock hs
  apply le_antisymm
  · -- where another token is ahead, it is recovered
    have hother : μ.real (⋃ s ∈ (range V).erase t,
        {e | ∀ v < V, v ≠ s → w v * invQ e v < w s * invQ e s}) =
        ∑ s ∈ (range V).erase t, w s / ∑ v ∈ range V, w v := by
      rw [measureReal_biUnion_finset]
      · apply sum_congr rfl
        intro s hs
        exact race.proportional w hw hsum s (mem_range.mp (mem_of_mem_erase hs))
      · intro s hs s' hs' hne
        apply Set.disjoint_left.mpr
        intro e he he'
        apply hne
        rw [← hahead s (mem_range.mp (mem_of_mem_erase hs)) e he]
        exact hahead s' (mem_range.mp (mem_of_mem_erase hs')) e he'
      · intro s _
        exact race.measurableSet w s
    have hmeasurable : MeasurableSet (⋃ s ∈ (range V).erase t,
        {e | ∀ v < V, v ≠ s → w v * invQ e v < w s * invQ e s}) :=
      Finset.measurableSet_biUnion _ fun s _ => race.measurableSet w s
    have hsubset : {e | recoveredId (raced V w (invQ e)) V blockSize = t} ⊆
        (⋃ s ∈ (range V).erase t,
          {e | ∀ v < V, v ≠ s → w v * invQ e v < w s * invQ e s})ᶜ := by
      intro e he hmem
      obtain ⟨s, hs, hse⟩ := Set.mem_iUnion₂.mp hmem
      have hst := hahead s (mem_range.mp (mem_of_mem_erase hs)) e hse
      exact ne_of_mem_erase hs (hst.symm.trans he)
    have htotal : ∑ s ∈ range V, w s / ∑ v ∈ range V, w v = 1 := by
      rw [← sum_div, div_self hsum.ne']
    have hrest := add_sum_erase (range V) (fun s => w s / ∑ v ∈ range V, w v)
      (mem_range.mpr ht)
    calc μ.real {e | recoveredId (raced V w (invQ e)) V blockSize = t} ≤
          μ.real (⋃ s ∈ (range V).erase t,
            {e | ∀ v < V, v ≠ s → w v * invQ e v < w s * invQ e s})ᶜ := measureReal_mono hsubset
      _ = 1 - ∑ s ∈ (range V).erase t, w s / ∑ v ∈ range V, w v := by
          rw [probReal_compl_eq_one_sub hmeasurable, hother]
      _ = w t / ∑ v ∈ range V, w v := by
          rw [← htotal, ← hrest, add_sub_cancel_right]
  · rw [← race.proportional w hw hsum t ht]
    exact measureReal_mono fun e he => hahead t ht e he

end Race

end VllmCore.RejectionSampler
