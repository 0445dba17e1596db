import Mathlib.Algebra.BigOperators.Intervals
import Mathlib.Algebra.BigOperators.Ring.Finset
import Mathlib.Algebra.Order.BigOperators.Group.Finset
import Mathlib.Algebra.Order.Field.Basic
import Mathlib.Tactic.Ring
/-!
# Speculative sampling

A draft of one distribution is accepted with the probability that its target allows, and
replaced by a draw from what the target has left where it is not.  The result is a draw of the
target.  Drafts that are drawn one after the other, each from a distribution that depends on
those before, have expectations that are finite sums.
-/

namespace VllmCore.Support

open Finset Nat

variable {K : Type} [Field K]

/-! ## Drafts one after the other -/

/-- The expectation of `f` on the drafts when `k` more are drawn after `h`, each from the
distribution of the drafts before it. -/
def expect (n : Nat) (dist : List Nat → Nat → K) : Nat → List Nat → (List Nat → K) → K
  | 0, h, f => f h
  | k + 1, h, f => ∑ v ∈ range n, dist h v * expect n dist k (h ++ [v]) f

def Drafts (n : Nat) (h : List Nat) : Prop := ∀ v ∈ h, v < n

variable {n : Nat} {h : List Nat}

theorem Drafts.append (hh : Drafts n h) {v : Nat} (hv : v < n) : Drafts n (h ++ [v]) := by
  intro w hw
  rcases List.mem_append.mp hw with hw | hw
  · exact hh w hw
  · rw [List.mem_singleton.mp hw]
    exact hv

theorem Drafts.take (hh : Drafts n h) (i : Nat) : Drafts n (h.take i) :=
  fun v hv => hh v (List.mem_of_mem_take hv)

theorem Drafts.getD_lt (hh : Drafts n h) {i : Nat} (hi : i < h.length) : h.getD i 0 < n := by
  rw [List.getD_eq_getElem?_getD, List.getElem?_eq_getElem hi, Option.getD_some]
  exact hh _ (List.getElem_mem hi)

section Expect

variable {n : Nat} {dist : List Nat → Nat → K}

theorem expect_congr {k : Nat} {f g : List Nat → K} (hh : Drafts n h)
    (hfg : ∀ ds, h <+: ds → ds.length = h.length + k → Drafts n ds → f ds = g ds) :
    expect n dist k h f = expect n dist k h g := by
  induction k generalizing h with
  | zero => exact hfg h (List.prefix_refl h) rfl hh
  | succ k ih =>
    apply sum_congr rfl
    intro v hv
    congr 1
    apply ih (hh.append (mem_range.mp hv))
    intro ds hprefix hlength hds
    rw [List.length_append, List.length_singleton] at hlength
    exact hfg ds ((List.prefix_append h [v]).trans hprefix) (by omega) hds

theorem expect_add (k m : Nat) (h : List Nat) (f : List Nat → K) :
    expect n dist (k + m) h f = expect n dist k h fun h' => expect n dist m h' f := by
  induction k generalizing h with
  | zero => rw [zero_add]; rfl
  | succ k ih =>
    rw [succ_add]
    apply sum_congr rfl
    intro v _
    rw [ih]

theorem expect_mul (k : Nat) (h : List Nat) (f : List Nat → K) (c : K) :
    expect n dist k h (fun ds => f ds * c) = expect n dist k h f * c := by
  induction k generalizing h with
  | zero => rfl
  | succ k ih =>
    unfold expect
    rw [sum_mul]
    apply sum_congr rfl
    intro v _
    rw [ih, mul_assoc]

end Expect

variable [LinearOrder K]

/-! ## Acceptance -/

/-- A distribution of the numbers below `n`. -/
structure IsDistribution (n : Nat) (p : Nat → K) : Prop where
  nonneg : ∀ v < n, 0 ≤ p v
  sum : ∑ v ∈ range n, p v = 1

/-- The probability that a draft of probability `q` is accepted where the target has `p`. -/
def acceptance (p q : K) : K := if 0 < q then min 1 (p / q) else 0

/-- The distribution that gives `d` always. -/
def pointMass (d v : Nat) : K := if v = d then 1 else 0

section Step

variable [IsStrictOrderedRing K]
variable {p : Nat → K} {d t : Nat}

theorem IsDistribution.le_one (h : IsDistribution n p) {v : Nat} (hv : v < n) : p v ≤ 1 := by
  rw [← h.sum]
  exact single_le_sum (f := p) (fun w hw => h.nonneg w (mem_range.mp hw)) (mem_range.mpr hv)

theorem isDistribution_pointMass (hd : d < n) : IsDistribution n (pointMass d : Nat → K) := by
  constructor
  · intro v hv
    unfold pointMass
    split
    · exact zero_le_one
    · exact le_refl 0
  · unfold pointMass
    rw [sum_ite_eq', if_pos (mem_range.mpr hd)]

theorem mul_acceptance {p q : K} (hp : 0 ≤ p) (hq : 0 ≤ q) : q * acceptance p q = min p q := by
  unfold acceptance
  split
  next hpos => rw [mul_min_of_nonneg _ _ hq, mul_one, mul_div_cancel₀ p hpos.ne', min_comm]
  next hnot =>
    have hzero : q = 0 := le_antisymm (not_lt.mp hnot) hq
    rw [hzero, zero_mul, min_eq_right hp]

theorem sub_min_eq_residual (p q : K) : p - min p q = max (p - q) 0 := by
  rcases le_total p q with h | h
  · rw [min_eq_left h, sub_self, max_eq_right (sub_nonpos.mpr h)]
  · rw [min_eq_right h, max_eq_left (sub_nonneg.mpr h)]

/-- A draft that is accepted or replaced by a draw from what the target has left, where `ρ d` is
the probability of `t` in the draw that replaces `d`. -/
theorem sampled_step {q ρ : Nat → K} (hp : IsDistribution n p)
    (hq : IsDistribution n q) (ht : t < n) (hρ : 0 < ∑ v ∈ range n, max (p v - q v) 0 → ∀ d < n,
      ρ d = max (p t - q t) 0 / ∑ v ∈ range n, max (p v - q v) 0) :
    ∑ d ∈ range n, q d * (acceptance (p d) (q d) * pointMass d t +
      (1 - acceptance (p d) (q d)) * ρ d) = p t := by
  have hmin : ∀ d ∈ range n, q d * acceptance (p d) (q d) = min (p d) (q d) := by
    intro d hd
    have hd := mem_range.mp hd
    exact mul_acceptance (hp.nonneg d hd) (hq.nonneg d hd)
  have haccepted : ∑ d ∈ range n, q d * (acceptance (p d) (q d) * pointMass d t) =
      min (p t) (q t) := by
    have hterm : ∀ d ∈ range n, q d * (acceptance (p d) (q d) * pointMass d t) =
        if t = d then min (p d) (q d) else 0 := by
      intro d hd
      rw [← mul_assoc, hmin d hd]
      unfold pointMass
      rw [mul_ite, mul_one, mul_zero]
    rw [sum_congr rfl hterm, sum_ite_eq, if_pos (mem_range.mpr ht)]
  -- what is rejected is what the target has left
  have hreject : ∀ d ∈ range n, q d * (1 - acceptance (p d) (q d)) = q d - min (p d) (q d) := by
    intro d hd
    rw [mul_sub, mul_one, hmin d hd]
  have hrejected : ∑ d ∈ range n, q d * (1 - acceptance (p d) (q d)) =
      ∑ v ∈ range n, max (p v - q v) 0 := by
    have hleft : ∀ d ∈ range n, max (p d - q d) 0 = p d - min (p d) (q d) :=
      fun d _ => (sub_min_eq_residual (p d) (q d)).symm
    rw [sum_congr rfl hreject, sum_congr rfl hleft, sum_sub_distrib, sum_sub_distrib, hp.sum,
      hq.sum]
  have hreplaced : ∑ d ∈ range n, q d * (1 - acceptance (p d) (q d)) * ρ d =
      max (p t - q t) 0 := by
    have hnonneg : ∀ v ∈ range n, 0 ≤ max (p v - q v) 0 := fun v _ => le_max_right _ _
    rcases (sum_nonneg hnonneg).eq_or_lt with hzero | hpos
    · -- nothing is rejected
      have hnone : ∀ d ∈ range n, q d * (1 - acceptance (p d) (q d)) = 0 := by
        apply (sum_eq_zero_iff_of_nonneg _).mp (hrejected.trans hzero.symm)
        intro d hd
        rw [hreject d hd]
        exact sub_nonneg.mpr (min_le_right _ _)
      have hall := (sum_eq_zero_iff_of_nonneg hnonneg).mp hzero.symm
      rw [hall t (mem_range.mpr ht)]
      apply sum_eq_zero
      intro d hd
      rw [hnone d hd, zero_mul]
    · have hconst : ∀ d ∈ range n, q d * (1 - acceptance (p d) (q d)) * ρ d =
          q d * (1 - acceptance (p d) (q d)) *
            (max (p t - q t) 0 / ∑ v ∈ range n, max (p v - q v) 0) := by
        intro d hd
        rw [hρ hpos d (mem_range.mp hd)]
      rw [sum_congr rfl hconst, ← sum_mul, hrejected, mul_div_cancel₀ _ hpos.ne']
  have hsplit : ∑ d ∈ range n, q d * (acceptance (p d) (q d) * pointMass d t +
      (1 - acceptance (p d) (q d)) * ρ d) = min (p t) (q t) + max (p t - q t) 0 := by
    rw [← haccepted, ← hreplaced, ← sum_add_distrib]
    apply sum_congr rfl
    intro d hd
    rw [mul_add, mul_assoc (q d) _ (ρ d)]
  rw [hsplit, ← sub_min_eq_residual]
  exact add_sub_cancel _ _

theorem deterministic_step {ρ : K} (hp : IsDistribution n p) (hd : d < n) (ht : t < n)
    (hρ : 0 < ∑ v ∈ range n, (if v ≠ d then p v else 0) →
      ρ = (if t ≠ d then p t else 0) / ∑ v ∈ range n, if v ≠ d then p v else 0) :
    acceptance (p d) 1 * pointMass d t + (1 - acceptance (p d) 1) * ρ = p t := by
  have haccept : acceptance (p d) 1 = p d := by
    unfold acceptance
    rw [if_pos zero_lt_one, div_one, min_eq_right (hp.le_one hd)]
  have hrest : ∑ v ∈ range n, (if v ≠ d then p v else 0) = 1 - p d := by
    rw [← hp.sum, eq_sub_iff_add_eq, ← sum_ite_eq' (range n) d p |>.trans
      (if_pos (mem_range.mpr hd)), ← sum_add_distrib]
    apply sum_congr rfl
    intro v _
    by_cases hv : v = d
    · rw [if_neg (not_not.mpr hv), if_pos hv, zero_add]
    · rw [if_pos hv, if_neg hv, add_zero]
  rw [hrest] at hρ
  have hleft : (1 - p d) * ρ = if t ≠ d then p t else 0 := by
    rcases (sub_nonneg.mpr (hp.le_one hd)).eq_or_lt with hzero | hpos
    · rw [← hzero, zero_mul]
      have hnonneg : ∀ v ∈ range n, 0 ≤ if v ≠ d then p v else 0 := by
        intro v hv
        split
        · exact hp.nonneg v (mem_range.mp hv)
        · exact le_refl 0
      have hall := (sum_eq_zero_iff_of_nonneg hnonneg).mp (hrest.trans hzero.symm)
      exact (hall t (mem_range.mpr ht)).symm
    · rw [hρ hpos, mul_div_cancel₀ _ hpos.ne']
  rw [haccept, hleft]
  unfold pointMass
  by_cases htd : t = d
  · rw [if_pos htd, if_neg (not_not.mpr htd), mul_one, add_zero, htd]
  · rw [if_neg htd, if_pos htd, mul_zero, zero_add]

end Step

section Expect

variable {n : Nat} {dist : List Nat → Nat → K}
variable {N : Nat}

theorem expect_const {k : Nat} (hh : Drafts n h) (hk : h.length + k ≤ N)
    (hdist : ∀ h, Drafts n h → h.length < N → IsDistribution n (dist h)) (c : K) :
    expect n dist k h (fun _ => c) = c := by
  induction k generalizing h with
  | zero => rfl
  | succ k ih =>
    have hstep : ∀ v ∈ range n, dist h v * expect n dist k (h ++ [v]) (fun _ => c) =
        dist h v * c := by
      intro v hv
      rw [ih (hh.append (mem_range.mp hv)) (by
        rw [List.length_append, List.length_singleton]
        omega)]
    unfold expect
    rw [sum_congr rfl hstep, ← sum_mul, (hdist h hh (by omega)).sum, one_mul]

theorem expect_step {i : Nat} (hi : i < N)
    (hdist : ∀ h, Drafts n h → h.length < N → IsDistribution n (dist h))
    {A : List Nat → K} {B : List Nat → Nat → K} {c : K}
    (hB : ∀ h, Drafts n h → h.length = i → A h ≠ 0 → ∑ v ∈ range n, dist h v * B h v = c) :
    expect n dist N [] (fun ds => A (ds.take i) * B (ds.take i) (ds.getD i 0)) =
      expect n dist N [] (fun ds => A (ds.take i)) * c := by
  have hnil : Drafts n [] := by
    intro v hv
    cases hv
  have hN : N = i + (N - i - 1 + 1) := by omega
  have htake : ∀ h ds : List Nat, h.length = i → h <+: ds → ds.take i = h := by
    intro h ds hlength hprefix
    rw [← hlength]
    exact (List.prefix_iff_eq_take.mp hprefix).symm
  have hbefore : expect n dist N [] (fun ds => A (ds.take i)) = expect n dist i [] A := by
    conv_lhs => rw [hN]
    rw [expect_add]
    apply expect_congr hnil
    intro h _ hlength hh
    rw [List.length_nil, zero_add] at hlength
    have hconst := expect_const (c := A h) hh (by omega : h.length + (N - i - 1 + 1) ≤ N) hdist
    rw [← hconst]
    apply expect_congr hh
    intro ds hprefix _ _
    rw [htake h ds hlength hprefix]
  rw [hbefore, ← expect_mul]
  conv_lhs => rw [hN]
  rw [expect_add]
  apply expect_congr hnil
  intro h _ hlength hh
  rw [List.length_nil, zero_add] at hlength
  have hnext : ∀ v ∈ range n, dist h v * expect n dist (N - i - 1) (h ++ [v])
      (fun ds => A (ds.take i) * B (ds.take i) (ds.getD i 0)) = A h * (dist h v * B h v) := by
    intro v hv
    have hhv := hh.append (mem_range.mp hv)
    have hlen : (h ++ [v]).length + (N - i - 1) ≤ N := by
      rw [List.length_append, List.length_singleton]
      omega
    have hconst := expect_const (c := A h * B h v) hhv hlen hdist
    have hcongr : expect n dist (N - i - 1) (h ++ [v])
        (fun ds => A (ds.take i) * B (ds.take i) (ds.getD i 0)) = A h * B h v := by
      rw [← hconst]
      apply expect_congr hhv
      intro ds hprefix _ _
      have hd : ds.getD i 0 = v := by
        obtain ⟨rest, rfl⟩ := hprefix
        rw [List.append_assoc, List.getD_eq_getElem?_getD, List.getElem?_append_right (by omega),
          hlength, Nat.sub_self]
        rfl
      rw [htake h ds hlength ((List.prefix_append h [v]).trans hprefix), hd]
    rw [hcongr]
    ring
  show ∑ v ∈ range n, _ = A h * c
  rw [sum_congr rfl hnext, ← mul_sum]
  by_cases hA : A h = 0
  · rw [hA, zero_mul, zero_mul]
  · rw [hB h hh hlength hA]

end Expect

end VllmCore.Support
