import VllmCore.RejectionSampler
import VllmCore.Support.Tabulate
/-!
# The row of a request

What a launch of both kernels leaves in the row of a request depends on the data of this
request alone.
-/

namespace VllmCore.RejectionSampler

open Function Nat Support

variable {K : Type}

/-! ## The greatest score -/

section Score

variable [LinearOrder K]

/-- The score of a token that is greater than all others, those of masked lanes included. -/
def Wins (score : Nat → K) (t : Nat) : Prop := ∀ v, v ≠ t → score v < score t

theorem tileMax_spec (score : Nat → K) (n : Nat) :
    (tileMax score n).1 = score (tileMax score n).2 ∧ (tileMax score n).2 ≤ n ∧
      ∀ lane ≤ n, score lane ≤ (tileMax score n).1 := by
  induction n with
  | zero =>
    refine ⟨rfl, le_refl 0, ?_⟩
    intro lane hlane
    rw [le_zero.mp hlane]
    exact le_refl _
  | succ n ih =>
    obtain ⟨hvalue, hle, hgreatest⟩ := ih
    rw [tileMax]
    split
    next hlt =>
      refine ⟨rfl, le_refl _, ?_⟩
      intro lane hlane
      rcases Nat.lt_or_eq_of_le hlane with hlane | rfl
      · exact (hgreatest lane (by omega)).trans hlt.le
      · exact le_refl _
    next hge =>
      refine ⟨hvalue, by omega, ?_⟩
      intro lane hlane
      rcases Nat.lt_or_eq_of_le hlane with hlane | rfl
      · exact hgreatest lane (by omega)
      · exact not_lt.mp hge

variable {score : Nat → K} {t blockSize : Nat}

theorem Wins.tileMax (h : Wins score t) (v n : Nat) : if v ≤ t ∧ t ≤ v + n
    then RejectionSampler.tileMax (fun lane => score (v + lane)) n = (score t, t - v)
    else (RejectionSampler.tileMax (fun lane => score (v + lane)) n).1 < score t := by
  obtain ⟨hvalue, hle, hgreatest⟩ := tileMax_spec (fun lane => score (v + lane)) n
  split
  next hin =>
    have hlane := hgreatest (t - v) (by omega)
    rw [Nat.add_sub_cancel' hin.1, hvalue] at hlane
    have hwinner : v + (RejectionSampler.tileMax (fun lane => score (v + lane)) n).2 = t := by
      by_contra hne
      exact absurd (h _ hne) (not_lt.mpr hlane)
    have hfirst : (RejectionSampler.tileMax (fun lane => score (v + lane)) n).1 = score t := by
      rw [hvalue, hwinner]
    have hsecond : (RejectionSampler.tileMax (fun lane => score (v + lane)) n).2 = t - v := by
      omega
    exact Prod.ext hfirst hsecond
  next hout =>
    rw [hvalue]
    exact h _ (by omega)

theorem Wins.tiles (h : Wins score t) (hblock : 0 < blockSize) (k : Nat) : if t < k * blockSize
    then ((List.range k).map (· * blockSize)).foldl (tileStep score blockSize) (⊥, 0) =
      ((score t : WithBot K), t)
    else (((List.range k).map (· * blockSize)).foldl (tileStep score blockSize) (⊥, 0)).1 <
      (score t : WithBot K) := by
  induction k with
  | zero =>
    rw [if_neg (by omega)]
    exact WithBot.bot_lt_coe (score t)
  | succ k ih =>
    have htile := h.tileMax (k * blockSize) (blockSize - 1)
    rw [succ_mul, List.range_succ, List.map_append, List.foldl_append]
    generalize ((List.range k).map (· * blockSize)).foldl (tileStep score blockSize) (⊥, 0) = st
      at ih
    show if _ then tileStep score blockSize st (k * blockSize) = _
      else (tileStep score blockSize st (k * blockSize)).1 < _
    unfold tileStep
    dsimp only
    by_cases hbefore : t < k * blockSize
    · rw [if_pos hbefore] at ih
      rw [if_neg (by omega)] at htile
      rw [if_pos (by omega), ih, if_neg (not_lt.mpr (WithBot.coe_le_coe.mpr htile.le))]
    · rw [if_neg hbefore] at ih
      by_cases hhere : t < k * blockSize + blockSize
      · rw [if_pos (by omega)] at htile
        rw [if_pos hhere, htile, if_pos ih, Nat.add_sub_cancel' (by omega)]
      · rw [if_neg (by omega)] at htile
        rw [if_neg hhere]
        split
        · exact WithBot.coe_lt_coe.mpr htile
        · exact ih

theorem Wins.recoveredId_eq {vocabSize : Nat} (h : Wins score t)
    (hblock : 0 < blockSize) (ht : t < vocabSize) : recoveredId score vocabSize blockSize = t := by
  have hcover : t < (vocabSize + blockSize - 1) / blockSize * blockSize := by
    have hdiv := div_add_mod (vocabSize + blockSize - 1) blockSize
    have hmod := mod_lt (vocabSize + blockSize - 1) hblock
    rw [mul_comm] at hdiv
    omega
  have htiles := h.tiles hblock ((vocabSize + blockSize - 1) / blockSize)
  rw [if_pos hcover] at htiles
  unfold recoveredId tileStarts
  rw [htiles]

end Score

/-! ## The launches -/

/-- The counts of drafts are accumulated, and none is greater than `max_spec_len`. -/
structure Batch.Accumulated (b : Batch K) (num : Nat → Nat) : Prop where
  cu : ∀ r < b.batchSize, b.cuNumDraftTokens r = b.startIdx r + num r
  le : ∀ r < b.batchSize, num r ≤ b.maxSpecLen

namespace Batch.Accumulated

variable {b : Batch K} {num : Nat → Nat} (h : b.Accumulated num)
include h

variable {r r' pos : Nat}

theorem numDraftTokens_eq (hr : r < b.batchSize) : b.numDraftTokens r = num r := by
  unfold Batch.numDraftTokens
  rw [h.cu r hr, Nat.add_sub_cancel_left]

theorem startIdx_succ (hr : r < b.batchSize) :
    b.startIdx (r + 1) = b.startIdx r + num r := h.cu r hr

theorem startIdx_le (hlt : r < r') (hr' : r' ≤ b.batchSize) :
    b.startIdx r + num r ≤ b.startIdx r' := by
  induction r' with
  | zero => omega
  | succ r' ih =>
    rw [h.startIdx_succ (by omega)]
    rcases Nat.lt_or_eq_of_le (Nat.lt_succ_iff.mp hlt) with hlt | rfl
    · have hle := ih hlt (by omega)
      omega
    · exact le_refl _

theorem tokenIdx_ne {pos' : Nat} (hr : r < b.batchSize) (hr' : r' < b.batchSize)
    (hne : r' ≠ r) (hpos : pos < num r) (hpos' : pos' < num r') :
    b.startIdx r + pos ≠ b.startIdx r' + pos' := by
  rcases lt_or_gt_of_ne hne with hlt | hgt
  · have hle := h.startIdx_le hlt (by omega)
    omega
  · have hle := h.startIdx_le hgt (by omega)
    omega

theorem sampleRecoveredTokens_eq [Field K] [LinearOrder K] (empty : Nat → Nat)
    (hr : r < b.batchSize) (hpos : pos < num r) :
    sampleRecoveredTokens b empty (b.startIdx r + pos) =
      recoveredId (b.score (b.startIdx r + pos) r) b.vocabSize 8192 := by
  have hspec := h.le r hr
  apply launch_at (g := fun ids : Nat → Nat => ids (b.startIdx r + pos))
    (F := fun _ => recoveredId (b.score (b.startIdx r + pos) r) b.vocabSize 8192) hr
  · intro ids
    apply launch_at (g := fun ids : Nat → Nat => ids (b.startIdx r + pos))
      (F := fun _ => recoveredId (b.score (b.startIdx r + pos) r) b.vocabSize 8192)
      (by omega : pos < b.maxSpecLen)
    · intro ids
      unfold sampleRecoveredTokensKernel
      rw [if_neg (by rw [h.numDraftTokens_eq hr]; omega)]
      exact update_self _ _ _
    · intro pos' _ hne ids
      unfold sampleRecoveredTokensKernel
      split
      · rfl
      · exact update_of_ne (by omega) _ _
  · intro r' hr' hne ids
    apply launch_frame (g := fun ids : Nat → Nat => ids (b.startIdx r + pos))
    intro pos' _ ids
    unfold sampleRecoveredTokensKernel
    split
    · rfl
    next hin =>
      rw [h.numDraftTokens_eq hr'] at hin
      exact update_of_ne (h.tokenIdx_ne hr hr' hne hpos (by omega)) _ _

end Batch.Accumulated

variable [Field K] [LinearOrder K]

/-- All drafts of a request before `pos` are accepted. -/
def Batch.AcceptsBefore (b : Batch K) (reqIdx pos : Nat) : Prop :=
  ∀ j < pos, b.Accepts (b.startIdx reqIdx + j)

instance (b : Batch K) (reqIdx pos : Nat) : Decidable (b.AcceptsBefore reqIdx pos) :=
  inferInstanceAs (Decidable (∀ j < pos, _))

/-- The token of a position that is reached. -/
def Batch.token (b : Batch K) (recovered : Nat → Nat) (reqIdx pos : Nat) : Nat :=
  if b.Accepts (b.startIdx reqIdx + pos) then b.draftTokenIds (b.startIdx reqIdx + pos)
  else recovered (b.startIdx reqIdx + pos)

theorem rejectionRandomLoop_eq (b : Batch K) (recovered : Nat → Nat) (reqIdx n : Nat)
    (output : Nat → Int) :
    ((List.range n).foldl (rejectionRandomStep b recovered reqIdx) (false, output)).1 =
        !decide (b.AcceptsBefore reqIdx n) ∧
      ∀ p, ((List.range n).foldl (rejectionRandomStep b recovered reqIdx) (false, output)).2 p =
        if reqIdx * (b.maxSpecLen + 1) ≤ p ∧ p < reqIdx * (b.maxSpecLen + 1) + n ∧
          b.AcceptsBefore reqIdx (p - reqIdx * (b.maxSpecLen + 1))
        then (b.token recovered reqIdx (p - reqIdx * (b.maxSpecLen + 1)) : Int) else output p := by
  induction n with
  | zero =>
    refine ⟨?_, ?_⟩
    · have hnone : b.AcceptsBefore reqIdx 0 := by
        intro j hj
        omega
      rfl
    · intro p
      rw [if_neg (by omega)]
      rfl
  | succ n ih =>
    rw [List.range_succ, List.foldl_append]
    generalize (List.range n).foldl (rejectionRandomStep b recovered reqIdx) (false, output) = st
      at ih
    obtain ⟨hrejected, houtput⟩ := ih
    show (rejectionRandomStep b recovered reqIdx st n).1 = _ ∧
      ∀ p, (rejectionRandomStep b recovered reqIdx st n).2 p = _
    unfold rejectionRandomStep
    by_cases hbefore : b.AcceptsBefore reqIdx n
    · rw [decide_eq_true hbefore] at hrejected
      have hsucc : b.AcceptsBefore reqIdx (n + 1) ↔ b.Accepts (b.startIdx reqIdx + n) := by
        constructor
        · intro hall
          exact hall n (lt_succ_self n)
        · intro hn j hj
          rcases Nat.lt_or_eq_of_le (Nat.lt_succ_iff.mp hj) with hj | rfl
          · exact hbefore j hj
          · exact hn
      -- the token that is stored, whether it is the draft or the recovered one
      have hstore : ∀ p, update st.2 (reqIdx * (b.maxSpecLen + 1) + n)
          (b.token recovered reqIdx n : Int) p =
          if reqIdx * (b.maxSpecLen + 1) ≤ p ∧ p < reqIdx * (b.maxSpecLen + 1) + (n + 1) ∧
            b.AcceptsBefore reqIdx (p - reqIdx * (b.maxSpecLen + 1))
          then (b.token recovered reqIdx (p - reqIdx * (b.maxSpecLen + 1)) : Int)
          else output p := by
        intro p
        by_cases hp : p = reqIdx * (b.maxSpecLen + 1) + n
        · rw [hp, update_self, Nat.add_sub_cancel_left,
            if_pos ⟨by omega, by omega, hbefore⟩]
        · rw [update_of_ne hp, houtput p]
          congr 1
          apply propext
          constructor
          · intro hin
            exact ⟨hin.1, by omega, hin.2.2⟩
          · intro hin
            exact ⟨hin.1, by omega, hin.2.2⟩
      rw [hrejected, Bool.not_true, if_neg Bool.false_ne_true]
      unfold Batch.token at hstore ⊢
      by_cases haccept : b.Accepts (b.startIdx reqIdx + n)
      · rw [if_pos haccept] at hstore ⊢
        rw [decide_eq_true (hsucc.mpr haccept)]
        exact ⟨rfl, hstore⟩
      · rw [if_neg haccept] at hstore ⊢
        rw [decide_eq_false fun hall => haccept (hsucc.mp hall)]
        exact ⟨rfl, hstore⟩
    · rw [decide_eq_false hbefore] at hrejected
      have hsucc : ¬b.AcceptsBefore reqIdx (n + 1) := by
        intro hall
        apply hbefore
        intro j hj
        exact hall j (by omega)
      rw [hrejected, Bool.not_false, if_pos rfl, decide_eq_false hsucc]
      refine ⟨hrejected, ?_⟩
      intro p
      rw [houtput p]
      congr 1
      apply propext
      constructor
      · intro hin
        exact ⟨hin.1, by omega, hin.2.2⟩
      · intro hin
        refine ⟨hin.1, ?_, hin.2.2⟩
        by_contra hlast
        have hp : p - reqIdx * (b.maxSpecLen + 1) = n := by omega
        rw [hp] at hin
        exact hbefore hin.2.2

variable {b : Batch K} {reqIdx k : Nat}

theorem rejectionRandomSampleKernel_eq (h : b.isGreedy reqIdx = false)
    (recovered : Nat → Nat) (output : Nat → Int) (hk : k ≤ b.numDraftTokens reqIdx) :
    rejectionRandomSampleKernel b recovered reqIdx output (reqIdx * (b.maxSpecLen + 1) + k) =
      if b.AcceptsBefore reqIdx k then
        if k < b.numDraftTokens reqIdx then (b.token recovered reqIdx k : Int)
        else (b.bonusTokenIds reqIdx : Int) else output (reqIdx * (b.maxSpecLen + 1) + k) := by
  obtain ⟨hrejected, houtput⟩ := rejectionRandomLoop_eq b recovered reqIdx
    (b.numDraftTokens reqIdx) output
  have houtput := houtput (reqIdx * (b.maxSpecLen + 1) + k)
  rw [Nat.add_sub_cancel_left] at houtput
  unfold rejectionRandomSampleKernel
  rw [if_neg (by rw [h]; exact Bool.false_ne_true)]
  rcases Nat.lt_or_eq_of_le hk with hlt | rfl
  · have hne : reqIdx * (b.maxSpecLen + 1) + k ≠
        reqIdx * (b.maxSpecLen + 1) + b.numDraftTokens reqIdx := by omega
    have hrow : (reqIdx * (b.maxSpecLen + 1) ≤ reqIdx * (b.maxSpecLen + 1) + k ∧
        reqIdx * (b.maxSpecLen + 1) + k <
          reqIdx * (b.maxSpecLen + 1) + b.numDraftTokens reqIdx ∧ b.AcceptsBefore reqIdx k) ↔
        b.AcceptsBefore reqIdx k := by
      constructor
      · intro hall
        exact hall.2.2
      · intro hall
        exact ⟨by omega, by omega, hall⟩
    rw [if_congr hrow rfl rfl] at houtput
    split
    · exact houtput
    · rw [update_of_ne hne]
      exact houtput
  · rw [if_neg (lt_irrefl _), hrejected]
    rw [if_neg (by omega)] at houtput
    by_cases hall : b.AcceptsBefore reqIdx (b.numDraftTokens reqIdx)
    · rw [decide_eq_true hall, if_pos hall, if_neg (by decide)]
      exact update_self _ _ _
    · rw [decide_eq_false hall, if_neg hall, if_pos (by decide)]
      exact houtput

theorem rejectionRandomSampleKernel_off {r : Nat} (hne : r ≠ reqIdx)
    (hr : b.numDraftTokens r ≤ b.maxSpecLen) (hk : k ≤ b.maxSpecLen) (recovered : Nat → Nat)
    (output : Nat → Int) :
    rejectionRandomSampleKernel b recovered r output (reqIdx * (b.maxSpecLen + 1) + k) =
      output (reqIdx * (b.maxSpecLen + 1) + k) := by
  have hoff : ∀ j ≤ b.maxSpecLen,
      reqIdx * (b.maxSpecLen + 1) + k ≠ r * (b.maxSpecLen + 1) + j := by
    intro j hj heq
    apply hne
    calc r = (r * (b.maxSpecLen + 1) + j) / (b.maxSpecLen + 1) := (block_div (by omega)).symm
      _ = (reqIdx * (b.maxSpecLen + 1) + k) / (b.maxSpecLen + 1) := by rw [heq]
      _ = reqIdx := block_div (by omega)
  obtain ⟨-, houtput⟩ := rejectionRandomLoop_eq b recovered r (b.numDraftTokens r) output
  have hloop := houtput (reqIdx * (b.maxSpecLen + 1) + k)
  have hout : ¬(r * (b.maxSpecLen + 1) ≤ reqIdx * (b.maxSpecLen + 1) + k ∧
      reqIdx * (b.maxSpecLen + 1) + k < r * (b.maxSpecLen + 1) + b.numDraftTokens r ∧
      b.AcceptsBefore r (reqIdx * (b.maxSpecLen + 1) + k - r * (b.maxSpecLen + 1))) := by
    rintro ⟨hlo, hhi, -⟩
    exact hoff (reqIdx * (b.maxSpecLen + 1) + k - r * (b.maxSpecLen + 1)) (by omega) (by omega)
  rw [if_neg hout] at hloop
  unfold rejectionRandomSampleKernel
  split
  · rfl
  · dsimp only
    split
    · exact hloop
    · rw [update_of_ne (hoff _ hr)]
      exact hloop

theorem rejectionSample_eq {num : Nat → Nat} (h : b.Accumulated num)
    (hr : reqIdx < b.batchSize) (hrandom : b.isGreedy reqIdx = false) (empty : Nat → Nat)
    (output : Nat → Int) (hk : k ≤ num reqIdx) :
    rejectionSample b empty output (reqIdx * (b.maxSpecLen + 1) + k) =
      if b.AcceptsBefore reqIdx k then
        if k < num reqIdx then (b.token (sampleRecoveredTokens b empty) reqIdx k : Int)
        else (b.bonusTokenIds reqIdx : Int) else output (reqIdx * (b.maxSpecLen + 1) + k) := by
  have hnum := h.numDraftTokens_eq hr
  have hle := h.le reqIdx hr
  apply launch_at (g := fun out : Nat → Int => out (reqIdx * (b.maxSpecLen + 1) + k))
    (F := fun old => if b.AcceptsBefore reqIdx k then
        if k < num reqIdx then (b.token (sampleRecoveredTokens b empty) reqIdx k : Int)
        else (b.bonusTokenIds reqIdx : Int)
      else old) hr
  · intro out
    rw [← hnum]
    exact rejectionRandomSampleKernel_eq hrandom _ out (by omega)
  · intro r hr' hne out
    apply rejectionRandomSampleKernel_off hne _ (by omega)
    rw [h.numDraftTokens_eq hr']
    exact h.le r hr'

end VllmCore.RejectionSampler
