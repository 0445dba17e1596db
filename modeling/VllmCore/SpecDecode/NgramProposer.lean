import VllmCore.Support.Border
import VllmCore.Request
/-!
# Drafts by prompt lookup

`_find_longest_matched_ngram_and_propose_tokens` of `ngram_proposer.py`: the longest
suffix of the tokens that occurs earlier, found as the longest border in the reversed
tokens with the failure table of the first `max_ngram` prefixes only.
-/

namespace VllmCore.SpecDecode

open List Nat Support

structure NgramScan where
  i : Nat
  prevLps : Nat
  lps : List Nat
  longestNgram : Nat
  position : Nat

/-- `lps = np.zeros(max_ngram)`, and the scan starts with index 1. -/
def NgramScan.init (maxNgram : Nat) : NgramScan :=
  { i := 1, prevLps := 0, lps := List.replicate maxNgram 0, longestNgram := 0, position := 0 }

/-- The body of the `while`. -/
def NgramScan.step (tokens : List Token) (maxNgram : Nat) (s : NgramScan) : NgramScan :=
  if tokens[s.prevLps]? = tokens[s.i]? then
    let prevLps := s.prevLps + 1
    let lps := if s.i < maxNgram then s.lps.set s.i prevLps else s.lps
    { i := s.i + 1
      prevLps := if prevLps = maxNgram then lps.getD (maxNgram - 1) 0 else prevLps
      lps := lps
      longestNgram := if s.longestNgram ≤ prevLps then prevLps else s.longestNgram
      position := if s.longestNgram ≤ prevLps then s.i else s.position }
  else if s.prevLps ≠ 0 then
    { s with prevLps := s.lps.getD (s.prevLps - 1) 0 }
  else
    { s with i := s.i + 1 }

/-- `while i < total_token`, for at most `fuel` rounds. -/
def ngramScan (tokens : List Token) (maxNgram : Nat) : Nat → NgramScan → NgramScan
  | 0, s => s
  | fuel + 1, s =>
    if s.i < tokens.length then ngramScan tokens maxNgram fuel (s.step tokens maxNgram) else s

def findLongestMatchedNgramAndProposeTokens (originTokens : List Token) (minNgram maxNgram : Nat)
    (maxModelLen k : Int) : List Token :=
  let totalToken := originTokens.length
  if totalToken < minNgram then []
  else
    let k := min k (maxModelLen - totalToken)
    if k ≤ 0 then []
    else
      let s := ngramScan originTokens.reverse maxNgram (2 * totalToken) (NgramScan.init maxNgram)
      if s.longestNgram < minNgram then []
      else
        let startPosition := totalToken - 1 - s.position + s.longestNgram
        let k := min k ((totalToken : Int) - startPosition)
        (originTokens.drop startPosition).take k.toNat

/-! ## The failure table -/

theorem getD_replicate_zero (n j : Nat) : (List.replicate n 0).getD j 0 = 0 := by
  rw [getD_eq_getElem?_getD, getElem?_replicate]
  split <;> rfl

theorem getD_set {xs : List Nat} {i j a : Nat} (hi : i < xs.length) :
    (xs.set i a).getD j 0 = if i = j then a else xs.getD j 0 := by
  rw [getD_eq_getElem?_getD, getElem?_set, getD_eq_getElem?_getD]
  split
  · simp
  · rfl

section Scan

variable {tokens : List Token} {maxNgram : Nat}

/-- The scan has read the first `i` of the reversed tokens. -/
structure NgramScan.Inv (tokens : List Token) (maxNgram : Nat) (s : NgramScan) : Prop where
  pos : 0 < s.i
  length_lps : s.lps.length = maxNgram
  prevLps_lt : s.prevLps < maxNgram
  border : Border (fun j => tokens[j]?) s.prevLps s.i
  /-- The borders that the next token may grow are no longer than the current one. -/
  candidates : ∀ v < maxNgram, Border (fun j => tokens[j]?) v s.i →
    tokens[v]? = tokens[s.i]? → v ≤ s.prevLps
  table : ∀ j < s.i, j < maxNgram → LongestBorder (fun j => tokens[j]?) (s.lps.getD j 0) (j + 1)
  fresh : ∀ j, s.i ≤ j → s.lps.getD j 0 = 0
  longest_le : s.longestNgram ≤ maxNgram
  longest : ∀ m ≤ s.i, ∀ w ≤ maxNgram, Border (fun j => tokens[j]?) w m → w ≤ s.longestNgram
  found : 0 < s.longestNgram → s.position + 1 ≤ s.i ∧
    Border (fun j => tokens[j]?) s.longestNgram (s.position + 1) ∧
    ∀ m ≤ s.i, Border (fun j => tokens[j]?) s.longestNgram m → m ≤ s.position + 1

theorem NgramScan.inv_init (hmax : 0 < maxNgram) :
    (NgramScan.init maxNgram).Inv tokens maxNgram where
  pos := one_pos
  length_lps := length_replicate
  prevLps_lt := hmax
  border := border_zero one_pos
  candidates := by
    intro v _ hv _
    have hlt : v < 1 := hv.lt
    omega
  table := by
    intro j hj hjm
    have hj0 : j = 0 := by
      have : j < 1 := hj
      omega
    have hget : (NgramScan.init maxNgram).lps.getD j 0 = 0 := getD_replicate_zero _ _
    rw [hget, hj0]
    exact longestBorder_one _
  fresh := by
    intro j _
    exact getD_replicate_zero _ _
  longest_le := zero_le _
  longest := by
    intro m hm w _ hw
    have hm' : m ≤ 1 := hm
    have hlt := hw.lt
    omega
  found := by
    intro h
    exact absurd h (lt_irrefl 0)

variable {s : NgramScan}

section

variable (h : s.Inv tokens maxNgram)

include h

theorem NgramScan.Inv.border_le {w : Nat}
    (hw : w ≤ maxNgram) (hb : Border (fun j => tokens[j]?) w (s.i + 1)) :
    w ≤ s.prevLps + 1 ∧ (tokens[s.prevLps]? ≠ tokens[s.i]? → w ≤ s.prevLps) := by
  rcases hb.pred with h0 | ⟨v, hv, hvb, heq⟩
  · omega
  · have hle := h.candidates v (by omega) hvb heq
    refine ⟨by omega, ?_⟩
    intro hne
    have : v ≠ s.prevLps := by
      intro hvp
      rw [hvp] at heq
      exact hne heq
    omega

theorem NgramScan.Inv.prevLps_lt_i : s.prevLps < s.i := h.border.lt

theorem NgramScan.Inv.table_set (heq : tokens[s.prevLps]? = tokens[s.i]?) {j : Nat}
    (hj : j < s.i + 1) (hjm : j < maxNgram) :
    LongestBorder (fun j => tokens[j]?)
      ((if s.i < maxNgram then s.lps.set s.i (s.prevLps + 1) else s.lps).getD j 0) (j + 1) := by
  by_cases hji : j = s.i
  · rw [if_pos (by omega), getD_set (by rw [h.length_lps]; omega), if_pos hji.symm, hji]
    refine ⟨border_succ.mpr ⟨h.border, heq⟩, ?_⟩
    intro w hw
    have hlt := hw.lt
    exact (h.border_le (by omega) hw).1
  · have hold := h.table j (by omega) hjm
    split
    · rw [getD_set (by rw [h.length_lps]; omega), if_neg (by omega)]
      exact hold
    · exact hold

theorem NgramScan.Inv.step_match (heq : tokens[s.prevLps]? = tokens[s.i]?) :
    (s.step tokens maxNgram).Inv tokens maxNgram := by
  have hprev := h.prevLps_lt
  have hprevI := h.prevLps_lt_i
  have hgrown : Border (fun j => tokens[j]?) (s.prevLps + 1) (s.i + 1) :=
    border_succ.mpr ⟨h.border, heq⟩
  have htable := fun j => h.table_set heq (j := j)
  have hlong := h.longest_le
  unfold NgramScan.step
  rw [if_pos heq]
  dsimp only
  generalize hlps : (if s.i < maxNgram then s.lps.set s.i (s.prevLps + 1) else s.lps) = lps
  simp only [hlps] at htable
  -- after a capped match the scan continues with the longest border of the capped prefix
  have hcap : s.prevLps + 1 = maxNgram →
      LongestBorder (fun j => tokens[j]?) (lps.getD (maxNgram - 1) 0) (s.prevLps + 1) := by
    intro hmax
    have := htable (maxNgram - 1) (by omega) (by omega)
    rwa [show maxNgram - 1 + 1 = s.prevLps + 1 by omega] at this
  refine ⟨succ_pos _, ?_, ?_, ?_, ?_, htable, ?_, ?_, ?_, ?_⟩
  · show lps.length = maxNgram
    rw [← hlps]
    split
    · rw [length_set, h.length_lps]
    · exact h.length_lps
  · show (if s.prevLps + 1 = maxNgram then _ else _) < maxNgram
    split
    next hmax =>
      have := (hcap hmax).1.lt
      omega
    · omega
  · show Border _ (if s.prevLps + 1 = maxNgram then _ else _) (s.i + 1)
    split
    next hmax => exact (hcap hmax).1.trans hgrown
    · exact hgrown
  · intro v hv hvb _
    have hle := (h.border_le (by omega) hvb).1
    split
    next hmax => exact (hcap hmax).2 v (hvb.of_lt hgrown (by omega))
    · exact hle
  · intro j hj
    have hj' : s.i + 1 ≤ j := hj
    have hold := h.fresh j (by omega)
    show lps.getD j 0 = 0
    rw [← hlps]
    split
    · rw [getD_set (by rw [h.length_lps]; omega), if_neg (by omega)]
      exact hold
    · exact hold
  · show (if s.longestNgram ≤ s.prevLps + 1 then _ else _) ≤ maxNgram
    split <;> omega
  · intro m hm w hw hb
    have hm' : m ≤ s.i + 1 := hm
    show w ≤ if s.longestNgram ≤ s.prevLps + 1 then s.prevLps + 1 else s.longestNgram
    by_cases hmi : m = s.i + 1
    · rw [hmi] at hb
      have := (h.border_le hw hb).1
      split <;> omega
    · have := h.longest m (by omega) w hw hb
      split <;> omega
  · show 0 < (if s.longestNgram ≤ s.prevLps + 1 then s.prevLps + 1 else s.longestNgram) →
      (if s.longestNgram ≤ s.prevLps + 1 then s.i else s.position) + 1 ≤ s.i + 1 ∧ _
    intro hfound
    by_cases hle : s.longestNgram ≤ s.prevLps + 1
    · simp only [if_pos hle]
      exact ⟨le_refl _, hgrown, fun m hm _ => hm⟩
    · simp only [if_neg hle] at hfound ⊢
      have hold := h.found hfound
      refine ⟨by omega, hold.2.1, ?_⟩
      intro m hm hb
      by_cases hmi : m = s.i + 1
      · rw [hmi] at hb
        have := (h.border_le hlong hb).1
        omega
      · exact hold.2.2 m (by omega) hb

theorem NgramScan.Inv.step_fallback (hne : tokens[s.prevLps]? ≠ tokens[s.i]?) (h0 : s.prevLps ≠ 0) :
    (s.step tokens maxNgram).Inv tokens maxNgram ∧
      (s.step tokens maxNgram).prevLps < s.prevLps ∧ (s.step tokens maxNgram).i = s.i := by
  have hprev := h.prevLps_lt
  have hprevI := h.prevLps_lt_i
  have hlps := h.table (s.prevLps - 1) (by omega) (by omega)
  rw [show s.prevLps - 1 + 1 = s.prevLps by omega] at hlps
  have hlt := hlps.1.lt
  unfold NgramScan.step
  rw [if_neg hne, if_pos h0]
  refine ⟨?_, hlt, rfl⟩
  exact
    { h with
      prevLps_lt := by
        show s.lps.getD (s.prevLps - 1) 0 < maxNgram
        omega
      border := hlps.1.trans h.border
      candidates := by
        intro v hv hvb heq
        have hle := h.candidates v hv hvb heq
        have hvp : v ≠ s.prevLps := by
          intro hvp
          rw [hvp] at heq
          exact hne heq
        exact hlps.2 v (hvb.of_lt h.border (by omega)) }

theorem NgramScan.Inv.step_mismatch (hne : tokens[s.prevLps]? ≠ tokens[s.i]?) (h0 : s.prevLps = 0) :
    (s.step tokens maxNgram).Inv tokens maxNgram := by
  have hnone : ∀ w ≤ maxNgram, Border (fun j => tokens[j]?) w (s.i + 1) → w = 0 := by
    intro w hw hb
    have := (h.border_le hw hb).2 hne
    omega
  unfold NgramScan.step
  rw [if_neg hne, if_neg (by omega)]
  exact
    { h with
      pos := succ_pos _
      border := by
        rw [h0]
        exact border_zero (succ_pos _)
      candidates := by
        intro v hv hvb _
        have := hnone v (by omega) hvb
        omega
      table := by
        intro j hj hjm
        have hj' : j < s.i + 1 := hj
        by_cases hji : j = s.i
        · show LongestBorder _ (s.lps.getD j 0) (j + 1)
          rw [h.fresh j (by omega), hji]
          refine ⟨border_zero (succ_pos _), ?_⟩
          intro w hw
          have hlt := hw.lt
          have := hnone w (by omega) hw
          omega
        · exact h.table j (by omega) hjm
      fresh := by
        intro j hj
        have hj' : s.i + 1 ≤ j := hj
        exact h.fresh j (by omega)
      longest := by
        intro m hm w hw hb
        have hm' : m ≤ s.i + 1 := hm
        by_cases hmi : m = s.i + 1
        · rw [hmi] at hb
          have := hnone w hw hb
          omega
        · exact h.longest m (by omega) w hw hb
      found := by
        intro hfound
        have hold := h.found hfound
        refine ⟨le_succ_of_le hold.1, hold.2.1, ?_⟩
        intro m hm hb
        have hm' : m ≤ s.i + 1 := hm
        by_cases hmi : m = s.i + 1
        · rw [hmi] at hb
          have h0 : s.longestNgram = 0 := hnone _ h.longest_le hb
          have hpos : 0 < s.longestNgram := hfound
          omega
        · exact hold.2.2 m (by omega) hb }

theorem NgramScan.Inv.step :
    (s.step tokens maxNgram).Inv tokens maxNgram ∧ (s.step tokens maxNgram).i ≤ s.i + 1 ∧
      2 * s.i + (s.step tokens maxNgram).prevLps < 2 * (s.step tokens maxNgram).i + s.prevLps := by
  by_cases heq : tokens[s.prevLps]? = tokens[s.i]?
  · have hinv := h.step_match heq
    have hi : (s.step tokens maxNgram).i = s.i + 1 := by
      unfold NgramScan.step
      rw [if_pos heq]
    have hp : (s.step tokens maxNgram).prevLps ≤ s.prevLps + 1 := by
      have hlt := hinv.prevLps_lt
      revert hlt
      unfold NgramScan.step
      rw [if_pos heq]
      dsimp only
      split <;> omega
    exact ⟨hinv, by omega, by omega⟩
  · by_cases h0 : s.prevLps = 0
    · have hstep : s.step tokens maxNgram = { s with i := s.i + 1 } := by
        unfold NgramScan.step
        rw [if_neg heq, if_neg (by omega)]
      refine ⟨h.step_mismatch heq h0, ?_⟩
      rw [hstep]
      show s.i + 1 ≤ s.i + 1 ∧ 2 * s.i + s.prevLps < 2 * (s.i + 1) + s.prevLps
      omega
    · have hback := h.step_fallback heq h0
      exact ⟨hback.1, by omega, by omega⟩

end

theorem NgramScan.Inv.scan {fuel : Nat} : ∀ {s : NgramScan}, s.Inv tokens maxNgram →
    s.i ≤ tokens.length → 2 * tokens.length + s.prevLps ≤ 2 * s.i + fuel →
    (ngramScan tokens maxNgram fuel s).Inv tokens maxNgram ∧
      (ngramScan tokens maxNgram fuel s).i = tokens.length := by
  induction fuel with
  | zero =>
    intro s h hi hfuel
    refine ⟨h, ?_⟩
    show s.i = tokens.length
    omega
  | succ fuel ih =>
    intro s h hi hfuel
    rw [ngramScan]
    split
    next hlt =>
      have hstep := h.step
      exact ih hstep.1 (by omega) (by omega)
    next hdone => exact ⟨h, by omega⟩

theorem inv_ngramScan (hmax : 0 < maxNgram) (hne : 0 < tokens.length) :
    (ngramScan tokens maxNgram (2 * tokens.length) (NgramScan.init maxNgram)).Inv tokens maxNgram ∧
      (ngramScan tokens maxNgram (2 * tokens.length) (NgramScan.init maxNgram)).i =
        tokens.length := by
  apply NgramScan.Inv.scan (NgramScan.inv_init hmax) hne
  show 2 * tokens.length + 0 ≤ 2 * 1 + 2 * tokens.length
  omega

end Scan

/-! ## What is proposed -/

/-- The suffix of `length` tokens occurs at `start`, before its own place. -/
def OccursEarlier (tokens : List Token) (length start : Nat) : Prop :=
  start + length < tokens.length ∧
    (tokens.drop start).take length = tokens.drop (tokens.length - length)

/-- The earliest earlier occurrence of the longest suffix, of the lengths considered, that
occurs earlier. -/
structure EarliestOfLongest (tokens : List Token) (minNgram maxNgram length start : Nat) :
    Prop where
  min_le : minNgram ≤ length
  le_max : length ≤ maxNgram
  occurs : OccursEarlier tokens length start
  longest : ∀ l s, l ≤ maxNgram → OccursEarlier tokens l s → l ≤ length
  earliest : ∀ s, OccursEarlier tokens length s → start ≤ s

variable {tokens : List Token} {v start minNgram maxNgram length : Nat} {s : NgramScan}

theorem border_reverse_iff {m : Nat} (hm : m ≤ tokens.length) :
    Border (fun j => tokens.reverse[j]?) v m ↔ OccursEarlier tokens v (tokens.length - m) := by
  constructor
  · intro h
    have hlt := h.lt
    refine ⟨by omega, ?_⟩
    apply ext_getElem?
    intro j
    by_cases hj : j < v
    · rw [getElem?_take_of_lt hj, getElem?_drop, getElem?_drop]
      have hat := h.2 (v - 1 - j) (by omega)
      simp only at hat
      rw [getElem?_reverse (by omega), getElem?_reverse (by omega)] at hat
      rw [show tokens.length - m + j = tokens.length - 1 - (m - v + (v - 1 - j)) by omega, ← hat]
      congr 1
      omega
    · rw [getElem?_eq_none, getElem?_eq_none]
      · rw [length_drop]
        omega
      · rw [length_take]
        omega
  · intro ⟨hlt, heq⟩
    refine ⟨by omega, ?_⟩
    intro j hj
    have hat := congrArg (fun xs : List Token => xs[v - 1 - j]?) heq
    rw [getElem?_take_of_lt (by omega), getElem?_drop, getElem?_drop] at hat
    show tokens.reverse[j]? = tokens.reverse[m - v + j]?
    rw [getElem?_reverse (by omega), getElem?_reverse (by omega)]
    rw [show tokens.length - 1 - j = tokens.length - v + (v - 1 - j) by omega, ← hat]
    congr 1
    omega

theorem OccursEarlier.border (h : OccursEarlier tokens v start) :
    Border (fun j => tokens.reverse[j]?) v (tokens.length - start) := by
  have hlt := h.1
  apply (border_reverse_iff (by omega)).mpr
  rwa [show tokens.length - (tokens.length - start) = start by omega]

theorem earliestOfLongest_ngramScan (hmin : 1 ≤ minNgram) (h : s.Inv tokens.reverse maxNgram)
    (hi : s.i = tokens.length) (hfound : minNgram ≤ s.longestNgram) :
    EarliestOfLongest tokens minNgram maxNgram s.longestNgram
      (tokens.length - (s.position + 1)) where
  min_le := hfound
  le_max := h.longest_le
  occurs := by
    have hpos := h.found (by omega)
    exact (border_reverse_iff (by omega)).mp hpos.2.1
  longest := by
    intro l start hl hocc
    exact h.longest _ (by omega) l hl hocc.border
  earliest := by
    intro start hocc
    have hlast := (h.found (by omega)).2.2 _ (by omega) hocc.border
    omega

theorem le_longestNgram
    (h : s.Inv tokens.reverse maxNgram) (hi : s.i = tokens.length) (hl : length ≤ maxNgram)
    (hocc : OccursEarlier tokens length start) : length ≤ s.longestNgram :=
  h.longest _ (by omega) length hl hocc.border

theorem propose_eq_nil_of_no_room {tokens : List Token} {minNgram maxNgram : Nat}
    {maxModelLen k : Int} (hroom : min k (maxModelLen - tokens.length) ≤ 0) :
    findLongestMatchedNgramAndProposeTokens tokens minNgram maxNgram maxModelLen k = [] := by
  unfold findLongestMatchedNgramAndProposeTokens
  dsimp only
  rw [if_pos hroom]
  split <;> rfl

theorem propose_eq_nil_of_no_match {tokens : List Token} {minNgram maxNgram : Nat}
    {maxModelLen k : Int} (hmin : 1 ≤ minNgram) (hmax : minNgram ≤ maxNgram)
    (hnone : ¬ ∃ length start, minNgram ≤ length ∧ length ≤ maxNgram ∧
      OccursEarlier tokens length start) :
    findLongestMatchedNgramAndProposeTokens tokens minNgram maxNgram maxModelLen k = [] := by
  unfold findLongestMatchedNgramAndProposeTokens
  dsimp only
  split
  · rfl
  · split
    · rfl
    · have hscan := @inv_ngramScan tokens.reverse maxNgram (by omega)
        (by rw [length_reverse]; omega)
      rw [length_reverse] at hscan
      by_cases hfound : minNgram ≤ (ngramScan tokens.reverse maxNgram (2 * tokens.length)
          (NgramScan.init maxNgram)).longestNgram
      · have hbest := earliestOfLongest_ngramScan hmin hscan.1 hscan.2 hfound
        exact absurd ⟨_, _, hbest.min_le, hbest.le_max, hbest.occurs⟩ hnone
      · rw [if_pos (by omega)]

/-- With room and an earlier occurrence, the tokens after the earliest occurrence of the
longest suffix are proposed. -/
theorem propose_eq_take {maxModelLen k : Int}
    (hmin : 1 ≤ minNgram) (hroom : 0 < min k (maxModelLen - tokens.length))
    (hl : minNgram ≤ length) (hu : length ≤ maxNgram) (hocc : OccursEarlier tokens length start) :
    ∃ length start, EarliestOfLongest tokens minNgram maxNgram length start ∧
      findLongestMatchedNgramAndProposeTokens tokens minNgram maxNgram maxModelLen k =
        (tokens.drop (start + length)).take
          (min (min k (maxModelLen - tokens.length)) (tokens.length - (start + length))).toNat := by
  have hlt := hocc.1
  have hscan := @inv_ngramScan tokens.reverse maxNgram (by omega)
    (by rw [length_reverse]; omega)
  rw [length_reverse] at hscan
  have hle := le_longestNgram hscan.1 hscan.2 hu hocc
  have hbest := earliestOfLongest_ngramScan hmin hscan.1 hscan.2 (by omega)
  refine ⟨_, _, hbest, ?_⟩
  unfold findLongestMatchedNgramAndProposeTokens
  dsimp only
  rw [if_neg (by omega), if_neg (by omega), if_neg (by omega)]
  rw [show ∀ a b c : Nat, a - (b + 1) + c = a - 1 - b + c by omega]
  congr 3
  omega

/-- The proposal is what its description says: nothing exactly when no suffix of a length
considered occurs earlier or no room is left, otherwise the tokens that follow the earliest
earlier occurrence of the longest such suffix, at least one of them. -/
theorem findLongestMatchedNgram_spec (tokens : List Token) (minNgram maxNgram : Nat)
    (maxModelLen k : Int) (hmin : 1 ≤ minNgram) (hmax : minNgram ≤ maxNgram) :
    (findLongestMatchedNgramAndProposeTokens tokens minNgram maxNgram maxModelLen k = [] ↔
      (¬ ∃ length start, minNgram ≤ length ∧ length ≤ maxNgram ∧
        OccursEarlier tokens length start) ∨ min k (maxModelLen - tokens.length) ≤ 0) ∧
    (findLongestMatchedNgramAndProposeTokens tokens minNgram maxNgram maxModelLen k ≠ [] →
      ∃ length start, ∃ r : Nat, EarliestOfLongest tokens minNgram maxNgram length start ∧
        (r : Int) = min (min k (maxModelLen - tokens.length))
          ((tokens.length : Int) - (start + length)) ∧ 1 ≤ r ∧
        findLongestMatchedNgramAndProposeTokens tokens minNgram maxNgram maxModelLen k =
          (tokens.drop (start + length)).take r ∧
        ((tokens.drop (start + length)).take r).length = r) := by
  by_cases hroom : min k (maxModelLen - tokens.length) ≤ 0
  · have hnil := @propose_eq_nil_of_no_room tokens minNgram maxNgram _ _ hroom
    exact ⟨⟨fun _ => Or.inr hroom, fun _ => hnil⟩, fun hne => absurd hnil hne⟩
  by_cases hocc : ∃ length start, minNgram ≤ length ∧ length ≤ maxNgram ∧
      OccursEarlier tokens length start
  · rcases hocc with ⟨l, s, hl, hu, hls⟩
    have hroom' : 0 < min k (maxModelLen - tokens.length) := by omega
    rcases propose_eq_take hmin hroom' hl hu hls with ⟨length, start, hbest, heq⟩
    have hlt := hbest.occurs.1
    have hr : 1 ≤ (min (min k (maxModelLen - tokens.length))
        ((tokens.length : Int) - (start + length))).toNat := by omega
    have hlen : ((tokens.drop (start + length)).take (min (min k (maxModelLen - tokens.length))
        ((tokens.length : Int) - (start + length))).toNat).length =
        (min (min k (maxModelLen - tokens.length))
          ((tokens.length : Int) - (start + length))).toNat := by
      rw [length_take, length_drop]
      omega
    refine ⟨⟨?_, ?_⟩, ?_⟩
    · intro hnil
      rw [heq] at hnil
      rw [hnil, length_nil] at hlen
      omega
    · intro hor
      exact absurd ⟨l, s, hl, hu, hls⟩ (hor.resolve_right hroom)
    · intro _
      exact ⟨length, start, _, hbest, by omega, hr, heq, hlen⟩
  · have hnil := @propose_eq_nil_of_no_match _ _ _ maxModelLen k hmin hmax hocc
    exact ⟨⟨fun _ => Or.inl hocc, fun _ => hnil⟩, fun hne => absurd hnil hne⟩

/-- After `1 2 3 1 2 4 1 2` the earliest `1 2` is continued with `3 1`. -/
theorem findLongestMatchedNgram_spec_repeated :
    (1 ≤ 1 ∧ 1 ≤ 3) ∧
      findLongestMatchedNgramAndProposeTokens [1, 2, 3, 1, 2, 4, 1, 2] 1 3 100 2 = [3, 1] ∧
      findLongestMatchedNgramAndProposeTokens [1, 2, 3, 1, 2, 4, 1, 2] 1 3 100 2 ≠ [] ∧
      ∃ length start, EarliestOfLongest [1, 2, 3, 1, 2, 4, 1, 2] 1 3 length start := by
  have hspec := findLongestMatchedNgram_spec [1, 2, 3, 1, 2, 4, 1, 2] 1 3 100 2
    (by decide) (by decide)
  have hval : findLongestMatchedNgramAndProposeTokens [1, 2, 3, 1, 2, 4, 1, 2] 1 3 100 2 =
      [3, 1] := by decide +kernel
  have hne : findLongestMatchedNgramAndProposeTokens [1, 2, 3, 1, 2, 4, 1, 2] 1 3 100 2 ≠ [] := by
    rw [hval]
    decide
  rcases hspec.2 hne with ⟨length, start, _, hbest, _⟩
  exact ⟨by decide, hval, hne, length, start, hbest⟩

end VllmCore.SpecDecode
