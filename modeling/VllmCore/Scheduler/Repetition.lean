import VllmCore.Request
/-!
# Repetition at the end of an output

The check reads the list with negative indices, so that a read beyond its start is
an error.  None occurs, and the check finds exactly the outputs that end with the
required number of copies of one pattern.
-/

namespace VllmCore

open List Nat Support

variable {xs ys pattern : List Token} {tokenIds : List Token} {patternLen k count left : Nat}
variable {params : RepetitionDetectionParams}

/-- `__post_init__`. -/
def RepetitionDetectionParams.postInit (p : RepetitionDetectionParams) : Py Unit := do
  require (¬(p.maxPatternSize < 0 ∨ p.minPatternSize < 0 ∨ p.minPatternSize > p.maxPatternSize))
    (.valueError ("max_pattern_size, min_pattern_size must be >=0, " ++
      "with min_pattern_size <= max_pattern_size. " ++
      "Set both to 0 to disable repetitive pattern detection."))
  require (¬(p.maxPatternSize > 0 ∧ p.minCount < 2))
    (.valueError ("min_count must be >= 2 to detect repetitive patterns " ++
      "in engine output. If you do not wish to detect repetitive " ++
      "patterns, set max_pattern_size to 0."))

/-- `_has_repeating_pattern`, where a read beyond the start of the list raises. -/
def readRepeatingPattern (tokenIds : List Token) (patternLen repetitionMinCount : Nat) :
    Py Bool :=
  (List.range' 1 patternLen).allM fun (n : Nat) => do
    let targetToken ← pyGet tokenIds (-(n : Int))
    (List.range' 1 (repetitionMinCount - 1)).allM fun (m : Nat) => do
      let token ← pyGet tokenIds (-((patternLen * m + n : Nat) : Int))
      pure (token == targetToken)

/-- `check_sequence_repetition`, where a read beyond the start of the list raises. -/
def readSequenceRepetition (tokenIds : List Token) (params : RepetitionDetectionParams) :
    Py Bool :=
  let minPatternSize := if params.minPatternSize ≤ 0 then 1 else params.minPatternSize
  if params.maxPatternSize ≤ 0 ∨ params.minCount < 2 ∨
      minPatternSize > params.maxPatternSize then pure false
  else go params.minCount.toNat minPatternSize.toNat
    (params.maxPatternSize - minPatternSize + 1).toNat
where
  /-- The loop over the pattern lengths, `left` of them still to try. -/
  go (minCount patternLen : Nat) : Nat → Py Bool
    | 0 => pure false
    | left + 1 => do
      if patternLen * minCount > tokenIds.length then pure false
      else if ← readRepeatingPattern tokenIds patternLen minCount then pure true
      else go minCount (patternLen + 1) left

/-! ## No read fails -/

theorem allM_ok {α : Type} {f : α → Py Bool} {g : α → Bool} {xs : List α}
    (h : ∀ x ∈ xs, f x = .ok (g x)) : xs.allM f = .ok (xs.all g) := by
  induction xs with
  | nil => rfl
  | cons x xs ih =>
    have hx := h x mem_cons_self
    have hrest := ih fun y hy => h y (mem_cons_of_mem x hy)
    rw [List.allM, hx, all_cons]
    cases g x with
    | false => rfl
    | true => exact hrest

theorem pyGet_neg (xs : List Token) (hpos : 0 < k) (hle : k ≤ xs.length) :
    ∃ x, xs.reverse[k - 1]? = some x ∧ pyGet xs (-(k : Int)) = .ok x := by
  have hlt : xs.length - k < xs.length := by omega
  refine ⟨xs[xs.length - k], ?_, ?_⟩
  · rw [getElem?_reverse (by omega), show xs.length - 1 - (k - 1) = xs.length - k by omega]
    exact getElem?_eq_getElem hlt
  · rw [pyGet_ok]
    refine ⟨xs.length - k, ?_, getElem?_eq_getElem hlt⟩
    unfold pyIndex
    rw [if_neg (by omega), if_pos (by omega)]
    congr 1
    omega

theorem readRepeatingPattern_eq (hcount : 0 < count)
    (hlen : patternLen * count ≤ tokenIds.length) :
    readRepeatingPattern tokenIds patternLen count =
      .ok (hasRepeatingPattern tokenIds patternLen count) := by
  have hle : ∀ m n, m < count → n ≤ patternLen → patternLen * m + n ≤ tokenIds.length := by
    intro m n hm hn
    have hstep := mul_le_mul_left patternLen hm
    rw [mul_succ] at hstep
    omega
  have hreads : ∀ n ∈ List.range' 1 patternLen,
      (do let targetToken ← pyGet tokenIds (-(n : Int))
          (List.range' 1 (count - 1)).allM fun (m : Nat) => do
            let token ← pyGet tokenIds (-((patternLen * m + n : Nat) : Int))
            pure (token == targetToken)) =
        .ok ((List.range' 1 (count - 1)).all fun (m : Nat) =>
          tokenIds.reverse[patternLen * m + (n - 1)]? == tokenIds.reverse[n - 1]?) := by
    intro n hn
    rw [mem_range'_1] at hn
    have hroom := hle 0 n hcount (by omega)
    rw [mul_zero, zero_add] at hroom
    obtain ⟨target, htarget, hget⟩ := pyGet_neg tokenIds hn.1 hroom
    rw [hget, htarget, ok_bind]
    refine allM_ok fun m hm => ?_
    rw [mem_range'_1] at hm
    obtain ⟨token, htoken, hread⟩ := pyGet_neg tokenIds (k := patternLen * m + n)
      (by omega) (hle m n (by omega) (by omega))
    rw [hread, ok_bind, ← Nat.add_sub_assoc hn.1, htoken]
    rfl
  rw [readRepeatingPattern, allM_ok hreads, hasRepeatingPattern]
  simp [List.range'_eq_map_range, all_map, Function.comp_def, add_comm]

theorem readSequenceRepetition_go_eq (hcount : 0 < count) :
    readSequenceRepetition.go tokenIds count patternLen left =
      .ok (checkSequenceRepetition.go tokenIds count patternLen left) := by
  induction left generalizing patternLen with
  | zero => rfl
  | succ left ih =>
    rw [readSequenceRepetition.go, checkSequenceRepetition.go]
    split
    · rfl
    next hlen =>
      rw [readRepeatingPattern_eq hcount (le_of_not_gt hlen), ok_bind, ih]
      split
      · rfl
      · rfl

theorem readSequenceRepetition_eq :
    readSequenceRepetition tokenIds params = .ok (checkSequenceRepetition tokenIds params) := by
  simp only [readSequenceRepetition, checkSequenceRepetition]
  generalize (if params.minPatternSize ≤ 0 then 1 else params.minPatternSize) = minPatternSize
  split
  · rfl
  next hparams =>
    exact readSequenceRepetition_go_eq (by omega)

/-! ## What the check finds -/

/-- The tokens end with `count` copies of the pattern. -/
def EndsWithCopies (tokenIds pattern : List Token) (count : Nat) : Prop :=
  (List.replicate count pattern).flatten <:+ tokenIds

theorem EndsWithCopies.length_le (h : EndsWithCopies tokenIds pattern count) :
    pattern.length * count ≤ tokenIds.length := by
  have hlen := List.IsSuffix.length_le h
  rwa [length_flatten, map_replicate, sum_replicate_nat,
    mul_comm] at hlen

theorem flatten_replicate_prefix_iff :
    (List.replicate count pattern).flatten <+: ys ↔
      ∀ m < count, pattern <+: ys.drop (pattern.length * m) := by
  induction count generalizing ys with
  | zero => simp
  | succ count ih =>
    rw [replicate_succ, flatten_cons]
    constructor
    · rintro ⟨rest, rfl⟩ m hm
      cases m with
      | zero => simp
      | succ m =>
        rw [mul_succ, add_comm, ← drop_drop, append_assoc, drop_left]
        exact ih.mp (prefix_append _ _) m (by omega)
    · intro h
      obtain ⟨rest, rfl⟩ : pattern <+: ys := by simpa using h 0 (by omega)
      rw [prefix_append_right_inj]
      refine ih.mpr fun m hm => ?_
      have hnext := h (m + 1) (by omega)
      rwa [mul_succ, add_comm, ← drop_drop, drop_left] at hnext

theorem endsWithCopies_reverse_iff :
    EndsWithCopies tokenIds xs.reverse count ↔
      ∀ m < count, xs <+: tokenIds.reverse.drop (xs.length * m) := by
  rw [← flatten_replicate_prefix_iff, EndsWithCopies, ← reverse_prefix]
  simp [reverse_flatten]

theorem hasRepeatingPattern_iff (hcount : 0 < count)
    (hlen : patternLen * count ≤ tokenIds.length) :
    hasRepeatingPattern tokenIds patternLen count = true ↔
      ∃ pattern, pattern.length = patternLen ∧ EndsWithCopies tokenIds pattern count := by
  have hfirst : patternLen ≤ tokenIds.reverse.length := by
    rw [length_reverse]
    exact (Nat.le_mul_of_pos_right patternLen hcount).trans hlen
  simp only [hasRepeatingPattern, all_eq_true, mem_range, beq_iff_eq]
  constructor
  · intro h
    have htake : (tokenIds.reverse.take patternLen).length = patternLen :=
      length_take_of_le hfirst
    refine ⟨(tokenIds.reverse.take patternLen).reverse, by rw [length_reverse, htake], ?_⟩
    rw [endsWithCopies_reverse_iff, htake]
    intro m hm
    rw [prefix_iff_getElem?]
    intro n hn
    rw [htake] at hn
    rw [getElem?_drop, getElem_take, ← getElem?_eq_getElem]
    cases m with
    | zero => simp
    | succ m => exact h n hn m (by omega)
  · rintro ⟨pattern, rfl, h⟩ n hn m hm
    rw [← reverse_reverse pattern, endsWithCopies_reverse_iff, length_reverse] at h
    have hcopy : ∀ m < count, tokenIds.reverse[pattern.length * m + n]? = pattern.reverse[n]? := by
      intro m hm
      have hn' : n < pattern.reverse.length := by rwa [length_reverse]
      rw [← getElem?_drop, getElem?_eq_getElem hn']
      exact prefix_iff_getElem?.mp (h m hm) n hn'
    have htarget := hcopy 0 hcount
    rw [mul_zero, zero_add] at htarget
    rw [hcopy (m + 1) (by omega), htarget]

theorem checkSequenceRepetition_go_iff (hcount : 0 < count) :
    checkSequenceRepetition.go tokenIds count patternLen left = true ↔
      ∃ pattern, patternLen ≤ pattern.length ∧ pattern.length < patternLen + left ∧
        EndsWithCopies tokenIds pattern count := by
  induction left generalizing patternLen with
  | zero =>
    constructor
    · exact nofun
    · rintro ⟨pattern, hle, hlt, _⟩
      omega
  | succ left ih =>
    rw [checkSequenceRepetition.go]
    split
    next hlen =>
      -- a longer pattern needs even more tokens
      refine ⟨nofun, ?_⟩
      rintro ⟨pattern, hle, _, h⟩
      have hmul := mul_le_mul_right count hle
      have := h.length_le
      omega
    next hlen =>
      have hhere := hasRepeatingPattern_iff hcount (le_of_not_gt hlen)
      split
      next hfound =>
        obtain ⟨pattern, hpattern, h⟩ := hhere.mp hfound
        exact ⟨fun _ => ⟨pattern, by omega, by omega, h⟩, fun _ => rfl⟩
      next hnone =>
        rw [ih]
        refine exists_congr fun pattern => ?_
        constructor
        · rintro ⟨hle, hlt, h⟩
          exact ⟨by omega, by omega, h⟩
        · rintro ⟨hle, hlt, h⟩
          have hne : pattern.length ≠ patternLen := fun heq =>
            hnone (hhere.mpr ⟨pattern, heq, h⟩)
          exact ⟨by omega, by omega, h⟩

/-- With parameters that their constructor accepts, the check raises nothing and finds
exactly the outputs that end with `minCount` copies of a pattern of an allowed length. -/
theorem sequenceRepetition_iff (h : params.postInit = .ok ()) :
    ∃ found, readSequenceRepetition tokenIds params = .ok found ∧
      (found = true ↔ ∃ pattern : List Token, pattern ≠ [] ∧
        params.minPatternSize ≤ pattern.length ∧ pattern.length ≤ params.maxPatternSize ∧
        EndsWithCopies tokenIds pattern params.minCount.toNat) := by
  simp only [RepetitionDetectionParams.postInit, bind_ok, require_ok] at h
  refine ⟨_, readSequenceRepetition_eq, ?_⟩
  rw [checkSequenceRepetition]
  have hfirst : ∀ n : Nat, (if params.minPatternSize ≤ 0 then 1 else params.minPatternSize) ≤ n ↔
      0 < n ∧ params.minPatternSize ≤ n := by
    intro n
    split <;> omega
  simp only [← length_pos_iff, ← and_assoc, ← hfirst]
  have hpos : 0 < (if params.minPatternSize ≤ 0 then 1 else params.minPatternSize) := by
    split <;> omega
  generalize (if params.minPatternSize ≤ 0 then 1 else params.minPatternSize) = minPatternSize
    at hpos ⊢
  split
  next hnone =>
    refine ⟨fun hfalse => absurd hfalse Bool.false_ne_true, ?_⟩
    rintro ⟨pattern, ⟨hle, hge⟩, _⟩
    omega
  next hparams =>
    rw [checkSequenceRepetition_go_iff (by omega)]
    refine exists_congr fun pattern => ?_
    rw [← and_assoc]
    exact and_congr_left fun _ => by omega

theorem sequenceRepetition_iff_twice :
    ∃ found, readSequenceRepetition [1, 2, 3, 2, 3]
        { maxPatternSize := 2, minPatternSize := 0, minCount := 2 } = .ok found ∧
      (found = true ↔ ∃ pattern : List Token, pattern ≠ [] ∧
        (0 : Int) ≤ pattern.length ∧ (pattern.length : Int) ≤ 2 ∧
        EndsWithCopies [1, 2, 3, 2, 3] pattern 2) :=
  sequenceRepetition_iff
    (by decide : RepetitionDetectionParams.postInit ⟨2, 0, 2⟩ = .ok ())

end VllmCore
