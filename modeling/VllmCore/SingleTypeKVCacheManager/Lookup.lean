import VllmCore.SingleTypeKVCacheManager.NullPrefix
/-!
# What a lookup of one group finds

Which blocks the next token needs is a matter of the type of attention.  The lookup of every
manager finds the needed blocks of the hit it returns, and without EAGLE no longer hit has
all its needed blocks cached.
-/

namespace VllmCore

open List Nat Support

variable {D : Type} [DecidableEq D]

/-! ## Needed blocks -/

namespace KVCacheSpec

/-- After `n` computed tokens the next one needs block `i`: the state at the end of the last
block for Mamba, and else every block with a position that it attends to. -/
def HitNeeds (s : KVCacheSpec) (n i : Nat) : Prop :=
  match s.kind with
  | .mamba .. => (i + 1) * s.blockSize = n
  | _ => s.NeedsBlock s.blockSize n i

def WindowOverOne (s : KVCacheSpec) : Prop :=
  match s.kind with
  | .slidingWindow _ window _ => 2 ≤ window
  | _ => True

def ChunkAligned (s : KVCacheSpec) : Prop :=
  match s.kind with
  | .chunkedLocalAttention _ chunkSize _ => s.blockSize ∣ chunkSize
  | _ => True

/-- What the managers assert before they look for hits of several types of attention. -/
def Supported (s : KVCacheSpec) (useEagle : Bool) (alignmentTokens : Nat) : Prop :=
  match s.kind with
  | .slidingWindow .. => useEagle = true → s.blockSize = alignmentTokens
  | .chunkedLocalAttention .. => useEagle = false ∧ s.blockSize = alignmentTokens
  | .crossAttention _ => False
  | _ => True

variable {s : KVCacheSpec} {n i : Nat} {shape : AttentionShape}

theorem needsBlock_iff : s.NeedsBlock s.blockSize n i ↔
      ∃ j, i * s.blockSize ≤ j ∧ j < (i + 1) * s.blockSize ∧ s.Attends n j := by
  constructor
  · rintro ⟨j, hj, hattends⟩
    refine ⟨j, ?_, ?_, hattends⟩
    · exact (le_div_iff_mul_le s.blockSize_pos).mp hj.ge
    · exact (Nat.div_lt_iff_lt_mul s.blockSize_pos).mp (by omega)
  · rintro ⟨j, hle, hlt, hattends⟩
    refine ⟨j, ?_, hattends⟩
    have hlow := (le_div_iff_mul_le s.blockSize_pos).mpr hle
    have hhigh := (Nat.div_lt_iff_lt_mul s.blockSize_pos).mpr hlt
    omega

theorem needsBlock_slidingWindow {window : Nat}
    {hpos : 0 < window} (hkind : s.kind = .slidingWindow shape window hpos)
    (hi : i < n) : s.NeedsBlock s.blockSize (n * s.blockSize) i ↔
      SingleTypeKVCacheManager.WindowNeeds (cdiv ((window : Int) - 1) s.blockSize) n i := by
  have hsize := s.blockSize_pos
  have hblock : (i + 1) * s.blockSize ≤ n * s.blockSize := Nat.mul_le_mul_right _ hi
  -- The last position of the block decides.
  have hlast : s.NeedsBlock s.blockSize (n * s.blockSize) i ↔
      n * s.blockSize + 1 < (i + 1) * s.blockSize + window := by
    rw [needsBlock_iff]
    unfold Attends
    rw [hkind]
    constructor
    · rintro ⟨j, _, hlt, _, hwindow⟩
      omega
    · intro hlt
      rw [succ_mul] at hblock hlt
      refine ⟨i * s.blockSize + (s.blockSize - 1), by omega, ?_, by omega, by omega⟩
      rw [succ_mul]
      omega
  rw [hlast]
  unfold SingleTypeKVCacheManager.WindowNeeds
  have hcount : ((n : Int) ≤ i + cdiv ((window : Int) - 1) s.blockSize) ↔
      ¬cdiv ((window : Int) - 1) s.blockSize ≤ ((n - i - 1 : Nat) : Int) := by
    omega
  rw [hcount, cdiv_le_iff hsize]
  have hsplit : (n - i - 1) * s.blockSize + (i + 1) * s.blockSize = n * s.blockSize := by
    rw [← add_mul]
    congr 1
    omega
  omega

theorem needsBlock_chunkedLocal {chunkSize : Nat}
    {hpos : 0 < chunkSize} (hkind : s.kind = .chunkedLocalAttention shape chunkSize hpos)
    (hi : (i + 1) * s.blockSize ≤ n) : s.NeedsBlock s.blockSize n i ↔
      n / chunkSize * chunkSize / s.blockSize ≤ i := by
  have hsize := s.blockSize_pos
  have hstart : n / chunkSize * chunkSize ≤ n := Nat.div_mul_le_self n chunkSize
  rw [needsBlock_iff, ← Nat.lt_succ_iff, Nat.div_lt_iff_lt_mul hsize]
  unfold Attends
  rw [hkind]
  constructor
  · rintro ⟨j, _, hlt, _, hchunk⟩
    have hle := Nat.div_mul_le_self j chunkSize
    rw [hchunk] at hle
    exact lt_of_le_of_lt hle hlt
  · intro hlt
    refine ⟨max (i * s.blockSize) (n / chunkSize * chunkSize), le_max_left _ _, ?_, ?_, ?_⟩
    · apply max_lt _ hlt
      rw [succ_mul]
      omega
    · apply max_le _ hstart
      rw [succ_mul] at hi
      omega
    · apply le_antisymm
      · apply Nat.div_le_div_right
        apply max_le _ hstart
        rw [succ_mul] at hi
        omega
      · rw [le_div_iff_mul_le hpos]
        exact le_max_right _ _

theorem hitNeeds_fullAttention (hfull : s.isFullAttention = true)
    (hi : i * s.blockSize ≤ n) : s.HitNeeds n i := by
  have hneeds : s.NeedsBlock s.blockSize n i := by
    rw [needsBlock_iff]
    refine ⟨i * s.blockSize, le_rfl, ?_, hi, ?_⟩
    · have hpos := s.blockSize_pos
      rw [succ_mul]
      omega
    · unfold isFullAttention at hfull
      split at hfull
      next hkind => rw [hkind]; trivial
      next hkind => rw [hkind]; trivial
      next hkind => rw [hkind]; trivial
      · cases hfull
  unfold isFullAttention at hfull
  unfold HitNeeds
  split
  next hkind =>
    rw [hkind] at hfull
    cases hfull
  · exact hneeds

end KVCacheSpec

namespace SingleTypeKVCacheManager

variable {p : BlockPool D} {hashes : BlockHashListWithBlockSize D} {groupIds : List Nat}

/-- What a lookup of at most `maxLength` tokens finds: needed blocks are cached, unless a chunk
starts within a block and the hit is shorter than asked for.  Without EAGLE no longer hit has
its needed blocks cached. -/
structure Lookup (p : BlockPool D) (hashes : BlockHashListWithBlockSize D) (groupIds : List Nat)
    (s : KVCacheSpec) (useEagle : Bool) (alignmentTokens maxLength : Nat)
    (rows : List (List BlockId)) : Prop where
  le : rows.length * s.blockSize ≤ maxLength
  aligned : alignmentTokens ∣ rows.length * s.blockSize
  rowsOk : RowsOk p hashes groupIds 0 rows
  valid : s.ChunkAligned ∨ rows.length * s.blockSize = maxLength → ∀ i row,
    rows[i]? = some row → s.HitNeeds (rows.length * s.blockSize) i →
      CachedRow p hashes groupIds i row
  longest : useEagle = false → s.WindowOverOne → ∀ n, n * s.blockSize ≤ maxLength →
    alignmentTokens ∣ n * s.blockSize →
    (∀ i < n, s.HitNeeds (n * s.blockSize) i → CachedAt p hashes groupIds i) → n ≤ rows.length

/-- The blocks that the lookup of a manager insists on: at least the last one for a sliding
window. -/
def lookupNeeds (s : KVCacheSpec) (n i : Nat) : Prop :=
  match s.kind with
  | .slidingWindow _ window _ => WindowNeeds (max 1 (cdiv ((window : Int) - 1) s.blockSize)) n i
  | _ => s.HitNeeds (n * s.blockSize) i

variable {s : KVCacheSpec}
  {n i alignmentTokens maxLength maxBlocks blockSize window chunkSize : Nat} {useEagle : Bool}
  {rows : List (List BlockId)} {shape : AttentionShape} {hpos : 0 < window}

theorem lookupNeeds_of_hitNeeds (hi : i < n)
    (h : s.HitNeeds (n * s.blockSize) i) : lookupNeeds s n i := by
  unfold lookupNeeds
  split
  next window hpos hkind =>
    have hneeds : s.NeedsBlock s.blockSize (n * s.blockSize) i := by
      unfold KVCacheSpec.HitNeeds at h
      rwa [hkind] at h
    rw [KVCacheSpec.needsBlock_slidingWindow hkind hi] at hneeds
    unfold WindowNeeds at hneeds ⊢
    omega
  · exact h

theorem hitNeeds_of_lookupNeeds (hwindow : s.WindowOverOne)
    (hi : i < n) (h : lookupNeeds s n i) : s.HitNeeds (n * s.blockSize) i := by
  unfold lookupNeeds at h
  split at h
  next window hpos hkind =>
    have htwo : 2 ≤ window := by
      unfold KVCacheSpec.WindowOverOne at hwindow
      rwa [hkind] at hwindow
    have hcount : ¬cdiv ((window : Int) - 1) s.blockSize ≤ 0 := by
      rw [cdiv_le_iff s.blockSize_pos]
      omega
    unfold KVCacheSpec.HitNeeds
    rw [hkind]
    rw [KVCacheSpec.needsBlock_slidingWindow hkind hi]
    unfold WindowNeeds at h ⊢
    omega
  · exact h

theorem LongestRows.lookup
    (h : LongestRows p hashes groupIds (lookupNeeds s) (Aligned s.blockSize alignmentTokens)
      (maxLength / s.blockSize) rows) :
    Lookup p hashes groupIds s useEagle alignmentTokens maxLength rows where
  le := (le_div_iff_mul_le s.blockSize_pos).mp h.le
  aligned := aligned_iff.mp h.aligned
  rowsOk := by
    intro i row hrow
    rw [zero_add]
    by_cases hneeds : lookupNeeds s rows.length i
    · exact .inr (h.hit.needed i row hrow hneeds)
    · exact .inl (h.hit.other i row hrow hneeds)
  valid := by
    intro _ i row hrow hneeds
    have hi := (List.getElem?_eq_some_iff.mp hrow).1
    exact h.hit.needed i row hrow (lookupNeeds_of_hitNeeds hi hneeds)
  longest := by
    intro _ hwindow n hn haligned hcached
    apply h.longest n ((le_div_iff_mul_le s.blockSize_pos).mpr hn)
    refine ⟨aligned_iff.mpr haligned, ?_⟩
    intro i hi hneeds
    exact hcached i hi (hitNeeds_of_lookupNeeds hwindow hi hneeds)

theorem LongestRows.unique {needs : Nat → Nat → Prop} {ends : Nat → Prop}
    {rows' : List (List BlockId)} (h : LongestRows p hashes groupIds needs ends maxBlocks rows)
    (h' : LongestRows p hashes groupIds needs ends rows.length rows') : rows' = rows := by
  have hlength : rows'.length = rows.length := by
    apply le_antisymm h'.le
    exact h'.longest rows.length le_rfl h.usable
  apply ext_getElem hlength
  intro i hi' hi
  have hrow := getElem?_eq_getElem hi
  have hrow' := getElem?_eq_getElem hi'
  by_cases hneeds : needs rows.length i
  · obtain ⟨v, hv, hcached⟩ := h.hit.needed i _ hrow hneeds
    obtain ⟨v', hv', hcached'⟩ := h'.hit.needed i _ hrow' (hlength.symm ▸ hneeds)
    rw [hv, Except.ok.injEq] at hv'
    rw [← hv', hcached, Option.some.injEq] at hcached'
    exact hcached'.symm
  · rw [h.hit.other i _ hrow hneeds, h'.hit.other i _ hrow' (hlength.symm ▸ hneeds)]

/-! ## Full attention -/

theorem scanForward_run (p : BlockPool D) (groupIds : List Nat) : ∀ {left i : Nat},
    i + left ≤ hashes.length → ∃ rows, scanForward p hashes groupIds left i = .ok rows ∧
      rows.length ≤ left ∧
      (∀ k row, rows[k]? = some row → CachedRow p hashes groupIds (i + k) row) ∧
      (rows.length < left → ¬CachedAt p hashes groupIds (i + rows.length)) := by
  intro left
  induction left with
  | zero =>
    intro i _
    exact ⟨[], rfl, le_rfl, fun k row hrow => (by cases hrow),
      fun hlt => absurd hlt (lt_irrefl 0)⟩
  | succ left ih =>
    intro i hle
    obtain ⟨v, hv⟩ := BlockHashListWithBlockSize.getValueAt_of_lt
      (show i < hashes.length by omega)
    unfold scanForward
    rw [hv, ok_bind]
    cases hcached : p.getCachedBlock v groupIds with
    | none =>
      refine ⟨[], rfl, zero_le _, fun k row hrow => (by cases hrow), fun _ => ?_⟩
      rintro ⟨row, v', hv', hrow⟩
      rw [length_nil, add_zero, hv, Except.ok.injEq] at hv'
      rw [← hv', hcached] at hrow
      cases hrow
    | some cached =>
      obtain ⟨rows, hscan, hlen, hrows, hstop⟩ := ih (show i + 1 + left ≤ hashes.length by omega)
      refine ⟨cached :: rows, ?_, ?_, ?_, ?_⟩
      · rw [hscan]
        rfl
      · rw [length_cons]
        omega
      · intro k row hrow
        cases k with
        | zero =>
          cases hrow
          exact ⟨v, hv, hcached⟩
        | succ k =>
          have hcachedRow := hrows k row hrow
          rwa [show i + 1 + k = i + (k + 1) by omega] at hcachedRow
      · intro hlt
        rw [length_cons] at hlt ⊢
        have hmiss := hstop (by omega)
        rwa [show i + 1 + rows.length = i + (rows.length + 1) by omega] at hmiss

theorem alignedLength_spec (blockSize alignmentTokens n : Nat) :
    alignedLength blockSize alignmentTokens n ≤ n ∧
      Aligned blockSize alignmentTokens (alignedLength blockSize alignmentTokens n) ∧
      ∀ k ≤ n, Aligned blockSize alignmentTokens k →
        k ≤ alignedLength blockSize alignmentTokens n := by
  induction n with
  | zero => exact ⟨le_rfl, aligned_zero blockSize alignmentTokens, fun k hk _ => hk⟩
  | succ n ih =>
    obtain ⟨hle, haligned, hgreatest⟩ := ih
    unfold alignedLength
    split
    next hend => exact ⟨le_rfl, hend, fun k hk _ => hk⟩
    next hend =>
      refine ⟨by omega, haligned, ?_⟩
      intro k hk hkAligned
      apply hgreatest k _ hkAligned
      rcases lt_or_ge n k with hlt | hge
      · obtain rfl : k = n + 1 := by omega
        exact absurd hkAligned hend
      · exact hge

theorem lookupNeeds_fullAttention (hfull : s.isFullAttention = true)
    (hi : i < n) : lookupNeeds s n i :=
  lookupNeeds_of_hitNeeds hi
    (KVCacheSpec.hitNeeds_fullAttention hfull (Nat.mul_le_mul_right _ (le_of_lt hi)))

theorem lookup_of_run {run : List (List BlockId)} (hlen : run.length ≤ maxLength / s.blockSize)
    (hrun : ∀ k row, run[k]? = some row → CachedRow p hashes groupIds k row)
    (alignmentTokens : Nat) :
    Lookup p hashes groupIds s true alignmentTokens maxLength
      (run.take (alignedLength s.blockSize alignmentTokens run.length)) := by
  obtain ⟨hle, haligned, _⟩ := alignedLength_spec s.blockSize alignmentTokens run.length
  have hlength : (run.take (alignedLength s.blockSize alignmentTokens run.length)).length =
      alignedLength s.blockSize alignmentTokens run.length := by
    rw [length_take]
    omega
  have hcached : ∀ k row, (run.take (alignedLength s.blockSize alignmentTokens run.length))[k]? =
      some row → CachedRow p hashes groupIds k row := by
    intro k row hrow
    rw [getElem?_take] at hrow
    split at hrow
    · exact hrun k row hrow
    · cases hrow
  refine ⟨?_, ?_, ?_, fun _ i row hrow _ => hcached i row hrow, fun h => by cases h⟩
  · rw [hlength]
    exact (le_div_iff_mul_le s.blockSize_pos).mp (hle.trans hlen)
  · rw [hlength]
    exact aligned_iff.mp haligned
  · intro i row hrow
    rw [zero_add]
    exact .inr (hcached i row hrow)

theorem findLongestCacheHitFull_lookup (hfull : s.isFullAttention = true)
    (hcover : maxLength / s.blockSize ≤ hashes.length) (useEagle : Bool) (alignmentTokens : Nat) :
    ∃ rows, findLongestCacheHitFull p hashes maxLength groupIds s.blockSize useEagle
        alignmentTokens = .ok (columns groupIds.length p.nullBlock rows) ∧
      (useEagle = false → LongestRows p hashes groupIds (lookupNeeds s)
        (Aligned s.blockSize alignmentTokens) (maxLength / s.blockSize) rows) ∧
      Lookup p hashes groupIds s useEagle alignmentTokens maxLength rows := by
  obtain ⟨run, hscan, hlen, hrun, hstop⟩ := scanForward_run p groupIds
    (show 0 + maxLength / s.blockSize ≤ hashes.length by omega)
  simp only [zero_add] at hrun hstop
  unfold findLongestCacheHitFull
  simp only [min_eq_left hcover, hscan, ok_bind]
  cases useEagle with
  | true =>
    refine ⟨_, rfl, fun h => (by cases h), ?_⟩
    have hdrop : run.dropLast.length ≤ maxLength / s.blockSize := by
      rw [length_dropLast]
      omega
    refine lookup_of_run hdrop ?_ alignmentTokens
    intro k row hrow
    rw [dropLast_eq_take, getElem?_take] at hrow
    split at hrow
    · exact hrun k row hrow
    · cases hrow
  | false =>
    refine ⟨_, rfl, ?_⟩
    obtain ⟨hle, haligned, hgreatest⟩ :=
      alignedLength_spec s.blockSize alignmentTokens run.length
    have hlength : (run.take (alignedLength s.blockSize alignmentTokens run.length)).length =
        alignedLength s.blockSize alignmentTokens run.length := by
      rw [length_take]
      omega
    have hlongest : LongestRows p hashes groupIds (lookupNeeds s)
        (Aligned s.blockSize alignmentTokens) (maxLength / s.blockSize)
        (run.take (alignedLength s.blockSize alignmentTokens run.length)) := by
      refine ⟨?_, ?_, ⟨?_, ?_⟩, ?_⟩
      · rw [hlength]
        exact hle.trans hlen
      · rw [hlength]
        exact haligned
      · intro i row hrow _
        rw [getElem?_take] at hrow
        split at hrow
        · exact hrun i row hrow
        · cases hrow
      · intro i row hrow hneeds
        exact absurd (lookupNeeds_fullAttention hfull (List.getElem?_eq_some_iff.mp hrow).1) hneeds
      · intro n hn husable
        rw [hlength]
        apply hgreatest n _ husable.1
        -- A longer hit would need the block at which the run stops.
        by_contra hlong
        exact hstop (by omega)
          (husable.2 run.length (by omega) (lookupNeeds_fullAttention hfull (by omega)))
    exact ⟨fun _ => hlongest, hlongest.lookup⟩

theorem scanWindow_max_one (needed : Int) : ∀ (i run : Nat) (rows : List (List BlockId)),
      scanWindow p hashes groupIds blockSize alignmentTokens needed i run rows =
        scanWindow p hashes groupIds blockSize alignmentTokens (max 1 needed) i run rows := by
  intro i
  induction i with
  | zero => intro run rows; rfl
  | succ i ih =>
    intro run rows
    have henough : needed ≤ (run : Int) + 1 ↔ max 1 needed ≤ (run : Int) + 1 := by omega
    unfold scanWindow
    simp only [ih, henough]

theorem LongestRows.lookup_dropLast (hkind : s.kind = .slidingWindow shape window hpos)
    (hsize : s.blockSize = alignmentTokens) (h : LongestRows p hashes groupIds
      (WindowNeeds (max 1 (cdiv ((window : Int) - 1) s.blockSize + 1)))
      (Aligned s.blockSize alignmentTokens) (maxLength / s.blockSize) rows) :
    Lookup p hashes groupIds s true alignmentTokens maxLength rows.dropLast := by
  have hget : ∀ i row, rows.dropLast[i]? = some row →
      i < rows.dropLast.length ∧ rows[i]? = some row := by
    intro i row hrow
    refine ⟨(List.getElem?_eq_some_iff.mp hrow).1, ?_⟩
    rw [dropLast_eq_take, getElem?_take] at hrow
    split at hrow
    · exact hrow
    · cases hrow
  have hlength : rows.dropLast.length = rows.length - 1 := length_dropLast
  refine ⟨?_, ?_, ?_, ?_, fun h => by cases h⟩
  · apply (le_div_iff_mul_le s.blockSize_pos).mp
    have hle := h.le
    omega
  · rw [hsize]
    exact dvd_mul_left _ _
  · intro i row hrow
    rw [zero_add]
    by_cases hneeds : WindowNeeds (max 1 (cdiv ((window : Int) - 1) s.blockSize + 1))
        rows.length i
    · exact .inr (h.hit.needed i row (hget i row hrow).2 hneeds)
    · exact .inl (h.hit.other i row (hget i row hrow).2 hneeds)
  · intro _ i row hrow hneeds
    obtain ⟨hi, hrow⟩ := hget i row hrow
    unfold KVCacheSpec.HitNeeds at hneeds
    rw [hkind] at hneeds
    rw [KVCacheSpec.needsBlock_slidingWindow hkind hi] at hneeds
    apply h.hit.needed i row hrow
    unfold WindowNeeds at hneeds ⊢
    omega

theorem findLongestCacheHitSlidingWindow_lookup (hkind : s.kind = .slidingWindow shape window hpos)
    (hcover : maxLength / s.blockSize ≤ hashes.length)
    (heagle : useEagle = true → s.blockSize = alignmentTokens) :
    ∃ rows, findLongestCacheHitSlidingWindow p hashes maxLength groupIds s.blockSize window
        useEagle alignmentTokens = .ok (columns groupIds.length p.nullBlock rows) ∧
      (useEagle = false → LongestRows p hashes groupIds (lookupNeeds s)
        (Aligned s.blockSize alignmentTokens) (maxLength / s.blockSize) rows) ∧
      Lookup p hashes groupIds s useEagle alignmentTokens maxLength rows := by
  have hneeds : lookupNeeds s =
      WindowNeeds (max 1 (cdiv ((window : Int) - 1) s.blockSize)) := by
    funext n i
    unfold lookupNeeds
    rw [hkind]
  have hstart : ∀ count : Int, 0 < count →
      WindowScan p hashes groupIds s.blockSize alignmentTokens count (maxLength / s.blockSize)
        (maxLength / s.blockSize) 0 _ := fun _ hcount => .start hcount
  cases useEagle with
  | false =>
    obtain ⟨rows, run, found, hscan, hlongest⟩ := scanWindow_longest hcover
      (hstart (max 1 (cdiv ((window : Int) - 1) s.blockSize)) (by omega))
    rw [← scanWindow_max_one] at hscan
    rw [← hneeds] at hlongest
    refine ⟨_, ?_, fun _ => hlongest, hlongest.lookup⟩
    unfold findLongestCacheHitSlidingWindow
    simp only [Bool.false_eq_true, if_false, add_zero, hscan, ok_bind, false_and]
    rfl
  | true =>
    obtain ⟨rows, run, found, hscan, hlongest⟩ := scanWindow_longest hcover
      (hstart (max 1 (cdiv ((window : Int) - 1) s.blockSize + 1)) (by omega))
    rw [← scanWindow_max_one] at hscan
    generalize htrim : (if found then rows else (rows.take run).take
      (alignedLength s.blockSize alignmentTokens (rows.take run).length)) = trimmed at hlongest
    refine ⟨trimmed.dropLast, ?_, fun h => (by cases h), ?_⟩
    · unfold findLongestCacheHitSlidingWindow
      simp only [if_true, hscan, ok_bind, htrim, true_and]
      split
      · rw [pyAssert_pos (heagle rfl)]
        rfl
      next hempty =>
        rw [not_not] at hempty
        rw [hempty]
        rfl
    · exact hlongest.lookup_dropLast hkind (heagle rfl)

theorem scanLast_longest : ∀ {n : Nat}, n ≤ hashes.length →
    ∃ rows, scanLast p hashes groupIds blockSize alignmentTokens n = .ok rows ∧
      LongestRows p hashes groupIds (fun n i => i + 1 = n) (Aligned blockSize alignmentTokens) n
        rows := by
  intro n
  induction n with
  | zero =>
    intro _
    refine ⟨[], rfl, le_rfl, aligned_zero blockSize alignmentTokens, ⟨?_, ?_⟩, fun n hn _ => hn⟩
    · intro i row hrow
      cases hrow
    · intro i row hrow
      cases hrow
  | succ i ih =>
    intro hle
    obtain ⟨v, hv⟩ := BlockHashListWithBlockSize.getValueAt_of_lt
      (show i < hashes.length by omega)
    obtain ⟨rows, hscan, hlongest⟩ := ih (by omega)
    -- No hit ends with this block.
    have hskip : ¬Usable p hashes groupIds (fun n i => i + 1 = n)
          (Aligned blockSize alignmentTokens) (i + 1) →
        LongestRows p hashes groupIds (fun n i => i + 1 = n) (Aligned blockSize alignmentTokens)
          (i + 1) rows := by
      intro hunusable
      refine ⟨hlongest.le.trans (le_succ i), hlongest.aligned, hlongest.hit, ?_⟩
      intro n hn husable
      apply hlongest.longest n _ husable
      rcases lt_or_ge i n with hlt | hge
      · obtain rfl : n = i + 1 := by omega
        exact absurd husable hunusable
      · exact hge
    unfold scanLast
    rw [hv, ok_bind]
    cases hcached : p.getCachedBlock v groupIds with
    | none =>
      refine ⟨rows, hscan, hskip ?_⟩
      rintro ⟨_, hblocks⟩
      obtain ⟨row, v', hv', hrow⟩ := hblocks i (lt_succ_self i) rfl
      rw [hv, Except.ok.injEq] at hv'
      rw [← hv', hcached] at hrow
      cases hrow
    | some cached =>
      dsimp only
      split
      next haligned =>
        have hlength : (List.replicate i (List.replicate groupIds.length p.nullBlock) ++
            [cached]).length = i + 1 := by
          rw [length_append, length_replicate, length_singleton]
        refine ⟨_, rfl, hlength.le, hlength.symm ▸ haligned, ⟨?_, ?_⟩, ?_⟩
        · intro k row hrow hneeds
          obtain rfl : k = i := by omega
          rw [getElem?_append_right (by rw [length_replicate]),
            length_replicate, Nat.sub_self] at hrow
          cases hrow
          exact ⟨v, hv, hcached⟩
        · intro k row hrow hneeds
          have hk := (List.getElem?_eq_some_iff.mp hrow).1
          rw [getElem?_append_left (by rw [length_replicate]; omega)] at hrow
          exact eq_of_mem_replicate (mem_of_getElem? hrow)
        · intro n hn _
          rw [hlength]
          exact hn
      next hunaligned => exact ⟨rows, hscan, hskip fun husable => hunaligned husable.1⟩

theorem lookupNeeds_mamba (hmamba : s.isMamba = true) : lookupNeeds s = fun n i => i + 1 = n := by
  unfold KVCacheSpec.isMamba at hmamba
  split at hmamba
  next hkind =>
    funext n i
    unfold lookupNeeds KVCacheSpec.HitNeeds
    rw [hkind]
    exact propext (Nat.mul_left_inj (Nat.ne_of_gt s.blockSize_pos))
  · cases hmamba

/-! ## Chunked local attention -/

/-- Null blocks before the chunk of the next token, and the cached blocks of the chunk. -/
structure ChunkRows (p : BlockPool D) (hashes : BlockHashListWithBlockSize D)
    (groupIds : List Nat) (start maxBlocks : Nat) (rows : List (List BlockId)) : Prop where
  start_le : start ≤ rows.length
  le : rows.length ≤ maxBlocks
  nulls : ∀ i row, rows[i]? = some row → i < start →
    row = List.replicate groupIds.length p.nullBlock
  cached : ∀ i row, rows[i]? = some row → start ≤ i → CachedRow p hashes groupIds i row
  stop : rows.length < maxBlocks → ¬CachedAt p hashes groupIds rows.length

theorem scanForward_chunk (p : BlockPool D) (groupIds : List Nat) {start : Nat}
    (hstart : start ≤ maxBlocks) (hcover : maxBlocks ≤ hashes.length) :
    ∃ run, scanForward p hashes groupIds (maxBlocks - start) start = .ok run ∧
      ChunkRows p hashes groupIds start maxBlocks
        (List.replicate start (List.replicate groupIds.length p.nullBlock) ++ run) := by
  obtain ⟨run, hscan, hlen, hrun, hstop⟩ := scanForward_run p groupIds
    (show start + (maxBlocks - start) ≤ hashes.length by omega)
  have hlength : (List.replicate start (List.replicate groupIds.length p.nullBlock) ++
      run).length = start + run.length := by
    rw [length_append, length_replicate]
  refine ⟨run, hscan, ?_, ?_, ?_, ?_, ?_⟩
  · omega
  · omega
  · intro i row hrow hi
    rw [getElem?_append_left (by rwa [length_replicate])] at hrow
    exact eq_of_mem_replicate (mem_of_getElem? hrow)
  · intro i row hrow hi
    rw [getElem?_append_right (by rwa [length_replicate]), length_replicate] at hrow
    have hcached := hrun _ row hrow
    rwa [show start + (i - start) = i by omega] at hcached
  · rw [hlength]
    exact fun hlt => hstop (by omega)

theorem hitNeeds_chunkedLocal
    {hpos : 0 < chunkSize} (hkind : s.kind = .chunkedLocalAttention shape chunkSize hpos)
    (hi : i < n) : s.HitNeeds (n * s.blockSize) i ↔
      n * s.blockSize / chunkSize * chunkSize / s.blockSize ≤ i := by
  have hblock : (i + 1) * s.blockSize ≤ n * s.blockSize := Nat.mul_le_mul_right _ hi
  unfold KVCacheSpec.HitNeeds
  rw [hkind]
  exact KVCacheSpec.needsBlock_chunkedLocal hkind hblock

section

variable {s : KVCacheSpec} {shape : AttentionShape} {chunkSize : Nat} {hpos : 0 < chunkSize}
  {maxLength : Nat} {rows : List (List BlockId)}

section

variable (hkind : s.kind = .chunkedLocalAttention shape chunkSize hpos)
  (h : ChunkRows p hashes groupIds (maxLength / chunkSize * chunkSize / s.blockSize)
    (maxLength / s.blockSize) rows)

include hkind h

theorem ChunkRows.longest (hn : n ≤ maxLength / s.blockSize)
    (hcached : ∀ i < n, s.HitNeeds (n * s.blockSize) i → CachedAt p hashes groupIds i) :
    n ≤ rows.length := by
  by_contra hlong
  have hle : n * s.blockSize ≤ maxLength := (le_div_iff_mul_le s.blockSize_pos).mp hn
  apply h.stop (by omega)
  apply hcached rows.length (by omega)
  rw [hitNeeds_chunkedLocal hkind (by omega)]
  calc
    n * s.blockSize / chunkSize * chunkSize / s.blockSize ≤
        maxLength / chunkSize * chunkSize / s.blockSize :=
      Nat.div_le_div_right (Nat.mul_le_mul_right _ (Nat.div_le_div_right hle))
    _ ≤ rows.length := h.start_le

theorem ChunkRows.start_le_needed
    (hchunk : s.ChunkAligned ∨ rows.length * s.blockSize = maxLength) :
    maxLength / chunkSize * chunkSize / s.blockSize ≤
      rows.length * s.blockSize / chunkSize * chunkSize / s.blockSize := by
  rcases hchunk with haligned | heq
  · have hdvd : s.blockSize ∣ chunkSize := by
      unfold KVCacheSpec.ChunkAligned at haligned
      rwa [hkind] at haligned
    have hstart : maxLength / chunkSize * chunkSize ≤ rows.length * s.blockSize := by
      calc
        maxLength / chunkSize * chunkSize =
            maxLength / chunkSize * chunkSize / s.blockSize * s.blockSize :=
          (Nat.div_mul_cancel (hdvd.mul_left _)).symm
        _ ≤ rows.length * s.blockSize := Nat.mul_le_mul_right _ h.start_le
    apply Nat.div_le_div_right
    apply Nat.mul_le_mul_right
    exact (le_div_iff_mul_le hpos).mpr hstart
  · rw [heq]

theorem ChunkRows.needed_cached
    (hchunk : s.ChunkAligned ∨ rows.length * s.blockSize = maxLength)
    {row : List BlockId} (hrow : rows[i]? = some row)
    (hneeds : s.HitNeeds (rows.length * s.blockSize) i) : CachedRow p hashes groupIds i row := by
  rw [hitNeeds_chunkedLocal hkind (List.getElem?_eq_some_iff.mp hrow).1] at hneeds
  exact h.cached i row hrow ((h.start_le_needed hkind hchunk).trans hneeds)

end

end

theorem findLongestCacheHitChunkedLocal_lookup {hpos : 0 < chunkSize}
    (hkind : s.kind = .chunkedLocalAttention shape chunkSize hpos)
    (hcover : maxLength / s.blockSize ≤ hashes.length) (hsize : s.blockSize = alignmentTokens) :
    ∃ rows, findLongestCacheHitChunkedLocal p hashes maxLength groupIds s.blockSize chunkSize
        false alignmentTokens = .ok (columns groupIds.length p.nullBlock rows) ∧
      (s.ChunkAligned → LongestRows p hashes groupIds (lookupNeeds s)
        (Aligned s.blockSize alignmentTokens) (maxLength / s.blockSize) rows) ∧
      Lookup p hashes groupIds s false alignmentTokens maxLength rows := by
  have hstart : maxLength / chunkSize * chunkSize / s.blockSize ≤ maxLength / s.blockSize :=
    Nat.div_le_div_right (Nat.div_mul_le_self _ _)
  obtain ⟨run, hscan, hrows⟩ := scanForward_chunk p groupIds hstart hcover
  have hzero : (if 0 < maxLength then maxLength / chunkSize * chunkSize else 0) =
      maxLength / chunkSize * chunkSize := by
    split
    · rfl
    next hmax =>
      obtain rfl : maxLength = 0 := by omega
      rw [Nat.zero_div, Nat.zero_mul]
  have hfind : findLongestCacheHitChunkedLocal p hashes maxLength groupIds s.blockSize chunkSize
      false alignmentTokens = .ok (columns groupIds.length p.nullBlock
        (List.replicate (maxLength / chunkSize * chunkSize / s.blockSize)
          (List.replicate groupIds.length p.nullBlock) ++ run)) := by
    unfold findLongestCacheHitChunkedLocal
    rw [pyAssert_pos rfl, ok_bind, pyAssert_pos hsize, ok_bind]
    simp only [hzero, hscan, ok_bind]
    rfl
  generalize List.replicate (maxLength / chunkSize * chunkSize / s.blockSize)
    (List.replicate groupIds.length p.nullBlock) ++ run = rows at hfind hrows
  have hle : rows.length * s.blockSize ≤ maxLength :=
    (le_div_iff_mul_le s.blockSize_pos).mp hrows.le
  refine ⟨rows, hfind, ?_, ?_⟩
  · intro hchunk
    refine ⟨hrows.le, .inl hsize, ⟨?_, ?_⟩, ?_⟩
    · intro i row hrow hneeds
      unfold lookupNeeds at hneeds
      rw [hkind] at hneeds
      exact hrows.needed_cached hkind (.inl hchunk) hrow hneeds
    · intro i row hrow hneeds
      apply hrows.nulls i row hrow
      by_contra hge
      apply hneeds
      unfold lookupNeeds
      rw [hkind]
      have hi := (List.getElem?_eq_some_iff.mp hrow).1
      rw [hitNeeds_chunkedLocal hkind hi]
      have hmono := Nat.div_le_div_right (c := s.blockSize)
        (Nat.mul_le_mul_right chunkSize (Nat.div_le_div_right (c := chunkSize) hle))
      omega
    · intro n hn husable
      apply hrows.longest hkind hn
      intro i hi hneeds
      apply husable.2 i hi
      unfold lookupNeeds
      rw [hkind]
      exact hneeds
  · refine ⟨hle, hsize ▸ dvd_mul_left _ _, ?_,
      fun hchunk i row hrow hneeds => hrows.needed_cached hkind hchunk hrow hneeds, ?_⟩
    · intro i row hrow
      rw [zero_add]
      rcases lt_or_ge i (maxLength / chunkSize * chunkSize / s.blockSize) with hlt | hge
      · exact .inl (hrows.nulls i row hrow hlt)
      · exact .inr (hrows.cached i row hrow hge)
    · intro _ _ n hn _ hcached
      exact hrows.longest hkind ((le_div_iff_mul_le s.blockSize_pos).mpr hn) hcached

theorem findLongestCacheHit_lookup (p : BlockPool D) (groupIds : List Nat)
    (hsupported : s.Supported useEagle alignmentTokens)
    (hcover : maxLength / s.blockSize ≤ hashes.length) :
    ∃ rows, findLongestCacheHit p hashes maxLength groupIds s useEagle alignmentTokens 1 1 =
        .ok (columns groupIds.length p.nullBlock rows) ∧
      (useEagle = false → s.ChunkAligned → LongestRows p hashes groupIds (lookupNeeds s)
        (Aligned s.blockSize alignmentTokens) (maxLength / s.blockSize) rows) ∧
      Lookup p hashes groupIds s useEagle alignmentTokens maxLength rows := by
  have hfull : s.isFullAttention = true → ∃ rows,
      findLongestCacheHitFull p hashes maxLength groupIds s.blockSize useEagle alignmentTokens =
          .ok (columns groupIds.length p.nullBlock rows) ∧
        (useEagle = false → s.ChunkAligned → LongestRows p hashes groupIds (lookupNeeds s)
          (Aligned s.blockSize alignmentTokens) (maxLength / s.blockSize) rows) ∧
        Lookup p hashes groupIds s useEagle alignmentTokens maxLength rows := by
    intro hf
    obtain ⟨rows, hfind, hlongest, hlookup⟩ :=
      findLongestCacheHitFull_lookup hf hcover useEagle alignmentTokens
    exact ⟨rows, hfind, fun he _ => hlongest he, hlookup⟩
  unfold KVCacheSpec.Supported at hsupported
  unfold KVCacheSpec.isFullAttention at hfull
  unfold findLongestCacheHit
  cases hkind : s.kind with
  | fullAttention shape headSizeV window chunk =>
    rw [hkind] at hfull
    exact hfull rfl
  | mlaAttention shape headSizeV window chunk cacheDtypeStr =>
    rw [hkind] at hfull
    exact hfull rfl
  | sinkFullAttention shape headSizeV window chunk sinkLen =>
    rw [hkind] at hfull
    exact hfull rfl
  | slidingWindow shape window pos =>
    rw [hkind] at hsupported
    obtain ⟨rows, hfind, hlongest, hlookup⟩ :=
      findLongestCacheHitSlidingWindow_lookup hkind hcover hsupported
    exact ⟨rows, hfind, fun he _ => hlongest he, hlookup⟩
  | chunkedLocalAttention shape chunkSize pos =>
    rw [hkind] at hsupported
    obtain ⟨rfl, hsize⟩ := hsupported
    obtain ⟨rows, hfind, hlongest, hlookup⟩ :=
      findLongestCacheHitChunkedLocal_lookup hkind hcover hsize
    exact ⟨rows, hfind, fun _ hchunk => hlongest hchunk, hlookup⟩
  | mamba shapes dtypes pageSizePadded mambaType cacheMode numSpeculativeBlocks =>
    have hmamba : s.isMamba = true := by
      unfold KVCacheSpec.isMamba
      rw [hkind]
    obtain ⟨rows, hscan, hlongest⟩ := scanLast_longest hcover
    rw [← lookupNeeds_mamba hmamba] at hlongest
    refine ⟨rows, ?_, fun _ _ => hlongest, hlongest.lookup⟩
    rw [hscan]
    rfl
  | crossAttention shape =>
    rw [hkind] at hsupported
    exact hsupported.elim

end SingleTypeKVCacheManager

end VllmCore
