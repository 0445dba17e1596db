import VllmCore.KVCacheManager.CacheHits
/-!
# The longest cache hit of a manager

A hit of `n` blocks is usable when it ends where the alignment allows it and the blocks
that the attention still needs after `n` blocks are cached.  Each manager looks for the
longest usable hit and puts the null block where no block is needed.
-/

namespace VllmCore

open List Nat Option Support

variable {D : Type} [DecidableEq D]
variable {l : BlockHashListWithBlockSize D} {i : Nat}

theorem BlockHashListWithBlockSize.getValueAt_of_lt
    (h : i < l.length) : ∃ v, l.getValueAt i = .ok v := by
  have hle : i * l.scaleFactor + l.scaleFactor ≤ l.blockHashes.length := by
    calc
      i * l.scaleFactor + l.scaleFactor = (i + 1) * l.scaleFactor := (succ_mul _ _).symm
      _ ≤ l.length * l.scaleFactor := mul_le_mul_right _ h
      _ ≤ l.blockHashes.length := div_mul_le_self _ _
  unfold getValueAt
  rw [if_pos hle]
  exact ⟨_, rfl⟩

theorem BlockHashListWithBlockSize.lt_of_getValueAt
    {v : BlockHash D} (hscale : 0 < l.scaleFactor) (h : l.getValueAt i = .ok v) :
    i < l.length := by
  unfold getValueAt at h
  split at h
  next hle =>
    apply (le_div_iff_mul_le hscale).mpr
    rw [succ_mul]
    exact hle
  · cases h

namespace SingleTypeKVCacheManager

variable (p : BlockPool D) (hashes : BlockHashListWithBlockSize D) (groupIds : List Nat)

/-- The row of the blocks that are cached for block `i`. -/
def CachedRow (i : Nat) (row : List BlockId) : Prop :=
  ∃ h, hashes.getValueAt i = .ok h ∧ p.getCachedBlock h groupIds = some row

/-- Block `i` is cached for all groups. -/
def CachedAt (i : Nat) : Prop := ∃ row, CachedRow p hashes groupIds i row

/-- Cached blocks where one is needed, and null blocks elsewhere. -/
structure HitRows (needs : Nat → Prop) (rows : List (List BlockId)) : Prop where
  needed : ∀ i row, rows[i]? = some row → needs i → CachedRow p hashes groupIds i row
  other : ∀ i row, rows[i]? = some row → ¬needs i →
    row = List.replicate groupIds.length p.nullBlock

/-- After `n` blocks, the blocks that are needed are cached. -/
def Usable (needs : Nat → Nat → Prop) (ends : Nat → Prop) (n : Nat) : Prop :=
  ends n ∧ ∀ i < n, needs n i → CachedAt p hashes groupIds i

/-- The rows of the longest usable hit of at most `maxBlocks` blocks. -/
structure LongestRows (needs : Nat → Nat → Prop) (ends : Nat → Prop) (maxBlocks : Nat)
    (rows : List (List BlockId)) : Prop where
  le : rows.length ≤ maxBlocks
  aligned : ends rows.length
  hit : HitRows p hashes groupIds (needs rows.length) rows
  longest : ∀ n ≤ maxBlocks, Usable p hashes groupIds needs ends n → n ≤ rows.length

variable {p hashes groupIds}

variable {rows : List (List BlockId)} {n : Nat}
variable {needs : Nat → Prop} {maxBlocks blockSize alignmentTokens maxLength : Nat}

theorem LongestRows.usable {needs : Nat → Nat → Prop} {ends : Nat → Prop}
    (h : LongestRows p hashes groupIds needs ends maxBlocks rows) :
    Usable p hashes groupIds needs ends rows.length := by
  refine ⟨h.aligned, ?_⟩
  intro i hi hneeds
  exact ⟨rows[i], h.hit.needed i rows[i] (getElem?_eq_getElem hi) hneeds⟩

theorem aligned_iff : Aligned blockSize alignmentTokens n ↔ alignmentTokens ∣ n * blockSize := by
  rw [dvd_iff_mod_eq_zero]
  constructor
  · rintro (rfl | hmod)
    · exact mul_mod_left n blockSize
    · exact hmod
  · exact .inr

theorem aligned_zero (blockSize alignmentTokens : Nat) : Aligned blockSize alignmentTokens 0 := by
  rw [aligned_iff, zero_mul]
  exact dvd_zero alignmentTokens

theorem alignedLength_of_aligned
    (h : Aligned blockSize alignmentTokens n) : alignedLength blockSize alignmentTokens n = n := by
  cases n with
  | zero => rfl
  | succ n => rw [alignedLength, if_pos h]

/-! ## The sliding window -/

/-- After `n` blocks, the window covers the last `count` ones. -/
def WindowNeeds (count : Int) (n i : Nat) : Prop := (n : Int) ≤ i + count

section

variable {blockSize alignmentTokens : Nat} {count : Int} {maxBlocks : Nat}

/-- The state of the right-to-left scan before block `i`, with a run of `run` hits behind
it: the run is too short, it ends where the alignment allows it, and nothing longer than its
end is usable. -/
structure WindowScan (p : BlockPool D) (hashes : BlockHashListWithBlockSize D)
    (groupIds : List Nat) (blockSize alignmentTokens : Nat) (count : Int) (maxBlocks i run : Nat)
    (rows : List (List BlockId)) : Prop where
  ends : Aligned blockSize alignmentTokens (i + run) ∨ run = 0
  short : (run : Int) < count
  le : i + run ≤ maxBlocks
  length : rows.length = maxBlocks
  hits : ∀ k row, i ≤ k → k < i + run → rows[k]? = some row → CachedRow p hashes groupIds k row
  nulls : ∀ k row, k < i → rows[k]? = some row →
    row = List.replicate groupIds.length p.nullBlock
  longest : ∀ n ≤ maxBlocks,
    Usable p hashes groupIds (WindowNeeds count) (Aligned blockSize alignmentTokens) n →
      n ≤ i + run

theorem WindowScan.start (hcount : 0 < count) :
    WindowScan p hashes groupIds blockSize alignmentTokens count maxBlocks maxBlocks 0
      (List.replicate maxBlocks (List.replicate groupIds.length p.nullBlock)) where
  ends := .inr rfl
  short := hcount
  le := le_rfl
  length := length_replicate
  hits := fun k _ hle hlt _ => absurd hlt (by omega)
  nulls := fun _ _ _ hrow => eq_of_mem_replicate (mem_of_getElem? hrow)
  longest := fun _ hn _ => hn

variable {run : Nat} {cached : List BlockId}

theorem WindowScan.miss
    (h : WindowScan p hashes groupIds blockSize alignmentTokens count maxBlocks (i + 1) run rows)
    (hmiss : ¬CachedAt p hashes groupIds i) :
    WindowScan p hashes groupIds blockSize alignmentTokens count maxBlocks i 0 rows where
  ends := .inr rfl
  short := by
    have hshort := h.short
    omega
  le := by
    have hle := h.le
    omega
  length := h.length
  hits := fun k _ hle hlt _ => absurd hlt (by omega)
  nulls := fun k row hk hrow => h.nulls k row (by omega) hrow
  longest := by
    intro n hn husable
    by_contra hlong
    have hend := h.longest n hn husable
    have hshort := h.short
    apply hmiss
    apply husable.2 i (by omega)
    unfold WindowNeeds
    omega

theorem WindowScan.skip {i : Nat} {rows : List (List BlockId)}
    (h : WindowScan p hashes groupIds blockSize alignmentTokens count maxBlocks (i + 1) 0 rows)
    (hunaligned : ¬Aligned blockSize alignmentTokens (i + 1)) :
    WindowScan p hashes groupIds blockSize alignmentTokens count maxBlocks i 0 rows where
  ends := .inr rfl
  short := h.short
  le := by
    have hle := h.le
    omega
  length := h.length
  hits := fun k _ hle hlt _ => absurd hlt (by omega)
  nulls := fun k row hk hrow => h.nulls k row (by omega) hrow
  longest := by
    intro n hn husable
    have hend := h.longest n hn husable
    rcases lt_or_ge i n with hlt | hle
    · obtain rfl : n = i + 1 := by omega
      exact absurd husable.1 hunaligned
    · omega

theorem WindowScan.hit {i run : Nat} {rows : List (List BlockId)} {cached : List BlockId}
    (h : WindowScan p hashes groupIds blockSize alignmentTokens count maxBlocks (i + 1) run rows)
    (hcached : CachedRow p hashes groupIds i cached)
    (haligned : run = 0 → Aligned blockSize alignmentTokens (i + 1)) :
    Aligned blockSize alignmentTokens (i + (run + 1)) ∧
      (∀ k row, i ≤ k → k < i + (run + 1) → (rows.set i cached)[k]? = some row →
        CachedRow p hashes groupIds k row) ∧
      ∀ k row, k < i → (rows.set i cached)[k]? = some row →
        row = List.replicate groupIds.length p.nullBlock := by
  have hsum : i + 1 + run = i + (run + 1) := by omega
  refine ⟨?_, ?_, ?_⟩
  · rcases h.ends with hends | rfl
    · exact hsum ▸ hends
    · exact haligned rfl
  · intro k row hle hlt hrow
    rw [getElem?_set] at hrow
    split at hrow
    next heq =>
      split at hrow
      · cases hrow
        exact heq ▸ hcached
      · cases hrow
    · exact h.hits k row (by omega) (by omega) hrow
  · intro k row hlt hrow
    rw [getElem?_set, if_neg (by omega)] at hrow
    exact h.nulls k row (by omega) hrow

theorem WindowScan.extend
    (h : WindowScan p hashes groupIds blockSize alignmentTokens count maxBlocks (i + 1) run rows)
    (hcached : CachedRow p hashes groupIds i cached)
    (haligned : run = 0 → Aligned blockSize alignmentTokens (i + 1)) (hshort : ¬count ≤ run + 1) :
    WindowScan p hashes groupIds blockSize alignmentTokens count maxBlocks i (run + 1)
      (rows.set i cached) where
  ends := .inl (h.hit hcached haligned).1
  short := by
    omega
  le := by
    have hle := h.le
    omega
  length := by rw [length_set, h.length]
  hits := (h.hit hcached haligned).2.1
  nulls := (h.hit hcached haligned).2.2
  longest := by
    intro n hn husable
    have hend := h.longest n hn husable
    omega

theorem WindowScan.found
    (h : WindowScan p hashes groupIds blockSize alignmentTokens count maxBlocks (i + 1) run rows)
    (hcached : CachedRow p hashes groupIds i cached)
    (haligned : run = 0 → Aligned blockSize alignmentTokens (i + 1)) (hlong : count ≤ run + 1) :
    LongestRows p hashes groupIds (WindowNeeds count) (Aligned blockSize alignmentTokens)
      maxBlocks ((rows.set i cached).take (i + (run + 1))) := by
  obtain ⟨hends, hhits, hnulls⟩ := h.hit hcached haligned
  have hle := h.le
  have hshort := h.short
  have hlength : ((rows.set i cached).take (i + (run + 1))).length = i + (run + 1) := by
    rw [length_take, length_set, h.length]
    omega
  have htake : ∀ k row, ((rows.set i cached).take (i + (run + 1)))[k]? = some row →
      k < i + (run + 1) ∧ (rows.set i cached)[k]? = some row := by
    intro k row hrow
    rw [getElem?_take] at hrow
    split at hrow
    next hlt => exact ⟨hlt, hrow⟩
    · cases hrow
  refine ⟨?_, ?_, ⟨?_, ?_⟩, ?_⟩
  · rw [hlength]
    omega
  · rw [hlength]
    exact hends
  · rw [hlength]
    intro k row hrow hneeds
    obtain ⟨hlt, hrow⟩ := htake k row hrow
    unfold WindowNeeds at hneeds
    exact hhits k row (by omega) hlt hrow
  · rw [hlength]
    intro k row hrow hneeds
    obtain ⟨hlt, hrow⟩ := htake k row hrow
    unfold WindowNeeds at hneeds
    exact hnulls k row (by omega) hrow
  · rw [hlength]
    intro n hn husable
    have hend := h.longest n hn husable
    omega

theorem WindowScan.finish
    (h : WindowScan p hashes groupIds blockSize alignmentTokens count maxBlocks 0 run rows) :
    LongestRows p hashes groupIds (WindowNeeds count) (Aligned blockSize alignmentTokens)
      maxBlocks ((rows.take run).take
        (alignedLength blockSize alignmentTokens (rows.take run).length)) := by
  have hle := h.le
  have hshort := h.short
  have hlength : (rows.take run).length = run := by
    rw [length_take, h.length]
    omega
  have hends : Aligned blockSize alignmentTokens run := by
    rcases h.ends with hends | rfl
    · rwa [zero_add] at hends
    · exact aligned_zero blockSize alignmentTokens
  rw [hlength, alignedLength_of_aligned hends, take_take, min_self]
  refine ⟨?_, hlength.symm ▸ hends, ⟨?_, ?_⟩, ?_⟩
  · rw [hlength]
    omega
  · intro k row hrow _
    rw [getElem?_take] at hrow
    split at hrow
    next hlt => exact h.hits k row (zero_le k) (by omega) hrow
    · cases hrow
  · rw [hlength]
    intro k row hrow hneeds
    unfold WindowNeeds at hneeds
    omega
  · rw [hlength]
    intro n hn husable
    have hend := h.longest n hn husable
    omega

theorem scanWindow_longest (hhashes : maxBlocks ≤ hashes.length) :
    ∀ {i run : Nat} {rows : List (List BlockId)},
      WindowScan p hashes groupIds blockSize alignmentTokens count maxBlocks i run rows →
      ∃ rows' run' found,
        scanWindow p hashes groupIds blockSize alignmentTokens count i run rows =
          .ok (rows', run', found) ∧
        LongestRows p hashes groupIds (WindowNeeds count) (Aligned blockSize alignmentTokens)
          maxBlocks (if found then rows' else (rows'.take run').take
            (alignedLength blockSize alignmentTokens (rows'.take run').length)) := by
  intro i
  induction i with
  | zero =>
    intro run rows h
    exact ⟨rows, run, false, rfl, h.finish⟩
  | succ i ih =>
    intro run rows h
    have hle := h.le
    have hlt : i < hashes.length := by omega
    obtain ⟨v, hv⟩ := BlockHashListWithBlockSize.getValueAt_of_lt hlt
    unfold scanWindow
    rw [hv]
    simp only [ok_bind]
    cases hcached : p.getCachedBlock v groupIds with
    | none =>
      apply ih (h.miss _)
      rintro ⟨row, v', hv', hrow⟩
      rw [hv] at hv'
      cases hv'
      rw [hcached] at hrow
      cases hrow
    | some cached =>
      have hrow : CachedRow p hashes groupIds i cached := ⟨v, hv, hcached⟩
      dsimp only
      split
      next hskip =>
        obtain ⟨rfl, hunaligned⟩ := hskip
        exact ih (h.skip hunaligned)
      next hkeep =>
        have haligned : run = 0 → Aligned blockSize alignmentTokens (i + 1) := by
          intro hzero
          by_contra hnot
          exact hkeep ⟨hzero, hnot⟩
        split
        next hlong => exact ⟨_, _, true, rfl, h.found hrow haligned hlong⟩
        next hshort => exact ih (h.extend hrow haligned hshort)

theorem findLongestCacheHitSlidingWindow_longest {window : Nat} (hsize : 0 < blockSize)
    (hwindow : 2 ≤ window) (hhashes : maxLength / blockSize ≤ hashes.length) :
    ∃ rows, findLongestCacheHitSlidingWindow p hashes maxLength groupIds blockSize window false
        alignmentTokens = .ok (columns groupIds.length p.nullBlock rows) ∧
      LongestRows p hashes groupIds (WindowNeeds (cdiv ((window : Int) - 1) blockSize))
        (Aligned blockSize alignmentTokens) (maxLength / blockSize) rows := by
  have hcount : 0 < cdiv ((window : Int) - 1) blockSize := by
    by_contra hnot
    have hle := (cdiv_le_iff hsize).mp (not_lt.mp hnot)
    omega
  have hstart : WindowScan p hashes groupIds blockSize alignmentTokens _ (maxLength / blockSize)
    _ _ _ := .start hcount
  obtain ⟨rows, run, found, hscan, hlongest⟩ := scanWindow_longest hhashes hstart
  refine ⟨_, ?_, hlongest⟩
  unfold findLongestCacheHitSlidingWindow
  simp only [Bool.false_eq_true, if_false, add_zero, hscan, ok_bind, false_and]
  rfl

theorem scanWindow_one (hcount : count ≤ 0) (hhashes : maxBlocks ≤ hashes.length)
    (rows : List (List BlockId)) :
    ∀ {i : Nat}, i ≤ maxBlocks → ∃ rows' found,
      scanWindow p hashes groupIds blockSize alignmentTokens count i 0 rows =
        .ok (rows', if found then 1 else 0, found) ∧
      (found = true → ∃ k cached, k < i ∧ rows' = (rows.set k cached).take (k + 1) ∧
        Aligned blockSize alignmentTokens (k + 1) ∧ CachedRow p hashes groupIds k cached) := by
  intro i
  induction i with
  | zero =>
    intro _
    exact ⟨rows, false, rfl, fun h => by cases h⟩
  | succ i ih =>
    intro hle
    have hlt : i < hashes.length := by omega
    obtain ⟨v, hv⟩ := BlockHashListWithBlockSize.getValueAt_of_lt hlt
    obtain ⟨rows', found, hscan, hfound⟩ := ih (by omega)
    have hrest : ∃ rows' found,
        scanWindow p hashes groupIds blockSize alignmentTokens count i 0 rows =
          .ok (rows', if found then 1 else 0, found) ∧
        (found = true → ∃ k cached, k < i + 1 ∧ rows' = (rows.set k cached).take (k + 1) ∧
          Aligned blockSize alignmentTokens (k + 1) ∧ CachedRow p hashes groupIds k cached) := by
      refine ⟨rows', found, hscan, ?_⟩
      intro hyes
      obtain ⟨k, cached, hk, hrow⟩ := hfound hyes
      exact ⟨k, cached, by omega, hrow⟩
    unfold scanWindow
    rw [hv]
    simp only [ok_bind]
    cases hcached : p.getCachedBlock v groupIds with
    | none => exact hrest
    | some cached =>
      dsimp only
      split
      · exact hrest
      next hkeep =>
        have haligned : Aligned blockSize alignmentTokens (i + 1) := by
          by_contra hnot
          exact hkeep ⟨trivial, hnot⟩
        rw [if_pos (by push_cast; omega)]
        exact ⟨_, true, rfl, fun _ => ⟨i, cached, by omega, rfl, haligned, v, hv, hcached⟩⟩

end

/-! ## The lists of the groups -/

/-- One list of `n` blocks for each group, cached blocks where one is needed and null blocks
elsewhere. -/
structure HitOf (p : BlockPool D) (hashes : BlockHashListWithBlockSize D) (groupIds : List Nat)
    (needs : Nat → Prop) (n : Nat) (blocks : List (List BlockId)) : Prop where
  groups : blocks.length = groupIds.length
  length : ∀ hit ∈ blocks, hit.length = n
  needed : ∀ (j g i : Nat) hit b, groupIds[j]? = some g → blocks[j]? = some hit →
    hit[i]? = some b → needs i → ∃ h, hashes.getValueAt i = .ok h ∧
      p.cachedBlockHashToBlock.getOneBlock ⟨h, g⟩ = some b
  other : ∀ (j i : Nat) hit b, blocks[j]? = some hit → hit[i]? = some b → ¬needs i →
    b = p.nullBlock

theorem columns_getElem? {j : Nat} {nullBlock : BlockId} {hit : List BlockId}
    (h : (columns n nullBlock rows)[j]? = some hit) :
    j < n ∧ hit = rows.map fun row => row.getD j nullBlock := by
  unfold columns at h
  rw [getElem?_map, map_eq_some_iff] at h
  obtain ⟨k, hk, rfl⟩ := h
  obtain ⟨hlt, rfl⟩ := List.getElem?_eq_some_iff.mp hk
  rw [length_range] at hlt
  exact ⟨hlt, by rw [getElem_range]⟩

theorem HitRows.columns (h : HitRows p hashes groupIds needs rows) :
    HitOf p hashes groupIds needs rows.length (columns groupIds.length p.nullBlock rows) where
  groups := by
    unfold SingleTypeKVCacheManager.columns
    rw [length_map, length_range]
  length := by
    intro hit hmem
    obtain ⟨j, hj⟩ := getElem?_of_mem hmem
    rw [(columns_getElem? hj).2, length_map]
  needed := by
    intro j g i hit b hg hhit hb hneeds
    rw [(columns_getElem? hhit).2, getElem?_map, map_eq_some_iff] at hb
    obtain ⟨row, hrow, rfl⟩ := hb
    obtain ⟨v, hv, hcached⟩ := h.needed i row hrow hneeds
    obtain ⟨b, hb, hone⟩ := (mapM_some hcached).2 j g hg
    refine ⟨v, hv, ?_⟩
    rw [getD_eq_getElem?_getD, hb]
    exact hone
  other := by
    intro j i hit b hhit hb hneeds
    obtain ⟨hlt, heq⟩ := columns_getElem? hhit
    rw [heq, getElem?_map, map_eq_some_iff] at hb
    obtain ⟨row, hrow, rfl⟩ := hb
    rw [h.other i row hrow hneeds, getD_eq_getElem?_getD, getElem?_replicate, if_pos hlt]
    rfl

/-- No key of the hash map leads to the null block. -/
def NullNotCached (p : BlockPool D) : Prop :=
  ∀ key b, p.cachedBlockHashToBlock.getOneBlock key = some b → b ≠ p.nullBlock

theorem nullNotCached_of_hashConsistent (hp : p.HashConsistent) : NullNotCached p := by
  intro key b hone hnull
  have hhash := (hp.hashed_iff b key).mpr
    (BlockHashToBlockMap.stores_of_getOneBlock hp.wellKeyed hone)
  rw [hnull, hp.null_unhashed p.nullBlock hp.nullBlock] at hhash
  cases hhash

/-- The lists are the longest hit of at most `maxLength` tokens: it ends at a multiple of the
alignment, and the blocks that the window of the next token still reaches are cached. -/
def LongestWindowHit (p : BlockPool D) (hashes : BlockHashListWithBlockSize D)
    (groupIds : List Nat) (maxLength blockSize window alignmentTokens : Nat)
    (blocks : List (List BlockId)) : Prop :=
  let needs := WindowNeeds (cdiv ((window : Int) - 1) blockSize)
  ∃ n, n * blockSize ≤ maxLength ∧ alignmentTokens ∣ n * blockSize ∧
    HitOf p hashes groupIds (needs n) n blocks ∧
    ∀ n', n' * blockSize ≤ maxLength → alignmentTokens ∣ n' * blockSize →
      (∀ i < n', needs n' i → CachedAt p hashes groupIds i) → n' ≤ n

theorem LongestRows.window {window : Nat} (hsize : 0 < blockSize)
    (h : LongestRows p hashes groupIds (WindowNeeds (cdiv ((window : Int) - 1) blockSize))
      (Aligned blockSize alignmentTokens) (maxLength / blockSize) rows) :
    LongestWindowHit p hashes groupIds maxLength blockSize window alignmentTokens
      (columns groupIds.length p.nullBlock rows) := by
  refine ⟨rows.length, ?_, aligned_iff.mp h.aligned, h.hit.columns, ?_⟩
  · exact (le_div_iff_mul_le hsize).mp h.le
  · intro n' hn' haligned hneeds
    exact h.longest n' ((le_div_iff_mul_le hsize).mpr hn') ⟨aligned_iff.mpr haligned, hneeds⟩

theorem scanWindow_error {count : Int} {run : Nat}
    (hscale : 0 < hashes.scaleFactor) (hshort : hashes.length < maxBlocks) :
    ∀ r, scanWindow p hashes groupIds blockSize alignmentTokens count maxBlocks run rows ≠
      .ok r := by
  intro r hscan
  obtain ⟨i, rfl⟩ : ∃ i, maxBlocks = i + 1 := ⟨maxBlocks - 1, by omega⟩
  obtain ⟨v, hv, -⟩ := bind_ok.mp hscan
  have hlt := BlockHashListWithBlockSize.lt_of_getValueAt hscale hv
  omega

/-- The rows that the scan finds when the window reaches no block before the next token: a
cached block behind null blocks, or none at all. -/
theorem findLongestCacheHitSlidingWindow_one {window : Nat}
    (hsize : 0 < blockSize) (hwindow : ¬2 ≤ window)
    (hhashes : maxLength / blockSize ≤ hashes.length) :
    ∃ rows, findLongestCacheHitSlidingWindow p hashes maxLength groupIds blockSize window false
        alignmentTokens = .ok (columns groupIds.length p.nullBlock rows) ∧
      (rows = [] ∨ ∃ k cached, k < maxLength / blockSize ∧ rows[k]? = some cached ∧
        Aligned blockSize alignmentTokens (k + 1) ∧ CachedRow p hashes groupIds k cached) := by
  have hcount : cdiv ((window : Int) - 1) blockSize ≤ 0 := by
    rw [cdiv_le_iff hsize]
    omega
  obtain ⟨rows, found, hscan, hfound⟩ := scanWindow_one hcount hhashes
    (List.replicate (maxLength / blockSize) (List.replicate groupIds.length p.nullBlock)) le_rfl
  unfold findLongestCacheHitSlidingWindow
  simp only [Bool.false_eq_true, if_false, add_zero, false_and]
  rw [hscan]
  cases found with
  | false => exact ⟨[], rfl, .inl rfl⟩
  | true =>
    refine ⟨rows, rfl, .inr ?_⟩
    obtain ⟨k, cached, hk, rfl, haligned, hcached⟩ := hfound rfl
    refine ⟨k, cached, hk, ?_, haligned, hcached⟩
    rw [getElem?_take, if_pos (lt_succ_self k), getElem?_set, if_pos rfl,
      if_pos (by rwa [length_replicate])]

theorem columns_getElem?_zero (hgroups : groupIds ≠ []) :
    (columns groupIds.length p.nullBlock rows)[0]? =
      some (rows.map fun row => row.getD 0 p.nullBlock) := by
  unfold columns
  rw [getElem?_map, getElem?_range (length_pos_iff.mpr hgroups)]
  rfl

theorem HitOf.length_eq (hgroups : groupIds ≠ [])
    (h : HitOf p hashes groupIds needs n (columns groupIds.length p.nullBlock rows)) :
    rows.length = n := by
  have hlength := h.length _ (mem_of_getElem? (columns_getElem?_zero hgroups))
  rwa [length_map] at hlength

theorem HitOf.not_cached {k : Nat} {cached : List BlockId}
    (hgroups : groupIds ≠ []) (hnull : NullNotCached p)
    (h : HitOf p hashes groupIds needs n (columns groupIds.length p.nullBlock rows))
    (hrow : rows[k]? = some cached) (hcached : CachedRow p hashes groupIds k cached) : needs k := by
  obtain ⟨g, hg⟩ : ∃ g, groupIds[0]? = some g :=
    ⟨_, getElem?_eq_getElem (length_pos_iff.mpr hgroups)⟩
  obtain ⟨v, hv, hrows⟩ := hcached
  obtain ⟨b, hb, hone⟩ := (mapM_some hrows).2 0 g hg
  by_contra hneeds
  have hblock : (rows.map fun row => row.getD 0 p.nullBlock)[k]? = some b := by
    rw [getElem?_map, hrow, map_some, getD_eq_getElem?_getD, hb]
    rfl
  exact hnull _ b hone (h.other 0 k _ b (columns_getElem?_zero hgroups) hblock hneeds)

/-- The search returns the longest hit if and only if the hashes cover `maxLength` tokens
and the window has at least two tokens, or no hit but the empty one can end there. -/
theorem slidingWindow_longest {maxLength blockSize window alignmentTokens : Nat}
    (hsize : 0 < blockSize) (hscale : 0 < hashes.scaleFactor) (hgroups : groupIds ≠ [])
    (hnull : NullNotCached p) :
    (∃ blocks, findLongestCacheHitSlidingWindow p hashes maxLength groupIds blockSize window false
        alignmentTokens = .ok blocks ∧
      LongestWindowHit p hashes groupIds maxLength blockSize window alignmentTokens blocks) ↔
    maxLength / blockSize ≤ hashes.length ∧
      (2 ≤ window ∨ ∀ n, 0 < n → n * blockSize ≤ maxLength → ¬alignmentTokens ∣ n * blockSize) := by
  by_cases hhashes : maxLength / blockSize ≤ hashes.length
  swap
  · apply iff_of_false
    · rintro ⟨blocks, hfind, -⟩
      obtain ⟨r, hscan, -⟩ := bind_ok.mp hfind
      exact scanWindow_error hscale (by omega) r hscan
    · exact fun h => hhashes h.1
  by_cases htwo : 2 ≤ window
  · obtain ⟨rows, hfind, hlongest⟩ :=
      findLongestCacheHitSlidingWindow_longest hsize htwo hhashes
    exact iff_of_true ⟨_, hfind, hlongest.window hsize⟩ ⟨hhashes, .inl htwo⟩
  obtain ⟨rows, hfind, hrows⟩ := findLongestCacheHitSlidingWindow_one hsize htwo hhashes
  have hneeds : ∀ {n i : Nat}, i < n → ¬WindowNeeds (cdiv ((window : Int) - 1) blockSize) n i := by
    intro n i hi hneed
    have hcount : cdiv ((window : Int) - 1) blockSize ≤ 0 := by
      rw [cdiv_le_iff hsize]
      omega
    unfold WindowNeeds at hneed
    omega
  constructor
  · rintro ⟨blocks, hblocks, n, hn, haligned, hhit, hlongest⟩
    refine ⟨hhashes, .inr ?_⟩
    intro m hm hle hdvd
    have hmn := hlongest m hle hdvd fun i hi hneed => absurd hneed (hneeds hi)
    rw [hfind] at hblocks
    cases hblocks
    rcases hrows with rfl | ⟨k, cached, hk, hrow, -, hcached⟩
    · have hzero := HitOf.length_eq hgroups hhit
      rw [length_nil] at hzero
      omega
    · have hlt : k < n := by
        rw [← HitOf.length_eq hgroups hhit]
        exact (List.getElem?_eq_some_iff.mp hrow).1
      exact hneeds hlt (HitOf.not_cached hgroups hnull hhit hrow hcached)
  · rintro ⟨-, htwo' | hnone⟩
    · exact absurd htwo' htwo
    rcases hrows with rfl | ⟨k, cached, hk, -, haligned, -⟩
    · refine ⟨_, hfind, 0, by omega, ?_, ?_, ?_⟩
      · rw [zero_mul]
        exact dvd_zero alignmentTokens
      · have hhit : HitRows p hashes groupIds
            (WindowNeeds (cdiv ((window : Int) - 1) blockSize) 0) [] :=
          ⟨fun i row hrow => (by cases hrow), fun i row hrow => (by cases hrow)⟩
        exact hhit.columns
      · intro n' hle hdvd _
        by_contra hpos
        exact hnone n' (by omega) hle hdvd
    · have hle : (k + 1) * blockSize ≤ maxLength := (le_div_iff_mul_le hsize).mp hk
      exact absurd (aligned_iff.mp haligned) (hnone (k + 1) (succ_pos k) hle)

def threeHashes : BlockHashListWithBlockSize Transcript where
  blockHashes := [[([7], none)], [([8], none), ([7], none)],
    [([9], none), ([8], none), ([7], none)]]
  scaleFactor := 1

/-- With all three blocks cached, a window of two tokens needs only the last one. -/
theorem slidingWindow_longest_threeCached : ∃ p : BlockPool Transcript,
    BlockPool.PoolReachable transcriptFns p ∧
      findLongestCacheHitSlidingWindow p threeHashes 3 [0] 1 2 false 1 = .ok [[0, 0, 3]] ∧
      LongestWindowHit p threeHashes [0] 3 1 2 1 [[0, 0, 3]] := by
  obtain ⟨p₀, hcreate⟩ : ∃ p : BlockPool Transcript, BlockPool.create 4 true 1 = .ok p := ⟨_, rfl⟩
  let r : Request Transcript :=
    { requestId := 0, allTokenIds := [7, 8, 9], blockHashes := threeHashes.blockHashes }
  obtain ⟨p, hrun, hfind⟩ : ∃ p,
      runOps (checked BlockPool.PoolOpAllowed (BlockPool.runPoolOp transcriptFns)) p₀
          [.getNewBlocks 3, .cacheFullBlocks r [1, 2, 3] 0 3 1 0] = .ok p ∧
        findLongestCacheHitSlidingWindow p threeHashes 3 [0] 1 2 false 1 = .ok [[0, 0, 3]] := by
    cases hcreate
    exact ⟨_, rfl, by rfl⟩
  have hreach : BlockPool.PoolReachable transcriptFns p :=
    Reachable.runOps (.start ⟨4, true, 1, false, hcreate⟩) hrun
  have hnull := nullNotCached_of_hashConsistent hreach.hashConsistent
  have hscale : 0 < threeHashes.scaleFactor := one_pos
  have hlength : 3 / 1 ≤ threeHashes.length := le_rfl
  obtain ⟨blocks, hblocks, hlongest⟩ :=
    (slidingWindow_longest one_pos hscale (cons_ne_nil 0 []) hnull).mpr
      ⟨hlength, .inl le_rfl⟩
  rw [hfind] at hblocks
  cases hblocks
  exact ⟨p, hreach, hfind, hlongest⟩

/-- A window of one token needs no block, but with nothing cached the search returns the empty
hit. -/
theorem slidingWindow_not_longest : ¬∀ (p : BlockPool Transcript)
    (hashes : BlockHashListWithBlockSize Transcript) (groupIds : List Nat)
    (maxLength blockSize window alignmentTokens : Nat),
    BlockPool.PoolReachable transcriptFns p → 0 < blockSize → 0 < window →
      0 < hashes.scaleFactor → groupIds ≠ [] → maxLength / blockSize ≤ hashes.length →
      ∃ blocks, findLongestCacheHitSlidingWindow p hashes maxLength groupIds blockSize window false
          alignmentTokens = .ok blocks ∧
        LongestWindowHit p hashes groupIds maxLength blockSize window alignmentTokens blocks := by
  intro hall
  obtain ⟨p, hcreate⟩ : ∃ p : BlockPool Transcript, BlockPool.create 4 true 1 = .ok p := ⟨_, rfl⟩
  have hreach : BlockPool.PoolReachable transcriptFns p := .start ⟨4, true, 1, false, hcreate⟩
  obtain ⟨blocks, hfind, n, -, -, hhit, hlongest⟩ := hall p threeHashes [0] 3 1 1 1 hreach
    one_pos one_pos one_pos (cons_ne_nil 0 []) (by decide)
  have hempty : findLongestCacheHitSlidingWindow p threeHashes 3 [0] 1 1 false 1 = .ok [[]] := by
    cases hcreate
    rfl
  rw [hempty] at hfind
  cases hfind
  have hzero : 0 = n := hhit.length [] (mem_singleton_self [])
  have hthree : 3 ≤ n := by
    apply hlongest 3 le_rfl (one_dvd _)
    intro i hi hneed
    have hcount : cdiv (((1 : Nat) : Int) - 1) 1 = 0 := by decide
    unfold WindowNeeds at hneed
    rw [hcount] at hneed
    omega
  omega

end SingleTypeKVCacheManager

end VllmCore
