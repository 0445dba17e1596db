import VllmCore.SingleTypeKVCacheManager.Frame
import VllmCore.SingleTypeKVCacheManager.LongestHit
/-!
# Tables that begin with null blocks

Sliding window and chunked local attention give up the first blocks of a table and keep
the rest.  As long as the null blocks of a table all come first, the backward scan of
`remove_skipped_blocks` may stop at the first null block it meets: what it replaces are
exactly the blocks in front of the window.
-/

namespace VllmCore

open List Nat Option Support

variable {D : Type} [DecidableEq D]

/-! ## What attention needs -/

namespace KVCacheSpec

def isWindowed (s : KVCacheSpec) : Bool :=
  match s.kind with
  | .slidingWindow .. | .chunkedLocalAttention .. => true
  | _ => false

/-- The token at position `n` attends to position `j`: within the window, within its chunk,
or anywhere up to itself. -/
def Attends (s : KVCacheSpec) (n j : Nat) : Prop :=
  j ≤ n ∧ match s.kind with
    | .slidingWindow _ window _ => n < j + window
    | .chunkedLocalAttention _ chunkSize _ => j / chunkSize = n / chunkSize
    | _ => True

/-- Block `i` holds a position that the token at position `n` attends to. -/
def NeedsBlock (s : KVCacheSpec) (blockSize n i : Nat) : Prop :=
  ∃ j, j / blockSize = i ∧ s.Attends n j

/-- All of block `i` lies before the positions that the token at position `n` attends to. -/
def BlockBefore (s : KVCacheSpec) (blockSize n i : Nat) : Prop :=
  ∀ j, j / blockSize = i → ∀ k, s.Attends n k → j < k

end KVCacheSpec

namespace SingleTypeKVCacheManager

variable {m : SingleTypeKVCacheManager D}

theorem skipped_le_of_attends (hm : m.spec.isWindowed = true)
    {n j : Nat} (h : m.spec.Attends n j) : m.getNumSkippedTokens n ≤ j := by
  unfold KVCacheSpec.isWindowed at hm
  obtain ⟨hle, h⟩ := h
  unfold getNumSkippedTokens
  split at hm
  next window _ hkind =>
    rw [hkind] at h ⊢
    dsimp only at h ⊢
    omega
  next chunkSize _ hkind =>
    rw [hkind] at h ⊢
    calc
      ((n : Int) / chunkSize * chunkSize) = ((j / chunkSize * chunkSize : Nat) : Int) := by
        rw [h]
        rfl
      _ ≤ (j : Int) := Int.ofNat_le.mpr (Nat.div_mul_le_self j chunkSize)
  · cases hm

theorem attends_skipped (hm : m.spec.isWindowed = true)
    (n : Nat) : m.spec.Attends n (m.getNumSkippedTokens n).toNat := by
  unfold KVCacheSpec.isWindowed at hm
  unfold KVCacheSpec.Attends getNumSkippedTokens
  split at hm
  next window hpos hkind =>
    rw [hkind]
    dsimp only
    omega
  next chunkSize hpos hkind =>
    rw [hkind]
    have hstart : ((n : Int) / chunkSize * chunkSize).toNat = n / chunkSize * chunkSize := by
      rfl
    exact ⟨Nat.div_mul_le_self n chunkSize, Nat.mul_div_cancel _ hpos⟩
  · cases hm

end SingleTypeKVCacheManager

theorem BlockPool.freeBlocks_nil (p : BlockPool D) : p.freeBlocks [] = p := by
  simp [freeBlocks, FreeKVCacheBlockQueue.appendN]

/-! ## Null blocks in front -/

def NullPrefix (nullBlock : BlockId) (blocks : List BlockId) : Prop :=
  ∀ i j : Nat, i ≤ j → blocks[j]? = some nullBlock → blocks[i]? = some nullBlock

namespace NullPrefix

variable {nullBlock : BlockId} {xs ys : List BlockId}

theorem nil : NullPrefix nullBlock [] := by
  intro i j _ hj
  cases hj

section

variable (h : NullPrefix nullBlock xs)

include h

theorem take (n : Nat) : NullPrefix nullBlock (xs.take n) := by
  intro i j hij hj
  rw [getElem?_take] at hj ⊢
  split at hj
  next hlt =>
    rw [if_pos (by omega)]
    exact h i j hij hj
  · cases hj

theorem drop (n : Nat) : NullPrefix nullBlock (xs.drop n) := by
  intro i j hij hj
  rw [getElem?_drop] at hj ⊢
  exact h (n + i) (n + j) (by omega) hj

theorem nulls_append (n : Nat) :
    NullPrefix nullBlock (List.replicate n nullBlock ++ xs) := by
  intro i j hij hj
  rw [getElem?_append, length_replicate] at hj ⊢
  split
  next hlt => rw [getElem?_replicate, if_pos hlt]
  next hle =>
    rw [if_neg (by omega)] at hj
    exact h (i - n) (j - n) (by omega) hj

theorem append (hreal : nullBlock ∉ ys) :
    NullPrefix nullBlock (xs ++ ys) := by
  intro i j hij hj
  by_cases hlt : j < xs.length
  · rw [getElem?_append_left hlt] at hj
    rw [getElem?_append_left (by omega)]
    exact h i j hij hj
  · rw [getElem?_append_right (by omega)] at hj
    exact absurd (mem_of_getElem? hj) hreal

end

end NullPrefix

namespace SingleTypeKVCacheManager

/-! ## The backward scan -/

/-- The indices of the real blocks among the first `n` blocks of a table, the last one
first. -/
def realIndices (nullBlock : BlockId) (n : Nat) (blocks : List BlockId) : List Nat :=
  (List.range n).reverse.filter fun i => blocks[i]? ≠ some nullBlock

variable {i : Nat} {blocks : List BlockId} {p : BlockPool D}

theorem lt_of_mem_realIndices {nullBlock : BlockId} {n : Nat}
    (h : i ∈ realIndices nullBlock n blocks) : i < n := by
  have hmem := mem_of_mem_filter h
  rwa [mem_reverse, mem_range] at hmem

/-- While the null blocks come first, the scan replaces the first `n` blocks by the null
block and returns the real ones among them. -/
theorem removeSkippedLoop_spec (nullBlock : BlockId) : ∀ {n : Nat} {blocks : List BlockId},
    n ≤ blocks.length →
      (∀ i j, i ≤ j → j < n → blocks[j]? = some nullBlock → blocks[i]? = some nullBlock) →
      (∀ i, (removeSkippedLoop nullBlock n blocks).1[i]? =
        if i < n then some nullBlock else blocks[i]?) ∧
      (removeSkippedLoop nullBlock n blocks).2 =
        (realIndices nullBlock n blocks).filterMap (blocks[·]?) := by
  intro n
  induction n with
  | zero => intro blocks _ _; simp [removeSkippedLoop, realIndices]
  | succ n ih =>
    intro blocks hlen hprefix
    have hlt : n < blocks.length := hlen
    have hlast : blocks[n]? = some blocks[n] := getElem?_eq_getElem hlt
    unfold removeSkippedLoop
    rw [hlast]
    by_cases hnull : blocks[n] = nullBlock
    · -- The scan stops: everything in front is null already.
      have hall : ∀ i < n + 1, blocks[i]? = some nullBlock := by
        intro i hi
        apply hprefix i n (by omega) (lt_succ_self n)
        rw [hlast, hnull]
      dsimp only
      rw [if_pos hnull]
      refine ⟨?_, ?_⟩
      · intro i
        split
        next hi => exact hall i hi
        · rfl
      · have hnil : realIndices nullBlock (n + 1) blocks = [] := by
          apply filter_eq_nil_iff.mpr
          intro i hi
          rw [mem_reverse, mem_range] at hi
          simp [hall i hi]
        rw [hnil]
        rfl
    · have hset : ∀ i, i < n → (blocks.set n nullBlock)[i]? = blocks[i]? := by
        intro i hi
        rw [getElem?_set, if_neg (by omega)]
      have hkeep : ∀ i j, i ≤ j → j < n → (blocks.set n nullBlock)[j]? = some nullBlock →
          (blocks.set n nullBlock)[i]? = some nullBlock := by
        intro i j hij hj hget
        rw [hset j hj] at hget
        rw [hset i (by omega)]
        exact hprefix i j hij (by omega) hget
      obtain ⟨htable, hremoved⟩ := ih (by rw [length_set]; omega) hkeep
      dsimp only
      rw [if_neg hnull]
      refine ⟨?_, ?_⟩
      · intro i
        rw [htable i]
        rcases lt_trichotomy i n with hin | rfl | hni
        · rw [if_pos hin, if_pos (by omega)]
        · rw [if_neg (lt_irrefl i), if_pos (lt_succ_self i), getElem?_set,
            if_pos rfl, if_pos hlt]
        · rw [if_neg (by omega), if_neg (by omega), getElem?_set, if_neg (by omega)]
      · have hindices : realIndices nullBlock n (blocks.set n nullBlock) =
            realIndices nullBlock n blocks := by
          apply filter_congr
          intro i hi
          rw [mem_reverse, mem_range] at hi
          rw [hset i hi]
        have hblocks : (realIndices nullBlock n blocks).filterMap
            ((blocks.set n nullBlock)[·]?) =
            (realIndices nullBlock n blocks).filterMap (blocks[·]?) := by
          apply filterMap_congr
          intro i hi
          exact hset i (lt_of_mem_realIndices hi)
        have hnext : realIndices nullBlock (n + 1) blocks =
            n :: realIndices nullBlock n blocks := by
          unfold realIndices
          rw [range_succ, reverse_append, reverse_singleton,
            singleton_append, filter_cons_of_pos]
          rw [hlast]
          simpa using hnull
        rw [hremoved, hindices, hblocks, hnext, filterMap_cons, hlast]

/-- What `remove_skipped_blocks` may do to the table of a request, before its token at
position `n` is computed: blocks that the attention does not need are replaced by the null
block and freed, among them every block before the window. -/
structure WindowSafe (m m' : SingleTypeKVCacheManager D) (p p' : BlockPool D) (rid : ReqId)
    (n : Nat) : Prop where
  freed : ∃ indices : List Nat, indices.Nodup ∧
    (∀ i ∈ indices, ¬m.spec.NeedsBlock m.blockSize n i) ∧
    p' = p.freeBlocks (indices.filterMap ((m.blocksOf rid)[·]?))
  kept : ∀ i, m.spec.NeedsBlock m.blockSize n i →
    (m'.blocksOf rid)[i]? = (m.blocksOf rid)[i]?
  removed : ∀ i < (m'.blocksOf rid).length, m.spec.BlockBefore m.blockSize n i →
    (m'.blocksOf rid)[i]? = some m.nullBlock
  others : ∀ rid', rid' ≠ rid → m'.blocksOf rid' = m.blocksOf rid'

theorem blocksOf_setBlocks (m : SingleTypeKVCacheManager D) (rid rid' : ReqId)
    (blocks : List BlockId) :
    (m.setBlocks rid blocks).blocksOf rid' = if rid' = rid then blocks else m.blocksOf rid' :=
  getD_get?_set m.reqToBlocks rid rid' blocks
variable {m : SingleTypeKVCacheManager D}

theorem lt_skippedBlocks_iff (hsize : 0 < m.blockSize) {n : Int}
    : (i : Int) < m.getNumSkippedTokens n / m.blockSize ↔
      (i + 1) * (m.blockSize : Int) ≤ m.getNumSkippedTokens n := by
  exact Int.le_ediv_iff_mul_le (by omega)

theorem skippedBlocks_spec (hm : m.spec.isWindowed = true) (hsize : 0 < m.blockSize) (n i : Nat) :
    ((i : Int) < m.getNumSkippedTokens n / m.blockSize → ¬m.spec.NeedsBlock m.blockSize n i) ∧
      (m.spec.BlockBefore m.blockSize n i → (i : Int) < m.getNumSkippedTokens n / m.blockSize) := by
  rw [lt_skippedBlocks_iff hsize]
  constructor
  · rintro hle ⟨j, hj, hattends⟩
    have hskip := skipped_le_of_attends hm hattends
    have hblock : j < (i + 1) * m.blockSize := by
      rw [← div_lt_iff_lt_mul hsize]
      omega
    have hcast : (j : Int) < (i + 1) * (m.blockSize : Int) := by exact_mod_cast hblock
    omega
  · intro hbefore
    -- The last position of the block.
    have hlast : (i * m.blockSize + (m.blockSize - 1)) / m.blockSize = i := by
      rw [mul_comm, mul_add_div hsize, div_eq_of_lt (by omega), add_zero]
    have hpos := hbefore _ hlast _ (attends_skipped hm n)
    have hsum : (i + 1) * m.blockSize ≤ (m.getNumSkippedTokens n).toNat := by
      rw [succ_mul]
      omega
    have hcast : (i + 1) * (m.blockSize : Int) ≤ (m.getNumSkippedTokens n).toNat := by
      exact_mod_cast hsum
    omega

variable {rid : ReqId} {n : Int} {p' : BlockPool D} {bs : List BlockId}

theorem removeSkippedBlocksBase_windowSafe
    (hm : m.spec.isWindowed = true) (hsize : 0 < m.blockSize) (p : BlockPool D)
    (hnulls : NullPrefix m.nullBlock (m.blocksOf rid)) (n : Nat) :
    WindowSafe m (m.removeSkippedBlocksBase p rid n).1 p (m.removeSkippedBlocksBase p rid n).2
      rid n := by
  unfold removeSkippedBlocksBase
  dsimp only
  split
  next hnone =>
    refine ⟨⟨[], .nil, by simp, p.freeBlocks_nil.symm⟩, fun _ _ => rfl, ?_, fun _ _ => rfl⟩
    intro i _ hbefore
    have hskip := (lt_skippedBlocks_iff hsize).mp ((skippedBlocks_spec hm hsize n i).2 hbefore)
    have hpos : 0 < (i + 1) * (m.blockSize : Int) := by positivity
    omega
  · generalize hcount : (min (m.getNumSkippedTokens n / m.blockSize)
      ((m.blocksOf rid).length : Int)).toNat = count
    have hlen : count ≤ (m.blocksOf rid).length := by omega
    have hskip : ∀ i < count, ¬m.spec.NeedsBlock m.blockSize n i := by
      intro i hi
      exact (skippedBlocks_spec hm hsize n i).1 (by omega)
    obtain ⟨htable, hremoved⟩ := removeSkippedLoop_spec m.nullBlock hlen
      fun i j hij _ hj => hnulls i j hij hj
    have hlength : (removeSkippedLoop m.nullBlock count (m.blocksOf rid)).1.length =
        (m.blocksOf rid).length := (removeSkippedLoop_count m.nullBlock count _).1
    refine ⟨?_, ?_, ?_, ?_⟩
    · refine ⟨realIndices m.nullBlock count (m.blocksOf rid), ?_, ?_, ?_⟩
      · exact (nodup_reverse.mpr nodup_range).filter _
      · intro i hi
        exact hskip i (lt_of_mem_realIndices hi)
      · rw [hremoved]
    · intro i hneeds
      have hge : ¬i < count := fun hi => hskip i hi hneeds
      rw [blocksOf_setBlocks, if_pos rfl, htable i, if_neg hge]
    · intro i hi hbefore
      rw [blocksOf_setBlocks, if_pos rfl] at hi ⊢
      have hlt := (skippedBlocks_spec hm hsize n i).2 hbefore
      rw [htable i, if_pos (by omega)]
    · intro rid' hne
      rw [blocksOf_setBlocks, if_neg hne]

/-! ## Cache hits -/

section

variable {p : BlockPool D} {hashes : BlockHashListWithBlockSize D} {groupIds : List Nat}

/-- Null blocks up to row `start`, and cached blocks from there on. -/
def CachedFrom (p : BlockPool D) (groupIds : List Nat) (start : Nat)
    (rows : List (List BlockId)) : Prop :=
  ∀ i row, rows[i]? = some row →
    (i < start → row = List.replicate groupIds.length p.nullBlock) ∧
      (start ≤ i → ∃ h, p.getCachedBlock h groupIds = some row)

variable {rows hits : List (List BlockId)} {start alignmentTokens blockSize maxLength : Nat}
  {useEagle : Bool}

section

variable (h : CachedFrom p groupIds start rows)

include h

theorem CachedFrom.take (n : Nat) :
    CachedFrom p groupIds start (rows.take n) := by
  intro i row hrow
  rw [getElem?_take] at hrow
  split at hrow
  · exact h i row hrow
  · cases hrow

theorem CachedFrom.dropLast :
    CachedFrom p groupIds start rows.dropLast := by
  rw [dropLast_eq_take]
  exact h.take _

theorem CachedFrom.nullPrefix (hnull : NullNotCached p)
    {hit : List BlockId} (hhit : hit ∈ columns groupIds.length p.nullBlock rows) :
    NullPrefix p.nullBlock hit := by
  obtain ⟨k, hk, rfl⟩ := mem_map.mp hhit
  rw [mem_range] at hk
  intro i j hij hj
  rw [getElem?_map, map_eq_some_iff] at hj
  obtain ⟨row, hrow, hentry⟩ := hj
  have hlt : j < start := by
    by_contra hge
    obtain ⟨v, hcached⟩ := (h j row hrow).2 (by omega)
    obtain ⟨b, hb, hone⟩ := (mapM_some hcached).2 k _ (getElem?_eq_getElem hk)
    rw [getD_eq_getElem?_getD, hb, getD_some] at hentry
    exact hnull _ b hone hentry
  have hi : i < rows.length := by
    have hlen := (List.getElem?_eq_some_iff.mp hrow).1
    omega
  have hfirst := (h i rows[i] (getElem?_eq_getElem hi)).1 (by omega)
  rw [getElem?_map, getElem?_eq_getElem hi, map_some, hfirst,
    getD_eq_getElem?_getD, getElem?_replicate, if_pos hk, getD_some]

end

theorem scanForward_cached : ∀ {left i : Nat} {rows : List (List BlockId)},
    scanForward p hashes groupIds left i = .ok rows → CachedFrom p groupIds 0 rows := by
  intro left
  induction left with
  | zero =>
    intro i rows h
    cases h
    intro j row hrow
    cases hrow
  | succ left ih =>
    intro i rows h
    unfold scanForward at h
    simp only [bind_ok] at h
    obtain ⟨v, _, h⟩ := h
    split at h
    · cases h
      intro j row hrow
      cases hrow
    next cached hcached =>
      obtain ⟨rest, hrest, rfl⟩ := map_ok.mp h
      intro j row hrow
      refine ⟨fun hlt => absurd hlt (not_lt_zero j), fun _ => ?_⟩
      cases j with
      | zero =>
        cases hrow
        exact ⟨v, hcached⟩
      | succ j => exact (ih hrest j row hrow).2 (zero_le j)

/-- The right-to-left scan before block `i`, with a run of `run` hits behind it. -/
structure RunBehind (p : BlockPool D) (groupIds : List Nat) (i run : Nat)
    (rows : List (List BlockId)) : Prop where
  nulls : ∀ k row, k < i → rows[k]? = some row →
    row = List.replicate groupIds.length p.nullBlock
  hits : ∀ k row, i ≤ k → k < i + run → rows[k]? = some row →
    ∃ h, p.getCachedBlock h groupIds = some row

variable {run : Nat}

theorem RunBehind.restart
    (h : RunBehind p groupIds (i + 1) run rows) : RunBehind p groupIds i 0 rows where
  nulls := fun k row hk hrow => h.nulls k row (by omega) hrow
  hits := fun k _ hle hlt _ => absurd hlt (by omega)

theorem RunBehind.extend {cached : List BlockId}
    (h : RunBehind p groupIds (i + 1) run rows) {v : BlockHash D}
    (hcached : p.getCachedBlock v groupIds = some cached) :
    RunBehind p groupIds i (run + 1) (rows.set i cached) where
  nulls := by
    intro k row hk hrow
    rw [getElem?_set, if_neg (by omega)] at hrow
    exact h.nulls k row (by omega) hrow
  hits := by
    intro k row hle hlt hrow
    rw [getElem?_set] at hrow
    split at hrow
    · split at hrow
      · cases hrow
        exact ⟨v, hcached⟩
      · cases hrow
    · exact h.hits k row (by omega) (by omega) hrow

theorem RunBehind.take (h : RunBehind p groupIds i run rows) :
    CachedFrom p groupIds i (rows.take (i + run)) := by
  intro k row hrow
  rw [getElem?_take] at hrow
  split at hrow
  next hlt => exact ⟨fun hk => h.nulls k row hk hrow, fun hk => h.hits k row hk hlt hrow⟩
  · cases hrow

theorem scanWindow_cached {needed : Int} :
    ∀ {i run run' : Nat} {rows rows' : List (List BlockId)} {found : Bool},
      RunBehind p groupIds i run rows →
      scanWindow p hashes groupIds blockSize alignmentTokens needed i run rows =
        .ok (rows', run', found) →
      ∃ start, CachedFrom p groupIds start (if found then rows' else rows'.take run') := by
  intro i
  induction i with
  | zero =>
    intro run run' rows rows' found hrun h
    cases h
    have htake := hrun.take
    rw [zero_add] at htake
    exact ⟨0, htake⟩
  | succ i ih =>
    intro run run' rows rows' found hrun h
    unfold scanWindow at h
    simp only [bind_ok] at h
    obtain ⟨v, _, h⟩ := h
    split at h
    · exact ih hrun.restart h
    next cached hcached =>
      split at h
      next hskip =>
        rw [hskip.1] at h
        exact ih hrun.restart h
      · split at h
        · cases h
          exact ⟨i, (hrun.extend hcached).take⟩
        · exact ih (hrun.extend hcached) h

theorem findLongestCacheHitSlidingWindow_nullPrefix (hnull : NullNotCached p) {window : Nat}
    (h : findLongestCacheHitSlidingWindow p hashes maxLength groupIds blockSize window useEagle
      alignmentTokens = .ok hits) : ∀ hit ∈ hits, NullPrefix p.nullBlock hit := by
  unfold findLongestCacheHitSlidingWindow at h
  simp only [bind_ok] at h
  obtain ⟨⟨rows, run, found⟩, hscan, h⟩ := h
  have hstart : RunBehind p groupIds (maxLength / blockSize) 0
      (List.replicate (maxLength / blockSize) (List.replicate groupIds.length p.nullBlock)) :=
    ⟨fun _ _ _ hrow => eq_of_mem_replicate (mem_of_getElem? hrow),
      fun k _ hle hlt _ => absurd hlt (by omega)⟩
  obtain ⟨start, hcached⟩ := scanWindow_cached hstart hscan
  have htrim : CachedFrom p groupIds start (if found then rows else (rows.take run).take
      (alignedLength blockSize alignmentTokens (rows.take run).length)) := by
    cases found with
    | false => exact hcached.take _
    | true => exact hcached
  generalize (if found then rows else (rows.take run).take
    (alignedLength blockSize alignmentTokens (rows.take run).length)) = trimmed at h htrim
  split at h
  · simp only [bind_ok, pyAssert_ok, pure_ok] at h
    obtain ⟨_, _, rfl⟩ := h
    exact fun hit hhit => htrim.dropLast.nullPrefix hnull hhit
  · rw [pure_ok] at h
    subst h
    exact fun hit hhit => htrim.nullPrefix hnull hhit

theorem findLongestCacheHitChunkedLocal_nullPrefix (hnull : NullNotCached p) {chunkSize : Nat}
    (h : findLongestCacheHitChunkedLocal p hashes maxLength groupIds blockSize chunkSize useEagle
      alignmentTokens = .ok hits) : ∀ hit ∈ hits, NullPrefix p.nullBlock hit := by
  unfold findLongestCacheHitChunkedLocal at h
  simp only [bind_ok, pyAssert_ok, pure_ok] at h
  obtain ⟨_, _, _, _, rows, hscan, rfl⟩ := h
  generalize (if 0 < maxLength then maxLength / chunkSize * chunkSize else 0) / blockSize = start
  have hcached : CachedFrom p groupIds start
      (List.replicate start (List.replicate groupIds.length p.nullBlock) ++ rows) := by
    intro i row hrow
    rw [getElem?_append, length_replicate] at hrow
    split at hrow
    next hlt =>
      rw [getElem?_replicate, if_pos hlt] at hrow
      cases hrow
      exact ⟨fun _ => rfl, fun hle => absurd hlt (by omega)⟩
    next hge =>
      exact ⟨fun hlt => absurd hlt hge,
        fun _ => (scanForward_cached hscan _ row hrow).2 (zero_le _)⟩
  exact fun hit hhit => hcached.nullPrefix hnull hhit

theorem findLongestCacheHit_nullPrefix (hnull : NullNotCached p) {spec : KVCacheSpec}
    (hspec : spec.isWindowed = true) {dcp pcp : Nat}
    (h : findLongestCacheHit p hashes maxLength groupIds spec useEagle alignmentTokens dcp pcp =
      .ok hits) : ∀ hit ∈ hits, NullPrefix p.nullBlock hit := by
  unfold KVCacheSpec.isWindowed at hspec
  unfold findLongestCacheHit at h
  split at hspec
  next hkind =>
    rw [hkind] at h
    simp only [bind_ok, pyAssert_ok] at h
    obtain ⟨_, _, h⟩ := h
    exact findLongestCacheHitSlidingWindow_nullPrefix hnull h
  next hkind =>
    rw [hkind] at h
    simp only [bind_ok, pyAssert_ok] at h
    obtain ⟨_, _, h⟩ := h
    exact findLongestCacheHitChunkedLocal_nullPrefix hnull h
  · cases hspec

end

/-! ## The tables of a manager -/

structure WindowTables (nullBlock : BlockId) (m : SingleTypeKVCacheManager D) : Prop where
  nullBlock_eq : m.nullBlock = nullBlock
  nullPrefix : m.spec.isWindowed = true → ∀ rid, NullPrefix nullBlock (m.blocksOf rid)

variable {nullBlock : BlockId} {m m' : SingleTypeKVCacheManager D}

theorem WindowTables.congr (hm : WindowTables nullBlock m) (hcfg : m.SameConfig m')
    (htable : m'.reqToBlocks = m.reqToBlocks) : WindowTables nullBlock m' where
  nullBlock_eq := hcfg.nullBlock.trans hm.nullBlock_eq
  nullPrefix := by
    intro hspec rid
    rw [hcfg.spec] at hspec
    unfold blocksOf
    rw [htable]
    exact hm.nullPrefix hspec rid

theorem WindowTables.setBlocks (hm : WindowTables nullBlock m) (hcfg : m.SameConfig m')
    (htable : m'.reqToBlocks = m.reqToBlocks.set rid blocks)
    (hblocks : m.spec.isWindowed = true → NullPrefix nullBlock blocks) :
    WindowTables nullBlock m' where
  nullBlock_eq := hcfg.nullBlock.trans hm.nullBlock_eq
  nullPrefix := by
    intro hspec rid'
    rw [hcfg.spec] at hspec
    unfold blocksOf
    rw [htable, getD_get?_set]
    split
    · exact hblocks hspec
    · exact hm.nullPrefix hspec rid'

theorem WindowTables.free (hm : WindowTables nullBlock m) (p : BlockPool D) (rid : ReqId) :
    WindowTables nullBlock (m.free p rid).1 where
  nullBlock_eq := hm.nullBlock_eq
  nullPrefix := by
    intro hspec rid'
    unfold blocksOf SingleTypeKVCacheManager.free
    rw [getD_get?_erase]
    split
    · exact .nil
    · exact hm.nullPrefix hspec rid'

theorem removeSkippedBlocks_windowed (hm : m.spec.isWindowed = true) (p : BlockPool D)
    (rid : ReqId) (n : Int) :
    m.removeSkippedBlocks p rid n = .ok (m.removeSkippedBlocksBase p rid n) := by
  unfold KVCacheSpec.isWindowed at hm
  unfold removeSkippedBlocks
  split
  next hkind =>
    rw [hkind] at hm
    cases hm
  · rfl

theorem WindowTables.removeSkippedBlocks (hm : WindowTables nullBlock m)
    (h : m.removeSkippedBlocks p rid n = .ok (m', p')) : WindowTables nullBlock m' := by
  have hcfg := removeSkippedBlocks_sameConfig h
  by_cases hspec : m.spec.isWindowed = true
  · rw [removeSkippedBlocks_windowed hspec, Except.ok.injEq] at h
    unfold removeSkippedBlocksBase at h
    dsimp only at h
    split at h
    · cases h
      exact hm
    · cases h
      refine hm.setBlocks hcfg rfl fun _ => ?_
      have hprefix := hm.nullPrefix hspec rid
      generalize hcount : (min (m.getNumSkippedTokens n / m.blockSize)
        ((m.blocksOf rid).length : Int)).toNat = count
      obtain ⟨htable, _⟩ := removeSkippedLoop_spec nullBlock
        (show count ≤ (m.blocksOf rid).length by omega) fun i j hij _ hj => hprefix i j hij hj
      intro i j hij hj
      rw [hm.nullBlock_eq, htable] at hj ⊢
      split
      · rfl
      · rw [if_neg (by omega)] at hj
        exact hprefix i j hij hj
  · exact ⟨hcfg.nullBlock.trans hm.nullBlock_eq, fun h' => absurd (hcfg.spec ▸ h') hspec⟩

theorem mem_queue_of_getNewBlocks (h : p.getNewBlocks n = .ok (bs, p')) :
    ∀ b ∈ bs, b ∈ p.freeBlockQueue.blocks := by
  unfold BlockPool.getNewBlocks FreeKVCacheBlockQueue.popleftN at h
  simp only [bind_ok, pure_ok] at h
  obtain ⟨_, _, ⟨ret, queue⟩, hpop, q, _, hres⟩ := h
  cases hres
  split at hpop
  · cases hpop
    exact fun b hb => by cases hb
  · simp only [bind_ok, pure_ok] at hpop
    obtain ⟨_, _, _, _, hret⟩ := hpop
    cases hret
    exact fun b hb => mem_of_mem_take hb

theorem WindowTables.allocateNewBlocks (hm : WindowTables nullBlock m)
    (hqueue : nullBlock ∉ p.freeBlockQueue.blocks) {n' : Int}
    (h : m.allocateNewBlocks p rid n n' = .ok (bs, m', p')) : WindowTables nullBlock m' := by
  have hcfg := allocateNewBlocks_sameConfig h
  by_cases hspec : m.spec.isWindowed = true
  · have hprefix := hm.nullPrefix hspec rid
    have hbase : m.allocateNewBlocksBase p rid n = .ok (bs, m', p') := by
      unfold KVCacheSpec.isWindowed at hspec
      unfold SingleTypeKVCacheManager.allocateNewBlocks at h
      split at h
      next hkind =>
        rw [hkind] at hspec
        cases hspec
      · exact h
    unfold allocateNewBlocksBase at hbase
    dsimp only at hbase
    split at hbase
    · cases hbase
      exact hm.setBlocks hcfg rfl fun _ => hprefix
    · simp only [bind_ok, pure_ok] at hbase
      obtain ⟨⟨new, q⟩, hnew, hres⟩ := hbase
      cases hres
      have hreal : nullBlock ∉ new := fun hb => hqueue (mem_queue_of_getNewBlocks hnew _ hb)
      exact hm.setBlocks hcfg rfl fun _ => hprefix.append hreal
  · exact ⟨hcfg.nullBlock.trans hm.nullBlock_eq, fun h' => absurd (hcfg.spec ▸ h') hspec⟩

theorem touch_queue (h : p.touch bs = .ok p') :
    ∀ b ∈ p'.freeBlockQueue.blocks, b ∈ p.freeBlockQueue.blocks := by
  refine foldlM_inv (P := fun q => ∀ b ∈ q.freeBlockQueue.blocks, b ∈ p.freeBlockQueue.blocks)
    ?_ (fun _ hb => hb) h
  intro q b q' _ hq htouch
  simp only [BlockPool.touchBlock, bind_ok, pure_ok] at htouch
  obtain ⟨queue, hqueue, rfl⟩ := htouch
  intro c hc
  apply hq c
  split at hqueue
  · unfold FreeKVCacheBlockQueue.remove at hqueue
    split at hqueue
    · cases hqueue
      exact mem_of_mem_erase hc
    · cases hqueue
  · cases hqueue
    exact hc

theorem WindowTables.allocateNewComputedBlocks (hm : WindowTables nullBlock m)
    (hqueue : nullBlock ∉ p.freeBlockQueue.blocks) {hits : List BlockId}
    (hhits : m.spec.isWindowed = true → NullPrefix nullBlock hits) {numLocal numExternal : Int}
    (h : m.allocateNewComputedBlocks p rid hits numLocal numExternal = .ok (m', p')) :
    WindowTables nullBlock m' := by
  have hcfg := allocateNewComputedBlocks_sameConfig h
  unfold SingleTypeKVCacheManager.allocateNewComputedBlocks at h
  split at h
  · simp only [bind_ok, pure_ok] at h
    obtain ⟨_, _, hres⟩ := h
    cases hres
    exact hm
  · dsimp only at h
    simp only [bind_ok] at h
    obtain ⟨_, _, q, hq, h⟩ := h
    have hsub : ∀ b ∈ q.freeBlockQueue.blocks, b ∈ p.freeBlockQueue.blocks := by
      split at hq
      · exact touch_queue hq
      · simp only [bind_ok, pure_ok] at hq
        obtain ⟨_, _, rfl⟩ := hq
        exact fun b hb => hb
    generalize (if 0 < m.getNumSkippedTokens (numLocal + numExternal) / (m.blockSize : Int)
      then min (numLocal + numExternal - m.getNumSkippedTokens (numLocal + numExternal))
        numExternal else numExternal) = ext at h
    rw [hm.nullBlock_eq] at h
    generalize (m.getNumSkippedTokens (numLocal + numExternal) / (m.blockSize : Int)).toNat =
      skipped at h
    have hfront : m.spec.isWindowed = true →
        NullPrefix nullBlock (List.replicate skipped nullBlock ++ hits.drop skipped) :=
      fun hspec => ((hhits hspec).drop skipped).nulls_append skipped
    split at h
    · simp only [bind_ok, pure_ok] at h
      obtain ⟨⟨new, q'⟩, hnew, hres⟩ := h
      cases hres
      have hreal : nullBlock ∉ new :=
        fun hb => hqueue (hsub _ (mem_queue_of_getNewBlocks hnew _ hb))
      have hset := hm.setBlocks (m.setBlocks_sameConfig rid _) rfl hfront
      exact hset.setBlocks ⟨rfl, rfl, rfl, rfl, rfl, rfl⟩ rfl
        fun hspec => (hfront hspec).append hreal
    · rw [pure_ok] at h
      cases h
      exact hm.setBlocks hcfg rfl hfront

theorem WindowTables.cacheBlocks (hm : WindowTables nullBlock m) {fns : HashFns D}
    {r : Request D} (h : m.cacheBlocks fns p r n = .ok (m', p')) : WindowTables nullBlock m' := by
  have hcfg := cacheBlocks_sameConfig h
  by_cases hspec : m.spec.isWindowed = true
  · have hbase : m.cacheBlocksBase fns p r n = .ok (m', p') := by
      unfold KVCacheSpec.isWindowed at hspec
      unfold SingleTypeKVCacheManager.cacheBlocks at h
      split at h
      · cases h
      next hkind =>
        rw [hkind] at hspec
        cases hspec
      · exact h
    unfold cacheBlocksBase at hbase
    dsimp only at hbase
    split at hbase
    · cases hbase
      exact hm
    · simp only [bind_ok, pure_ok] at hbase
      obtain ⟨q, _, hres⟩ := hbase
      cases hres
      exact hm.setBlocks hcfg rfl fun _ => hm.nullPrefix hspec r.requestId
  · exact ⟨hcfg.nullBlock.trans hm.nullBlock_eq, fun h' => absurd (hcfg.spec ▸ h') hspec⟩

end SingleTypeKVCacheManager

end VllmCore
