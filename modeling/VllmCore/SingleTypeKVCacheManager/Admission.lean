import VllmCore.SingleTypeKVCacheManager.RefCount
import VllmCore.Support.Drain
/-!
# What one manager takes out of the free queue

For the managers of full, sliding window and chunked local attention: how many
blocks `get_num_blocks_to_allocate` announces, and which blocks the two
allocating methods then take.  The computed blocks of a new request are a demand
on the queue, the cache hits by name and the blocks of external tokens off the
front; the blocks of the tokens to come are a demand that names nothing.
-/

namespace VllmCore

open List Support

variable {D : Type} [DecidableEq D]

def KVCacheSpec.isSelfAttention (s : KVCacheSpec) : Bool := !s.isMamba && !s.isCrossAttention

namespace SingleTypeKVCacheManager

def numSkippedBlocks (m : SingleTypeKVCacheManager D) (totalComputedTokens : Int) : Int :=
  m.getNumSkippedTokens totalComputedTokens / m.blockSize

/-- The external tokens that get blocks: those in front of the window do not. -/
def numExternalTokensInWindow (m : SingleTypeKVCacheManager D)
    (numLocal numExternal : Int) : Int :=
  if 0 < m.numSkippedBlocks (numLocal + numExternal) then
    min (numLocal + numExternal - m.getNumSkippedTokens (numLocal + numExternal)) numExternal
  else numExternal

def hitTableLength (m : SingleTypeKVCacheManager D) (hit : List BlockId)
    (totalComputedTokens : Int) : Nat :=
  max (m.numSkippedBlocks totalComputedTokens).toNat hit.length

/-- What `allocate_new_computed_blocks` takes out of the queue for a new request: its
hits behind the skipped blocks, and blocks for the external tokens. -/
def computedDemand (m : SingleTypeKVCacheManager D) (hit : List BlockId)
    (numLocal numExternal : Int) : Demand BlockId where
  named := hit.drop (m.numSkippedBlocks (numLocal + numExternal)).toNat
  fresh :=
    if 0 < m.numExternalTokensInWindow numLocal numExternal then
      (cdiv (numLocal + numExternal) m.blockSize -
        m.hitTableLength hit (numLocal + numExternal)).toNat
    else 0

/-- How many blocks `allocate_new_blocks` adds to a table of the given length. -/
def numBlocksMissing (m : SingleTypeKVCacheManager D) (tableLength : Nat) (numTokens : Int) :
    Nat :=
  (cdiv numTokens m.blockSize - tableLength).toNat

variable {m : SingleTypeKVCacheManager D} {n numTokens : Int} {M : Multiset BlockId}
  {R : Set BlockId} {p : BlockPool D} {rid : ReqId}

section

variable (hkind : m.spec.isSelfAttention = true)

include hkind

theorem getNumSkippedTokens_nonneg (hn : 0 ≤ n) :
    0 ≤ m.getNumSkippedTokens n := by
  unfold getNumSkippedTokens
  split
  · omega
  · rename_i c hc _
    exact Int.mul_nonneg (Int.ediv_nonneg hn (by omega)) (by omega)
  · rename_i hspec
    simp [KVCacheSpec.isSelfAttention, KVCacheSpec.isMamba, hspec] at hkind
  · omega

theorem numSkippedBlocks_nonneg (hn : 0 ≤ n) :
    0 ≤ m.numSkippedBlocks n :=
  Int.ediv_nonneg (getNumSkippedTokens_nonneg hkind hn) (by omega)

theorem isCrossAttention_eq_false :
    m.spec.isCrossAttention = false := by
  unfold KVCacheSpec.isSelfAttention at hkind
  simp only [Bool.and_eq_true, Bool.not_eq_true'] at hkind
  exact hkind.2

end

theorem getNewBlocks_drop (hp : BlockPool.PoolInv R p M) (hn : 0 ≤ n)
    (hfree : n.toNat ≤ p.freeBlockQueue.blocks.length) :
    ∃ bs p', p.getNewBlocks n = .ok (bs, p') ∧ bs.length = n.toNat ∧
      p'.freeBlockQueue.blocks = p.freeBlockQueue.blocks.drop n.toNat := by
  have hle : n ≤ p.getNumFreeBlocks := by
    unfold BlockPool.getNumFreeBlocks
    rw [hp.numFree]
    omega
  obtain ⟨bs, p', hrun⟩ := hp.getNewBlocks_succeeds hn hle
  obtain ⟨_, _, _, hlen, hqueue⟩ := hp.getNewBlocks hn hrun
  exact ⟨bs, p', hrun, by omega, hqueue⟩

variable {rest : Multiset BlockId} {hit : List BlockId} {numLocal numExternal : Int}

theorem allocateNewBlocks_takes (hp : PoolOk R p (m.items + rest))
    (hkind : m.spec.isSelfAttention = true) (numTokensMainModel : Int)
    (hfree : m.numBlocksMissing (m.blocksOf rid).length numTokens ≤
      p.freeBlockQueue.blocks.length) :
    ∃ bs m' p', m.allocateNewBlocks p rid numTokens numTokensMainModel = .ok (bs, m', p') ∧
      p'.freeBlockQueue.blocks = p.freeBlockQueue.blocks.drop
        (m.numBlocksMissing (m.blocksOf rid).length numTokens) := by
  have hbase : m.allocateNewBlocks p rid numTokens numTokensMainModel =
      m.allocateNewBlocksBase p rid numTokens := by
    unfold allocateNewBlocks
    split
    · rename_i hspec
      simp [KVCacheSpec.isSelfAttention, KVCacheSpec.isMamba, hspec] at hkind
    · rfl
  rw [hbase]
  unfold allocateNewBlocksBase numBlocksMissing at *
  dsimp only
  split
  · rename_i hle
    refine ⟨_, _, _, rfl, ?_⟩
    rw [show (cdiv numTokens m.blockSize - (m.blocksOf rid).length).toNat = 0 by omega]
    rfl
  · rename_i hpos
    obtain ⟨bs, p', hrun, _, hqueue⟩ := getNewBlocks_drop hp.refs (by omega) hfree
    rw [hrun]
    exact ⟨_, _, _, rfl, hqueue⟩

theorem touchComputed_takes {c : Bool} {hits : List BlockId} {s : String} (hp : PoolOk R p M)
    (hrange : ∀ b ∈ hits, b < p.numGpuBlocks ∧ b ∉ R) (hcaching : c = false → hits = []) :
    ∃ p', (if c then p.touch hits
      else do
        pyAssert (hits = []) s
        pure p : Py (BlockPool D)) = .ok p' ∧
      p'.freeBlockQueue.blocks = p.freeBlockQueue.blocks.filter (· ∉ hits) := by
  cases c with
  | true => exact hp.refs.touch_succeeds hrange
  | false =>
    obtain rfl := hcaching rfl
    exact ⟨p, rfl, by simp⟩

theorem allocateNewComputedBlocks_takes (hp : PoolOk R p (m.items + rest))
    (hm : TableInv p.nullBlock m) (hkind : m.spec.isSelfAttention = true)
    (hempty : m.blocksOf rid = []) (hnew : m.numCachedBlock.contains rid = false)
    (hhit : RealNodup p.nullBlock hit)
    (hrange : ∀ b ∈ hit, b < p.numGpuBlocks ∧ b ∉ R) (hcaching : m.enableCaching = false → hit = [])
    (htotal : 0 ≤ numLocal + numExternal)
    (hcover : 0 < numExternal → (hit.length : Int) ≤ cdiv (numLocal + numExternal) m.blockSize)
    (hfree : (m.computedDemand hit numLocal numExternal).size p.freeBlockQueue.blocks ≤
      p.freeBlockQueue.blocks.length) :
    ∃ m' p', m.allocateNewComputedBlocks p rid hit numLocal numExternal = .ok (m', p') ∧
      p'.freeBlockQueue.blocks =
        (m.computedDemand hit numLocal numExternal).take p.freeBlockQueue.blocks ∧
      (m'.blocksOf rid).length = m.hitTableLength hit (numLocal + numExternal) +
        (m.computedDemand hit numLocal numExternal).fresh := by
  have hskipLe : m.numSkippedBlocks (numLocal + numExternal) ≤
      cdiv (numLocal + numExternal) m.blockSize :=
    skippedBlocks_le_cdiv hm.blockSize_pos htotal
  have hext : m.numExternalTokensInWindow numLocal numExternal ≤ numExternal := by
    unfold numExternalTokensInWindow
    split <;> omega
  have hcond : (m.spec.isCrossAttention || m.numCachedBlock.contains rid) = false := by
    rw [isCrossAttention_eq_false hkind, hnew]
    rfl
  have hnodup : ((m.computedDemand hit numLocal numExternal).named.filter
      (· ∈ p.freeBlockQueue.blocks)).Nodup := by
    have hreal := (hhit.drop (m.numSkippedBlocks (numLocal + numExternal)).toNat).filter_nodup
    refine hreal.sublist (monotone_filter_right _ ?_)
    intro b hb
    rw [decide_eq_true_eq] at hb ⊢
    exact ((hp.refs.mem_queue b).mp hb).2.1
  have hunnamed := Demand.length_unnamed hp.refs.nodup hnodup
  obtain ⟨q, htouch, hqueue⟩ := touchComputed_takes (c := m.enableCaching)
    (s := "Computed blocks should be empty when prefix caching is disabled") hp
    (fun b hb => hrange b (mem_of_mem_drop hb))
    (fun h => by rw [hcaching h, drop_nil] : m.enableCaching = false →
      hit.drop (m.numSkippedBlocks (numLocal + numExternal)).toNat = [])
  have hq := (touchComputed_kept hp htouch).1
  have hlen : (List.replicate (m.numSkippedBlocks (numLocal + numExternal)).toNat m.nullBlock ++
      hit.drop (m.numSkippedBlocks (numLocal + numExternal)).toNat).length =
      m.hitTableLength hit (numLocal + numExternal) := by
    unfold hitTableLength
    rw [length_append, length_replicate, length_drop]
    omega
  unfold numSkippedBlocks at htouch hlen
  unfold allocateNewComputedBlocks
  rw [if_neg (by rw [hcond]; exact Bool.false_ne_true), hempty, pyAssert_pos length_nil,
    ok_bind]
  dsimp only
  rw [htouch, ok_bind]
  generalize hwin : (if 0 < m.getNumSkippedTokens (numLocal + numExternal) / (m.blockSize : Int)
    then min (numLocal + numExternal - m.getNumSkippedTokens (numLocal + numExternal)) numExternal
    else numExternal) = ext
  change m.numExternalTokensInWindow numLocal numExternal = ext at hwin
  split
  · rename_i hpos
    have hwindow : 0 < m.numExternalTokensInWindow numLocal numExternal := hwin ▸ hpos
    have hfresh : (m.computedDemand hit numLocal numExternal).fresh =
        (cdiv (numLocal + numExternal) m.blockSize -
          m.hitTableLength hit (numLocal + numExternal)).toNat := if_pos hwindow
    have hn : 0 ≤ cdiv (numLocal + numExternal) m.blockSize -
        m.hitTableLength hit (numLocal + numExternal) := by
      unfold hitTableLength
      omega
    obtain ⟨bs, p', hrun, hbs, hqueue'⟩ := getNewBlocks_drop hq.refs hn (by
      rw [hqueue, ← hfresh]
      unfold Demand.size at hfree
      unfold computedDemand at hfree hunnamed ⊢
      dsimp only at hfree hunnamed ⊢
      omega)
    rw [hlen, show q.getNewBlocks (cdiv (numLocal + numExternal) (m.setBlocks rid _).blockSize -
      (m.hitTableLength hit (numLocal + numExternal) : Int)) = .ok (bs, p') from hrun, ok_bind]
    refine ⟨_, _, rfl, ?_, ?_⟩
    · rw [hqueue', hqueue, ← hfresh]
      rfl
    · show (((m.reqToBlocks.set rid _).set rid _).get? rid |>.getD []).length = _
      rw [getD_get?_set, if_pos rfl, length_append, hlen, hbs, hfresh]
  · rename_i hneg
    have hwindow : ¬0 < m.numExternalTokensInWindow numLocal numExternal := hwin ▸ hneg
    have hfresh : (m.computedDemand hit numLocal numExternal).fresh = 0 := if_neg hwindow
    refine ⟨_, _, rfl, ?_, ?_⟩
    · rw [hqueue]
      unfold Demand.take
      rw [hfresh]
      rfl
    · show ((m.reqToBlocks.set rid _).get? rid |>.getD []).length = _
      rw [getD_get?_set, if_pos rfl, hlen, hfresh]
      rfl

/-! ## The estimate -/

theorem getNumBlocksToAllocate_eq (hkind : m.spec.isSelfAttention = true) (p : BlockPool D)
    (rid : ReqId) (numTokens : Int) (hit : List BlockId) (total numTokensMainModel : Int) :
    m.getNumBlocksToAllocate p rid numTokens hit total numTokensMainModel =
      m.getNumBlocksToAllocateBase p rid numTokens hit total := by
  unfold getNumBlocksToAllocate
  split
  · rename_i hspec
    simp [KVCacheSpec.isSelfAttention, KVCacheSpec.isMamba, hspec] at hkind
  · rfl

theorem getNumEvictableBlocks_eq (hp : BlockPool.PoolInv R p M) {blocks : List BlockId}
    (hrange : ∀ b ∈ blocks, b < p.numGpuBlocks ∧ b ∉ R) :
    getNumEvictableBlocks p blocks = (blocks.filter (· ∈ p.freeBlockQueue.blocks)).length := by
  unfold getNumEvictableBlocks
  congr 2
  apply filter_congr
  intro b hb
  rw [Bool.eq_iff_iff, Bool.and_eq_true, Bool.not_eq_true', decide_eq_true_eq,
    decide_eq_true_eq, ← Bool.not_eq_true, hp.isNull b, hp.mem_queue b]
  constructor
  · rintro ⟨hzero, hnull⟩
    rw [hp.refCnt b hnull] at hzero
    exact ⟨(hrange b hb).1, hnull, (hrange b hb).2, by omega⟩
  · rintro ⟨_, hnull, _, hcount⟩
    refine ⟨?_, hnull⟩
    rw [hp.refCnt b hnull, hcount]
    rfl

/-- The estimate for a new request: what its computed blocks demand, and the blocks
missing after that. -/
theorem getNumBlocksToAllocate_new (hp : BlockPool.PoolInv R p M) (hpos : 0 < m.blockSize)
    (hkind : m.spec.isSelfAttention = true) (hempty : m.blocksOf rid = [])
    (hnew : m.numCachedBlock.contains rid = false)
    (hrange : ∀ b ∈ hit, b < p.numGpuBlocks ∧ b ∉ R) (htotal : 0 ≤ numLocal + numExternal)
    (hcover : 0 < numExternal → (hit.length : Int) ≤ cdiv (numLocal + numExternal) m.blockSize)
    (htokens : numLocal + numExternal ≤ numTokens) (numTokensMainModel : Int) :
    m.getNumBlocksToAllocate p rid numTokens hit (numLocal + numExternal) numTokensMainModel =
      .ok ((m.computedDemand hit numLocal numExternal).size p.freeBlockQueue.blocks +
        m.numBlocksMissing (m.hitTableLength hit (numLocal + numExternal) +
          (m.computedDemand hit numLocal numExternal).fresh) numTokens) := by
  have hskip := numSkippedBlocks_nonneg hkind htotal
  have hceil := cdiv_mono hpos htokens
  have hext : m.numExternalTokensInWindow numLocal numExternal ≤ numExternal := by
    unfold numExternalTokensInWindow
    split <;> omega
  have hevict := getNumEvictableBlocks_eq hp fun b hb => hrange b (mem_of_mem_drop
    (i := (m.numSkippedBlocks (numLocal + numExternal)).toNat) hb)
  rw [getNumBlocksToAllocate_eq hkind]
  unfold getNumBlocksToAllocateBase
  rw [if_neg (by rw [hnew]; exact Bool.false_ne_true), hempty]
  change (.ok _ : Py Int) = .ok _
  congr 1
  change max (cdiv numTokens m.blockSize - max (m.numSkippedBlocks (numLocal + numExternal))
    ((hit.length : Int) + 0)) 0 + getNumEvictableBlocks p
      (hit.drop (max 0 (m.numSkippedBlocks (numLocal + numExternal) - 0)).toNat) = _
  rw [show max 0 (m.numSkippedBlocks (numLocal + numExternal) - 0) =
    m.numSkippedBlocks (numLocal + numExternal) by omega, hevict]
  unfold Demand.size computedDemand numBlocksMissing hitTableLength
  split
  · have hc := hcover (by omega)
    push_cast
    omega
  · push_cast
    omega

theorem getNumBlocksToAllocate_covered (hpos : 0 < m.blockSize)
    (hkind : m.spec.isSelfAttention = true) {total : Int} (htotal : 0 ≤ total)
    (hcovered : total ≤ (m.blocksOf rid).length * m.blockSize) (p : BlockPool D)
    (numTokensMainModel : Int) :
    m.getNumBlocksToAllocate p rid numTokens [] total numTokensMainModel =
      .ok (m.numBlocksMissing (m.blocksOf rid).length numTokens : Int) := by
  have hskipLe : m.numSkippedBlocks total ≤ cdiv total m.blockSize :=
    skippedBlocks_le_cdiv hpos htotal
  have hceil := (cdiv_le_iff hpos).mpr hcovered
  rw [getNumBlocksToAllocate_eq hkind]
  unfold getNumBlocksToAllocateBase numBlocksMissing
  split
  · rw [pyAssert_pos length_nil, ok_bind]
    congr 1
    omega
  · change (.ok _ : Py Int) = .ok _
    congr 1
    change max (cdiv numTokens m.blockSize - max (m.numSkippedBlocks total)
      (((0 : Nat) : Int) + (m.blocksOf rid).length)) 0 + getNumEvictableBlocks p
        (([] : List BlockId).drop _) = _
    rw [drop_nil]
    unfold getNumEvictableBlocks
    simp only [filter_nil, length_nil]
    omega

theorem removeSkippedBlocks_table (hkind : m.spec.isSelfAttention = true) (p : BlockPool D)
    (rid : ReqId) (total : Int) :
    ∃ m' p', m.removeSkippedBlocks p rid total = .ok (m', p') ∧
      (m'.blocksOf rid).length = (m.blocksOf rid).length ∧
      m'.numCachedBlock = m.numCachedBlock := by
  have hbase : m.removeSkippedBlocks p rid total =
      pure (m.removeSkippedBlocksBase p rid total) := by
    unfold removeSkippedBlocks
    split
    · rename_i hspec
      simp [KVCacheSpec.isSelfAttention, KVCacheSpec.isMamba, hspec] at hkind
    · rfl
  refine ⟨(m.removeSkippedBlocksBase p rid total).1, (m.removeSkippedBlocksBase p rid total).2,
    hbase, ?_⟩
  unfold removeSkippedBlocksBase
  dsimp only
  split
  · exact ⟨rfl, rfl⟩
  · refine ⟨?_, rfl⟩
    show ((m.reqToBlocks.set rid _).get? rid |>.getD []).length = _
    rw [getD_get?_set, if_pos rfl]
    exact (removeSkippedLoop_count _ _ _).1

end SingleTypeKVCacheManager

end VllmCore
