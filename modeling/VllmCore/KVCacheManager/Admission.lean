import VllmCore.KVCacheManager.HitLength
import VllmCore.KVCacheManager.Runs
import VllmCore.SingleTypeKVCacheManager.Admission
/-!
# Admission of a request

`allocate_slots` first asks all groups how many blocks they are going to take and
compares the sum with the number of free blocks.  The estimate is safe: if there
are enough free blocks, the two allocating calls do not fail.  It is exact unless
the groups disturb each other: a group that allocates blocks for external tokens
may pop a block that a later group is about to touch as its own cache hit.
-/

namespace VllmCore

open List Nat Support

variable {D : Type} [DecidableEq D]

open SingleTypeKVCacheManager (PoolOk TableInv Kept)

/-! ## Calls to all managers -/

variable {α : Type}
  {f : Nat → SingleTypeKVCacheManager D → BlockPool D →
    Py (α × SingleTypeKVCacheManager D × BlockPool D)}

theorem forEachManager_takes {R : Set BlockId}
    {d : Nat → SingleTypeKVCacheManager D → Demand BlockId}
    {Q : Nat → SingleTypeKVCacheManager D → SingleTypeKVCacheManager D → Prop} :
    ∀ {ms : List (SingleTypeKVCacheManager D)} {i : Nat} {p : BlockPool D}
      {rest : Multiset BlockId},
      (∀ j m, ms[j]? = some m → ∀ q rest, p.SameShape q → PoolOk R q (m.items + rest) →
        TableInv q.nullBlock m →
        (d (i + j) m).size q.freeBlockQueue.blocks ≤ q.freeBlockQueue.blocks.length →
        ∃ a m' q', f (i + j) m q = .ok (a, m', q') ∧ Kept R rest q m' q' ∧
          q'.freeBlockQueue.blocks = (d (i + j) m).take q.freeBlockQueue.blocks ∧
          Q (i + j) m m') →
      PoolOk R p (allItems ms + rest) → (∀ m ∈ ms, TableInv p.nullBlock m) →
      NamedOnce p.freeBlockQueue.blocks (ms.mapIdx fun j m => d (i + j) m) →
      totalDemand p.freeBlockQueue.blocks (ms.mapIdx fun j m => d (i + j) m) ≤
        p.freeBlockQueue.blocks.length →
      ∃ as ms' p', forEachManager f i ms p = .ok (as, ms', p') ∧
        p'.freeBlockQueue.blocks =
          drain p.freeBlockQueue.blocks (ms.mapIdx fun j m => d (i + j) m) ∧
        ∀ j m', ms'[j]? = some m' → ∃ m, ms[j]? = some m ∧ Q (i + j) m m' := by
  intro ms
  induction ms with
  | nil =>
    intro i p rest _ _ _ _ _
    exact ⟨[], [], p, rfl, rfl, by simp⟩
  | cons m ms ih =>
    intro i p rest hf hp htables honce hle
    have hshift : ((m :: ms).mapIdx fun j m => d (i + j) m) =
        d i m :: ms.mapIdx fun j m => d (i + 1 + j) m := by
      rw [mapIdx_cons, add_zero]
      congr 2
      funext j m'
      rw [add_assoc, add_comm 1 j]
    rw [hshift] at honce hle ⊢
    have hsum : allItems (m :: ms) + rest = m.items + (allItems ms + rest) := by
      simp [allItems, add_assoc]
    rw [hsum] at hp
    have hsize : (d i m).size p.freeBlockQueue.blocks ≤
        p.freeBlockQueue.blocks.length := by
      unfold totalDemand at hle
      rw [map_cons, sum_cons] at hle
      omega
    obtain ⟨a, m₁, p₁, hrun, hkept, hqueue, hQ⟩ :=
      hf 0 m rfl p _ (.refl p) hp (htables m (by simp)) hsize
    rw [add_zero] at hrun hqueue hQ
    have hpool : PoolOk R p₁ (allItems ms + (m₁.items + rest)) := by
      have hk := hkept.pool
      rwa [add_left_comm] at hk
    obtain ⟨as, ms', p', hruns, hqueues, hQs⟩ := ih (i := i + 1) (p := p₁)
      (fun j m' hj q rest' hq => by
        have hnext := hf (j + 1) m' (by simpa using hj) q rest' (hkept.shape.trans hq)
        rwa [show i + (j + 1) = i + 1 + j by omega] at hnext)
      hpool
      (fun m' hm' => hkept.shape.nullBlock.symm ▸ htables m' (by simp [hm']))
      (hqueue ▸ honce.tail) (hqueue ▸ totalDemand_tail_le hp.refs.nodup honce hle)
    refine ⟨a :: as, m₁ :: ms', p', ?_, ?_, ?_⟩
    · unfold forEachManager
      rw [hrun, ok_bind]
      dsimp only
      rw [hruns]
      rfl
    · rw [hqueues, hqueue]
      rfl
    · intro j m' hj
      cases j with
      | zero =>
        cases hj
        exact ⟨m, rfl, by rw [add_zero]; exact hQ⟩
      | succ j =>
        obtain ⟨m₀, hm₀, hQ₀⟩ := hQs j m' (by simpa using hj)
        exact ⟨m₀, by simpa using hm₀, by rwa [show i + (j + 1) = i + 1 + j by omega]⟩

namespace KVCacheCoordinator

/-- All groups have full, sliding window or chunked local attention. -/
def SelfAttention (c : KVCacheCoordinator D) : Prop :=
  ∀ m ∈ c.singleTypeManagers, m.spec.isSelfAttention = true

def computedDemands (c : KVCacheCoordinator D) (hits : KVCacheBlocks)
    (numLocal numExternal : Int) : List (Demand BlockId) :=
  c.singleTypeManagers.mapIdx fun g m => m.computedDemand (hits.getD g []) numLocal numExternal

/-- What the new blocks of a request take out of the queue, given the lengths of its
tables. -/
def newDemands (c : KVCacheCoordinator D)
    (tableLength : Nat → SingleTypeKVCacheManager D → Nat) (numTokens : Int) :
    List (Demand BlockId) :=
  c.singleTypeManagers.mapIdx fun g m => popDemand (m.numBlocksMissing (tableLength g m) numTokens)

variable {hits : KVCacheBlocks} {numTokens total : Int} {rid : ReqId} {c c' : KVCacheCoordinator D}

theorem sumBlocksToAllocate_eq {p : BlockPool D} {numEncoderTokens main : Int}
    {e : Nat → SingleTypeKVCacheManager D → Nat} :
    ∀ {ms : List (SingleTypeKVCacheManager D)} {i : Nat},
      (∀ j m, ms[j]? = some m → m.spec.isSelfAttention = true ∧ ∃ hit, hits[i + j]? = some hit ∧
        m.getNumBlocksToAllocate p rid numTokens hit total main = .ok (e (i + j) m : Int)) →
      sumBlocksToAllocate p rid numTokens hits numEncoderTokens total main i ms =
        .ok (((ms.mapIdx fun j m => e (i + j) m).sum : Nat) : Int) := by
  intro ms
  induction ms with
  | nil => intro i _; rfl
  | cons m ms ih =>
    intro i h
    obtain ⟨hkind, hit, hhit, hest⟩ := h 0 m rfl
    rw [add_zero] at hhit hest
    have hrest := ih (i := i + 1) fun j m' hj => by
      have hnext := h (j + 1) m' (by simpa using hj)
      rwa [show i + (j + 1) = i + 1 + j by omega] at hnext
    unfold sumBlocksToAllocate
    rw [if_neg (by rw [SingleTypeKVCacheManager.isCrossAttention_eq_false hkind]; decide),
      pyGet_natCast_ok.mpr hhit, ok_bind, hest, ok_bind, hrest]
    rw [mapIdx_cons, sum_cons, add_zero]
    have hshift : (ms.mapIdx fun j m => e (i + (j + 1)) m) =
        ms.mapIdx fun j m => e (i + 1 + j) m := by
      congr 1
      funext j m'
      rw [add_assoc, add_comm 1 j]
    rw [hshift]
    rfl

/-! ## Taking the blocks -/

/-- The cache hits of a new request: one for each group, on blocks in circulation, and
no real block in two groups. -/
structure HitsSeparate (c : KVCacheCoordinator D) (hits : KVCacheBlocks) : Prop where
  length : hits.length = c.singleTypeManagers.length
  range : ∀ hit ∈ hits, ∀ b ∈ hit, b < c.blockPool.numGpuBlocks ∧ b ∉ c.reserved
  disjoint : ∀ (g g' : Nat) (hit hit' : List BlockId), g ≠ g' → hits[g]? = some hit →
    hits[g']? = some hit' → ∀ b ∈ hit, b ∈ hit' → b = c.blockPool.nullBlock
  caching : c.enableCaching = false → ∀ hit ∈ hits, hit = []

theorem reserved_eq (hsame : c.SameConfig c') : c'.reserved = c.reserved :=
  Set.ext fun b => reserved_congr hsame.managers b

theorem HitsSeparate.congr
    (h : c.HitsSeparate hits) (hsame : c.SameConfig c') : c'.HitsSeparate hits where
  length := h.length.trans hsame.managers.length_eq
  range := by
    rw [reserved_eq hsame, hsame.pool.numGpuBlocks]
    exact h.range
  disjoint := by
    rw [hsame.pool.nullBlock]
    exact h.disjoint
  caching := by
    rw [hsame.enableCaching]
    exact h.caching

theorem HitsSeparate.exists_hit (h : c.HitsSeparate hits) {g : Nat} {m : SingleTypeKVCacheManager D}
    (hm : c.singleTypeManagers[g]? = some m) :
    ∃ hit, hits[g]? = some hit ∧ hits.getD g [] = hit ∧ hit ∈ hits := by
  have hlt : g < hits.length := by
    rw [h.length]
    exact (List.getElem?_eq_some_iff.mp hm).1
  refine ⟨hits[g], by simp [hlt], by simp [getD_eq_getElem?_getD, hlt],
    getElem_mem hlt⟩

variable {numLocal numExternal n : Int}

theorem computedDemands_namedOnce (hc : c.RefInv) (hsep : c.HitsSeparate hits)
    (hfit : c.HitsFit hits numLocal numExternal) :
    NamedOnce c.blockPool.freeBlockQueue.blocks (c.computedDemands hits numLocal numExternal) where
  nodup := by
    intro d hd
    obtain ⟨g, hg⟩ := getElem?_of_mem hd
    unfold computedDemands at hg
    rw [getElem?_mapIdx, Option.map_eq_some_iff] at hg
    obtain ⟨m, hm, rfl⟩ := hg
    obtain ⟨hit, hhit, hgetD, _⟩ := hsep.exists_hit hm
    rw [hgetD]
    have hreal := ((hfit.nodup g hit m hhit hm).drop
      (m.numSkippedBlocks (numLocal + numExternal)).toNat).filter_nodup
    refine hreal.sublist (monotone_filter_right _ ?_)
    intro b hb
    rw [decide_eq_true_eq] at hb ⊢
    exact ((hc.pool.refs.mem_queue b).mp hb).2.1
  disjoint := by
    rw [pairwise_iff_getElem]
    intro i j hi hj hij b hb hbi hbj
    unfold computedDemands at hi hj hbi hbj
    rw [length_mapIdx] at hi hj
    rw [getElem_mapIdx] at hbi hbj
    obtain ⟨hit, hhit, hgetD, _⟩ := hsep.exists_hit (getElem?_eq_getElem hi)
    obtain ⟨hit', hhit', hgetD', _⟩ := hsep.exists_hit (getElem?_eq_getElem hj)
    rw [hgetD] at hbi
    rw [hgetD'] at hbj
    have hnull := hsep.disjoint i j hit hit' (by omega) hhit hhit' b (mem_of_mem_drop hbi)
      (mem_of_mem_drop hbj)
    exact ((hc.pool.refs.mem_queue b).mp hb).2.1 hnull

theorem RefInv.allocateNewBlocks_takes (hc : c.RefInv) (hself : c.SelfAttention) {n' e : Int}
    (hn' : 0 < n') (hle : totalDemand c.blockPool.freeBlockQueue.blocks
      (c.newDemands (fun _ m => (m.blocksOf rid).length) n) ≤
        c.blockPool.freeBlockQueue.blocks.length) :
    ∃ blocks c', c.allocateNewBlocks rid n n' e = .ok (blocks, c') ∧
      c'.blockPool.freeBlockQueue.blocks = drain c.blockPool.freeBlockQueue.blocks
        (c.newDemands (fun _ m => (m.blocksOf rid).length) n) := by
  have hpool : PoolOk c.reserved c.blockPool (allItems c.singleTypeManagers + 0) := by
    rw [add_zero]
    exact hc.pool
  have hpops : ∀ d ∈ c.newDemands (fun _ m => (m.blocksOf rid).length) n, d.named = [] := by
    intro d hd
    obtain ⟨g, hg⟩ := getElem?_of_mem hd
    unfold newDemands at hg
    rw [getElem?_mapIdx, Option.map_eq_some_iff] at hg
    obtain ⟨m, _, rfl⟩ := hg
    rfl
  obtain ⟨as, ms', p', hrun, hqueue, _⟩ := forEachManager_takes (R := c.reserved) (i := 0)
    (f := fun _ m p => m.allocateNewBlocks p rid
      (if m.spec.isCrossAttention then e else n) n')
    (d := fun _ m => popDemand (m.numBlocksMissing (m.blocksOf rid).length n))
    (Q := fun _ _ _ => True) (by
      intro j m hj q rest _ hq hm hsize
      have hkind := hself m (mem_of_getElem? hj)
      rw [popDemand_size] at hsize
      rw [if_neg (by rw [SingleTypeKVCacheManager.isCrossAttention_eq_false hkind]; decide)]
      obtain ⟨bs, m', q', hrun, hqueue⟩ :=
        SingleTypeKVCacheManager.allocateNewBlocks_takes hq hkind n' hsize
      refine ⟨bs, m', q', hrun,
        SingleTypeKVCacheManager.allocateNewBlocks_kept hq hm hn' hrun, ?_, trivial⟩
      rw [hqueue, popDemand_take]) hpool hc.tables
    ((namedOnce_nil _).append_pops hpops) hle
  refine ⟨as, c.update (ms', p'), ?_, hqueue⟩
  unfold KVCacheCoordinator.allocateNewBlocks
  rw [hrun]
  rfl

theorem RefInv.allocateNewComputedBlocks_takes (hc : c.RefInv) (hself : c.SelfAttention)
    (hnew : ∀ m ∈ c.singleTypeManagers, m.blocksOf rid = [] ∧
      m.numCachedBlock.contains rid = false) (hsep : c.HitsSeparate hits)
    (hfit : c.HitsFit hits numLocal numExternal)
    (htotal : 0 ≤ numLocal + numExternal) (hle : totalDemand c.blockPool.freeBlockQueue.blocks
      (c.computedDemands hits numLocal numExternal) ≤ c.blockPool.freeBlockQueue.blocks.length) :
    ∃ c', c.allocateNewComputedBlocks rid hits numLocal numExternal = .ok c' ∧
      c'.blockPool.freeBlockQueue.blocks = drain c.blockPool.freeBlockQueue.blocks
        (c.computedDemands hits numLocal numExternal) ∧
      ∀ (g : Nat) (m' : SingleTypeKVCacheManager D), c'.singleTypeManagers[g]? = some m' →
        ∃ m, c.singleTypeManagers[g]? = some m ∧
          (m'.blocksOf rid).length =
            m.hitTableLength (hits.getD g []) (numLocal + numExternal) +
              (m.computedDemand (hits.getD g []) numLocal numExternal).fresh := by
  have hpool : PoolOk c.reserved c.blockPool (allItems c.singleTypeManagers + 0) := by
    rw [add_zero]
    exact hc.pool
  have honce := computedDemands_namedOnce hc hsep hfit
  have hshift : c.computedDemands hits numLocal numExternal =
      c.singleTypeManagers.mapIdx fun g m =>
        m.computedDemand (hits.getD (0 + g) []) numLocal numExternal := by
    unfold computedDemands
    simp only [zero_add]
  rw [hshift] at honce hle ⊢
  obtain ⟨as, ms', p', hrun, hqueue, hQ⟩ := forEachManager_takes (R := c.reserved) (i := 0)
    (f := fun g m p => do
      let blocks ← pyGet hits g
      let res ← m.allocateNewComputedBlocks p rid blocks numLocal numExternal
      pure ((), res.1, res.2))
    (d := fun g m => m.computedDemand (hits.getD g []) numLocal numExternal)
    (Q := fun g m m' => (m'.blocksOf rid).length =
      m.hitTableLength (hits.getD g []) (numLocal + numExternal) +
        (m.computedDemand (hits.getD g []) numLocal numExternal).fresh) (by
      intro j m hj q rest hshape hq hm hsize
      rw [zero_add] at hsize ⊢
      have hmem := mem_of_getElem? hj
      obtain ⟨hit, hhit, hgetD, hin⟩ := hsep.exists_hit hj
      rw [hgetD] at hsize ⊢
      have hnodup : RealNodup q.nullBlock hit := by
        rw [hshape.nullBlock]
        exact hfit.nodup j hit m hhit hj
      have hcover := fun hext => hfit.covered hext j hit m hhit hj
      obtain ⟨m', q', hrun, hqueue, hlen⟩ :=
        SingleTypeKVCacheManager.allocateNewComputedBlocks_takes hq hm (hself m hmem)
          (hnew m hmem).1 (hnew m hmem).2 hnodup
          (fun b hb => hshape.numGpuBlocks.symm ▸ hsep.range hit hin b hb)
          (fun hoff => hsep.caching (hc.wf.managerCaching m hmem ▸ hoff) hit hin) htotal hcover
          hsize
      refine ⟨(), m', q', ?_, SingleTypeKVCacheManager.allocateNewComputedBlocks_kept hq hm
        hnodup htotal hcover hrun, hqueue, hlen⟩
      rw [pyGet_natCast_ok.mpr hhit, ok_bind, hrun]
      rfl) hpool hc.tables honce hle
  refine ⟨c.update (ms', p'), ?_, hqueue, ?_⟩
  · unfold KVCacheCoordinator.allocateNewComputedBlocks
    rw [hrun]
    rfl
  · intro g m' hm'
    obtain ⟨m, hm, hlen⟩ := hQ g m' hm'
    rw [zero_add] at hlen
    exact ⟨m, hm, hlen⟩

/-! ## What the estimate is -/

theorem sum_mapIdx_add (f g : Nat → α → Nat) (xs : List α) :
    (xs.mapIdx fun i x => f i x + g i x).sum = (xs.mapIdx f).sum + (xs.mapIdx g).sum := by
  induction xs generalizing f g with
  | nil => rfl
  | cons x xs ih =>
    simp only [mapIdx_cons, sum_cons]
    rw [ih (fun i => f (i + 1)) fun i => g (i + 1)]
    omega

theorem totalDemand_mapIdx (q : List BlockId) (d : Nat → α → Demand BlockId)
    (xs : List α) : totalDemand q (xs.mapIdx d) = (xs.mapIdx fun i x => (d i x).size q).sum := by
  unfold totalDemand
  congr 1
  apply ext_getElem?
  intro i
  simp only [getElem?_map, getElem?_mapIdx, Option.map_map]
  rfl

theorem newDemands_named {tableLength : Nat → SingleTypeKVCacheManager D → Nat} :
    ∀ d ∈ c.newDemands tableLength n, d.named = [] := by
  intro d hd
  obtain ⟨g, hg⟩ := getElem?_of_mem hd
  unfold newDemands at hg
  rw [getElem?_mapIdx, Option.map_eq_some_iff] at hg
  obtain ⟨m, _, rfl⟩ := hg
  rfl

theorem SelfAttention.congr (h : c.SelfAttention) (hsame : c.SameConfig c') : c'.SelfAttention := by
  intro m' hm'
  obtain ⟨g, hg⟩ := getElem?_of_mem hm'
  obtain ⟨m, hm, hcfg⟩ := forall₂_getElem?_right hsame.managers hg
  rw [hcfg.spec]
  exact h m (mem_of_getElem? hm)

def computedTableLength (hits : KVCacheBlocks) (numLocal numExternal : Int) (g : Nat)
    (m : SingleTypeKVCacheManager D) : Nat :=
  m.hitTableLength (hits.getD g []) (numLocal + numExternal) +
    (m.computedDemand (hits.getD g []) numLocal numExternal).fresh

theorem RefInv.getNumBlocksToAllocate_new (hc : c.RefInv) (hself : c.SelfAttention)
    (hnew : ∀ m ∈ c.singleTypeManagers, m.blocksOf rid = [] ∧
      m.numCachedBlock.contains rid = false) (hsep : c.HitsSeparate hits)
    (hfit : c.HitsFit hits numLocal numExternal)
    (htotal : 0 ≤ numLocal + numExternal) (htokens : numLocal + numExternal ≤ numTokens)
    (numEncoderTokens main : Int) :
    c.getNumBlocksToAllocate rid numTokens hits numEncoderTokens (numLocal + numExternal) main =
      .ok (totalDemand c.blockPool.freeBlockQueue.blocks
        (c.computedDemands hits numLocal numExternal ++
          c.newDemands (computedTableLength hits numLocal numExternal) numTokens) : Int) := by
  have hsum : sumBlocksToAllocate c.blockPool rid numTokens hits numEncoderTokens
      (numLocal + numExternal) main 0 c.singleTypeManagers = _ := sumBlocksToAllocate_eq
    (e := fun g m =>
      (m.computedDemand (hits.getD g []) numLocal numExternal).size
          c.blockPool.freeBlockQueue.blocks +
        m.numBlocksMissing (computedTableLength hits numLocal numExternal g m) numTokens) (by
      intro j m hj
      rw [zero_add]
      have hmem := mem_of_getElem? hj
      obtain ⟨hit, hhit, hgetD, hin⟩ := hsep.exists_hit hj
      refine ⟨hself m hmem, hit, hhit, ?_⟩
      unfold computedTableLength
      rw [hgetD]
      exact SingleTypeKVCacheManager.getNumBlocksToAllocate_new hc.pool.refs
        (hc.tables m hmem).blockSize_pos (hself m hmem) (hnew m hmem).1 (hnew m hmem).2
        (hsep.range hit hin) htotal (fun hext => hfit.covered hext j hit m hhit hj) htokens main)
  unfold KVCacheCoordinator.getNumBlocksToAllocate
  rw [hsum, totalDemand_append]
  unfold computedDemands newDemands
  rw [totalDemand_mapIdx, totalDemand_mapIdx]
  simp only [zero_add, popDemand_size]
  rw [sum_mapIdx_add]

/-- The estimate when no computed blocks are added and the tables cover all computed
tokens. -/
theorem RefInv.getNumBlocksToAllocate_covered (hc : c.RefInv) (hself : c.SelfAttention)
    (hsep : c.HitsSeparate hits) (hnone : ∀ hit ∈ hits, hit = []) (htotal : 0 ≤ total)
    (hcovered : ∀ m ∈ c.singleTypeManagers, total ≤ (m.blocksOf rid).length * m.blockSize)
    (numEncoderTokens main : Int) :
    c.getNumBlocksToAllocate rid numTokens hits numEncoderTokens total main =
      .ok (totalDemand c.blockPool.freeBlockQueue.blocks
        (c.newDemands (fun _ m => (m.blocksOf rid).length) numTokens) : Int) := by
  have hsum : sumBlocksToAllocate c.blockPool rid numTokens hits numEncoderTokens
      total main 0 c.singleTypeManagers = _ := sumBlocksToAllocate_eq
    (e := fun _ m => m.numBlocksMissing (m.blocksOf rid).length numTokens) (by
      intro j m hj
      rw [zero_add]
      have hmem := mem_of_getElem? hj
      obtain ⟨hit, hhit, _, hin⟩ := hsep.exists_hit hj
      refine ⟨hself m hmem, hit, hhit, ?_⟩
      rw [hnone hit hin]
      exact SingleTypeKVCacheManager.getNumBlocksToAllocate_covered
        (hc.tables m hmem).blockSize_pos (hself m hmem) htotal (hcovered m hmem) _ _)
  unfold KVCacheCoordinator.getNumBlocksToAllocate
  rw [hsum]
  unfold newDemands
  rw [totalDemand_mapIdx]
  simp only [popDemand_size]

theorem removeSkippedBlocks_tables (hself : c.SelfAttention)
    (h : c.removeSkippedBlocks rid total = .ok c') :
    List.Forall₂ (fun m m' : SingleTypeKVCacheManager D =>
      (m'.blocksOf rid).length = (m.blocksOf rid).length ∧
        m'.numCachedBlock = m.numCachedBlock ∧ m'.blockSize = m.blockSize)
      c.singleTypeManagers c'.singleTypeManagers := by
  unfold KVCacheCoordinator.removeSkippedBlocks at h
  simp only [bind_ok, pure_ok] at h
  obtain ⟨⟨as, ms', p'⟩, hrun, rfl⟩ := h
  refine (forEachManager_rule (P := fun _ => True) ?_ trivial hrun).2
  intro j m hj p a m' p' _ hf
  simp only [bind_ok, pure_ok] at hf
  obtain ⟨⟨m₁, p₁⟩, hrem, hpair⟩ := hf
  cases hpair
  have hcfg := SingleTypeKVCacheManager.removeSkippedBlocks_sameConfig hrem
  obtain ⟨m₂, p₂, hrem', hlen, hcached⟩ :=
    SingleTypeKVCacheManager.removeSkippedBlocks_table (hself m (mem_of_getElem? hj)) p rid total
  rw [hrem'] at hrem
  cases hrem
  exact ⟨trivial, hlen, hcached, hcfg.blockSize⟩

end KVCacheCoordinator

namespace KVCacheManager

variable {hits : KVCacheBlocks} {kv : KVCacheManager D} {r : Request D} {a : SlotArgs}
  {c : KVCacheCoordinator D} {n : Int}

theorem hitsSeparate_of_lookup (hkv : kv.RefInv) {lookup : Bool} {n : Nat}
    (h : kv.lookupHits r lookup = .ok (hits, n)) : kv.coordinator.HitsSeparate hits := by
  have hwf := hkv.coordinator.wf
  have hempty : kv.emptyKVCacheBlocks.length = kv.coordinator.singleTypeManagers.length := by
    unfold emptyKVCacheBlocks
    rw [← hwf.specs, length_map, length_map]
  have hnone : ∀ hit ∈ kv.emptyKVCacheBlocks, hit = [] := by
    intro hit hhit
    obtain ⟨_, _, rfl⟩ := mem_map.mp hhit
    rfl
  unfold lookupHits at h
  split at h
  · obtain ⟨hlen, _, _⟩ := getComputedBlocks_length hwf h
    -- A real block of the hit of group `g` is stored under a key of that group.
    have hkey : ∀ (g : Nat) (hit : List BlockId), hits[g]? = some hit → ∀ b ∈ hit,
        b = kv.blockPool.nullBlock ∨
          ∃ h, (kv.blockPool.blocks b).blockHash = some ⟨h, g⟩ := by
      intro g hit hg b hb
      have hlt : g < kv.coordinator.singleTypeManagers.length :=
        hlen ▸ (List.getElem?_eq_some_iff.mp hg).1
      obtain ⟨hashes, _, hok⟩ := getComputedBlocks_ok hwf h hg _
        (getElem?_eq_getElem hlt) (ne_nil_of_mem hb)
      obtain ⟨i, hi⟩ := getElem?_of_mem hb
      rcases hok i b hi with hnull | ⟨bh, _, hone⟩
      · exact .inl hnull
      · right
        have hpool := hkv.coordinator.pool.hashes
        exact ⟨bh, (hpool.hashed_iff b _).mpr
          (BlockHashToBlockMap.stores_of_getOneBlock hpool.wellKeyed hone)⟩
    refine ⟨hlen, ?_, ?_, ?_⟩
    · intro hit hhit b hb
      obtain ⟨g, hg⟩ := getElem?_of_mem hhit
      rcases hkey g hit hg b hb with rfl | ⟨bh, hbh⟩
      · exact ⟨hkv.coordinator.pool.refs.null_lt, hkv.coordinator.pool.refs.null_free⟩
      · exact hkv.coordinator.pool.hashed_range b (by
          rw [show (kv.coordinator.blockPool.blocks b).blockHash = _ from hbh]
          simp)
    · intro g g' hit hit' hne hg hg' b hb hb'
      rcases hkey g hit hg b hb with hnull | ⟨bh, hbh⟩
      · exact hnull
      · rcases hkey g' hit' hg' b hb' with hnull | ⟨bh', hbh'⟩
        · exact hnull
        · rw [hbh, Option.some.injEq, BlockHashWithGroupId.mk.injEq] at hbh'
          exact absurd hbh'.2 hne
    · intro hoff
      unfold getComputedBlocks at h
      rw [if_pos (.inl (hkv.caching.trans hoff)), pure_ok] at h
      cases h
      exact hnone
  · cases h
    refine ⟨hempty, ?_, ?_, fun _ => hnone⟩
    · intro hit hhit b hb
      rw [hnone hit hhit] at hb
      cases hb
    · intro g g' hit hit' _ hg _ b hb
      rw [hnone hit (mem_of_getElem? hg)] at hb
      cases hb

/-! ## The admission test -/

/-- What the scheduler guarantees when it asks for slots: there is something to
allocate, all computed tokens fit the model, and the request is either new, or it is
continued without any computed blocks to add. -/
structure SlotsCall (kv : KVCacheManager D) (r : Request D) (lookup : Bool) (a : SlotArgs) :
    Prop where
  numLookaheadTokens : 0 ≤ a.numLookaheadTokens
  something : ¬(a.numNewTokens = 0 ∧ a.numExternalComputedTokens = 0)
  fits : ∀ hits n, kv.lookupHits r lookup = .ok (hits, n) →
    r.numComputedTokens + n + a.numExternalComputedTokens ≤ kv.maxModelLen
  state : (r.numComputedTokens = 0 ∧ ∀ m ∈ kv.coordinator.singleTypeManagers,
      m.blocksOf r.requestId = [] ∧ m.numCachedBlock.contains r.requestId = false) ∨
    (lookup = false ∧ a.numExternalComputedTokens = 0 ∧
      ∀ m ∈ kv.coordinator.singleTypeManagers,
        r.numComputedTokens ≤ (m.blocksOf r.requestId).length * m.blockSize)

/-- The two allocating calls do not fail, and take `n` blocks out of the queue. -/
def AllocatesExactly (kv : KVCacheManager D) (c : KVCacheCoordinator D) (r : Request D)
    (numNewComputedTokens : Int) (newComputedBlocks : KVCacheBlocks) (a : SlotArgs) (n : Int) :
    Prop :=
  ∃ blocks c', kv.allocateBlocks c r numNewComputedTokens newComputedBlocks a =
    .ok (blocks, c') ∧
      (c.blockPool.freeBlockQueue.blocks.length : Int) =
        c'.blockPool.freeBlockQueue.blocks.length + n

/-- Knowing the queue that the calls leave, the estimate is exact if and only if the
demands are undisturbed. -/
theorem allocatesExactly_iff {c' : KVCacheCoordinator D} {blocks : KVCacheBlocks}
    {ds es : List (Demand BlockId)} (hrun : kv.allocateBlocks c r n hits a = .ok (blocks, c'))
    (hqueue : c'.blockPool.freeBlockQueue.blocks =
      drain c.blockPool.freeBlockQueue.blocks (ds ++ es))
    (hnodup : c.blockPool.freeBlockQueue.blocks.Nodup)
    (honce : NamedOnce c.blockPool.freeBlockQueue.blocks (ds ++ es)) (hes : ∀ e ∈ es, e.named = [])
    (hle : totalDemand c.blockPool.freeBlockQueue.blocks (ds ++ es) ≤
      c.blockPool.freeBlockQueue.blocks.length) :
    kv.AllocatesExactly c r n hits a (totalDemand c.blockPool.freeBlockQueue.blocks (ds ++ es)) ↔
      Undisturbed c.blockPool.freeBlockQueue.blocks ds := by
  obtain ⟨_, hiff⟩ := length_drain hnodup honce hle
  rw [undisturbed_append_pops hes] at hiff
  rw [← hiff, ← hqueue]
  constructor
  · rintro ⟨blocks', c'', hrun', hlen⟩
    rw [hrun] at hrun'
    cases hrun'
    omega
  · intro hlen
    exact ⟨blocks, c', hrun, by omega⟩

variable {est : Int}

/-- A new request with computed blocks: first the demands of these, then those of the
new blocks. -/
theorem admission_new (hc : c.RefInv) (hself : c.SelfAttention)
    (hnew : ∀ m ∈ c.singleTypeManagers, m.blocksOf r.requestId = [] ∧
      m.numCachedBlock.contains r.requestId = false) (hsep : c.HitsSeparate hits)
    (hfit : c.HitsFit hits (r.numComputedTokens + n) a.numExternalComputedTokens)
    (htotal : 0 ≤ r.numComputedTokens + n + a.numExternalComputedTokens)
    (htokens : r.numComputedTokens + n + a.numExternalComputedTokens ≤
      kv.numTokensNeedSlot r n a) (hmain : 0 < kv.numTokensMainModel r n a)
    (hadd : hits.any (!·.isEmpty) = true ∨ 0 < a.numExternalComputedTokens)
    (hest : c.getNumBlocksToAllocate r.requestId (kv.numTokensNeedSlot r n a) hits
      a.numEncoderTokens (r.numComputedTokens + n + a.numExternalComputedTokens)
      (kv.numTokensMainModel r n a) = .ok est) (hfree : est ≤ c.blockPool.getNumFreeBlocks) :
    kv.AllocatesExactly c r n hits a est ↔
      Undisturbed c.blockPool.freeBlockQueue.blocks
        (c.computedDemands hits (r.numComputedTokens + n) a.numExternalComputedTokens) := by
  rw [hc.getNumBlocksToAllocate_new hself hnew hsep hfit htotal htokens, Except.ok.injEq] at hest
  subst hest
  have hnodup := hc.pool.refs.nodup
  have hnum := hc.pool.refs.numFree
  unfold BlockPool.getNumFreeBlocks at hfree
  rw [hnum, Int.ofNat_le] at hfree
  have hpops : ∀ e ∈ c.newDemands (KVCacheCoordinator.computedTableLength hits
      (r.numComputedTokens + n) a.numExternalComputedTokens) (kv.numTokensNeedSlot r n a),
      e.named = [] := KVCacheCoordinator.newDemands_named
  have honce := (KVCacheCoordinator.computedDemands_namedOnce hc hsep hfit).append_pops hpops
  obtain ⟨_, _, hrest⟩ := totalDemand_drain_le hnodup honce hfree
  have hfirst : totalDemand c.blockPool.freeBlockQueue.blocks
      (c.computedDemands hits (r.numComputedTokens + n) a.numExternalComputedTokens) ≤
      c.blockPool.freeBlockQueue.blocks.length := by
    rw [totalDemand_append] at hfree
    omega
  obtain ⟨c₁, hrun₁, hqueue₁, htables⟩ :=
    hc.allocateNewComputedBlocks_takes hself hnew hsep hfit htotal hfirst
  obtain ⟨hc₁, hsame⟩ := hc.allocateNewComputedBlocks hfit htotal hrun₁
  -- The tables now have the lengths that the estimate assumed.
  have hdemands : c₁.newDemands (fun _ m => (m.blocksOf r.requestId).length)
      (kv.numTokensNeedSlot r n a) =
      c.newDemands (KVCacheCoordinator.computedTableLength hits (r.numComputedTokens + n)
        a.numExternalComputedTokens) (kv.numTokensNeedSlot r n a) := by
    unfold KVCacheCoordinator.newDemands
    apply ext_getElem?
    intro g
    rw [getElem?_mapIdx, getElem?_mapIdx]
    cases hg : c₁.singleTypeManagers[g]? with
    | none =>
      have hlen := hsame.managers.length_eq
      rw [getElem?_eq_none_iff] at hg
      rw [getElem?_eq_none_iff.mpr (by omega)]
      rfl
    | some m' =>
      obtain ⟨m, hm, hlen⟩ := htables g m' hg
      obtain ⟨m₀, hm₀, hcfg⟩ := KVCacheCoordinator.forall₂_getElem?_right hsame.managers hg
      rw [hm] at hm₀
      cases hm₀
      rw [hm, Option.map_some, Option.map_some]
      dsimp only
      rw [hlen]
      unfold SingleTypeKVCacheManager.numBlocksMissing
      rw [hcfg.blockSize]
      rfl
  rw [← hqueue₁, ← hdemands] at hrest
  obtain ⟨blocks, c₂, hrun₂, hqueue₂⟩ :=
    hc₁.allocateNewBlocks_takes (hself.congr hsame) (e := a.numEncoderTokens) hmain hrest
  have hrun : kv.allocateBlocks c r n hits a = .ok (blocks, c₂) := by
    unfold allocateBlocks
    rw [if_pos hadd, hrun₁, ok_bind]
    exact hrun₂
  refine allocatesExactly_iff hrun ?_ hnodup honce hpops hfree
  rw [hqueue₂, hdemands, hqueue₁, drain_append]

theorem admission_covered (hc : c.RefInv) (hself : c.SelfAttention) (hsep : c.HitsSeparate hits)
    (htotal : 0 ≤ r.numComputedTokens + n + a.numExternalComputedTokens)
    (hcovered : ∀ m ∈ c.singleTypeManagers,
      r.numComputedTokens + n + a.numExternalComputedTokens ≤
        (m.blocksOf r.requestId).length * m.blockSize) (hmain : 0 < kv.numTokensMainModel r n a)
    (hadd : ¬(hits.any (!·.isEmpty) = true ∨ 0 < a.numExternalComputedTokens))
    (hest : c.getNumBlocksToAllocate r.requestId (kv.numTokensNeedSlot r n a) hits
      a.numEncoderTokens (r.numComputedTokens + n + a.numExternalComputedTokens)
      (kv.numTokensMainModel r n a) = .ok est) (hfree : est ≤ c.blockPool.getNumFreeBlocks) :
    kv.AllocatesExactly c r n hits a est := by
  rw [not_or] at hadd
  have hnone : ∀ hit ∈ hits, hit = [] := by
    intro hit hhit
    by_contra hne
    apply hadd.1
    rw [any_eq_true]
    exact ⟨hit, hhit, by simpa using hne⟩
  rw [hc.getNumBlocksToAllocate_covered hself hsep hnone htotal hcovered,
    Except.ok.injEq] at hest
  subst hest
  have hnodup := hc.pool.refs.nodup
  have hnum := hc.pool.refs.numFree
  unfold BlockPool.getNumFreeBlocks at hfree
  rw [hnum, Int.ofNat_le] at hfree
  obtain ⟨blocks, c', hrun', hqueue⟩ :=
    hc.allocateNewBlocks_takes hself (e := a.numEncoderTokens) hmain hfree
  have hrun : kv.allocateBlocks c r n hits a = .ok (blocks, c') := by
    unfold allocateBlocks
    rw [if_neg (by simpa using hadd)]
    exact hrun'
  have hiff : kv.AllocatesExactly c r n hits a _ ↔ Undisturbed _ [] :=
    allocatesExactly_iff hrun hqueue hnodup
      ((namedOnce_nil _).append_pops KVCacheCoordinator.newDemands_named)
      KVCacheCoordinator.newDemands_named hfree
  exact hiff.mpr trivial

theorem undisturbed_of_none {numLocal numExternal : Int} (hnone : ∀ hit ∈ hits, hit = [])
    (q : List BlockId) : Undisturbed q (c.computedDemands hits numLocal numExternal) := by
  have hnames : ∀ d ∈ c.computedDemands hits numLocal numExternal, d.named = [] := by
    intro d hd
    obtain ⟨g, hg⟩ := getElem?_of_mem hd
    unfold KVCacheCoordinator.computedDemands at hg
    rw [getElem?_mapIdx, Option.map_eq_some_iff] at hg
    obtain ⟨m, _, rfl⟩ := hg
    have hempty : hits.getD g [] = [] := by
      rw [getD_eq_getElem?_getD]
      cases hg : hits[g]? with
      | none => rfl
      | some hit => exact hnone hit (mem_of_getElem? hg)
    unfold SingleTypeKVCacheManager.computedDemand
    rw [hempty, drop_nil]
  have hiff : Undisturbed q ([] ++ c.computedDemands hits numLocal numExternal) ↔
      Undisturbed q [] := undisturbed_append_pops hnames q
  exact hiff.mpr trivial

/-- When there are as many free blocks as the groups announce, the allocation does not
fail and takes exactly that many blocks, if and only if no group pops, for external
tokens, a cache hit of a later group. -/
theorem admission_exact {fns : HashFns D} (hfns : CollisionFree fns) {kv : KVCacheManager D}
    (hreach : KVReachableCovered fns kv) (hself : kv.coordinator.SelfAttention)
    {r : Request D} {lookup : Bool} {a : SlotArgs}
    (hallowed : KVOpAllowed fns (.allocateSlots r lookup a)) (hcall : kv.SlotsCall r lookup a)
    (hcovered : kv.HitsCovered (.allocateSlots r lookup a)) {hits : KVCacheBlocks} {n : Nat}
    (hlookup : kv.lookupHits r lookup = .ok (hits, n)) {c : KVCacheCoordinator D}
    (hskipped : kv.coordinator.removeSkippedBlocks r.requestId (kv.totalComputedTokens r n a)
      = .ok c) {est : Int}
    (hest : c.getNumBlocksToAllocate r.requestId (kv.numTokensNeedSlot r n a) hits
      a.numEncoderTokens (r.numComputedTokens + n + a.numExternalComputedTokens)
      (kv.numTokensMainModel r n a) = .ok est) (hfree : est ≤ c.blockPool.getNumFreeBlocks) :
    kv.AllocatesExactly c r n hits a est ↔
      Undisturbed c.blockPool.freeBlockQueue.blocks
        (c.computedDemands hits (r.numComputedTokens + n) a.numExternalComputedTokens) := by
  obtain ⟨hchain, hcomputed, hnew, hext⟩ := hallowed
  have hkv := hreach.refInv hfns
  obtain ⟨hc, hsame⟩ := hkv.coordinator.removeSkippedBlocks hskipped
  have htables := KVCacheCoordinator.removeSkippedBlocks_tables hself hskipped
  have hsep := (hitsSeparate_of_lookup hkv hlookup).congr hsame
  have hfit := (hitsFit_of_lookup hfns hkv hchain hcovered hlookup).congr hsame
  have hmodel := hcall.fits hits n hlookup
  have htotal : 0 ≤ r.numComputedTokens + n + a.numExternalComputedTokens := by omega
  have hmain : 0 < kv.numTokensMainModel r n a :=
    numTokensMainModel_pos hkv.maxModelLen_pos (by omega) hnew hext hcall.something
  have htokens : r.numComputedTokens + n + a.numExternalComputedTokens ≤
      kv.numTokensNeedSlot r n a := by
    have hlook := hcall.numLookaheadTokens
    unfold numTokensNeedSlot numTokensMainModel totalComputedTokens
    omega
  by_cases hadd : hits.any (!·.isEmpty) = true ∨ 0 < a.numExternalComputedTokens
  · -- Computed blocks are added: the request is new.
    have hempty : ∀ m ∈ kv.coordinator.singleTypeManagers,
        m.blocksOf r.requestId = [] ∧ m.numCachedBlock.contains r.requestId = false := by
      rcases hcall.state with ⟨_, hempty⟩ | ⟨hoff, hzero, _⟩
      · exact hempty
      · exfalso
        unfold lookupHits at hlookup
        rw [hoff] at hlookup
        cases hlookup
        rcases hadd with hany | hpos
        · obtain ⟨hit, hhit, hne⟩ := any_eq_true.mp hany
          obtain ⟨_, _, rfl⟩ := mem_map.mp hhit
          simp at hne
        · omega
    refine admission_new hc (hself.congr hsame) ?_ hsep hfit htotal htokens hmain hadd hest hfree
    intro m' hm'
    obtain ⟨g, hg⟩ := getElem?_of_mem hm'
    obtain ⟨m, hm, hlen, hcached, _⟩ := KVCacheCoordinator.forall₂_getElem?_right htables hg
    obtain ⟨hblocks, hnot⟩ := hempty m (mem_of_getElem? hm)
    rw [hblocks, length_nil, length_eq_zero_iff] at hlen
    exact ⟨hlen, hcached ▸ hnot⟩
  · -- Nothing is added: the tables cover all computed tokens.
    have hadd' := not_or.mp hadd
    have hzero : n = 0 := by
      unfold lookupHits at hlookup
      split at hlookup
      · obtain ⟨_, _, hpos⟩ := getComputedBlocks_length hkv.coordinator.wf hlookup
        by_contra hne
        exact hadd'.1 (hpos (by omega))
      · cases hlookup
        rfl
    have hcover : ∀ m ∈ c.singleTypeManagers,
        r.numComputedTokens + n + a.numExternalComputedTokens ≤
          (m.blocksOf r.requestId).length * m.blockSize := by
      intro m' hm'
      obtain ⟨g, hg⟩ := getElem?_of_mem hm'
      obtain ⟨m, hm, hlen, _, hsize⟩ := KVCacheCoordinator.forall₂_getElem?_right htables hg
      rw [hlen, hsize]
      rcases hcall.state with ⟨hstart, _⟩ | ⟨_, _, hcov⟩
      · have hnonneg : (0 : Int) ≤ (m.blocksOf r.requestId).length * m.blockSize :=
          Int.mul_nonneg (by omega) (by omega)
        omega
      · have hm' := hcov m (mem_of_getElem? hm)
        omega
    have hnone : ∀ hit ∈ hits, hit = [] := by
      intro hit hhit
      by_contra hne
      apply hadd'.1
      rw [any_eq_true]
      exact ⟨hit, hhit, by simpa using hne⟩
    exact iff_of_true
      (admission_covered hc (hself.congr hsame) hsep htotal hcover hmain hadd hest hfree)
      (undisturbed_of_none hnone _)

/-! ### A model with full attention and a sliding window -/

def fullAndWindowConfig : KVCacheConfig where
  numBlocks := 9
  kvCacheGroups :=
    [⟨1, .fullAttention (oneHead 1) 1 none none, succ_pos 0⟩,
      ⟨1, .slidingWindow (oneHead 2) 3 (succ_pos 2), succ_pos 0⟩]

def plainRequest (rid : ReqId) (tokens : List Token) : Request Transcript where
  requestId := rid
  allTokenIds := tokens
  blockHashes := (List.range tokens.length).map fun i =>
    (tokens.take (i + 1)).reverse.map fun t => ([t], none)

def oneExternalToken : SlotArgs := { numNewTokens := 1, numExternalComputedTokens := 1 }

def prefixRequest : Request Transcript := plainRequest 1 [7, 8, 9, 10]

def freedPrefixOps : List (KVOp Transcript) :=
  [.allocateSlots (plainRequest 0 [7, 8]) true { numNewTokens := 2 }, .free 0]

/-- Another request is freed later, so that the cached blocks come first. -/
def freedPrefixFirstOps : List (KVOp Transcript) :=
  [.allocateSlots (plainRequest 0 [7, 8]) true { numNewTokens := 2 },
    .allocateSlots (plainRequest 2 [5, 6]) true { numNewTokens := 2 }, .free 0, .free 2]

structure PrefixCall (kv : KVCacheManager Transcript) (c : KVCacheCoordinator Transcript) :
    Prop where
  lookup : kv.lookupHits prefixRequest true = .ok ([[1, 2], [3, 4]], 2)
  managers : ∀ m ∈ kv.coordinator.singleTypeManagers, m.blockSize = 1 ∧ m.blocksOf 1 = [] ∧
    m.numCachedBlock.contains 1 = false ∧ m.spec.isSelfAttention = true
  maxModelLen : kv.maxModelLen = 8
  skipped : kv.coordinator.removeSkippedBlocks prefixRequest.requestId
    (kv.totalComputedTokens prefixRequest (2 : Nat) oneExternalToken) = .ok c
  estimate : c.getNumBlocksToAllocate prefixRequest.requestId
    (kv.numTokensNeedSlot prefixRequest (2 : Nat) oneExternalToken) [[1, 2], [3, 4]]
    oneExternalToken.numEncoderTokens (prefixRequest.numComputedTokens + (2 : Nat) +
      oneExternalToken.numExternalComputedTokens)
    (kv.numTokensMainModel prefixRequest (2 : Nat) oneExternalToken) = .ok 7
  free : 7 ≤ c.blockPool.getNumFreeBlocks

theorem PrefixCall.covered {kv : KVCacheManager Transcript} {c : KVCacheCoordinator Transcript}
    (h : PrefixCall kv c) :
    kv.HitsCovered (.allocateSlots prefixRequest true oneExternalToken) := by
  intro _ hits n hlookup g hit m hg hm
  rw [h.lookup] at hlookup
  cases hlookup
  rw [(h.managers m (mem_of_getElem? hm)).1]
  have hlen : hit.length = 2 := by
    have hmem := mem_of_getElem? hg
    simp only [mem_cons, not_mem_nil, or_false] at hmem
    rcases hmem with rfl | rfl <;> rfl
  rw [hlen]
  decide

theorem PrefixCall.slotsCall {kv : KVCacheManager Transcript}
    {c : KVCacheCoordinator Transcript} (h : PrefixCall kv c) :
    kv.SlotsCall prefixRequest true oneExternalToken where
  numLookaheadTokens := by decide
  something := by decide
  fits := by
    intro hits n hlookup
    rw [h.lookup] at hlookup
    cases hlookup
    rw [h.maxModelLen]
    decide
  state := .inl ⟨rfl, fun m hm => ⟨(h.managers m hm).2.1, (h.managers m hm).2.2.1⟩⟩

theorem prefixRequest_hashChain : HashChain transcriptFns prefixRequest :=
  ⟨⟨_, _, rfl⟩, ⟨_, _, rfl⟩, ⟨_, _, rfl⟩, ⟨_, _, rfl⟩, trivial⟩

theorem reachable_of_freedOps {ops : List (KVOp Transcript)} (hops : ∀ op ∈ ops,
      (∃ rid tokens, op = .allocateSlots (plainRequest rid tokens) true { numNewTokens := 2 } ∧
        HashChain transcriptFns (plainRequest rid tokens)) ∨ ∃ rid, op = .free rid)
    {kv₀ kv : KVCacheManager Transcript}
    (hcreate : create fullAndWindowConfig 8 1 true false false 1 1 = .ok kv₀)
    (hrun : runOps (runKVOp transcriptFns) kv₀ ops = .ok kv) :
    KVReachableCovered transcriptFns kv := by
  refine Reachable.runOps_of_forall
    (.start ⟨_, 8, 1, true, false, false, 1, 1, by decide, by decide, hcreate⟩) ?_ hrun
  intro op hop u
  rcases hops op hop with ⟨rid, tokens, rfl, hchain⟩ | ⟨rid, rfl⟩
  · refine ⟨⟨hchain, Int.le_refl 0, by decide, by decide⟩, ?_⟩
    exact fun hext => absurd hext (by decide)
  · exact ⟨trivial, trivial⟩

/-- The call takes four hits, a fresh block of each group for the external token, and
one for the token to compute, of which the window skips the first. -/
theorem admission_exact_freed : ∃ kv c, KVReachableCovered transcriptFns kv ∧
    kv.AllocatesExactly c prefixRequest (2 : Nat) [[1, 2], [3, 4]] oneExternalToken 7 := by
  obtain ⟨kv₀, hcreate⟩ : ∃ kv : KVCacheManager Transcript,
      create fullAndWindowConfig 8 1 true false false 1 1 = .ok kv := ⟨_, rfl⟩
  obtain ⟨kv, c, hrun, hcall, hundisturbed⟩ : ∃ kv c,
      runOps (runKVOp transcriptFns) kv₀ freedPrefixOps = .ok kv ∧ PrefixCall kv c ∧
        Undisturbed c.blockPool.freeBlockQueue.blocks
          (c.computedDemands [[1, 2], [3, 4]] (prefixRequest.numComputedTokens + (2 : Nat))
            oneExternalToken.numExternalComputedTokens) := by
    cases hcreate
    exact ⟨_, _, rfl, ⟨rfl, by decide, rfl, rfl, rfl, by decide⟩, by decide⟩
  have hreach : KVReachableCovered transcriptFns kv := by
    refine reachable_of_freedOps ?_ hcreate hrun
    intro op hop
    simp only [freedPrefixOps, mem_cons, not_mem_nil, or_false] at hop
    rcases hop with rfl | rfl
    · exact .inl ⟨0, [7, 8], rfl, ⟨_, _, rfl⟩, ⟨_, _, rfl⟩, trivial⟩
    · exact .inr ⟨0, rfl⟩
  refine ⟨kv, c, hreach, ?_⟩
  exact (admission_exact transcriptFns_collisionFree hreach
    (fun m hm => (hcall.managers m hm).2.2.2)
    ⟨prefixRequest_hashChain, by decide, by decide, by decide⟩ hcall.slotsCall hcall.covered
    hcall.lookup hcall.skipped hcall.estimate hcall.free).mpr hundisturbed

/-- With the cached blocks at the front of the queue, the first group pops block 4 for
its external token, which the second group then touches as its hit. -/
theorem admission_not_exact : ¬∀ (kv : KVCacheManager Transcript), KVReachable transcriptFns kv →
    kv.coordinator.SelfAttention → ∀ (r : Request Transcript) (lookup : Bool) (a : SlotArgs),
    KVOpAllowed transcriptFns (.allocateSlots r lookup a) → kv.SlotsCall r lookup a →
    ∀ hits n, kv.lookupHits r lookup = .ok (hits, n) → ∀ c,
    kv.coordinator.removeSkippedBlocks r.requestId (kv.totalComputedTokens r n a) = .ok c →
    ∀ est, c.getNumBlocksToAllocate r.requestId (kv.numTokensNeedSlot r n a) hits
      a.numEncoderTokens (r.numComputedTokens + n + a.numExternalComputedTokens)
      (kv.numTokensMainModel r n a) = .ok est →
    est ≤ c.blockPool.getNumFreeBlocks → kv.AllocatesExactly c r n hits a est := by
  intro hall
  obtain ⟨kv₀, hcreate⟩ : ∃ kv : KVCacheManager Transcript,
      create fullAndWindowConfig 8 1 true false false 1 1 = .ok kv := ⟨_, rfl⟩
  obtain ⟨kv, c, c', blocks, hrun, hcall, halloc, hlen⟩ : ∃ kv c c' blocks,
      runOps (runKVOp transcriptFns) kv₀ freedPrefixFirstOps = .ok kv ∧ PrefixCall kv c ∧
        kv.allocateBlocks c prefixRequest (2 : Nat) [[1, 2], [3, 4]] oneExternalToken =
          .ok (blocks, c') ∧
        c.blockPool.freeBlockQueue.blocks.length =
          c'.blockPool.freeBlockQueue.blocks.length + 6 := by
    cases hcreate
    exact ⟨_, _, _, _, rfl, ⟨rfl, by decide, rfl, rfl, rfl, by decide⟩, rfl, by decide⟩
  have hreach : KVReachableCovered transcriptFns kv := by
    refine reachable_of_freedOps ?_ hcreate hrun
    intro op hop
    simp only [freedPrefixFirstOps, mem_cons, not_mem_nil, or_false] at hop
    rcases hop with rfl | rfl | rfl | rfl
    · exact .inl ⟨0, [7, 8], rfl, ⟨_, _, rfl⟩, ⟨_, _, rfl⟩, trivial⟩
    · exact .inl ⟨2, [5, 6], rfl, ⟨_, _, rfl⟩, ⟨_, _, rfl⟩, trivial⟩
    · exact .inr ⟨0, rfl⟩
    · exact .inr ⟨2, rfl⟩
  have hexact := hall kv (hreach.mono (fun _ h => h) fun _ _ ⟨op, hop, hstep⟩ => ⟨op, hop.1, hstep⟩)
    (fun m hm => (hcall.managers m hm).2.2.2) prefixRequest true oneExternalToken
    ⟨prefixRequest_hashChain, by decide, by decide, by decide⟩ hcall.slotsCall _ _ hcall.lookup c
    hcall.skipped 7 hcall.estimate hcall.free
  obtain ⟨blocks', c'', halloc', hlen'⟩ := hexact
  rw [halloc] at halloc'
  cases halloc'
  omega

end KVCacheManager

end VllmCore
