import VllmCore.BlockPool.HashConsistency
/-!
# Reference counts and the free queue

The references to blocks that the tables of all requests hold are a multiset.
`PoolInv` says that the pool counts exactly these: every block other than the
null block has as many references as the multiset has occurrences of it, and it
is queued, once, exactly when there are none.  A set of reserved blocks is taken
out of the queue for good.
-/

namespace VllmCore

open List Support

variable {D : Type} [DecidableEq D]

namespace BlockPool

/-- The pool counts the references of `M`; the blocks of `R` are reserved. -/
structure PoolInv (R : Set BlockId) (p : BlockPool D) (M : Multiset BlockId) : Prop where
  nodup : p.freeBlockQueue.blocks.Nodup
  numFree : p.freeBlockQueue.numFreeBlocks = p.freeBlockQueue.blocks.length
  refCnt : ∀ b, b ≠ p.nullBlock → (p.blocks b).refCnt = M.count b
  mem_queue : ∀ b, b ∈ p.freeBlockQueue.blocks ↔
    b < p.numGpuBlocks ∧ b ≠ p.nullBlock ∧ b ∉ R ∧ M.count b = 0
  mem_table : ∀ b ∈ M, b < p.numGpuBlocks ∧ b ∉ R
  isNull : ∀ b, (p.blocks b).isNull = true ↔ b = p.nullBlock
  null_lt : p.nullBlock < p.numGpuBlocks
  null_free : p.nullBlock ∉ R

/-- The parts of a pool that never change. -/
structure SameShape (p q : BlockPool D) : Prop where
  numGpuBlocks : q.numGpuBlocks = p.numGpuBlocks
  nullBlock : q.nullBlock = p.nullBlock
  isNull : ∀ b, (q.blocks b).isNull = (p.blocks b).isNull
  enableCaching : q.enableCaching = p.enableCaching
  hashBlockSize : q.hashBlockSize = p.hashBlockSize

theorem SameShape.refl (p : BlockPool D) : p.SameShape p :=
  ⟨rfl, rfl, fun _ => rfl, rfl, rfl⟩

variable {q s : BlockPool D} {r : Request D} {groupId : Nat} {n : Int} {ret : List BlockId}

theorem SameShape.trans {p : BlockPool D} (h : p.SameShape q) (h' : q.SameShape s) :
    p.SameShape s where
  numGpuBlocks := h'.numGpuBlocks.trans h.numGpuBlocks
  nullBlock := h'.nullBlock.trans h.nullBlock
  isNull b := (h'.isNull b).trans (h.isNull b)
  enableCaching := h'.enableCaching.trans h.enableCaching
  hashBlockSize := h'.hashBlockSize.trans h.hashBlockSize

/-- The pools have the same references and the same queue. -/
structure SameRefs (p q : BlockPool D) : Prop extends SameShape p q where
  refCnt : ∀ b, (q.blocks b).refCnt = (p.blocks b).refCnt
  queue : q.freeBlockQueue = p.freeBlockQueue

theorem SameRefs.refl (p : BlockPool D) : p.SameRefs p :=
  ⟨.refl p, fun _ => rfl, rfl⟩

theorem SameRefs.trans {p : BlockPool D} (h : p.SameRefs q) (h' : q.SameRefs s) : p.SameRefs s where
  toSameShape := h.toSameShape.trans h'.toSameShape
  refCnt b := (h'.refCnt b).trans (h.refCnt b)
  queue := h'.queue.trans h.queue

theorem PoolInv.congr {R : Set BlockId} {p : BlockPool D} {M : Multiset BlockId}
    (hp : PoolInv R p M) (h : p.SameRefs q) : PoolInv R q M where
  nodup := by rw [h.queue]; exact hp.nodup
  numFree := by rw [h.queue]; exact hp.numFree
  refCnt := by intro b hb; rw [h.refCnt]; exact hp.refCnt b (h.nullBlock ▸ hb)
  mem_queue := by
    intro b
    rw [h.queue, h.numGpuBlocks, h.nullBlock]
    exact hp.mem_queue b
  mem_table := by rw [h.numGpuBlocks]; exact hp.mem_table
  isNull := by intro b; rw [h.isNull, h.nullBlock]; exact hp.isNull b
  null_lt := by rw [h.numGpuBlocks, h.nullBlock]; exact hp.null_lt
  null_free := by rw [h.nullBlock]; exact hp.null_free

theorem PoolInv.congr_refs {R : Set BlockId} {p : BlockPool D} {M M' : Multiset BlockId}
    (hp : PoolInv R p M) (h : ∀ b, b ≠ p.nullBlock → M'.count b = M.count b) :
    PoolInv R p M' where
  nodup := hp.nodup
  numFree := hp.numFree
  refCnt := by intro b hb; rw [h b hb]; exact hp.refCnt b hb
  mem_queue := by
    intro b
    rw [hp.mem_queue b]
    by_cases hb : b = p.nullBlock
    · simp [hb]
    · rw [h b hb]
  mem_table := by
    intro b hbM
    by_cases hb : b = p.nullBlock
    · exact hb ▸ ⟨hp.null_lt, hp.null_free⟩
    · apply hp.mem_table
      rw [← Multiset.count_pos, ← h b hb]
      exact Multiset.count_pos.mpr hbM
  isNull := hp.isNull
  null_lt := hp.null_lt
  null_free := hp.null_free

/-! ## Operations that leave the references alone -/

theorem setHash_sameRefs (p : BlockPool D) (b : BlockId) (key : Option (BlockHashWithGroupId D)) :
    p.SameRefs (p.setBlock b { p.blocks b with blockHash := key }) := by
  refine ⟨⟨rfl, rfl, fun c => ?_, rfl, rfl⟩, fun c => ?_, rfl⟩
  · by_cases hc : c = b
    · subst hc; simp
    · rw [setBlock_of_ne p _ hc]
  · by_cases hc : c = b
    · subst hc; simp
    · rw [setBlock_of_ne p _ hc]

theorem maybeEvict_sameRefs (p : BlockPool D) (b : BlockId) :
    p.SameRefs (p.maybeEvictCachedBlock b).1 := by
  have hset := setHash_sameRefs p b none
  unfold maybeEvictCachedBlock
  split
  · exact .refl p
  · split
    · exact .refl p
    · dsimp only
      split
      · exact ⟨⟨rfl, rfl, hset.isNull, rfl, rfl⟩, hset.refCnt, rfl⟩
      · exact ⟨⟨rfl, rfl, hset.isNull, rfl, rfl⟩, hset.refCnt, rfl⟩

theorem cacheFullBlock_sameRefs {hashes : BlockHashListWithBlockSize D}
    {e : Nat × BlockId} {st st' : BlockPool D × List (BlockHash D)}
    (h : cacheFullBlock r hashes groupId st e = .ok st') : st.1.SameRefs st'.1 := by
  obtain ⟨p, newHashes⟩ := st
  obtain ⟨idx, b⟩ := e
  simp only [cacheFullBlock] at h
  split at h
  · rw [pure_ok] at h
    exact h ▸ .refl p
  · simp only [bind_ok, pyAssert_ok, pure_ok] at h
    obtain ⟨_, _, blockHash, _, rfl⟩ := h
    have hset := setHash_sameRefs p b (some ⟨blockHash, groupId⟩)
    exact ⟨⟨rfl, rfl, hset.isNull, rfl, rfl⟩, hset.refCnt, rfl⟩

variable {p p' : BlockPool D} {bs : List BlockId} {M : Multiset BlockId} {R : Set BlockId}
  {b : BlockId}

theorem cacheFullBlocks_sameRefs {fns : HashFns D} {blocks : List BlockId}
    {numCached numFull blockSize : Nat}
    (h : cacheFullBlocks fns p r blocks numCached numFull blockSize groupId = .ok p') :
    p.SameRefs p' := by
  unfold cacheFullBlocks at h
  split at h
  · rw [pure_ok] at h
    exact h ▸ .refl p
  · simp only [bind_ok] at h
    obtain ⟨_, _, hashes, _, ⟨q, newHashes⟩, hloop, h⟩ := h
    have hq : p.SameRefs q :=
      foldlM_inv (P := fun st => p.SameRefs st.1)
        (fun _ _ _ _ hs hx => hs.trans (cacheFullBlock_sameRefs hx))
        (show p.SameRefs (p, ([] : List (BlockHash D))).1 from .refl p) hloop
    split at h
    · simp only [bind_ok, pure_ok] at h
      obtain ⟨_, _, _, _, rfl⟩ := h
      exact hq.trans ⟨⟨rfl, rfl, fun _ => rfl, rfl, rfl⟩, fun _ => rfl, rfl⟩
    · rw [pure_ok] at h
      exact h ▸ hq

theorem evictBlocks_sameRefs (h : p.evictBlocks bs = .ok p') : p.SameRefs p' := by
  refine foldlM_inv (P := fun q => p.SameRefs q) ?_ (.refl p) h
  intro q b q' _ hq hb
  simp only [evictBlock, bind_ok, pyAssert_ok, pure_ok] at hb
  obtain ⟨_, _, rfl⟩ := hb
  exact hq.trans (maybeEvict_sameRefs q b)

theorem resetPrefixCache_sameRefs (p : BlockPool D) : p.SameRefs p.resetPrefixCache.1 := by
  unfold resetPrefixCache
  dsimp only
  split
  · exact .refl p
  · dsimp only
    split <;> exact ⟨⟨rfl, rfl, fun _ => rfl, rfl, rfl⟩, fun _ => rfl, rfl⟩

theorem takeEvents_sameRefs (p : BlockPool D) : p.SameRefs p.takeEvents.2 := by
  unfold takeEvents
  split <;> exact ⟨⟨rfl, rfl, fun _ => rfl, rfl, rfl⟩, fun _ => rfl, rfl⟩

/-! ## New references -/

theorem setRefCnt_sameShape (p : BlockPool D) (b : BlockId) (n : Int) :
    p.SameShape (p.setBlock b { p.blocks b with refCnt := n }) := by
  refine ⟨rfl, rfl, fun c => ?_, rfl, rfl⟩
  by_cases hc : c = b
  · subst hc; simp
  · rw [setBlock_of_ne p _ hc]

theorem refCnt_bump (hp : PoolInv R p M) (b c : BlockId) (hc : c ≠ p.nullBlock) :
    ((p.setBlock b { p.blocks b with refCnt := (p.blocks b).refCnt + 1 }).blocks c).refCnt
      = (b ::ₘ M).count c := by
  by_cases hcb : c = b
  · subst hcb
    simp [hp.refCnt c hc]
  · rw [setBlock_of_ne p _ hcb, Multiset.count_cons_of_ne hcb]
    exact hp.refCnt c hc

theorem PoolInv.claim (hp : PoolInv (insert b R) p M) (hlt : b < p.numGpuBlocks) (hb : b ∉ R)
    (h : claimBlock p b = .ok p') :
    PoolInv R p' (b ::ₘ M) ∧ p.SameShape p' ∧ p'.freeBlockQueue = p.freeBlockQueue := by
  have hsame : p.SameRefs (if p.enableCaching then (p.maybeEvictCachedBlock b).1 else p) := by
    split
    · exact maybeEvict_sameRefs p b
    · exact .refl p
  unfold claimBlock at h
  generalize (if p.enableCaching then (p.maybeEvictCachedBlock b).1 else p) = q at *
  have hq := hp.congr hsame
  simp only [bind_ok, pyAssert_ok, pure_ok] at h
  obtain ⟨_, _, rfl⟩ := h
  have hshape := setRefCnt_sameShape q b ((q.blocks b).refCnt + 1)
  refine ⟨⟨hq.nodup, hq.numFree, ?_, ?_, ?_, ?_, hq.null_lt, ?_⟩, ?_, hsame.queue⟩
  · intro c hc
    exact refCnt_bump hq b c hc
  · intro c
    have hmem := hq.mem_queue c
    simp only [setBlock, hmem]
    by_cases hcb : c = b
    · subst hcb
      simp
    · simp [hcb, Multiset.count_cons_of_ne hcb]
  · intro c hc
    rcases Multiset.mem_cons.mp hc with rfl | hc
    · exact ⟨hsame.numGpuBlocks.symm ▸ hlt, hb⟩
    · have hmem := hq.mem_table c hc
      exact ⟨hmem.1, fun hcR => hmem.2 (Set.mem_insert_of_mem b hcR)⟩
  · intro c
    have hnull := hshape.isNull c
    exact hnull ▸ hq.isNull c
  · exact fun hn => hq.null_free (Set.mem_insert_of_mem b hn)
  · exact hsame.toSameShape.trans ⟨rfl, rfl, hshape.isNull, rfl, rfl⟩

theorem PoolInv.popleftN {queue : FreeKVCacheBlockQueue}
    (hp : PoolInv R p M) (hn : 0 ≤ n) (h : p.freeBlockQueue.popleftN n = .ok (ret, queue)) :
    PoolInv {b | b ∈ R ∨ b ∈ ret} { p with freeBlockQueue := queue } M ∧
      ret = p.freeBlockQueue.blocks.take n.toNat ∧ ret.length = n ∧
      queue.blocks = p.freeBlockQueue.blocks.drop n.toNat := by
  have hret : ret = p.freeBlockQueue.blocks.take n.toNat ∧
      queue = ⟨p.freeBlockQueue.blocks.drop n.toNat, p.freeBlockQueue.numFreeBlocks - n⟩ ∧
      n ≤ p.freeBlockQueue.blocks.length := by
    unfold FreeKVCacheBlockQueue.popleftN at h
    split at h
    · rename_i h0
      cases h
      subst h0
      simp
    · simp only [bind_ok, pyAssert_ok] at h
      obtain ⟨_, _, _, hlen, rfl, rfl⟩ := h
      exact ⟨rfl, rfl, by omega⟩
  obtain ⟨rfl, rfl, hlen⟩ := hret
  have hsplit : p.freeBlockQueue.blocks.take n.toNat ++ p.freeBlockQueue.blocks.drop n.toNat
      = p.freeBlockQueue.blocks := take_append_drop _ _
  have hnodup := hp.nodup
  rw [← hsplit, nodup_append] at hnodup
  obtain ⟨_, hdrop, hdisj⟩ := hnodup
  refine ⟨⟨hdrop, ?_, hp.refCnt, ?_, ?_, hp.isNull, hp.null_lt, ?_⟩, rfl, ?_, rfl⟩
  · simp only [hp.numFree, length_drop]
    omega
  · intro b
    have hmem := hp.mem_queue b
    rw [← hsplit, mem_append] at hmem
    simp only [Set.mem_ofPred_eq, not_or]
    constructor
    · intro hb
      obtain ⟨hlt, hnull, hR, hcount⟩ := hmem.mp (.inr hb)
      exact ⟨hlt, hnull, ⟨hR, fun ht => hdisj b ht b hb rfl⟩, hcount⟩
    · rintro ⟨hlt, hnull, ⟨hR, ht⟩, hcount⟩
      exact (hmem.mpr ⟨hlt, hnull, hR, hcount⟩).resolve_left ht
  · intro b hb
    refine ⟨(hp.mem_table b hb).1, ?_⟩
    rintro (hR | ht)
    · exact (hp.mem_table b hb).2 hR
    · have hcount := ((hp.mem_queue b).mp (mem_of_mem_take ht)).2.2.2
      exact absurd hb (Multiset.count_eq_zero.mp hcount)
  · rintro (hR | ht)
    · exact hp.null_free hR
    · exact ((hp.mem_queue _).mp (mem_of_mem_take ht)).2.1 rfl
  · rw [length_take]
    omega

theorem PoolInv.claimAll (hnodup : ret.Nodup) : ∀ {p : BlockPool D} {M : Multiset BlockId},
      PoolInv {b | b ∈ R ∨ b ∈ ret} p M → (∀ b ∈ ret, b < p.numGpuBlocks) →
      (∀ b ∈ ret, b ∉ R) → (∀ b ∈ ret, M.count b = 0) →
      ∃ p', ret.foldlM claimBlock p = .ok p' ∧ PoolInv R p' (↑ret + M) ∧
        p.SameShape p' ∧ p'.freeBlockQueue = p.freeBlockQueue := by
  induction ret with
  | nil =>
    intro p M hp _ _ _
    refine ⟨p, rfl, ?_, .refl p, rfl⟩
    simpa using hp
  | cons b bs ih =>
    intro p M hp hlt hR hcount
    rw [nodup_cons] at hnodup
    have hset : {c | c ∈ R ∨ c ∈ b :: bs} = insert b {c | c ∈ R ∨ c ∈ bs} := by
      ext c
      simp only [mem_cons, Set.mem_ofPred_eq, Set.mem_insert_iff]
      tauto
    rw [hset] at hp
    have hbR : b ∉ {c | c ∈ R ∨ c ∈ bs} := by
      rintro (hb | hb)
      · exact hR b (by simp) hb
      · exact hnodup.1 hb
    have hsame : p.SameRefs
        (if p.enableCaching then (p.maybeEvictCachedBlock b).1 else p) := by
      split
      · exact maybeEvict_sameRefs p b
      · exact .refl p
    have hnull : b ≠ p.nullBlock := fun hb => hp.null_free (hb ▸ Set.mem_insert _ _)
    have hzero : (p.blocks b).refCnt = 0 := by
      rw [hp.refCnt b hnull, hcount b (by simp)]
      rfl
    obtain ⟨q, hq⟩ : ∃ q, claimBlock p b = .ok q := by
      unfold claimBlock
      dsimp only
      rw [pyAssert_pos (hsame.refCnt b ▸ hzero)]
      exact ⟨_, rfl⟩
    obtain ⟨hinv, hshape, hqueue⟩ := hp.claim (hlt b (by simp)) hbR hq
    obtain ⟨p', hrest, hp', hshape', hqueue'⟩ := ih hnodup.2 hinv
      (fun c hc => hshape.numGpuBlocks.symm ▸ hlt c (by simp [hc]))
      (fun c hc => hR c (by simp [hc]))
      (fun c hc => by
        have hcb : c ≠ b := fun h => hnodup.1 (h ▸ hc)
        rw [Multiset.count_cons_of_ne hcb]
        exact hcount c (by simp [hc]))
    refine ⟨p', by rw [foldlM_cons, hq]; exact hrest, ?_, hshape.trans hshape',
      hqueue'.trans hqueue⟩
    have hsum : (↑(b :: bs) : Multiset BlockId) + M = ↑bs + (b ::ₘ M) := by
      rw [← Multiset.cons_coe, Multiset.cons_add, Multiset.add_cons]
    rwa [hsum]

theorem PoolInv.of_mem_take {n : Nat} (hp : PoolInv R p M)
    (hb : b ∈ p.freeBlockQueue.blocks.take n) :
    b < p.numGpuBlocks ∧ b ≠ p.nullBlock ∧ b ∉ R ∧ M.count b = 0 :=
  (hp.mem_queue b).mp (mem_of_mem_take hb)

theorem PoolInv.getNewBlocks (hp : PoolInv R p M) (hn : 0 ≤ n)
    (h : p.getNewBlocks n = .ok (bs, p')) :
    PoolInv R p' (↑bs + M) ∧ p.SameShape p' ∧
      bs = p.freeBlockQueue.blocks.take n.toNat ∧ bs.length = n ∧
      p'.freeBlockQueue.blocks = p.freeBlockQueue.blocks.drop n.toNat := by
  unfold BlockPool.getNewBlocks at h
  simp only [bind_ok, pure_ok] at h
  obtain ⟨_, _, ⟨ret, queue⟩, hpop, q, hloop, hres⟩ := h
  obtain ⟨rfl, rfl⟩ := hres
  obtain ⟨hinv, hret, hlen, hqueue⟩ := hp.popleftN hn hpop
  have hfresh : ∀ b ∈ ret, b < p.numGpuBlocks ∧ b ≠ p.nullBlock ∧ b ∉ R ∧ M.count b = 0 :=
    fun b hb => hp.of_mem_take (hret ▸ hb)
  have hnodup : ret.Nodup := hret ▸ hp.nodup.sublist (take_sublist _ _)
  obtain ⟨p', hrun, hp', hshape, hqueue'⟩ := PoolInv.claimAll hnodup hinv
    (fun b hb => (hfresh b hb).1) (fun b hb => (hfresh b hb).2.2.1)
    (fun b hb => (hfresh b hb).2.2.2)
  rw [hrun, Except.ok.injEq] at hloop
  subst hloop
  exact ⟨hp', ⟨hshape.numGpuBlocks, hshape.nullBlock, hshape.isNull, hshape.enableCaching,
    hshape.hashBlockSize⟩, hret, hlen, hqueue' ▸ hqueue⟩

theorem PoolInv.getNewBlocks_succeeds (hp : PoolInv R p M) (hn : 0 ≤ n)
    (hfree : n ≤ p.getNumFreeBlocks) : ∃ bs p', p.getNewBlocks n = .ok (bs, p') := by
  have hlen : n.toNat ≤ p.freeBlockQueue.blocks.length := by
    have hnum := hp.numFree
    unfold getNumFreeBlocks at hfree
    omega
  obtain ⟨ret, queue, hpop⟩ : ∃ ret queue, p.freeBlockQueue.popleftN n = .ok (ret, queue) := by
    unfold FreeKVCacheBlockQueue.popleftN
    split
    · exact ⟨_, _, rfl⟩
    · have hnum : n ≤ p.freeBlockQueue.numFreeBlocks := hfree
      rw [pyAssert_pos hnum, ok_bind, pyAssert_pos hlen]
      exact ⟨_, _, rfl⟩
  obtain ⟨hinv, hret, _, _⟩ := hp.popleftN hn hpop
  have hfresh : ∀ b ∈ ret, b < p.numGpuBlocks ∧ b ≠ p.nullBlock ∧ b ∉ R ∧ M.count b = 0 :=
    fun b hb => hp.of_mem_take (hret ▸ hb)
  have hnodup : ret.Nodup := hret ▸ hp.nodup.sublist (take_sublist _ _)
  obtain ⟨p', hrun, _⟩ := PoolInv.claimAll hnodup hinv (fun b hb => (hfresh b hb).1)
    (fun b hb => (hfresh b hb).2.2.1) (fun b hb => (hfresh b hb).2.2.2)
  refine ⟨ret, p', ?_⟩
  unfold BlockPool.getNewBlocks
  rw [require_pos hfree, ok_bind, hpop, ok_bind]
  dsimp only
  rw [hrun]
  rfl

theorem PoolInv.touchBlock (hp : PoolInv R p M) (h : p.touchBlock b = .ok p') :
    PoolInv R p' (b ::ₘ M) ∧ p.SameShape p' := by
  unfold BlockPool.touchBlock at h
  simp only [bind_ok, pure_ok] at h
  obtain ⟨queue, hqueue, rfl⟩ := h
  have hshape := setRefCnt_sameShape p b ((p.blocks b).refCnt + 1)
  have hisNull : ∀ c, ((p.setBlock b { p.blocks b with
      refCnt := (p.blocks b).refCnt + 1 }).blocks c).isNull = true ↔ c = p.nullBlock := by
    intro c
    rw [hshape.isNull c]
    exact hp.isNull c
  refine ⟨?_, ⟨rfl, rfl, hshape.isNull, rfl, rfl⟩⟩
  split at hqueue
  · -- An eviction candidate: it is taken out of the queue.
    unfold FreeKVCacheBlockQueue.remove at hqueue
    split at hqueue
    · rename_i hmem
      cases hqueue
      obtain ⟨hlt, hnull, hR, hcount⟩ := (hp.mem_queue b).mp hmem
      refine ⟨hp.nodup.erase b, ?_, refCnt_bump hp b, ?_, ?_, hisNull, hp.null_lt,
        hp.null_free⟩
      · have hpos := length_pos_of_mem hmem
        simp only [length_erase_of_mem hmem, hp.numFree]
        omega
      · intro c
        simp only [setBlock, hp.nodup.mem_erase_iff,
          hp.mem_queue c]
        by_cases hcb : c = b
        · subst hcb
          simp
        · simp [hcb, Multiset.count_cons_of_ne hcb]
      · intro c hc
        rcases Multiset.mem_cons.mp hc with rfl | hc
        · exact ⟨hlt, hR⟩
        · exact hp.mem_table c hc
    · cases hqueue
  · rename_i hcand
    rw [pure_ok] at hqueue
    subst hqueue
    -- A block in use, or the null block: the queue stays as it is.
    have hkind : b = p.nullBlock ∨ b ∈ M := by
      by_cases hnull : b = p.nullBlock
      · exact .inl hnull
      · right
        have hnotNull : (p.blocks b).isNull = false := by
          have := (hp.isNull b).not.mpr hnull
          simpa using this
        have hne : (p.blocks b).refCnt ≠ 0 := fun h0 => hcand ⟨h0, hnotNull⟩
        rw [hp.refCnt b hnull] at hne
        rw [← Multiset.count_pos]
        omega
    refine ⟨hp.nodup, hp.numFree, refCnt_bump hp b, ?_, ?_, hisNull, hp.null_lt,
      hp.null_free⟩
    · intro c
      simp only [setBlock, hp.mem_queue c]
      by_cases hcb : c = b
      · subst hcb
        rcases hkind with hnull | hM
        · simp [hnull]
        · have hpos := Multiset.count_pos.mpr hM
          rw [Multiset.count_cons_self]
          constructor
          · rintro ⟨_, _, _, h0⟩
            omega
          · rintro ⟨_, _, _, h0⟩
            omega
      · rw [Multiset.count_cons_of_ne hcb]
    · have hb : b < p.numGpuBlocks ∧ b ∉ R := by
        rcases hkind with hnull | hM
        · rw [hnull]
          exact ⟨hp.null_lt, hp.null_free⟩
        · exact hp.mem_table b hM
      intro c hc
      rcases Multiset.mem_cons.mp hc with rfl | hc
      · exact hb
      · exact hp.mem_table c hc

theorem PoolInv.touch {R : Set BlockId} {p p' : BlockPool D} {M : Multiset BlockId}
    {bs : List BlockId} (hp : PoolInv R p M) (h : p.touch bs = .ok p') :
    PoolInv R p' (↑bs + M) ∧ p.SameShape p' := by
  have hend := foldlM_accumulates
    (P := fun q N => PoolInv R q N ∧ p.SameShape q) ?_ ⟨hp, .refl p⟩ h
  · exact hend
  · rintro q N b q' _ ⟨hq, hshape⟩ hb
    obtain ⟨hq', hshape'⟩ := hq.touchBlock hb
    exact ⟨hq', hshape.trans hshape'⟩

theorem PoolInv.touchBlock_succeeds (hp : PoolInv R p M) (hb : b < p.numGpuBlocks ∧ b ∉ R) :
    ∃ p', p.touchBlock b = .ok p' ∧
      p'.freeBlockQueue.blocks = p.freeBlockQueue.blocks.filter (· ≠ b) := by
  have herase : p.freeBlockQueue.blocks.erase b = p.freeBlockQueue.blocks.filter (· ≠ b) := by
    rw [hp.nodup.erase_eq_filter]
    apply filter_congr
    intro c _
    rw [decide_not]
    rfl
  unfold BlockPool.touchBlock
  dsimp only
  split
  · rename_i hcand
    obtain ⟨hzero, hnotNull⟩ := hcand
    have hnull : b ≠ p.nullBlock := by
      intro heq
      rw [(hp.isNull b).mpr heq] at hnotNull
      cases hnotNull
    rw [hp.refCnt b hnull] at hzero
    have hmem := (hp.mem_queue b).mpr ⟨hb.1, hnull, hb.2, by omega⟩
    unfold FreeKVCacheBlockQueue.remove
    rw [if_pos hmem]
    exact ⟨_, rfl, herase⟩
  · rename_i hcand
    refine ⟨_, rfl, ?_⟩
    have hnot : b ∉ p.freeBlockQueue.blocks := by
      intro hmem
      obtain ⟨_, hnull, _, hcount⟩ := (hp.mem_queue b).mp hmem
      apply hcand
      refine ⟨?_, by simpa using (hp.isNull b).not.mpr hnull⟩
      rw [hp.refCnt b hnull, hcount]
      rfl
    rw [← herase, erase_of_not_mem hnot]

/-- `touch` does not fail on blocks in circulation, and takes those that were queued
out of the queue. -/
theorem PoolInv.touch_succeeds :
    ∀ {p : BlockPool D} {M : Multiset BlockId}, PoolInv R p M →
      (∀ b ∈ bs, b < p.numGpuBlocks ∧ b ∉ R) → ∃ p', p.touch bs = .ok p' ∧
        p'.freeBlockQueue.blocks = p.freeBlockQueue.blocks.filter (· ∉ bs) := by
  induction bs with
  | nil =>
    intro p M _ _
    exact ⟨p, rfl, by simp⟩
  | cons b bs ih =>
    intro p M hp hbs
    obtain ⟨q, hq, hqueue⟩ := hp.touchBlock_succeeds (hbs b (by simp))
    obtain ⟨hinv, hshape⟩ := hp.touchBlock hq
    obtain ⟨p', hrun, hqueue'⟩ := ih hinv fun c hc => by
      rw [hshape.numGpuBlocks]
      exact hbs c (by simp [hc])
    refine ⟨p', ?_, ?_⟩
    · unfold BlockPool.touch at hrun ⊢
      rw [foldlM_cons, hq]
      exact hrun
    · rw [hqueue', hqueue, filter_filter]
      apply filter_congr
      intro c _
      rw [Bool.eq_iff_iff]
      simp only [ne_eq, Bool.and_eq_true, decide_eq_true_eq, mem_cons, not_or]
      exact and_comm

theorem dropRefs_shape (bs : List BlockId) (p : BlockPool D) :
    p.SameShape (bs.foldl dropRef p) ∧
      (bs.foldl dropRef p).freeBlockQueue = p.freeBlockQueue ∧
      ∀ c, ((bs.foldl dropRef p).blocks c).refCnt = (p.blocks c).refCnt - bs.count c := by
  induction bs generalizing p with
  | nil => exact ⟨.refl p, rfl, by simp⟩
  | cons b bs ih =>
    obtain ⟨hshape, hqueue, hcount⟩ := ih (p.dropRef b)
    have hfirst : p.SameShape (p.dropRef b) := setRefCnt_sameShape p b _
    refine ⟨hfirst.trans hshape, hqueue, ?_⟩
    intro c
    rw [foldl_cons, hcount c, count_cons]
    by_cases hcb : c = b
    · subst hcb
      simp only [dropRef, setBlock_self, beq_self_eq_true, if_true]
      omega
    · have hbc : (b == c) = false := beq_eq_false_iff_ne.mpr (Ne.symm hcb)
      simp [dropRef, setBlock_of_ne p _ hcb, hbc]

theorem PoolInv.freeBlocks (hp : PoolInv R p (↑bs + M))
    (hnodup : (bs.filter fun b => b ≠ p.nullBlock).Nodup) :
    PoolInv R (p.freeBlocks bs) M ∧ p.SameShape (p.freeBlocks bs) := by
  obtain ⟨hshape, hqueue, hdrop⟩ := dropRefs_shape bs p
  unfold BlockPool.freeBlocks
  set q := bs.foldl dropRef p with hq
  have hrefCnt : ∀ b, b ≠ p.nullBlock → (q.blocks b).refCnt = M.count b := by
    intro b hb
    rw [hdrop b, hp.refCnt b hb, Multiset.count_add, Multiset.coe_count]
    omega
  have hisNull : ∀ b, (q.blocks b).isNull = true ↔ b = p.nullBlock := by
    intro b
    rw [hshape.isNull b]
    exact hp.isNull b
  -- What is queued: the listed real blocks without references.
  have hfreed : ∀ b, b ∈ (bs.filter fun b =>
      decide ((q.blocks b).refCnt = 0) && !(q.blocks b).isNull) ↔
      b ∈ bs ∧ b ≠ p.nullBlock ∧ M.count b = 0 := by
    intro b
    have hnull := hisNull b
    rw [mem_filter, Bool.and_eq_true, decide_eq_true_eq, Bool.not_eq_true',
      ← Bool.not_eq_true, hnull]
    constructor
    · rintro ⟨hb, h0, hne⟩
      rw [hrefCnt b hne] at h0
      exact ⟨hb, hne, by omega⟩
    · rintro ⟨hb, hne, h0⟩
      refine ⟨hb, ?_, hne⟩
      rw [hrefCnt b hne]
      omega
  have hfreedNodup : (bs.filter fun b =>
      decide ((q.blocks b).refCnt = 0) && !(q.blocks b).isNull).Nodup := by
    refine hnodup.sublist ?_
    refine monotone_filter_right bs ?_
    intro b hb
    rw [Bool.and_eq_true, Bool.not_eq_true', ← Bool.not_eq_true, hisNull b] at hb
    simpa using hb.2
  have hold : ∀ b, b ∈ p.freeBlockQueue.blocks ↔
      b < p.numGpuBlocks ∧ b ≠ p.nullBlock ∧ b ∉ R ∧ b ∉ bs ∧ M.count b = 0 := by
    intro b
    rw [hp.mem_queue b, Multiset.count_add, Multiset.coe_count, Nat.add_eq_zero_iff,
      count_eq_zero]
  refine ⟨⟨?_, ?_, ?_, ?_, ?_, ?_, ?_, ?_⟩, ⟨hshape.numGpuBlocks, hshape.nullBlock,
    hshape.isNull, hshape.enableCaching, hshape.hashBlockSize⟩⟩
  · simp only [FreeKVCacheBlockQueue.appendN, hqueue]
    rw [nodup_append]
    refine ⟨hp.nodup, hfreedNodup, ?_⟩
    rintro b hb c hc rfl
    exact ((hold b).mp hb).2.2.2.1 ((hfreed b).mp hc).1
  · simp only [FreeKVCacheBlockQueue.appendN, hqueue, hp.numFree, length_append]
    omega
  · simp only [hshape.nullBlock]
    exact hrefCnt
  · intro b
    simp only [FreeKVCacheBlockQueue.appendN, hqueue, hshape.numGpuBlocks,
      hshape.nullBlock, mem_append, hold b, hfreed b]
    constructor
    · rintro (⟨hlt, hne, hR, _, h0⟩ | ⟨hb, hne, h0⟩)
      · exact ⟨hlt, hne, hR, h0⟩
      · have hin := hp.mem_table b (by simp [hb])
        exact ⟨hin.1, hne, hin.2, h0⟩
    · rintro ⟨hlt, hne, hR, h0⟩
      by_cases hb : b ∈ bs
      · exact .inr ⟨hb, hne, h0⟩
      · exact .inl ⟨hlt, hne, hR, hb, h0⟩
  · intro b hb
    rw [hshape.numGpuBlocks]
    exact hp.mem_table b (by simp [hb])
  · simp only [hshape.nullBlock]
    exact hisNull
  · simp only [hshape.numGpuBlocks, hshape.nullBlock]
    exact hp.null_lt
  · simp only [hshape.nullBlock]
    exact hp.null_free

theorem create_poolInv {n hashBlockSize : Nat} {caching events : Bool}
    (h : create n caching hashBlockSize events = .ok p) :
    PoolInv ∅ p 0 ∧ p.enableCaching = caching ∧ p.hashBlockSize = hashBlockSize := by
  unfold create at h
  simp only [bind_ok, pyAssert_ok, pure_ok] at h
  obtain ⟨_, hpos, ⟨nullBlock, queue⟩, hpop, rfl⟩ := h
  obtain ⟨m, rfl⟩ : ∃ m, n = m + 1 := ⟨n - 1, by omega⟩
  unfold FreeKVCacheBlockQueue.create FreeKVCacheBlockQueue.popleft at hpop
  simp only [range_succ_eq_map, Except.ok.injEq, Prod.mk.injEq] at hpop
  obtain ⟨rfl, rfl⟩ := hpop
  refine ⟨⟨?_, ?_, ?_, ?_, ?_, ?_, ?_, ?_⟩, rfl, rfl⟩
  · exact (nodup_map_iff Nat.succ_injective).mpr nodup_range
  · simp
  · intro b hb
    simp only [Function.update_of_ne hb, Multiset.count_zero]
    rfl
  · intro b
    cases b with
    | zero => simp
    | succ b => simp
  · simp
  · intro b
    by_cases hb : b = 0
    · subst hb; simp
    · simp [hb]
  · simp
  · simp

theorem PoolInv.reserveSinkBlocks {n : Nat} (hp : PoolInv R p M)
    (h : p.reserveSinkBlocks n = .ok (bs, p')) :
    PoolInv {b | b ∈ R ∨ b ∈ bs} p' M ∧ p.SameShape p' := by
  unfold BlockPool.reserveSinkBlocks at h
  simp only [bind_ok, pure_ok] at h
  obtain ⟨⟨ret, queue⟩, hpop, hres⟩ := h
  cases hres
  exact ⟨(hp.popleftN (Int.natCast_nonneg n) hpop).1, ⟨rfl, rfl, fun _ => rfl, rfl, rfl⟩⟩

/-- With no references left, every block that is neither reserved nor the null
block is free, and is queued once. -/
theorem PoolInv.all_free (hp : PoolInv R p M) (hM : ∀ b, b ≠ p.nullBlock → M.count b = 0)
    (hlt : b < p.numGpuBlocks) (hnull : b ≠ p.nullBlock) (hR : b ∉ R) :
    (p.blocks b).refCnt = 0 ∧ p.freeBlockQueue.blocks.count b = 1 := by
  have hmem : b ∈ p.freeBlockQueue.blocks := (hp.mem_queue b).mpr ⟨hlt, hnull, hR, hM b hnull⟩
  refine ⟨?_, count_eq_one_of_mem hp.nodup hmem⟩
  rw [hp.refCnt b hnull, hM b hnull]
  rfl

end BlockPool

end VllmCore
