import VllmCore.BlockPool.Registration
import VllmCore.KVCacheManager.Runs
/-!
# The calls of the pool behind a call of the manager

Every call of the KV cache manager reaches the pool through the calls of the pool
only, and changes no configuration.  This needs no invariant, and holds for any
arguments.  Blocks are registered on behalf of the request that is passed in.
-/

namespace VllmCore

open Support

variable {D : Type} [DecidableEq D]

namespace BlockPool

variable {fns : HashFns D} {good : Request D → Prop}

/-! ## Shape -/

variable {p p' : BlockPool D}

theorem touch_sameShape {bs : List BlockId} (h : p.touch bs = .ok p') : p.SameShape p' := by
  refine foldlM_inv (P := fun q => p.SameShape q) ?_ (.refl p) h
  intro q b q' _ hq hb
  simp only [touchBlock, bind_ok, pure_ok] at hb
  obtain ⟨queue, _, rfl⟩ := hb
  have hset := setRefCnt_sameShape q b ((q.blocks b).refCnt + 1)
  exact hq.trans ⟨rfl, rfl, hset.isNull, rfl, rfl⟩

theorem claimBlock_sameShape {b : BlockId} (h : claimBlock p b = .ok p') : p.SameShape p' := by
  have hevict : p.SameShape (if p.enableCaching then (p.maybeEvictCachedBlock b).1 else p) := by
    split
    · exact (maybeEvict_sameRefs p b).toSameShape
    · exact .refl p
  unfold claimBlock at h
  generalize (if p.enableCaching then (p.maybeEvictCachedBlock b).1 else p) = q at *
  simp only [bind_ok, pyAssert_ok, pure_ok] at h
  obtain ⟨_, _, rfl⟩ := h
  have hset := setRefCnt_sameShape q b ((q.blocks b).refCnt + 1)
  exact hevict.trans ⟨rfl, rfl, hset.isNull, rfl, rfl⟩

theorem getNewBlocks_sameShape {n : Int} {bs : List BlockId} (h : p.getNewBlocks n = .ok (bs, p')) :
    p.SameShape p' := by
  unfold BlockPool.getNewBlocks at h
  simp only [bind_ok, pure_ok] at h
  obtain ⟨_, _, ⟨ret, queue⟩, _, q, hloop, hres⟩ := h
  cases hres
  have hstart : p.SameShape { p with freeBlockQueue := queue } :=
    ⟨rfl, rfl, fun _ => rfl, rfl, rfl⟩
  exact foldlM_inv (P := fun q => p.SameShape q)
    (fun _ _ _ _ hs hx => hs.trans (claimBlock_sameShape hx)) hstart hloop

theorem freeBlocks_sameShape (p : BlockPool D) (bs : List BlockId) :
    p.SameShape (p.freeBlocks bs) := by
  have hdrop : ∀ (bs : List BlockId) (p : BlockPool D), p.SameShape (bs.foldl dropRef p) := by
    intro bs
    induction bs with
    | nil => exact .refl
    | cons b bs ih =>
      intro p
      have hfirst : p.SameShape (p.dropRef b) := setRefCnt_sameShape p b _
      exact hfirst.trans (ih (p.dropRef b))
  have h := hdrop bs p
  exact ⟨h.numGpuBlocks, h.nullBlock, h.isNull, h.enableCaching, h.hashBlockSize⟩

theorem runPoolOp_sameShape {op : PoolOp D} (h : runPoolOp fns p op = .ok p') : p.SameShape p' := by
  cases op with
  | cacheFullBlocks r blocks numCached numFull blockSize groupId =>
    exact (cacheFullBlocks_sameRefs h).toSameShape
  | getNewBlocks n =>
    obtain ⟨bs, h⟩ := map_snd_ok.mp h
    exact getNewBlocks_sameShape h
  | touch blocks => exact touch_sameShape h
  | freeBlocks blocks =>
    cases h
    exact freeBlocks_sameShape p blocks
  | evictBlocks blocks => exact (evictBlocks_sameRefs h).toSameShape
  | resetPrefixCache =>
    cases h
    exact (resetPrefixCache_sameRefs p).toSameShape
  | takeEvents =>
    cases h
    exact (takeEvents_sameRefs p).toSameShape
  | reserveSinkBlocks n =>
    obtain ⟨bs, h⟩ := map_snd_ok.mp h
    unfold reserveSinkBlocks at h
    simp only [bind_ok, pure_ok] at h
    obtain ⟨⟨ret, queue⟩, _, hres⟩ := h
    cases hres
    exact ⟨rfl, rfl, fun _ => rfl, rfl, rfl⟩

namespace PoolSteps

theorem refl (p : BlockPool D) : PoolSteps fns good p p := Relation.ReflTransGen.refl

variable {p : BlockPool D}

theorem trans {q s : BlockPool D} (h : PoolSteps fns good p q) (h' : PoolSteps fns good q s) :
    PoolSteps fns good p s := Relation.ReflTransGen.trans h h'

theorem sameShape {p' : BlockPool D} (h : PoolSteps fns good p p') : p.SameShape p' := by
  induction h with
  | refl => exact .refl p
  | tail _ hstep ih =>
    obtain ⟨op, _, hrun⟩ := hstep
    exact ih.trans (runPoolOp_sameShape hrun)

theorem touch {p p' : BlockPool D} {bs : List BlockId} (h : p.touch bs = .ok p') :
    PoolSteps fns good p p' := .single (.touch bs) trivial h

theorem freeBlocks (p : BlockPool D) (bs : List BlockId) :
    PoolSteps fns good p (p.freeBlocks bs) := .single (.freeBlocks bs) trivial rfl

theorem getNewBlocks {p' : BlockPool D} {n : Int} {bs : List BlockId}
    (h : p.getNewBlocks n = .ok (bs, p')) : PoolSteps fns good p p' :=
  .single (.getNewBlocks n) trivial (map_snd_ok.mpr ⟨bs, h⟩)

end PoolSteps

end BlockPool

open BlockPool (PoolSteps)

/-! ## Managers -/

namespace SingleTypeKVCacheManager

variable {fns : HashFns D} {good : Request D → Prop}

theorem removeSkippedBlocksBase_poolSteps (m : SingleTypeKVCacheManager D) (p : BlockPool D)
    (rid : ReqId) (n : Int) : PoolSteps fns good p (m.removeSkippedBlocksBase p rid n).2 := by
  unfold removeSkippedBlocksBase
  dsimp only
  split
  · exact .refl p
  · exact .freeBlocks p _

variable {m m' : SingleTypeKVCacheManager D} {n : Int} {p p' : BlockPool D} {rid : ReqId}

theorem removeLastStateBlock_poolSteps (h : m.removeLastStateBlock p rid n = .ok (m', p')) :
    PoolSteps fns good p p' := by
  unfold removeLastStateBlock at h
  split at h
  · cases h
    exact .refl p
  · split at h
    · simp only [bind_ok] at h
      obtain ⟨b, _, h⟩ := h
      split at h
      · cases h
        exact .refl p
      · simp only [bind_ok, pure_ok] at h
        obtain ⟨blocks, _, hres⟩ := h
        cases hres
        exact .freeBlocks p [b]
    · cases h
      exact .refl p

theorem removeSkippedBlocks_poolSteps (h : m.removeSkippedBlocks p rid n = .ok (m', p')) :
    PoolSteps fns good p p' := by
  unfold removeSkippedBlocks at h
  split at h
  · rename_i numSpec _
    have hbase : PoolSteps fns good p _ :=
      m.removeSkippedBlocksBase_poolSteps p rid (max 0 (n - numSpec))
    split at h
    · exact hbase.trans (removeLastStateBlock_poolSteps h)
    · cases h
      exact hbase
  · have hbase : PoolSteps fns good p _ := m.removeSkippedBlocksBase_poolSteps p rid n
    rwa [pure_ok.mp h] at hbase

theorem allocateNewBlocksBase_poolSteps {bs : List BlockId}
    (h : m.allocateNewBlocksBase p rid n = .ok (bs, m', p')) : PoolSteps fns good p p' := by
  unfold allocateNewBlocksBase at h
  dsimp only at h
  split at h
  · cases h
    exact .refl p
  · simp only [bind_ok, pure_ok] at h
    obtain ⟨⟨new, q⟩, hnew, hres⟩ := h
    cases hres
    exact .getNewBlocks hnew

theorem allocateNewBlocks_poolSteps {bs : List BlockId} {n' : Int}
    (h : m.allocateNewBlocks p rid n n' = .ok (bs, m', p')) : PoolSteps fns good p p' := by
  unfold allocateNewBlocks at h
  split at h
  · split at h
    · unfold allocateNewBlocksAlign at h
      dsimp only at h
      split at h
      · cases h
        exact .refl p
      · simp only [bind_ok, pyAssert_ok, pure_ok] at h
        obtain ⟨_, _, T, _, _, _, ⟨new, q⟩, hnew, hres⟩ := h
        cases hres
        exact .getNewBlocks hnew
    · exact allocateNewBlocksBase_poolSteps h
  · exact allocateNewBlocksBase_poolSteps h

theorem allocateNewComputedBlocks_poolSteps {hits : List BlockId} {numLocal numExternal : Int}
    (h : m.allocateNewComputedBlocks p rid hits numLocal numExternal = .ok (m', p')) :
    PoolSteps fns good p p' := by
  unfold allocateNewComputedBlocks at h
  split at h
  · simp only [bind_ok, pure_ok] at h
    obtain ⟨_, _, hres⟩ := h
    cases hres
    exact .refl p
  · simp only [bind_ok] at h
    obtain ⟨_, _, q, hq, h⟩ := h
    have htouch : PoolSteps fns good p q := by
      split at hq
      · exact .touch hq
      · simp only [bind_ok, pure_ok] at hq
        obtain ⟨_, _, rfl⟩ := hq
        exact .refl p
    generalize (if 0 < m.getNumSkippedTokens (numLocal + numExternal) / (m.blockSize : Int)
      then min (numLocal + numExternal - m.getNumSkippedTokens (numLocal + numExternal))
        numExternal else numExternal) = ext at h
    split at h
    · simp only [bind_ok, pure_ok] at h
      obtain ⟨⟨new, q'⟩, hnew, hres⟩ := h
      cases hres
      exact htouch.trans (.getNewBlocks hnew)
    · cases h
      exact htouch

theorem cacheBlocksBase_poolSteps {r : Request D} (hcaching : p.enableCaching = true)
    (hgood : good r) (h : m.cacheBlocksBase fns p r n = .ok (m', p')) :
    PoolSteps fns good p p' := by
  unfold cacheBlocksBase at h
  dsimp only at h
  split at h
  · cases h
    exact .refl p
  · simp only [bind_ok, pure_ok] at h
    obtain ⟨q, hcache, hres⟩ := h
    cases hres
    exact .single (.cacheFullBlocks r (m.blocksOf r.requestId)
      ((m.numCachedBlock.get? r.requestId).getD 0) (n / m.blockSize).toNat m.blockSize
      m.kvCacheGroupId) ⟨hcaching, hgood⟩ hcache

theorem cacheBlocks_poolSteps {r : Request D} (hcaching : p.enableCaching = true) (hgood : good r)
    (h : m.cacheBlocks fns p r n = .ok (m', p')) : PoolSteps fns good p p' := by
  unfold cacheBlocks at h
  split at h
  · cases h
  · simp only [bind_ok, pure_ok] at h
    obtain ⟨⟨m₁, p₁⟩, hbase, keys, _, hres⟩ := h
    cases hres
    exact cacheBlocksBase_poolSteps hcaching hgood hbase
  · exact cacheBlocksBase_poolSteps hcaching hgood h

end SingleTypeKVCacheManager

/-! ## The coordinator -/

namespace KVCacheCoordinator

variable {fns : HashFns D} {good : Request D → Prop}

structure Moves (fns : HashFns D) (good : Request D → Prop) (c c' : KVCacheCoordinator D) :
    Prop where
  config : c.SameConfig c'
  pool : PoolSteps fns good c.blockPool c'.blockPool

theorem Moves.refl (c : KVCacheCoordinator D) : c.Moves fns good c := ⟨.refl c, .refl _⟩

theorem Moves.trans {c₁ c₂ c₃ : KVCacheCoordinator D} (h : c₁.Moves fns good c₂)
    (h' : c₂.Moves fns good c₃) : c₁.Moves fns good c₃ :=
  ⟨h.config.trans h'.config, h.pool.trans h'.pool⟩

variable {c c' : KVCacheCoordinator D} {rid : ReqId} {n : Int}

theorem moves_of_forEachManager {α : Type} {f : Nat → SingleTypeKVCacheManager D → BlockPool D →
      Py (α × SingleTypeKVCacheManager D × BlockPool D)}
    {res : List α × List (SingleTypeKVCacheManager D) × BlockPool D}
    (hf : ∀ j m q a m' q', c.blockPool.SameShape q → f j m q = .ok (a, m', q') →
      PoolSteps fns good q q' ∧ m.SameConfig m')
    (h : forEachManager f 0 c.singleTypeManagers c.blockPool = .ok res) :
    c.Moves fns good (c.update res.2) := by
  obtain ⟨hpool, hmanagers⟩ := forEachManager_rule (P := PoolSteps fns good c.blockPool)
    (Q := SingleTypeKVCacheManager.SameConfig) (fun j m _ q a m' q' hq hcall => by
      obtain ⟨hsteps, hsame⟩ := hf (0 + j) m q a m' q' hq.sameShape hcall
      exact ⟨hq.trans hsteps, hsame⟩) (.refl _) h
  exact ⟨⟨rfl, rfl, rfl, rfl, rfl, rfl, rfl, rfl, rfl, hmanagers, hpool.sameShape⟩, hpool⟩

theorem allocateNewComputedBlocks_moves {hits : KVCacheBlocks} {numLocal numExternal : Int}
    (h : c.allocateNewComputedBlocks rid hits numLocal numExternal = .ok c') :
    c.Moves fns good c' := by
  unfold allocateNewComputedBlocks at h
  simp only [bind_ok, pure_ok] at h
  obtain ⟨res, hall, rfl⟩ := h
  refine moves_of_forEachManager ?_ hall
  intro j m q a m' q' _ hf
  simp only [bind_ok, pure_ok] at hf
  obtain ⟨blocks, _, ⟨m₁, q₁⟩, hcall, hres⟩ := hf
  cases hres
  exact ⟨SingleTypeKVCacheManager.allocateNewComputedBlocks_poolSteps hcall,
    SingleTypeKVCacheManager.allocateNewComputedBlocks_sameConfig hcall⟩

theorem allocateNewBlocks_moves {n' e : Int} {blocks : KVCacheBlocks}
    (h : c.allocateNewBlocks rid n n' e = .ok (blocks, c')) : c.Moves fns good c' := by
  unfold allocateNewBlocks at h
  simp only [bind_ok, pure_ok] at h
  obtain ⟨res, hall, hres⟩ := h
  cases hres
  exact moves_of_forEachManager
    (fun _ _ _ _ _ _ _ hcall =>
      ⟨SingleTypeKVCacheManager.allocateNewBlocks_poolSteps hcall,
        SingleTypeKVCacheManager.allocateNewBlocks_sameConfig hcall⟩) hall

theorem cacheBlocks_moves {r : Request D} (hcaching : c.blockPool.enableCaching = true)
    (hgood : good r) (h : c.cacheBlocks fns r n = .ok c') : c.Moves fns good c' := by
  unfold cacheBlocks at h
  simp only [bind_ok, pure_ok] at h
  obtain ⟨res, hall, rfl⟩ := h
  refine moves_of_forEachManager ?_ hall
  intro j m q a m' q' hshape hf
  simp only [bind_ok, pure_ok] at hf
  obtain ⟨⟨m₁, q₁⟩, hcall, hres⟩ := hf
  cases hres
  exact ⟨SingleTypeKVCacheManager.cacheBlocks_poolSteps
      (hshape.enableCaching.trans hcaching) hgood hcall,
    SingleTypeKVCacheManager.cacheBlocks_sameConfig hcall⟩

theorem free_moves (h : c.free rid = .ok c') : c.Moves fns good c' := by
  unfold free at h
  simp only [bind_ok, pure_ok] at h
  obtain ⟨res, hall, rfl⟩ := h
  refine moves_of_forEachManager ?_ hall
  intro j m q a m' q' _ hf
  cases hf
  exact ⟨.freeBlocks q _, m.free_sameConfig q rid⟩

theorem removeSkippedBlocks_moves (h : c.removeSkippedBlocks rid n = .ok c') :
    c.Moves fns good c' := by
  unfold removeSkippedBlocks at h
  simp only [bind_ok, pure_ok] at h
  obtain ⟨res, hall, rfl⟩ := h
  refine moves_of_forEachManager ?_ hall
  intro j m q a m' q' _ hf
  simp only [bind_ok, pure_ok] at hf
  obtain ⟨⟨m₁, q₁⟩, hcall, hres⟩ := hf
  cases hres
  exact ⟨SingleTypeKVCacheManager.removeSkippedBlocks_poolSteps hcall,
    SingleTypeKVCacheManager.removeSkippedBlocks_sameConfig hcall⟩

theorem moves_of_poolOp {p : BlockPool D} (h : PoolSteps fns good c.blockPool p) :
    c.Moves fns good { c with blockPool := p } :=
  ⟨⟨rfl, rfl, rfl, rfl, rfl, rfl, rfl, rfl, rfl, managers_refl _, h.sameShape⟩, h⟩

theorem moves_of_map {f : SingleTypeKVCacheManager D → SingleTypeKVCacheManager D}
    (hf : ∀ m : SingleTypeKVCacheManager D, m.SameConfig (f m)) :
    c.Moves fns good { c with singleTypeManagers := c.singleTypeManagers.map f } := by
  have hall : ∀ ms : List (SingleTypeKVCacheManager D),
      List.Forall₂ SingleTypeKVCacheManager.SameConfig ms (ms.map f) := by
    intro ms
    induction ms with
    | nil => exact .nil
    | cons m ms ih => exact .cons (hf m) ih
  exact ⟨⟨rfl, rfl, rfl, rfl, rfl, rfl, rfl, rfl, rfl, hall _, .refl _⟩, .refl _⟩

end KVCacheCoordinator

/-! ## The manager -/

namespace KVCacheManager

variable {fns : HashFns D} {good : Request D → Prop}

structure Moves (fns : HashFns D) (good : Request D → Prop) (kv kv' : KVCacheManager D) :
    Prop where
  coordinator : kv.coordinator.Moves fns good kv'.coordinator
  enableCaching : kv'.enableCaching = kv.enableCaching
  maxModelLen : kv'.maxModelLen = kv.maxModelLen

structure Wf (kv : KVCacheManager D) : Prop where
  coordinator : kv.coordinator.Wf
  caching : kv.enableCaching = kv.coordinator.enableCaching

theorem Wf.congr {kv kv' : KVCacheManager D} (hkv : kv.Wf) (h : kv.Moves fns good kv') :
    kv'.Wf where
  coordinator := hkv.coordinator.congr h.coordinator.config
  caching := by rw [h.enableCaching, hkv.caching, h.coordinator.config.enableCaching]

theorem Moves.refl (kv : KVCacheManager D) : kv.Moves fns good kv := ⟨.refl _, rfl, rfl⟩

variable {kv : KVCacheManager D}

theorem moves_of_coordinator {c : KVCacheCoordinator D} (h : kv.coordinator.Moves fns good c) :
    kv.Moves fns good (kv.withCoordinator c) :=
  ⟨h, rfl, rfl⟩

theorem allocateBlocks_moves {c c' : KVCacheCoordinator D} {r : Request D} {n : Int}
    {hits : KVCacheBlocks} {a : SlotArgs} {blocks : KVCacheBlocks}
    (h : kv.allocateBlocks c r n hits a = .ok (blocks, c')) : c.Moves fns good c' := by
  unfold KVCacheManager.allocateBlocks at h
  simp only [bind_ok] at h
  obtain ⟨c₁, hcomp, halloc⟩ := h
  have hfirst : c.Moves fns good c₁ := by
    split at hcomp
    · exact KVCacheCoordinator.allocateNewComputedBlocks_moves hcomp
    · rw [pure_ok] at hcomp
      exact hcomp ▸ .refl c
  exact hfirst.trans (KVCacheCoordinator.allocateNewBlocks_moves halloc)

theorem allocateSlots_moves {kv' : KVCacheManager D} (hkv : kv.Wf) {r : Request D} {n : Int}
    {hits : KVCacheBlocks} {a : SlotArgs} {res : Option KVCacheBlocks} (hgood : good r)
    (h : kv.allocateSlots fns r n hits a = .ok (kv', res)) : kv.Moves fns good kv' := by
  unfold KVCacheManager.allocateSlots at h
  simp only [bind_ok, require_ok] at h
  obtain ⟨_, _, c₁, hskip, est, _, h⟩ := h
  have hmoves₁ : kv.coordinator.Moves fns good c₁ :=
    KVCacheCoordinator.removeSkippedBlocks_moves hskip
  split at h
  · cases h
    exact moves_of_coordinator hmoves₁
  · simp only [bind_ok, pure_ok] at h
    obtain ⟨⟨blocks, c₂⟩, halloc, c₃, hcache, hres⟩ := h
    cases hres
    have hmoves₂ := hmoves₁.trans (allocateBlocks_moves halloc)
    split at hcache
    · rw [pure_ok] at hcache
      subst hcache
      exact moves_of_coordinator hmoves₂
    · rename_i hcaching
      have hon : c₂.blockPool.enableCaching = true := by
        rw [hmoves₂.config.pool.enableCaching, ← hkv.coordinator.caching, ← hkv.caching]
        simpa using fun h0 => hcaching (Or.inl h0)
      exact moves_of_coordinator
        (hmoves₂.trans (KVCacheCoordinator.cacheBlocks_moves hon hgood hcache))

/-- The request on whose behalf a call registers blocks is a good one. -/
def GoodKVOp (good : Request D → Prop) : KVOp D → Prop
  | .allocateSlots r .. => good r
  | .cacheBlocks r _ => good r
  | _ => True

theorem runKVOp_moves {kv' : KVCacheManager D} (hkv : kv.Wf) {op : KVOp D} (hop : GoodKVOp good op)
    (h : runKVOp fns kv op = .ok kv') : kv.Moves fns good kv' := by
  cases op with
  | allocateSlots r lookup a =>
    simp only [runKVOp, bind_ok] at h
    obtain ⟨⟨hits, n⟩, _, h⟩ := h
    obtain ⟨⟨kv₁, res⟩, halloc, rfl⟩ := map_ok.mp h
    exact allocateSlots_moves hkv hop halloc
  | free rid =>
    obtain ⟨c, hc, rfl⟩ := withCoordinator_ok h
    exact moves_of_coordinator (KVCacheCoordinator.free_moves hc)
  | removeSkippedBlocks rid n =>
    obtain ⟨c, hc, rfl⟩ := withCoordinator_ok h
    exact moves_of_coordinator (KVCacheCoordinator.removeSkippedBlocks_moves hc)
  | cacheBlocks r n =>
    simp only [runKVOp, KVCacheManager.cacheBlocks] at h
    split at h
    · rename_i hcaching
      obtain ⟨c, hc, rfl⟩ := withCoordinator_ok h
      have hon : kv.coordinator.blockPool.enableCaching = true := by
        rw [← hkv.coordinator.caching, ← hkv.caching]
        exact hcaching
      exact moves_of_coordinator (KVCacheCoordinator.cacheBlocks_moves hon hop hc)
    · cases h
      exact .refl kv
  | evictBlocks ids =>
    obtain ⟨p, hp, rfl⟩ := map_ok.mp h
    exact moves_of_coordinator
      (KVCacheCoordinator.moves_of_poolOp (.single (.evictBlocks ids) trivial hp))
  | resetPrefixCache =>
    cases h
    exact moves_of_coordinator
      (KVCacheCoordinator.moves_of_poolOp (.single .resetPrefixCache trivial rfl))
  | takeEvents =>
    cases h
    exact moves_of_coordinator
      (KVCacheCoordinator.moves_of_poolOp (.single .takeEvents trivial rfl))
  | takeNewBlockIds =>
    cases h
    exact moves_of_coordinator
      (KVCacheCoordinator.moves_of_map fun m => m.takeNewBlockIds_sameConfig)
  | newStepStarts =>
    cases h
    exact moves_of_coordinator
      (KVCacheCoordinator.moves_of_map fun m => m.newStepStarts_sameConfig)

end KVCacheManager

end VllmCore
