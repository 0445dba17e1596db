import VllmCore.KVCacheManager.CacheContents
import VllmCore.SingleTypeKVCacheManager.NullPrefix
/-!
# Windows of attention are never freed

In every run the null blocks of a sliding window or chunked local attention table come
first, whatever the cache hits, external tokens and counts of computed tokens were.  So
`remove_skipped_blocks` frees no block that the next token needs, and leaves no real block
in front of the window.
-/

namespace VllmCore

open List Support

open BlockPool (PoolSteps)

variable {D : Type} [DecidableEq D]

namespace BlockPool

/-- The null block is marked as such, and it is not queued. -/
structure NullApart (p : BlockPool D) : Prop where
  isNull : (p.blocks p.nullBlock).isNull = true
  queue : p.nullBlock ∉ p.freeBlockQueue.blocks

theorem NullApart.congr {p q : BlockPool D} (hp : p.NullApart) (hshape : p.SameShape q)
    (hqueue : ∀ b ∈ q.freeBlockQueue.blocks, b ∈ p.freeBlockQueue.blocks ∨
      (p.blocks b).isNull = false) : q.NullApart where
  isNull := by rw [hshape.nullBlock, hshape.isNull, hp.isNull]
  queue := by
    rw [hshape.nullBlock]
    intro hmem
    rcases hqueue _ hmem with hold | hreal
    · exact hp.queue hold
    · rw [hp.isNull] at hreal
      cases hreal

variable {n : Int} {fns : HashFns D}

theorem popleftN_queue {q q' : FreeKVCacheBlockQueue} {ret : List BlockId}
    (h : q.popleftN n = .ok (ret, q')) : ∀ b ∈ q'.blocks, b ∈ q.blocks := by
  unfold FreeKVCacheBlockQueue.popleftN at h
  split at h
  · cases h
    exact fun b hb => hb
  · simp only [bind_ok, pure_ok] at h
    obtain ⟨_, _, _, _, hres⟩ := h
    cases hres
    exact fun b hb => mem_of_mem_drop hb

variable {p p' : BlockPool D}

theorem claimBlock_queue {b : BlockId} (h : claimBlock p b = .ok p') :
    p'.freeBlockQueue = p.freeBlockQueue := by
  unfold claimBlock at h
  simp only [bind_ok, pure_ok] at h
  obtain ⟨_, _, rfl⟩ := h
  simp only [BlockPool.setBlock]
  split
  · exact (maybeEvict_sameRefs p b).queue
  · rfl

theorem getNewBlocks_queue {bs : List BlockId} (h : p.getNewBlocks n = .ok (bs, p')) :
    ∀ b ∈ p'.freeBlockQueue.blocks, b ∈ p.freeBlockQueue.blocks := by
  unfold BlockPool.getNewBlocks at h
  simp only [bind_ok, pure_ok] at h
  obtain ⟨_, _, ⟨ret, queue⟩, hpop, q, hloop, hres⟩ := h
  cases hres
  have hqueue : p'.freeBlockQueue = queue :=
    foldlM_inv (P := fun s => s.freeBlockQueue = queue)
      (fun _ _ _ _ hs hx => (claimBlock_queue hx).trans hs) rfl hloop
  rw [hqueue]
  exact popleftN_queue hpop

theorem freeBlocks_queue (p : BlockPool D) (bs : List BlockId) :
    ∀ b ∈ (p.freeBlocks bs).freeBlockQueue.blocks, b ∈ p.freeBlockQueue.blocks ∨
      (p.blocks b).isNull = false := by
  obtain ⟨hshape, hqueue, _⟩ := dropRefs_shape bs p
  intro b hb
  unfold freeBlocks FreeKVCacheBlockQueue.appendN at hb
  rw [mem_append, hqueue] at hb
  rcases hb with hb | hb
  · exact .inl hb
  · right
    have hfreed := (mem_filter.mp hb).2
    rw [Bool.and_eq_true, Bool.not_eq_true', hshape.isNull] at hfreed
    exact hfreed.2

theorem NullApart.runPoolOp (hp : p.NullApart) {op : PoolOp D}
    (h : runPoolOp fns p op = .ok p') : p'.NullApart := by
  have hshape := runPoolOp_sameShape h
  have hsame : p'.freeBlockQueue = p.freeBlockQueue → p'.NullApart := by
    intro hqueue
    apply hp.congr hshape
    rw [hqueue]
    exact fun b hb => .inl hb
  cases op with
  | cacheFullBlocks r blocks numCached numFull blockSize groupId =>
    exact hsame (cacheFullBlocks_sameRefs h).queue
  | getNewBlocks n =>
    obtain ⟨bs, h⟩ := map_snd_ok.mp h
    exact hp.congr hshape fun b hb => .inl (getNewBlocks_queue h b hb)
  | touch blocks =>
    exact hp.congr hshape
      fun b hb => .inl (SingleTypeKVCacheManager.touch_queue h b hb)
  | freeBlocks blocks =>
    cases h
    exact hp.congr hshape (freeBlocks_queue p blocks)
  | evictBlocks blocks => exact hsame (evictBlocks_sameRefs h).queue
  | resetPrefixCache =>
    cases h
    exact hsame (resetPrefixCache_sameRefs p).queue
  | takeEvents =>
    cases h
    exact hsame (takeEvents_sameRefs p).queue
  | reserveSinkBlocks n =>
    obtain ⟨bs, h⟩ := map_snd_ok.mp h
    unfold reserveSinkBlocks at h
    simp only [bind_ok, pure_ok] at h
    obtain ⟨⟨ret, queue⟩, hpop, hres⟩ := h
    cases hres
    exact hp.congr hshape fun b hb => .inl (popleftN_queue hpop b hb)

theorem NullApart.steps {good : Request D → Prop} (hp : p.NullApart)
    (h : PoolSteps fns good p p') : p'.NullApart := by
  induction h with
  | refl => exact hp
  | tail _ hstep ih =>
    obtain ⟨op, _, hrun⟩ := hstep
    exact ih.runPoolOp hrun

theorem PoolInv.nullApart {R : Set BlockId} {M : Multiset BlockId}
    (hp : PoolInv R p M) : p.NullApart where
  isNull := (hp.isNull p.nullBlock).mpr rfl
  queue := fun hmem => ((hp.mem_queue p.nullBlock).mp hmem).2.1 rfl

end BlockPool

/-! ## Calls to all managers -/

namespace KVCacheCoordinator

open SingleTypeKVCacheManager (WindowTables NullNotCached)

structure WindowInv (c : KVCacheCoordinator D) : Prop where
  apart : c.blockPool.NullApart
  tables : ∀ m ∈ c.singleTypeManagers, WindowTables c.blockPool.nullBlock m

def HitsNullFirst (c : KVCacheCoordinator D) (hits : KVCacheBlocks) : Prop :=
  ∀ (g : Nat) (hit : List BlockId) (m : SingleTypeKVCacheManager D), hits[g]? = some hit →
    c.singleTypeManagers[g]? = some m → m.spec.isWindowed = true →
      NullPrefix c.blockPool.nullBlock hit

variable {c c' : KVCacheCoordinator D}

variable {hits : KVCacheBlocks} {n : Int} {rid : ReqId}

theorem HitsNullFirst.congr (h : c.HitsNullFirst hits) (hsame : c.SameConfig c') :
    c'.HitsNullFirst hits := by
  intro g hit m' hg hm' hwindowed
  obtain ⟨m, hm, hcfg⟩ := forall₂_getElem?_right hsame.managers hm'
  rw [hsame.pool.nullBlock]
  exact h g hit m hg hm (hcfg.spec ▸ hwindowed)

section

variable (fns : HashFns D)

include fns

theorem WindowInv.forEachManager (good : Request D → Prop)
    (hc : c.WindowInv) {α : Type} {f : Nat → SingleTypeKVCacheManager D → BlockPool D →
      Py (α × SingleTypeKVCacheManager D × BlockPool D)}
    {res : List α × List (SingleTypeKVCacheManager D) × BlockPool D}
    (hf : ∀ j m q a m' q', c.singleTypeManagers[j]? = some m → c.blockPool.SameShape q →
      c.blockPool.nullBlock ∉ q.freeBlockQueue.blocks → WindowTables c.blockPool.nullBlock m →
      f j m q = .ok (a, m', q') →
      PoolSteps fns good q q' ∧ WindowTables c.blockPool.nullBlock m')
    (h : VllmCore.forEachManager f 0 c.singleTypeManagers c.blockPool = .ok res) :
    (c.update res.2).WindowInv := by
  obtain ⟨⟨hshape, hapart⟩, hall⟩ := forEachManager_rule
    (P := fun q => c.blockPool.SameShape q ∧ q.NullApart)
    (Q := fun _ m' => WindowTables c.blockPool.nullBlock m') (by
      rintro j m hj q a m' q' ⟨hshape, hapart⟩ hcall
      have hqueue := hapart.queue
      rw [hshape.nullBlock] at hqueue
      obtain ⟨hsteps, htables⟩ := hf (0 + j) m q a m' q' ((Nat.zero_add j).symm ▸ hj) hshape hqueue
        (hc.tables m (mem_of_getElem? hj)) hcall
      exact ⟨⟨hshape.trans hsteps.sameShape, hapart.steps hsteps⟩, htables⟩)
    ⟨.refl _, hc.apart⟩ h
  refine ⟨hapart, ?_⟩
  intro m hm
  obtain ⟨j, hj⟩ := getElem?_of_mem hm
  obtain ⟨_, _, hm'⟩ := forall₂_getElem?_right hall hj
  rwa [← hshape.nullBlock] at hm'

theorem WindowInv.removeSkippedBlocks (hc : c.WindowInv)
    (h : c.removeSkippedBlocks rid n = .ok c') : c'.WindowInv := by
  unfold KVCacheCoordinator.removeSkippedBlocks at h
  simp only [bind_ok, pure_ok] at h
  obtain ⟨res, hall, rfl⟩ := h
  refine hc.forEachManager fns (fun _ => True) ?_ hall
  intro j m q a m' q' _ _ _ hm hf
  simp only [bind_ok, pure_ok] at hf
  obtain ⟨⟨m₁, q₁⟩, hcall, hres⟩ := hf
  cases hres
  exact ⟨SingleTypeKVCacheManager.removeSkippedBlocks_poolSteps hcall,
    hm.removeSkippedBlocks hcall⟩

theorem WindowInv.free (hc : c.WindowInv) (h : c.free rid = .ok c') :
    c'.WindowInv := by
  unfold KVCacheCoordinator.free at h
  simp only [bind_ok, pure_ok] at h
  obtain ⟨res, hall, rfl⟩ := h
  refine hc.forEachManager fns (fun _ => True) ?_ hall
  intro j m q a m' q' _ _ _ hm hf
  cases hf
  exact ⟨.freeBlocks q _, hm.free q rid⟩

theorem WindowInv.allocateNewBlocks (hc : c.WindowInv) {n' e : Int}
    {blocks : KVCacheBlocks} (h : c.allocateNewBlocks rid n n' e = .ok (blocks, c')) :
    c'.WindowInv := by
  unfold KVCacheCoordinator.allocateNewBlocks at h
  simp only [bind_ok, pure_ok] at h
  obtain ⟨res, hall, hres⟩ := h
  cases hres
  exact hc.forEachManager fns (fun _ => True) (fun _ _ _ _ _ _ _ _ hqueue hm hcall =>
    ⟨SingleTypeKVCacheManager.allocateNewBlocks_poolSteps hcall,
      hm.allocateNewBlocks hqueue hcall⟩) hall

theorem WindowInv.allocateNewComputedBlocks (hc : c.WindowInv)
    (hhits : c.HitsNullFirst hits) {numLocal numExternal : Int}
    (h : c.allocateNewComputedBlocks rid hits numLocal numExternal = .ok c') : c'.WindowInv := by
  unfold KVCacheCoordinator.allocateNewComputedBlocks at h
  simp only [bind_ok, pure_ok] at h
  obtain ⟨res, hall, rfl⟩ := h
  refine hc.forEachManager fns (fun _ => True) ?_ hall
  intro j m q a m' q' hj _ hqueue hm hf
  simp only [bind_ok, pure_ok] at hf
  obtain ⟨blocks, hget, ⟨m₁, q₁⟩, hcall, hres⟩ := hf
  cases hres
  rw [pyGet_natCast_ok] at hget
  exact ⟨SingleTypeKVCacheManager.allocateNewComputedBlocks_poolSteps hcall,
    hm.allocateNewComputedBlocks hqueue (hhits j blocks m hget hj) hcall⟩

end

theorem WindowInv.cacheBlocks {fns : HashFns D} (hc : c.WindowInv)
    (hcaching : c.blockPool.enableCaching = true) {r : Request D}
    (h : c.cacheBlocks fns r n = .ok c') : c'.WindowInv := by
  unfold KVCacheCoordinator.cacheBlocks at h
  simp only [bind_ok, pure_ok] at h
  obtain ⟨res, hall, rfl⟩ := h
  refine hc.forEachManager fns (fun _ => True) ?_ hall
  intro j m q a m' q' _ hshape _ hm hf
  simp only [bind_ok, pure_ok] at hf
  obtain ⟨⟨m₁, q₁⟩, hcall, hres⟩ := hf
  cases hres
  exact ⟨SingleTypeKVCacheManager.cacheBlocks_poolSteps
    (hshape.enableCaching.trans hcaching) trivial hcall, hm.cacheBlocks hcall⟩

theorem findLongestCacheHit_nullFirst (hc : c.Wf) (hnull : NullNotCached c.blockPool)
    {blockHashes : List D} {maxLength n : Nat}
    (h : c.findLongestCacheHit blockHashes maxLength = .ok (hits, n)) : c.HitsNullFirst hits := by
  intro g hit m hg hm hwindowed
  refine findLongestCacheHit_hits hc (P := fun g hit => ∀ m, c.singleTypeManagers[g]? = some m →
    m.spec.isWindowed = true → NullPrefix c.blockPool.nullBlock hit)
    ⟨fun _ _ _ _ => .nil, fun _ _ n hhit m hm hw => (hhit m hm hw).take n, ?_⟩ h g hit hg m hm
    hwindowed
  intro i m hm _ _ _ _ _ _ _ _ hfind j hit _ hhit m' hm' hw
  rw [hm, Option.some.injEq] at hm'
  subst hm'
  exact SingleTypeKVCacheManager.findLongestCacheHit_nullPrefix hnull hw hfind hit
    (mem_of_getElem? hhit)

end KVCacheCoordinator

namespace KVCacheManager

/-! ## Runs -/

/-- What every run preserves: the configuration, the agreement of hashes and cached blocks,
and the null blocks in front of windowed tables. -/
structure WindowInv (kv : KVCacheManager D) : Prop where
  wf : kv.Wf
  registered : BlockPool.Registered (fun _ => True) kv.blockPool
  windows : kv.coordinator.WindowInv

theorem emptyKVCacheBlocks_nullFirst (kv : KVCacheManager D) :
    kv.coordinator.HitsNullFirst kv.emptyKVCacheBlocks := by
  intro g hit m hg _ _
  unfold emptyKVCacheBlocks at hg
  rw [getElem?_map, Option.map_eq_some_iff] at hg
  obtain ⟨_, _, rfl⟩ := hg
  exact .nil

variable {kv : KVCacheManager D} {fns : HashFns D}
variable {r : Request D} {hits : KVCacheBlocks} {kv' : KVCacheManager D}

theorem lookupHits_nullFirst (hkv : kv.WindowInv) {lookup : Bool}
    {n : Nat} (h : kv.lookupHits r lookup = .ok (hits, n)) : kv.coordinator.HitsNullFirst hits := by
  have hnull := SingleTypeKVCacheManager.nullNotCached_of_hashConsistent hkv.registered.consistent
  unfold lookupHits at h
  split at h
  · unfold getComputedBlocks at h
    split at h
    · cases h
      exact kv.emptyKVCacheBlocks_nullFirst
    · simp only [bind_ok, pure_ok] at h
      obtain ⟨⟨blocks, k⟩, hfind, hres⟩ := h
      cases hres
      unfold createKVCacheBlocks
      split
      · exact KVCacheCoordinator.findLongestCacheHit_nullFirst hkv.wf.coordinator hnull hfind
      · exact kv.emptyKVCacheBlocks_nullFirst
  · cases h
    exact kv.emptyKVCacheBlocks_nullFirst

theorem create_windowInv {config : KVCacheConfig} {maxModelLen hashBlockSize dcp pcp : Nat}
    {caching useEagle events : Bool} (fns : HashFns D) (hworld : 0 < dcp * pcp)
    (hlen : 0 < maxModelLen)
    (h : create config maxModelLen hashBlockSize caching useEagle events dcp pcp = .ok kv) :
    kv.WindowInv := by
  have hinv := create_refInv hworld hlen h
  unfold create at h
  simp only [bind_ok, pure_ok] at h
  obtain ⟨c, hc, rfl⟩ := h
  obtain ⟨_, _, _, hfresh⟩ := KVCacheCoordinator.create_refInv hworld hc
  refine ⟨⟨hinv.coordinator.wf, hinv.caching⟩, (KVCacheCoordinator.create_registered fns hc).1,
    hinv.coordinator.pool.refs.nullApart, ?_⟩
  intro m hm
  refine ⟨(hinv.coordinator.tables m hm).nullBlock_eq, ?_⟩
  intro _ rid
  unfold SingleTypeKVCacheManager.blocksOf
  rw [(hfresh m hm).1]
  exact .nil

theorem WindowInv.allocateSlots (hkv : kv.WindowInv)
    {n : Int} {a : SlotArgs} {res : Option KVCacheBlocks}
    (hhits : kv.coordinator.HitsNullFirst hits)
    (h : kv.allocateSlots fns r n hits a = .ok (kv', res)) : kv'.coordinator.WindowInv := by
  unfold KVCacheManager.allocateSlots at h
  simp only [bind_ok, require_ok] at h
  obtain ⟨_, _, c₁, hskip, est, _, h⟩ := h
  have hc₁ := hkv.windows.removeSkippedBlocks fns hskip
  have hmoves₁ : kv.coordinator.Moves fns (fun _ => True) c₁ :=
    KVCacheCoordinator.removeSkippedBlocks_moves hskip
  split at h
  · cases h
    exact hc₁
  · simp only [bind_ok, pure_ok] at h
    obtain ⟨⟨blocks, c₂⟩, halloc, c₃, hcache, hres⟩ := h
    cases hres
    have hmoves₂ := hmoves₁.trans (allocateBlocks_moves halloc)
    have hc₂ : c₂.WindowInv := by
      unfold KVCacheManager.allocateBlocks at halloc
      simp only [bind_ok] at halloc
      obtain ⟨c₀, hcomp, halloc⟩ := halloc
      have hc₀ : c₀.WindowInv := by
        split at hcomp
        · exact hc₁.allocateNewComputedBlocks fns (hhits.congr hmoves₁.config) hcomp
        · rw [pure_ok] at hcomp
          exact hcomp ▸ hc₁
      exact hc₀.allocateNewBlocks fns halloc
    split at hcache
    · rw [pure_ok] at hcache
      exact hcache ▸ hc₂
    next hcaching =>
      have hon : c₂.blockPool.enableCaching = true := by
        rw [hmoves₂.config.pool.enableCaching, ← hkv.wf.coordinator.caching, ← hkv.wf.caching]
        simpa using fun h0 => hcaching (Or.inl h0)
      exact hc₂.cacheBlocks hon hcache

theorem runKVOp_windows (hkv : kv.WindowInv) {op : KVOp D}
    (h : runKVOp fns kv op = .ok kv') : kv'.coordinator.WindowInv := by
  have hpool : ∀ (op : BlockPool.PoolOp D) {p : BlockPool D},
      BlockPool.runPoolOp fns kv.blockPool op = .ok p → (kv.withPool p).coordinator.WindowInv := by
    intro op p hrun
    refine ⟨hkv.windows.apart.runPoolOp hrun, ?_⟩
    intro m hm
    have hnull : p.nullBlock = kv.blockPool.nullBlock :=
      (BlockPool.runPoolOp_sameShape hrun).nullBlock
    exact hnull.symm ▸ hkv.windows.tables m hm
  have hmap : ∀ {f : SingleTypeKVCacheManager D → SingleTypeKVCacheManager D},
      (∀ m : SingleTypeKVCacheManager D, m.SameConfig (f m)) →
      (∀ m, (f m).reqToBlocks = m.reqToBlocks) →
      (kv.withCoordinator { kv.coordinator with
        singleTypeManagers := kv.coordinator.singleTypeManagers.map f }).coordinator.WindowInv := by
    intro f hcfg htable
    refine ⟨hkv.windows.apart, ?_⟩
    intro m' hm'
    obtain ⟨m, hm, rfl⟩ := mem_map.mp hm'
    exact (hkv.windows.tables m hm).congr (hcfg m) (htable m)
  cases op with
  | allocateSlots r lookup a =>
    simp only [runKVOp, bind_ok] at h
    obtain ⟨⟨hits, n⟩, hlookup, h⟩ := h
    obtain ⟨⟨kv₁, res⟩, halloc, rfl⟩ := map_ok.mp h
    exact hkv.allocateSlots (lookupHits_nullFirst hkv hlookup) halloc
  | free rid =>
    obtain ⟨c, hc, rfl⟩ := withCoordinator_ok h
    exact hkv.windows.free fns hc
  | removeSkippedBlocks rid n =>
    obtain ⟨c, hc, rfl⟩ := withCoordinator_ok h
    exact hkv.windows.removeSkippedBlocks fns hc
  | cacheBlocks r n =>
    simp only [runKVOp, KVCacheManager.cacheBlocks] at h
    split at h
    next hcaching =>
      obtain ⟨c, hc, rfl⟩ := withCoordinator_ok h
      have hon : kv.coordinator.blockPool.enableCaching = true := by
        rw [← hkv.wf.coordinator.caching, ← hkv.wf.caching]
        exact hcaching
      exact hkv.windows.cacheBlocks hon hc
    · cases h
      exact hkv.windows
  | evictBlocks ids =>
    obtain ⟨p, hp, rfl⟩ := map_ok.mp h
    exact hpool (.evictBlocks ids) hp
  | resetPrefixCache =>
    cases h
    exact hpool .resetPrefixCache rfl
  | takeEvents =>
    cases h
    exact hpool .takeEvents rfl
  | takeNewBlockIds =>
    cases h
    exact hmap (fun m => m.takeNewBlockIds_sameConfig) fun _ => rfl
  | newStepStarts =>
    cases h
    exact hmap (fun m => m.newStepStarts_sameConfig) fun _ => rfl

theorem KVReachable.windowInv (h : KVReachable fns kv) : kv.WindowInv := by
  refine h.invariant ?_ ?_
  · rintro kv ⟨config, maxModelLen, hashBlockSize, caching, useEagle, events, dcp, pcp, hworld,
      hlen, hcreate⟩
    exact create_windowInv fns hworld hlen hcreate
  · rintro kv kv' hkv ⟨op, _, hrun⟩
    have hgood : GoodKVOp (fun _ => True) op := by
      cases op <;> trivial
    have hmoves := runKVOp_moves hkv.wf hgood hrun
    exact ⟨hkv.wf.congr hmoves, hkv.registered.steps hmoves.coordinator.pool,
      runKVOp_windows hkv hrun⟩

/-- In every run, a manager of windowed attention removes skipped blocks safely: it never
raises, frees no block that the token at position `n` attends to, and leaves the null block
wherever a block lies before the window. -/
theorem removeSkippedBlocks_windowSafe {fns : HashFns D} {kv : KVCacheManager D}
    (h : KVReachable fns kv) {m : SingleTypeKVCacheManager D}
    (hm : m ∈ kv.coordinator.singleTypeManagers) (hwindowed : m.spec.isWindowed = true)
    (p : BlockPool D) (rid : ReqId) (n : Nat) :
    ∃ m' p', m.removeSkippedBlocks p rid n = .ok (m', p') ∧
      SingleTypeKVCacheManager.WindowSafe m m' p p' rid n := by
  have hinv := h.windowInv
  have hsize : 0 < m.blockSize := by
    rw [hinv.wf.coordinator.blockSize m hm]
    exact Nat.mul_pos m.spec.blockSize_pos hinv.wf.coordinator.worldSize
  have htables := hinv.windows.tables m hm
  have hprefix := htables.nullPrefix hwindowed rid
  rw [← htables.nullBlock_eq] at hprefix
  exact ⟨_, _, SingleTypeKVCacheManager.removeSkippedBlocks_windowed hwindowed p rid n,
    SingleTypeKVCacheManager.removeSkippedBlocksBase_windowSafe hwindowed hsize p hprefix n⟩

/-- With a window of two, the fourth token needs only the last of three blocks. -/
theorem removeSkippedBlocks_windowSafe_threeTokens : ∃ (kv : KVCacheManager Transcript)
    (m m' : SingleTypeKVCacheManager Transcript) (p' : BlockPool Transcript),
    KVReachable transcriptFns kv ∧ m ∈ kv.coordinator.singleTypeManagers ∧
    m.removeSkippedBlocks kv.blockPool 0 3 = .ok (m', p') ∧ m.blocksOf 0 = [7, 8, 9] ∧
    m'.blocksOf 0 = [0, 0, 9] ∧
    SingleTypeKVCacheManager.WindowSafe m m' kv.blockPool p' 0 3 := by
  obtain ⟨kv₀, hcreate⟩ : ∃ kv : KVCacheManager Transcript,
      create twoFullConfig 8 1 true false false 1 1 = .ok kv := ⟨_, rfl⟩
  obtain ⟨kv, m, hrun, hm, hspec, hold, hnew⟩ :
      ∃ (kv : KVCacheManager Transcript) (m : SingleTypeKVCacheManager Transcript),
        runOps (runKVOp transcriptFns) kv₀
          [.allocateSlots (threeTokens 0) true { numNewTokens := 3 }] = .ok kv ∧
        kv.coordinator.singleTypeManagers[2]? = some m ∧ m.spec.isWindowed = true ∧
        m.blocksOf 0 = [7, 8, 9] ∧
        (m.removeSkippedBlocksBase kv.blockPool 0 3).1.blocksOf 0 = [0, 0, 9] := by
    cases hcreate
    exact ⟨_, _, rfl, rfl, rfl, rfl, rfl⟩
  have hreach : KVReachable transcriptFns kv := by
    refine Reachable.runOps_of_forall
      (.start ⟨_, 8, 1, true, false, false, 1, 1, by decide, by decide, hcreate⟩) ?_ hrun
    intro op hop u
    rw [mem_singleton] at hop
    subst hop
    exact ⟨threeTokens_hashChain 0, by decide, by decide, by decide⟩
  obtain ⟨m', p', hcall, hsafe⟩ := removeSkippedBlocks_windowSafe hreach
    (mem_of_getElem? hm) hspec kv.blockPool 0 3
  refine ⟨kv, m, m', p', hreach, mem_of_getElem? hm, hcall, hold, ?_, hsafe⟩
  rw [SingleTypeKVCacheManager.removeSkippedBlocks_windowed hspec, Except.ok.injEq] at hcall
  have hsame : (m.removeSkippedBlocksBase kv.blockPool 0 3).1 = m' := congrArg Prod.fst hcall
  rw [← hsame]
  exact hnew

end KVCacheManager

end VllmCore
