import VllmCore.KVCacheManager.RefCount
/-!
# Runs of the KV cache manager

The calls that the scheduler makes, as operations on the state of the manager,
and what holds in every state that a sequence of them reaches.
-/

namespace VllmCore

open List Support

variable {D : Type} [DecidableEq D]

open SingleTypeKVCacheManager (PoolOk TableInv Kept)

/-! ## Construction -/

namespace SingleTypeKVCacheManager

structure Fresh (m : SingleTypeKVCacheManager D) (spec : KVCacheSpec) (p : BlockPool D)
    (caching : Bool) (groupId worldSize : Nat) : Prop where
  spec_eq : m.spec = spec
  blockSize : m.blockSize = spec.blockSize * worldSize
  enableCaching : m.enableCaching = caching
  kvCacheGroupId : m.kvCacheGroupId = groupId
  nullBlock : m.nullBlock = p.nullBlock
  reqToBlocks : m.reqToBlocks = .empty
  numCachedBlock : m.numCachedBlock = .empty
  allocatedBlockReqs : m.allocatedBlockReqs = []

theorem create_fresh {spec : KVCacheSpec} {p p' : BlockPool D} {caching : Bool} {i dcp pcp : Nat}
    {m : SingleTypeKVCacheManager D} {R : Set BlockId} (hworld : 0 < dcp * pcp)
    (hp : PoolOk R p 0) (hnone : ∀ b, (p.blocks b).blockHash = none)
    (h : create spec p caching i dcp pcp = .ok (m, p')) :
    m.Fresh spec p caching i (dcp * pcp) ∧
      PoolOk {b | b ∈ R ∨ b ∈ m.sinkBlocks} p' 0 ∧ p.SameShape p' ∧
      ∀ b, (p'.blocks b).blockHash = none := by
  have hsize : (if 1 < dcp * pcp then spec.blockSize * (dcp * pcp) else spec.blockSize) =
      spec.blockSize * (dcp * pcp) := by
    split
    · rfl
    · rw [show dcp * pcp = 1 by omega, Nat.mul_one]
  unfold create at h
  dsimp only at h
  split at h
  · split at h
    · cases h
    · simp only [bind_ok, pyAssert_ok, pure_ok] at h
      obtain ⟨_, _, ⟨sink, q⟩, hres, hpair⟩ := h
      cases hpair
      obtain ⟨hrefs, hshape⟩ := hp.refs.reserveSinkBlocks hres
      have hsame := BlockPool.reserveSinkBlocks_sameHashes hres
      have hnone' := fun b => hsame.shrink b (hnone b)
      exact ⟨⟨rfl, hsize, rfl, rfl, rfl, rfl, rfl, rfl⟩,
        ⟨hrefs, hp.hashes.congr hsame, fun b hb => absurd (hnone' b) hb⟩, hshape, hnone'⟩
  · cases h
    refine ⟨⟨rfl, hsize, rfl, rfl, rfl, rfl, rfl, rfl⟩, ?_, .refl p, hnone⟩
    have hset : {b | b ∈ R ∨ b ∈ ([] : List BlockId)} = R := by
      ext b
      simp
    exact hset.symm ▸ hp

end SingleTypeKVCacheManager

namespace KVCacheCoordinator

theorem createManagers_fresh {caching : Bool} {dcp pcp : Nat} (hworld : 0 < dcp * pcp) :
    ∀ {specs : List KVCacheSpec} {i : Nat} {p p' : BlockPool D} {R : Set BlockId}
      {ms : List (SingleTypeKVCacheManager D)}, PoolOk R p 0 →
      (∀ b, (p.blocks b).blockHash = none) →
        createManagers caching dcp pcp i specs p = .ok (ms, p') →
      PoolOk {b | b ∈ R ∨ ∃ m ∈ ms, b ∈ m.sinkBlocks} p' 0 ∧ p.SameShape p' ∧
        ms.map (·.spec) = specs ∧
        ∀ (j : Nat) (m : SingleTypeKVCacheManager D), ms[j]? = some m →
          m.Fresh m.spec p caching (i + j) (dcp * pcp) := by
  intro specs
  induction specs with
  | nil =>
    intro i p p' R ms hp _ h
    cases h
    refine ⟨?_, .refl p, rfl, by simp⟩
    simpa using hp
  | cons spec specs ih =>
    intro i p p' R ms hp hnone h
    unfold createManagers at h
    simp only [bind_ok, pure_ok] at h
    obtain ⟨⟨m, p₁⟩, hm, ⟨ms₁, p₂⟩, hms, hres⟩ := h
    cases hres
    obtain ⟨hfresh, hp₁, hshape, hnone₁⟩ :=
      SingleTypeKVCacheManager.create_fresh hworld hp hnone hm
    obtain ⟨hp₂, hshape', hspecs, hall⟩ := ih hp₁ hnone₁ hms
    refine ⟨?_, hshape.trans hshape', by simp [hfresh.spec_eq, hspecs], ?_⟩
    · have hset : {b | b ∈ {b | b ∈ R ∨ b ∈ m.sinkBlocks} ∨ ∃ m ∈ ms₁, b ∈ m.sinkBlocks} =
          {b | b ∈ R ∨ ∃ m' ∈ m :: ms₁, b ∈ m'.sinkBlocks} := by
        ext b
        simp [or_assoc]
      rwa [hset] at hp₂
    · intro j m' hj
      cases j with
      | zero =>
        cases hj
        rw [hfresh.spec_eq]
        exact hfresh
      | succ j =>
        have hm' := hall j m' (by simpa using hj)
        rw [show i + (j + 1) = i + 1 + j by omega]
        exact ⟨rfl, hm'.blockSize, hm'.enableCaching, hm'.kvCacheGroupId,
          hm'.nullBlock.trans hshape.nullBlock, hm'.reqToBlocks, hm'.numCachedBlock,
          hm'.allocatedBlockReqs⟩

theorem create_refInv {config : KVCacheConfig} {useEagle caching events : Bool}
    {dcp pcp hashBlockSize : Nat} {c : KVCacheCoordinator D} (hworld : 0 < dcp * pcp)
    (h : create config useEagle caching events dcp pcp hashBlockSize = .ok c) :
    c.RefInv ∧ c.enableCaching = caching ∧ c.kvCacheConfig = config ∧
      ∀ m ∈ c.singleTypeManagers, m.reqToBlocks = .empty ∧ m.numCachedBlock = .empty ∧
        m.allocatedBlockReqs = [] := by
  unfold create at h
  simp only [bind_ok] at h
  obtain ⟨p, hpool, ⟨ms, p'⟩, hms, h⟩ := h
  obtain ⟨hrefs, hcaching, hhash⟩ := BlockPool.create_poolInv hpool
  have hnone := BlockPool.create_unhashed hpool
  have hp : PoolOk ∅ p 0 :=
    ⟨hrefs, BlockPool.create_hashConsistent hpool, fun b hb => absurd (hnone b) hb⟩
  obtain ⟨hp', hshape, hspecs, hall⟩ := createManagers_fresh hworld hp hnone hms
  have hfresh : ∀ m ∈ ms, ∃ i, m.Fresh m.spec p caching i (dcp * pcp) := by
    intro m hm
    obtain ⟨j, hj⟩ := getElem?_of_mem hm
    exact ⟨_, hall j m hj⟩
  have hempty : allItems ms = 0 := by
    apply allItems_eq_zero
    intro m hm
    obtain ⟨_, hf⟩ := hfresh m hm
    unfold SingleTypeKVCacheManager.items
    rw [hf.reqToBlocks]
    rfl
  have htables : ∀ m ∈ ms, TableInv p'.nullBlock m := by
    intro m hm
    obtain ⟨_, hf⟩ := hfresh m hm
    refine ⟨hf.nullBlock.trans hshape.nullBlock.symm, ?_, ?_, ?_⟩
    · rw [hf.blockSize]
      exact Nat.mul_pos m.spec.blockSize_pos hworld
    · intro rid
      unfold SingleTypeKVCacheManager.blocksOf
      rw [hf.reqToBlocks]
      exact .nil
    · intro rid hrid
      rw [hf.allocatedBlockReqs] at hrid
      cases hrid
  have hset : {b | b ∈ (∅ : Set BlockId) ∨ ∃ m ∈ ms, b ∈ m.sinkBlocks} =
      {b | ∃ m ∈ ms, b ∈ m.sinkBlocks} := by
    ext b
    simp
  rw [hset] at hp'
  have hstate : ∀ m ∈ ms, m.reqToBlocks = .empty ∧ m.numCachedBlock = .empty ∧
      m.allocatedBlockReqs = [] := by
    intro m hm
    obtain ⟨_, hf⟩ := hfresh m hm
    exact ⟨hf.reqToBlocks, hf.numCachedBlock, hf.allocatedBlockReqs⟩
  -- What does not depend on the class of the coordinator.
  have hinv : ∀ c : KVCacheCoordinator D, c.Wf → c.singleTypeManagers = ms →
      c.blockPool = p' → c.RefInv := by
    intro c hwf hcms hcp
    refine ⟨hwf, ?_, ?_⟩
    · unfold references reserved
      rw [hcms, hcp, hempty]
      exact hp'
    · rw [hcms, hcp]
      exact htables
  have hsizes : ∀ m ∈ ms, m.blockSize = m.spec.blockSize * (dcp * pcp) := by
    intro m hm
    obtain ⟨_, hf⟩ := hfresh m hm
    exact hf.blockSize
  have hids : ∀ (i : Nat) (m : SingleTypeKVCacheManager D), ms[i]? = some m →
      m.kvCacheGroupId = i := by
    intro i m hi
    rw [(hall i m hi).kvCacheGroupId, Nat.zero_add]
  have hcachingAll : ∀ m ∈ ms, m.enableCaching = caching := by
    intro m hm
    obtain ⟨_, hf⟩ := hfresh m hm
    exact hf.enableCaching
  have hcaching' : caching = p'.enableCaching := by rw [hshape.enableCaching, hcaching]
  have hhash' : hashBlockSize = p'.hashBlockSize := by rw [hshape.hashBlockSize, hhash]
  split at h
  · rename_i hoff
    cases h
    refine ⟨hinv _ ?_ rfl rfl, rfl, rfl, hstate⟩
    exact ⟨hspecs, hids, hsizes, hworld, hcaching', hcachingAll, hhash', by simp [hoff],
      (fun hk => by cases hk), (fun hk => by cases hk)⟩
  · rename_i hon
    split at h
    · rename_i spec hgroups
      simp only [bind_ok, pyAssert_ok, pure_ok] at h
      obtain ⟨_, hsize, rfl⟩ := h
      refine ⟨hinv _ ?_ rfl rfl, rfl, rfl, hstate⟩
      exact ⟨hspecs, hids, hsizes, hworld, hcaching', hcachingAll, hhash', by simp [hon],
        (fun _ => ⟨spec, hgroups, hsize⟩), (fun hk => by cases hk)⟩
    · simp only [bind_ok, pyAssert_ok, pure_ok] at h
      obtain ⟨_, _, _, hdcp, _, hpcp, _, hlen, rfl⟩ := h
      refine ⟨hinv _ ?_ rfl rfl, rfl, rfl, hstate⟩
      exact ⟨hspecs, hids, hsizes, hworld, hcaching', hcachingAll, hhash', by simp [hon],
        (fun hk => by cases hk), (fun _ => ⟨by simp [hdcp, hpcp], rfl, hlen⟩)⟩

end KVCacheCoordinator

namespace KVCacheManager

structure RefInv (kv : KVCacheManager D) : Prop where
  coordinator : kv.coordinator.RefInv
  caching : kv.enableCaching = kv.coordinator.enableCaching
  maxModelLen_pos : 0 < kv.maxModelLen

variable {kv kv' : KVCacheManager D} {a : SlotArgs} {fns : HashFns D} {hits : KVCacheBlocks}
  {r : Request D} {n : Int}

theorem create_refInv {config : KVCacheConfig} {maxModelLen hashBlockSize dcp pcp : Nat}
    {caching useEagle events : Bool} (hworld : 0 < dcp * pcp) (hlen : 0 < maxModelLen)
    (h : create config maxModelLen hashBlockSize caching useEagle events dcp pcp = .ok kv) :
    kv.RefInv := by
  unfold create at h
  simp only [bind_ok, pure_ok] at h
  obtain ⟨c, hc, rfl⟩ := h
  obtain ⟨hinv, hcaching, _⟩ := KVCacheCoordinator.create_refInv hworld hc
  exact ⟨hinv, hcaching.symm, hlen⟩

theorem RefInv.withCoordinator {kv : KVCacheManager D} (hkv : kv.RefInv)
    {c : KVCacheCoordinator D} (hc : c.RefInv) (hsame : kv.coordinator.SameConfig c) :
    (kv.withCoordinator c).RefInv where
  coordinator := hc
  caching := hkv.caching.trans hsame.enableCaching.symm
  maxModelLen_pos := hkv.maxModelLen_pos

/-! ## Operations -/

def lookupHits (kv : KVCacheManager D) (r : Request D) (lookup : Bool) :
    Py (KVCacheBlocks × Nat) :=
  if lookup then kv.getComputedBlocks r else pure (kv.emptyKVCacheBlocks, 0)

inductive KVOp (D : Type)
  | allocateSlots (r : Request D) (lookup : Bool) (a : SlotArgs)
  | free (requestId : ReqId)
  | removeSkippedBlocks (requestId : ReqId) (totalComputedTokens : Int)
  | cacheBlocks (r : Request D) (numComputedTokens : Int)
  | evictBlocks (blockIds : List BlockId)
  | resetPrefixCache
  | takeEvents
  | takeNewBlockIds
  | newStepStarts

def runKVOp (fns : HashFns D) (kv : KVCacheManager D) : KVOp D → Py (KVCacheManager D)
  | .allocateSlots r lookup a => do
    let (hits, n) ← kv.lookupHits r lookup
    Prod.fst <$> kv.allocateSlots fns r n hits a
  | .free rid => kv.free rid
  | .removeSkippedBlocks rid n => kv.removeSkippedBlocks rid n
  | .cacheBlocks r n => kv.cacheBlocks fns r n
  | .evictBlocks ids => kv.evictBlocks ids
  | .resetPrefixCache => pure kv.resetPrefixCache.1
  | .takeEvents => pure kv.takeEvents.2
  | .takeNewBlockIds => pure kv.takeNewBlockIds.2
  | .newStepStarts => pure kv.newStepStarts

/-- What every caller of `allocate_slots` guarantees: the hashes of the request are
the chain its constructor and `append_output_token_ids` build, and no count of
tokens is negative. -/
def KVOpAllowed (fns : HashFns D) : KVOp D → Prop
  | .allocateSlots r _ a => HashChain fns r ∧ 0 ≤ r.numComputedTokens ∧
      0 ≤ a.numNewTokens ∧ 0 ≤ a.numExternalComputedTokens
  | _ => True

/-- With external tokens, no group gets a longer cache hit than all computed tokens
take up. -/
def HitsCovered (kv : KVCacheManager D) : KVOp D → Prop
  | .allocateSlots r lookup a => 0 < a.numExternalComputedTokens →
      ∀ hits n, kv.lookupHits r lookup = .ok (hits, n) →
      ∀ (g : Nat) (hit : List BlockId) (m : SingleTypeKVCacheManager D),
        hits[g]? = some hit → kv.coordinator.singleTypeManagers[g]? = some m →
        (hit.length : Int) ≤
          cdiv (r.numComputedTokens + n + a.numExternalComputedTokens) m.blockSize
  | _ => True

theorem hitsFit_of_lookup (hfns : CollisionFree fns) (hkv : kv.RefInv) {lookup : Bool}
    (hchain : HashChain fns r) (hcovered : kv.HitsCovered (.allocateSlots r lookup a)) {n : Nat}
    (h : kv.lookupHits r lookup = .ok (hits, n)) :
    kv.coordinator.HitsFit hits (r.numComputedTokens + n) a.numExternalComputedTokens := by
  refine ⟨?_, fun hext g hit m hg hm => hcovered hext hits n h g hit m hg hm⟩
  intro g hit m hg hm
  by_cases hne : hit = []
  · subst hne
    exact .nil
  · unfold lookupHits at h
    split at h
    · obtain ⟨hashes, hconv, hok⟩ :=
        getComputedBlocks_ok hkv.coordinator.wf h hg m hm hne
      have hpos := (hkv.coordinator.tables m (mem_of_getElem? hm)).blockSize_pos
      obtain ⟨hlist, hscale, _⟩ := convertBlockHashes_ok hpos hconv
      have hnodup : hashes.blockHashes.Nodup := hlist ▸ IsHashChain.nodup hfns hchain
      exact hok.realNodup hkv.coordinator.pool.hashes hnodup hscale
    · cases h
      unfold emptyKVCacheBlocks at hg
      rw [getElem?_map, Option.map_eq_some_iff] at hg
      obtain ⟨_, _, rfl⟩ := hg
      exact absurd rfl hne

theorem numTokensMainModel_pos (hlen : 0 < kv.maxModelLen) (hcomputed : 0 ≤ r.numComputedTokens + n)
    (hnew : 0 ≤ a.numNewTokens) (hext : 0 ≤ a.numExternalComputedTokens)
    (hsome : ¬(a.numNewTokens = 0 ∧ a.numExternalComputedTokens = 0)) :
    0 < kv.numTokensMainModel r n a := by
  unfold numTokensMainModel totalComputedTokens
  omega

theorem RefInv.allocateBlocks {c c' : KVCacheCoordinator D} (hc : c.RefInv) {blocks : KVCacheBlocks}
    (htotal : 0 ≤ r.numComputedTokens + n + a.numExternalComputedTokens)
    (hmain : 0 < kv.numTokensMainModel r n a)
    (hhits : c.HitsFit hits (r.numComputedTokens + n) a.numExternalComputedTokens)
    (h : kv.allocateBlocks c r n hits a = .ok (blocks, c')) : c'.RefInv ∧ c.SameConfig c' := by
  unfold KVCacheManager.allocateBlocks at h
  simp only [bind_ok] at h
  obtain ⟨c₁, hcomp, halloc⟩ := h
  have hc₁ : c₁.RefInv ∧ c.SameConfig c₁ := by
    split at hcomp
    · exact hc.allocateNewComputedBlocks hhits htotal hcomp
    · rw [pure_ok] at hcomp
      exact hcomp ▸ ⟨hc, .refl c⟩
  obtain ⟨hc', hsame⟩ := hc₁.1.allocateNewBlocks hmain halloc
  exact ⟨hc', hc₁.2.trans hsame⟩

theorem RefInv.allocateSlots (hkv : kv.RefInv) {res : Option KVCacheBlocks}
    (hcomputed : 0 ≤ r.numComputedTokens + n) (hnew : 0 ≤ a.numNewTokens)
    (hext : 0 ≤ a.numExternalComputedTokens)
    (hhits : kv.coordinator.HitsFit hits (r.numComputedTokens + n) a.numExternalComputedTokens)
    (h : kv.allocateSlots fns r n hits a = .ok (kv', res)) :
    kv'.RefInv ∧ kv.coordinator.SameConfig kv'.coordinator ∧
      kv'.maxModelLen = kv.maxModelLen ∧ kv'.enableCaching = kv.enableCaching := by
  unfold KVCacheManager.allocateSlots at h
  simp only [bind_ok, require_ok] at h
  obtain ⟨_, hsome, c₁, hskip, est, _, h⟩ := h
  obtain ⟨hc₁, hsame₁⟩ := hkv.coordinator.removeSkippedBlocks hskip
  split at h
  · cases h
    exact ⟨hkv.withCoordinator hc₁ hsame₁, hsame₁, rfl, rfl⟩
  · simp only [bind_ok, pure_ok] at h
    obtain ⟨⟨blocks, c₂⟩, halloc, c₃, hcache, hres⟩ := h
    cases hres
    have hmain := numTokensMainModel_pos hkv.maxModelLen_pos hcomputed hnew hext hsome
    obtain ⟨hc₂, hsame₂⟩ := RefInv.allocateBlocks hc₁ (by omega) hmain (hhits.congr hsame₁)
      halloc
    have hsame := hsame₁.trans hsame₂
    split at hcache
    · rw [pure_ok] at hcache
      subst hcache
      exact ⟨hkv.withCoordinator hc₂ hsame, hsame, rfl, rfl⟩
    · rename_i hcaching
      have hc₂caching : c₂.enableCaching = true := by
        rw [hsame.enableCaching, ← hkv.caching]
        simpa using fun h0 => hcaching (Or.inl h0)
      obtain ⟨hc₃, hsame₃⟩ := hc₂.cacheBlocks hc₂caching hcache
      exact ⟨hkv.withCoordinator hc₃ (hsame.trans hsame₃), hsame.trans hsame₃, rfl, rfl⟩

theorem withCoordinator_ok {x : Py (KVCacheCoordinator D)}
    (h : kv.withCoordinator <$> x = .ok kv') : ∃ c, x = .ok c ∧ kv' = kv.withCoordinator c := by
  obtain ⟨c, hc, rfl⟩ := map_ok.mp h
  exact ⟨c, hc, rfl⟩

theorem RefInv.withPool (hkv : kv.RefInv) {p : BlockPool D} (hsame : kv.blockPool.SameRefs p)
    (hhash : p.HashConsistent) (hshrink : kv.blockPool.HashesShrink p) :
    (kv.withPool p).RefInv := by
  have hcfg : kv.coordinator.SameConfig { kv.coordinator with blockPool := p } :=
    ⟨rfl, rfl, rfl, rfl, rfl, rfl, rfl, rfl, rfl,
      KVCacheCoordinator.managers_refl _, hsame.toSameShape⟩
  have hpool := hkv.coordinator.pool.shrink (hkv.coordinator.pool.refs.congr hsame) hhash
    hshrink hsame.toSameShape
  refine ⟨⟨hkv.coordinator.wf.congr hcfg, hpool, ?_⟩, hkv.caching, hkv.maxModelLen_pos⟩
  intro m hm
  exact hsame.nullBlock.symm ▸ hkv.coordinator.tables m hm

theorem RefInv.mapManagers (hkv : kv.RefInv)
    {f : SingleTypeKVCacheManager D → SingleTypeKVCacheManager D}
    (hcfg : ∀ m : SingleTypeKVCacheManager D, m.SameConfig (f m))
    (htable : ∀ m, (f m).reqToBlocks = m.reqToBlocks)
    (halloc : ∀ m, (f m).allocatedBlockReqs = m.allocatedBlockReqs) :
    (kv.withCoordinator { kv.coordinator with
      singleTypeManagers := kv.coordinator.singleTypeManagers.map f }).RefInv := by
  have hall : ∀ ms : List (SingleTypeKVCacheManager D),
      List.Forall₂ SingleTypeKVCacheManager.SameConfig ms (ms.map f) := by
    intro ms
    induction ms with
    | nil => exact .nil
    | cons m ms ih => exact .cons (hcfg m) ih
  have hitems : ∀ ms : List (SingleTypeKVCacheManager D), allItems (ms.map f) = allItems ms := by
    intro ms
    unfold allItems
    rw [map_map]
    congr 1
    apply map_congr_left
    intro m _
    show (f m).reqToBlocks.items = m.reqToBlocks.items
    rw [htable]
  have hsame : kv.coordinator.SameConfig { kv.coordinator with
      singleTypeManagers := kv.coordinator.singleTypeManagers.map f } :=
    ⟨rfl, rfl, rfl, rfl, rfl, rfl, rfl, rfl, rfl, hall _, .refl _⟩
  refine hkv.withCoordinator ⟨hkv.coordinator.wf.congr hsame, ?_, ?_⟩ hsame
  · have hreserved : ({ kv.coordinator with
        singleTypeManagers := kv.coordinator.singleTypeManagers.map f } :
        KVCacheCoordinator D).reserved = kv.coordinator.reserved :=
      Set.ext fun b => KVCacheCoordinator.reserved_congr (hall _) b
    rw [hreserved]
    unfold KVCacheCoordinator.references
    rw [hitems]
    exact hkv.coordinator.pool
  · intro m' hm'
    obtain ⟨m, hm, rfl⟩ := mem_map.mp hm'
    have htab := hkv.coordinator.tables m hm
    have hblocks : ∀ rid, (f m).blocksOf rid = m.blocksOf rid := by
      intro rid
      unfold SingleTypeKVCacheManager.blocksOf
      rw [htable]
    have hspec : (f m).alignSpec = m.alignSpec := by
      unfold SingleTypeKVCacheManager.alignSpec
      rw [(hcfg m).spec]
    refine ⟨(hcfg m).nullBlock.trans htab.nullBlock_eq, (hcfg m).blockSize ▸ htab.blockSize_pos,
      ?_, ?_⟩
    · intro rid
      rw [hblocks]
      exact htab.nodup rid
    · intro rid hrid k hk
      rw [hblocks]
      rw [halloc] at hrid
      rw [hspec] at hk
      exact htab.allocated rid hrid k hk

theorem runKVOp_refInv (hfns : CollisionFree fns) (hkv : kv.RefInv) {op : KVOp D}
    (hop : KVOpAllowed fns op) (hcovered : kv.HitsCovered op) (h : runKVOp fns kv op = .ok kv') :
    kv'.RefInv := by
  cases op with
  | allocateSlots r lookup a =>
    obtain ⟨hchain, hcomputed, hnew, hext⟩ := hop
    simp only [runKVOp, bind_ok] at h
    obtain ⟨⟨hits, n⟩, hlookup, h⟩ := h
    obtain ⟨⟨kv₁, res⟩, halloc, rfl⟩ := map_ok.mp h
    have hhits := hitsFit_of_lookup hfns hkv hchain hcovered hlookup
    exact (hkv.allocateSlots (by omega) hnew hext hhits halloc).1
  | free rid =>
    obtain ⟨c, hc, rfl⟩ := withCoordinator_ok h
    obtain ⟨hinv, hsame⟩ := hkv.coordinator.free hc
    exact hkv.withCoordinator hinv hsame
  | removeSkippedBlocks rid n =>
    obtain ⟨c, hc, rfl⟩ := withCoordinator_ok h
    obtain ⟨hinv, hsame⟩ := hkv.coordinator.removeSkippedBlocks hc
    exact hkv.withCoordinator hinv hsame
  | cacheBlocks r n =>
    simp only [runKVOp, KVCacheManager.cacheBlocks] at h
    split at h
    · rename_i hcaching
      obtain ⟨c, hc, rfl⟩ := withCoordinator_ok h
      obtain ⟨hinv, hsame⟩ := hkv.coordinator.cacheBlocks (hkv.caching ▸ hcaching) hc
      exact hkv.withCoordinator hinv hsame
    · cases h
      exact hkv
  | evictBlocks ids =>
    obtain ⟨p, hp, rfl⟩ := map_ok.mp h
    exact hkv.withPool (BlockPool.evictBlocks_sameRefs hp)
      (BlockPool.evictBlocks_hashConsistent hkv.coordinator.pool.hashes hp)
      (BlockPool.evictBlocks_shrink hkv.coordinator.pool.hashes hp)
  | resetPrefixCache =>
    cases h
    exact hkv.withPool (BlockPool.resetPrefixCache_sameRefs _)
      (BlockPool.resetPrefixCache_hashConsistent hkv.coordinator.pool.hashes)
      (BlockPool.resetPrefixCache_shrink _)
  | takeEvents =>
    cases h
    exact hkv.withPool (BlockPool.takeEvents_sameRefs _)
      (hkv.coordinator.pool.hashes.congr (BlockPool.takeEvents_sameHashes _))
      (BlockPool.takeEvents_sameHashes _).shrink
  | takeNewBlockIds =>
    cases h
    exact hkv.mapManagers (fun m => m.takeNewBlockIds_sameConfig) (fun _ => rfl)
      (fun _ => rfl)
  | newStepStarts =>
    cases h
    exact hkv.mapManagers (fun m => m.newStepStarts_sameConfig) (fun _ => rfl)
      (fun _ => rfl)

/-! ## Runs -/

def IsInitial (kv : KVCacheManager D) : Prop :=
  ∃ config maxModelLen hashBlockSize caching useEagle events dcp pcp, 0 < dcp * pcp ∧
    0 < maxModelLen ∧
    create config maxModelLen hashBlockSize caching useEagle events dcp pcp = .ok kv

def KVReachable (fns : HashFns D) : KVCacheManager D → Prop :=
  Reachable IsInitial (OpStep (fun _ op => KVOpAllowed fns op) (runKVOp fns))

/-- The states that are reached when, moreover, external tokens never come with a
cache hit that is too long. -/
def KVReachableCovered (fns : HashFns D) : KVCacheManager D → Prop :=
  Reachable IsInitial
    (OpStep (fun kv op => KVOpAllowed fns op ∧ kv.HitsCovered op) (runKVOp fns))

theorem KVReachableCovered.refInv (hfns : CollisionFree fns) (h : KVReachableCovered fns kv) :
    kv.RefInv := by
  refine h.invariant ?_ ?_
  · rintro kv ⟨config, maxModelLen, hashBlockSize, caching, useEagle, events, dcp, pcp, hworld,
      hlen, hcreate⟩
    exact create_refInv hworld hlen hcreate
  · rintro kv kv' hkv ⟨op, ⟨hop, hcovered⟩, hrun⟩
    exact runKVOp_refInv hfns hkv hop hcovered hrun

/-- The pool and the block tables agree: references are counted exactly, a block is
queued once or not at all, and it is queued when nothing refers to it. -/
structure RefCountExact (kv : KVCacheManager D) : Prop where
  refCnt : ∀ b, b ≠ kv.blockPool.nullBlock →
    (kv.blockPool.blocks b).refCnt = kv.coordinator.references.count b
  queued : ∀ b, b < kv.blockPool.numGpuBlocks →
    kv.blockPool.freeBlockQueue.blocks.count b =
      if (kv.blockPool.blocks b).refCnt = 0 ∧ b ≠ kv.blockPool.nullBlock ∧
        ∀ m ∈ kv.coordinator.singleTypeManagers, b ∉ m.sinkBlocks then 1 else 0
  numFree : kv.blockPool.getNumFreeBlocks = kv.blockPool.freeBlockQueue.blocks.length
  all_freed : (∀ m ∈ kv.coordinator.singleTypeManagers, ∀ rid, m.blocksOf rid = []) →
    ∀ b, b < kv.blockPool.numGpuBlocks → b ≠ kv.blockPool.nullBlock →
      (∀ m ∈ kv.coordinator.singleTypeManagers, b ∉ m.sinkBlocks) →
      (kv.blockPool.blocks b).refCnt = 0 ∧ kv.blockPool.freeBlockQueue.blocks.count b = 1

theorem items_eq_zero {m : SingleTypeKVCacheManager D} (h : ∀ rid, m.blocksOf rid = []) :
    m.items = 0 := by
  rw [Multiset.eq_zero_iff_forall_notMem]
  intro b hb
  unfold SingleTypeKVCacheManager.items Dict.items at hb
  rw [Multiset.mem_coe, mem_flatMap] at hb
  obtain ⟨⟨rid, t⟩, hmem, hb⟩ := hb
  have hget := (Dict.get?_eq_some_iff _ _ _).mpr hmem
  have hempty := h rid
  unfold SingleTypeKVCacheManager.blocksOf at hempty
  rw [hget, Option.getD_some] at hempty
  rw [hempty] at hb
  cases hb

theorem RefInv.refCountExact (hkv : kv.RefInv) : kv.RefCountExact := by
  have hrefs : BlockPool.PoolInv kv.coordinator.reserved kv.blockPool
      kv.coordinator.references := hkv.coordinator.pool.refs
  refine ⟨hrefs.refCnt, ?_, hrefs.numFree, ?_⟩
  · intro b hlt
    have hmem := hrefs.mem_queue b
    split
    · rename_i hfree
      obtain ⟨hzero, hnull, hsink⟩ := hfree
      rw [hrefs.refCnt b hnull] at hzero
      refine count_eq_one_of_mem hrefs.nodup (hmem.mpr ⟨hlt, hnull, ?_, by omega⟩)
      rintro ⟨m, hm, hb⟩
      exact hsink m hm hb
    · rename_i hused
      rw [count_eq_zero]
      intro hb
      obtain ⟨_, hnull, hR, hcount⟩ := hmem.mp hb
      refine hused ⟨?_, hnull, fun m hm hbm => hR ⟨m, hm, hbm⟩⟩
      rw [hrefs.refCnt b hnull, hcount]
      rfl
  · intro hfreed b hlt hnull hsink
    have hzero : kv.coordinator.references = 0 := by
      exact allItems_eq_zero fun m hm => items_eq_zero (hfreed m hm)
    refine hrefs.all_free (fun c _ => by rw [hzero]; rfl) hlt hnull ?_
    rintro ⟨m, hm, hb⟩
    exact hsink m hm hb

/-- While external tokens never come with a cache hit that is too long, references
are counted exactly in every state of every run. -/
theorem references_exact {fns : HashFns D} (hfns : CollisionFree fns) {kv : KVCacheManager D}
    (h : KVReachableCovered fns kv) : kv.RefCountExact :=
  (h.refInv hfns).refCountExact

/-! ### A model with two kinds of full attention -/

def oneHead (headSize : Nat) : AttentionShape :=
  { numKvHeads := 1, headSize := headSize, dtype := ⟨"uint8", 1⟩ }

def twoFullConfig : KVCacheConfig where
  numBlocks := 16
  kvCacheGroups :=
    [⟨1, .fullAttention (oneHead 1) 1 none none, by decide⟩,
      ⟨1, .fullAttention (oneHead 2) 2 none none, by decide⟩,
      ⟨1, .slidingWindow (oneHead 4) 2 (by decide), by decide⟩]

def threeTokens (rid : ReqId) : Request Transcript where
  requestId := rid
  allTokenIds := [7, 8, 9]
  blockHashes := [[([7], none)], [([8], none), ([7], none)],
    [([9], none), ([8], none), ([7], none)]]

theorem threeTokens_hashChain (rid : ReqId) : HashChain transcriptFns (threeTokens rid) :=
  ⟨⟨_, _, rfl⟩, ⟨_, _, rfl⟩, ⟨_, _, rfl⟩, trivial⟩

def sharedPrefixOps : List (KVOp Transcript) :=
  [.allocateSlots (threeTokens 0) true { numNewTokens := 3 },
    .allocateSlots (threeTokens 1) true { numNewTokens := 1 }]

theorem references_exact_shared : ∃ kv, KVReachableCovered transcriptFns kv ∧
    (kv.blockPool.blocks 1).refCnt = 2 ∧ kv.coordinator.references.count 1 = 2 := by
  obtain ⟨kv₀, hcreate⟩ : ∃ kv : KVCacheManager Transcript,
      create twoFullConfig 8 1 true false false 1 1 = .ok kv := ⟨_, rfl⟩
  obtain ⟨kv, hrun, hcount⟩ : ∃ kv,
      runOps (runKVOp transcriptFns) kv₀ sharedPrefixOps = .ok kv ∧
        (kv.blockPool.blocks 1).refCnt = 2 := by
    cases hcreate
    exact ⟨_, rfl, by decide⟩
  have hreach : KVReachableCovered transcriptFns kv := by
    refine Reachable.runOps_of_forall
      (.start ⟨_, 8, 1, true, false, false, 1, 1, by decide, by decide, hcreate⟩) ?_ hrun
    intro op hop u
    simp only [sharedPrefixOps, mem_cons, not_mem_nil, or_false] at hop
    rcases hop with rfl | rfl
    · exact ⟨⟨threeTokens_hashChain 0, by decide, by decide, by decide⟩, fun h => by cases h⟩
    · exact ⟨⟨threeTokens_hashChain 1, by decide, by decide, by decide⟩, fun h => by cases h⟩
  have hone : (1 : BlockId) ≠ kv.blockPool.nullBlock := by
    intro hnull
    have hnullBlock := (hreach.refInv transcriptFns_collisionFree).coordinator.pool.refs.isNull 1
    have hisNull : (kv.blockPool.blocks 1).isNull = false := by
      cases hcreate
      cases hrun
      decide
    have htrue := hnullBlock.mpr hnull
    change (kv.blockPool.blocks 1).isNull = true at htrue
    rw [hisNull] at htrue
    cases htrue
  have hexact := (references_exact transcriptFns_collisionFree hreach).refCnt 1 hone
  exact ⟨kv, hreach, hcount, by rw [hcount] at hexact; omega⟩

/-- A cached request is freed, and its blocks of the sliding window group are
evicted.  The next lookup finds nothing in that group: the common length is zero,
but the hit of the second full attention group keeps its two blocks, which is
more than the one external token takes up. -/
def longHitOps : List (KVOp Transcript) :=
  [.allocateSlots (threeTokens 0) true { numNewTokens := 3 }, .free 0, .evictBlocks [7, 8, 9],
    .allocateSlots (threeTokens 1) true { numNewTokens := 1, numExternalComputedTokens := 1 }]

/-- Afterwards the counter of free blocks is wrong. -/
theorem references_not_exact : ¬∀ kv : KVCacheManager Transcript,
    KVReachable transcriptFns kv → kv.RefCountExact := by
  intro hall
  obtain ⟨kv₀, hcreate⟩ : ∃ kv : KVCacheManager Transcript,
      create twoFullConfig 8 1 true false false 1 1 = .ok kv := ⟨_, rfl⟩
  obtain ⟨kv, hrun, hbad⟩ : ∃ kv,
      runOps (runKVOp transcriptFns) kv₀ longHitOps = .ok kv ∧
        kv.blockPool.getNumFreeBlocks ≠ kv.blockPool.freeBlockQueue.blocks.length := by
    cases hcreate
    exact ⟨_, rfl, by decide⟩
  have hreach : KVReachable transcriptFns kv := by
    refine Reachable.runOps_of_forall
      (.start ⟨_, 8, 1, true, false, false, 1, 1, by decide, by decide, hcreate⟩) ?_ hrun
    intro op hop u
    simp only [longHitOps, mem_cons, not_mem_nil, or_false] at hop
    rcases hop with rfl | rfl | rfl | rfl
    · exact ⟨threeTokens_hashChain 0, by decide, by decide, by decide⟩
    · trivial
    · trivial
    · exact ⟨threeTokens_hashChain 1, by decide, by decide, by decide⟩
  exact hbad (hall kv hreach).numFree

end KVCacheManager

end VllmCore
