import VllmCore.KVCacheManager.PoolSteps
import Mathlib.Data.Finset.Card
/-!
# Resetting the prefix cache of an idle manager

`reset_prefix_cache` takes the pool to be idle when one block is in use, the null block.
The blocks that a sink manager took out of the queue at construction count as used too,
so that with such a group the cache is never reset.
-/

namespace VllmCore

open List Nat Support

variable {D : Type} [DecidableEq D]

open SingleTypeKVCacheManager (PoolOk)

def KVCacheSpec.isSinkFullAttention (s : KVCacheSpec) : Bool :=
  match s.kind with
  | .sinkFullAttention .. => true
  | _ => false

/-! ## Counting the free blocks -/

namespace BlockPool

variable {M : Multiset BlockId} {R : Set BlockId} {p : BlockPool D}

theorem PoolInv.toFinset_queue (hp : PoolInv R p M) (hM : ∀ b, b ≠ p.nullBlock → M.count b = 0)
    (b : BlockId) :
    b ∈ p.freeBlockQueue.blocks.toFinset ↔ b < p.numGpuBlocks ∧ b ≠ p.nullBlock ∧ b ∉ R := by
  rw [mem_toFinset, hp.mem_queue b]
  constructor
  · rintro ⟨hlt, hnull, hR, _⟩
    exact ⟨hlt, hnull, hR⟩
  · rintro ⟨hlt, hnull, hR⟩
    exact ⟨hlt, hnull, hR, hM b hnull⟩

theorem PoolInv.card_queue (hp : PoolInv R p M) :
    (p.freeBlockQueue.blocks.toFinset.card : Int) = p.getNumFreeBlocks := by
  rw [toFinset_card_of_nodup hp.nodup]
  exact hp.numFree.symm

theorem PoolInv.getNumFreeBlocks_idle (hp : PoolInv R p M)
    (hM : ∀ b, b ≠ p.nullBlock → M.count b = 0) (hR : ∀ b, b ∉ R) :
    p.getNumFreeBlocks = p.numGpuBlocks - 1 := by
  have hset : p.freeBlockQueue.blocks.toFinset =
      (Finset.range p.numGpuBlocks).erase p.nullBlock := by
    ext b
    rw [hp.toFinset_queue hM, Finset.mem_erase, Finset.mem_range]
    constructor
    · rintro ⟨hlt, hnull, _⟩
      exact ⟨hnull, hlt⟩
    · rintro ⟨hnull, hlt⟩
      exact ⟨hlt, hnull, hR b⟩
  have hmem : p.nullBlock ∈ Finset.range p.numGpuBlocks := Finset.mem_range.mpr hp.null_lt
  have hpos : 0 < p.numGpuBlocks := zero_lt_of_lt hp.null_lt
  have hcard := hp.card_queue
  rw [hset, Finset.card_erase_of_mem hmem, Finset.card_range] at hcard
  omega

theorem PoolInv.getNumFreeBlocks_reserved (hp : PoolInv R p M) {b : BlockId} (hb : b ∈ R)
    (hlt : b < p.numGpuBlocks) : p.getNumFreeBlocks < p.numGpuBlocks - 1 := by
  have hnull : b ≠ p.nullBlock := by
    intro heq
    exact hp.null_free (heq ▸ hb)
  have hsub : p.freeBlockQueue.blocks.toFinset ⊆
      ((Finset.range p.numGpuBlocks).erase p.nullBlock).erase b := by
    intro x hx
    rw [mem_toFinset, hp.mem_queue x] at hx
    obtain ⟨hxlt, hxnull, hxR, _⟩ := hx
    rw [Finset.mem_erase, Finset.mem_erase, Finset.mem_range]
    exact ⟨fun heq => hxR (heq ▸ hb), hxnull, hxlt⟩
  have hmem : p.nullBlock ∈ Finset.range p.numGpuBlocks := Finset.mem_range.mpr hp.null_lt
  have hmem' : b ∈ (Finset.range p.numGpuBlocks).erase p.nullBlock := by
    rw [Finset.mem_erase, Finset.mem_range]
    exact ⟨hnull, hlt⟩
  have hle := Finset.card_le_card hsub
  rw [Finset.card_erase_of_mem hmem', Finset.card_erase_of_mem hmem, Finset.card_range] at hle
  have hcard := hp.card_queue
  have hnullLt := hp.null_lt
  have htwo : 2 ≤ p.numGpuBlocks := by
    rcases lt_or_gt_of_ne hnull with hbefore | hbehind
    · exact lt_of_le_of_lt (zero_lt_of_lt hbefore) hnullLt
    · exact lt_of_le_of_lt (zero_lt_of_lt hbehind) hlt
  omega

theorem resetPrefixCache_of_idle (hfree : p.getNumFreeBlocks = p.numGpuBlocks - 1) :
    p.resetPrefixCache.2 = true ∧ (∀ b, (p.resetPrefixCache.1.blocks b).blockHash = none) ∧
      p.resetPrefixCache.1.cachedBlockHashToBlock = .empty := by
  have hused : ¬((p.numGpuBlocks : Int) - p.getNumFreeBlocks ≠ 1) := by omega
  unfold resetPrefixCache
  rw [if_neg hused]
  refine ⟨rfl, ?_, ?_⟩
  · intro b
    dsimp only
    split <;> rfl
  · dsimp only
    split <;> rfl

theorem resetPrefixCache_of_used (hfree : p.getNumFreeBlocks < p.numGpuBlocks - 1) :
    p.resetPrefixCache.2 = false := by
  have hused : (p.numGpuBlocks : Int) - p.getNumFreeBlocks ≠ 1 := by omega
  unfold resetPrefixCache
  rw [if_pos hused]

end BlockPool

/-! ## Reserved blocks -/

namespace SingleTypeKVCacheManager

/-- A sink manager holds blocks of the pool, and no other manager does. -/
structure SinksOf (numGpuBlocks : Nat) (m : SingleTypeKVCacheManager D) : Prop where
  nonempty : m.sinkBlocks ≠ [] ↔ m.spec.isSinkFullAttention = true
  range : ∀ b ∈ m.sinkBlocks, b < numGpuBlocks

theorem SinksOf.congr {n : Nat} {m m' : SingleTypeKVCacheManager D} (h : m.SinksOf n)
    (hsame : m.SameConfig m') : m'.SinksOf n := by
  constructor
  · rw [hsame.sinkBlocks, hsame.spec]
    exact h.nonempty
  · rw [hsame.sinkBlocks]
    exact h.range

theorem create_sinksOf {spec : KVCacheSpec} {p p' : BlockPool D} {caching : Bool}
    {i dcp pcp : Nat} {m : SingleTypeKVCacheManager D} {R : Set BlockId} (hworld : 0 < dcp * pcp)
    (hp : PoolOk R p 0) (h : create spec p caching i dcp pcp = .ok (m, p')) :
    m.SinksOf p.numGpuBlocks := by
  unfold create at h
  have hsize : 0 < if 1 < dcp * pcp then spec.blockSize * (dcp * pcp) else spec.blockSize := by
    split
    · exact mul_pos spec.blockSize_pos hworld
    · exact spec.blockSize_pos
  generalize (if 1 < dcp * pcp then spec.blockSize * (dcp * pcp) else spec.blockSize) = size at *
  split at h
  next kind =>
    split at h
    · cases h
    next len =>
      simp only [bind_ok, pyAssert_ok, pure_ok] at h
      obtain ⟨_, ⟨hpos, hmod⟩, ⟨sink, q⟩, hres, hpair⟩ := h
      cases hpair
      unfold BlockPool.reserveSinkBlocks at hres
      simp only [bind_ok, pure_ok] at hres
      obtain ⟨⟨ret, queue⟩, hpop, hret⟩ := hres
      cases hret
      obtain ⟨_, htake, hlength, _⟩ := hp.refs.popleftN (Int.natCast_nonneg _) hpop
      have hcount : 0 < len / size := div_pos (le_of_dvd hpos
        (dvd_of_mod_eq_zero hmod)) hsize
      constructor
      · constructor
        · intro _
          simp only [KVCacheSpec.isSinkFullAttention, kind]
        · intro _ hnil
          dsimp only at hnil
          rw [hnil] at hlength
          simp only [length_nil] at hlength
          omega
      · intro b hb
        rw [htake] at hb
        exact ((hp.refs.mem_queue b).mp (mem_of_mem_take hb)).1
  next kind =>
    cases h
    constructor
    · constructor
      · intro hne
        exact absurd rfl hne
      · intro hsink
        exfalso
        unfold KVCacheSpec.isSinkFullAttention at hsink
        split at hsink
        next hkind => exact kind _ _ _ _ _ hkind
        · cases hsink
    · intro b hb
      cases hb

end SingleTypeKVCacheManager

namespace KVCacheCoordinator

theorem createManagers_sinksOf {caching : Bool} {dcp pcp : Nat} (hworld : 0 < dcp * pcp) :
    ∀ {specs : List KVCacheSpec} {i : Nat} {p p' : BlockPool D} {R : Set BlockId}
      {ms : List (SingleTypeKVCacheManager D)}, PoolOk R p 0 →
      (∀ b, (p.blocks b).blockHash = none) →
        createManagers caching dcp pcp i specs p = .ok (ms, p') →
      p.SameShape p' ∧ ∀ m ∈ ms, m.SinksOf p.numGpuBlocks := by
  intro specs
  induction specs with
  | nil =>
    intro i p p' R ms hp _ h
    cases h
    exact ⟨.refl p, by simp⟩
  | cons spec specs ih =>
    intro i p p' R ms hp hnone h
    unfold createManagers at h
    simp only [bind_ok, pure_ok] at h
    obtain ⟨⟨m, p₁⟩, hm, ⟨ms₁, p₂⟩, hms, hres⟩ := h
    cases hres
    have hsinks := SingleTypeKVCacheManager.create_sinksOf hworld hp hm
    obtain ⟨_, hp₁, hshape, hnone₁⟩ := SingleTypeKVCacheManager.create_fresh hworld hp hnone hm
    obtain ⟨hshape', hrest⟩ := ih hp₁ hnone₁ hms
    refine ⟨hshape.trans hshape', ?_⟩
    intro m' hm'
    rcases mem_cons.mp hm' with rfl | hm'
    · exact hsinks
    · exact hshape.numGpuBlocks ▸ hrest m' hm'

def SinksReserved (c : KVCacheCoordinator D) : Prop :=
  ∀ m ∈ c.singleTypeManagers, m.SinksOf c.blockPool.numGpuBlocks

theorem SinksReserved.congr {c c' : KVCacheCoordinator D} (h : c.SinksReserved)
    (hsame : c.SameConfig c') : c'.SinksReserved := by
  intro m' hm'
  obtain ⟨i, hi⟩ := getElem?_of_mem hm'
  obtain ⟨m, hm, hmsame⟩ := forall₂_getElem?_right hsame.managers hi
  rw [hsame.pool.numGpuBlocks]
  exact (h m (mem_of_getElem? hm)).congr hmsame

theorem create_sinksReserved {config : KVCacheConfig} {useEagle caching events : Bool}
    {dcp pcp hashBlockSize : Nat} {c : KVCacheCoordinator D} (hworld : 0 < dcp * pcp)
    (h : create config useEagle caching events dcp pcp hashBlockSize = .ok c) :
    c.SinksReserved := by
  unfold create at h
  simp only [bind_ok] at h
  obtain ⟨p, hpool, ⟨ms, p'⟩, hms, h⟩ := h
  have hnone := BlockPool.create_unhashed hpool
  have hp : PoolOk ∅ p 0 :=
    ⟨(BlockPool.create_poolInv hpool).1, BlockPool.create_hashConsistent hpool,
      fun b hb => absurd (hnone b) hb⟩
  obtain ⟨hshape, hsinks⟩ := createManagers_sinksOf hworld hp hnone hms
  -- The class of the coordinator makes no difference.
  have hinv : ∀ c : KVCacheCoordinator D, c.singleTypeManagers = ms → c.blockPool = p' →
      c.SinksReserved := by
    intro c hcms hcp m hm
    rw [hcp, hshape.numGpuBlocks]
    exact hsinks m (hcms ▸ hm)
  split at h
  · cases h
    exact hinv _ rfl rfl
  · split at h
    · simp only [bind_ok, pure_ok] at h
      obtain ⟨_, _, rfl⟩ := h
      exact hinv _ rfl rfl
    · simp only [bind_ok, pure_ok] at h
      obtain ⟨_, _, _, _, _, _, _, _, rfl⟩ := h
      exact hinv _ rfl rfl

end KVCacheCoordinator

/-! ## Idle managers -/

namespace KVCacheManager

/-- No request holds a block: its tables are empty but for null blocks. -/
def Idle (kv : KVCacheManager D) : Prop :=
  ∀ m ∈ kv.coordinator.singleTypeManagers, ∀ rid, ∀ b ∈ m.blocksOf rid,
    b = kv.blockPool.nullBlock

structure PrefixCacheReset (kv : KVCacheManager D) : Prop where
  result : kv.resetPrefixCache.2 = true
  unhashed : ∀ b, (kv.resetPrefixCache.1.blockPool.blocks b).blockHash = none
  empty : kv.resetPrefixCache.1.blockPool.cachedBlockHashToBlock = .empty

variable {b : BlockId} {kv : KVCacheManager D}

theorem mem_items {m : SingleTypeKVCacheManager D} (h : b ∈ m.items) :
    ∃ rid, b ∈ m.blocksOf rid := by
  unfold SingleTypeKVCacheManager.items Dict.items at h
  rw [Multiset.mem_coe, mem_flatMap] at h
  obtain ⟨⟨rid, t⟩, hmem, hb⟩ := h
  refine ⟨rid, ?_⟩
  unfold SingleTypeKVCacheManager.blocksOf
  rw [(Dict.get?_eq_some_iff _ _ _).mpr hmem]
  exact hb

theorem mem_allItems {ms : List (SingleTypeKVCacheManager D)} (h : b ∈ allItems ms) :
    ∃ m ∈ ms, ∃ rid, b ∈ m.blocksOf rid := by
  induction ms with
  | nil => exact absurd h (Multiset.notMem_zero b)
  | cons m ms ih =>
    unfold allItems at h
    rw [map_cons, sum_cons, Multiset.mem_add] at h
    rcases h with hm | hms
    · exact ⟨m, mem_cons_self, mem_items hm⟩
    · obtain ⟨m', hm', hb⟩ := ih hms
      exact ⟨m', mem_cons_of_mem m hm', hb⟩

theorem Idle.count_eq_zero (h : kv.Idle) (hb : b ≠ kv.blockPool.nullBlock) :
    kv.coordinator.references.count b = 0 := by
  rw [Multiset.count_eq_zero]
  intro hmem
  obtain ⟨m, hm, rid, hblocks⟩ := mem_allItems hmem
  exact hb (h m hm rid b hblocks)

theorem KVReachableCovered.sinksReserved {fns : HashFns D} (hfns : CollisionFree fns)
    (h : KVReachableCovered fns kv) : kv.RefInv ∧ kv.coordinator.SinksReserved := by
  refine h.invariant (P := fun kv => kv.RefInv ∧ kv.coordinator.SinksReserved) ?_ ?_
  · rintro kv ⟨config, maxModelLen, hashBlockSize, caching, useEagle, events, dcp, pcp, hworld,
      hlen, hcreate⟩
    refine ⟨create_refInv hworld hlen hcreate, ?_⟩
    unfold create at hcreate
    simp only [bind_ok, pure_ok] at hcreate
    obtain ⟨c, hc, rfl⟩ := hcreate
    exact KVCacheCoordinator.create_sinksReserved hworld hc
  · rintro kv kv' ⟨hkv, hsinks⟩ ⟨op, ⟨hop, hcovered⟩, hrun⟩
    have hgood : GoodKVOp (fun _ => True) op := by
      cases op <;> trivial
    have hmoves := runKVOp_moves ⟨hkv.coordinator.wf, hkv.caching⟩ hgood hrun
    exact ⟨runKVOp_refInv hfns hkv hop hcovered hrun, hsinks.congr hmoves.coordinator.config⟩

/-- When no request holds a block, the prefix cache can be reset if and only if no group
has sink blocks. -/
theorem reset_when_idle {fns : HashFns D} (hfns : CollisionFree fns) {kv : KVCacheManager D}
    (h : KVReachableCovered fns kv) (hidle : kv.Idle) :
    kv.PrefixCacheReset ↔
      ∀ spec ∈ kv.coordinator.kvCacheConfig.kvCacheGroups, spec.isSinkFullAttention = false := by
  obtain ⟨hkv, hsinks⟩ := h.sinksReserved hfns
  have hrefs := hkv.coordinator.pool.refs
  have hcount : ∀ b, b ≠ kv.blockPool.nullBlock → kv.coordinator.references.count b = 0 :=
    fun b hb => hidle.count_eq_zero hb
  rw [← hkv.coordinator.wf.specs]
  constructor
  · intro hreset spec hspec
    obtain ⟨m, hm, rfl⟩ := mem_map.mp hspec
    by_contra hsink
    rw [Bool.not_eq_false] at hsink
    obtain ⟨b, hb⟩ := exists_mem_of_ne_nil _ ((hsinks m hm).nonempty.mpr hsink)
    have hused := hrefs.getNumFreeBlocks_reserved ⟨m, hm, hb⟩ ((hsinks m hm).range b hb)
    have hfalse := BlockPool.resetPrefixCache_of_used hused
    have htrue : kv.coordinator.blockPool.resetPrefixCache.2 = true := hreset.result
    rw [hfalse] at htrue
    cases htrue
  · intro hnone
    have hreserved : ∀ b, b ∉ kv.coordinator.reserved := by
      rintro b ⟨m, hm, hb⟩
      have hsink := (hsinks m hm).nonempty.mp (ne_nil_of_mem hb)
      rw [hnone m.spec (mem_map.mpr ⟨m, hm, rfl⟩)] at hsink
      cases hsink
    obtain ⟨hresult, hunhashed, hempty⟩ :=
      BlockPool.resetPrefixCache_of_idle (hrefs.getNumFreeBlocks_idle hcount hreserved)
    exact ⟨hresult, hunhashed, hempty⟩

theorem idle_of_noTables (h : ∀ m ∈ kv.coordinator.singleTypeManagers, m.reqToBlocks.entries = []) :
    kv.Idle := by
  intro m hm rid b hb
  have hnone : m.reqToBlocks.get? rid = none := by
    cases hget : m.reqToBlocks.get? rid with
    | none => rfl
    | some t =>
      have hentry := (Dict.get?_eq_some_iff _ _ _).mp hget
      rw [h m hm] at hentry
      cases hentry
  rw [SingleTypeKVCacheManager.blocksOf, hnone] at hb
  cases hb

def sinkConfig : KVCacheConfig where
  numBlocks := 4
  kvCacheGroups := [⟨1, .sinkFullAttention (oneHead 1) 1 none none (some 1), Nat.one_pos⟩]

/-- Full attention alone: a request has come and gone. -/
theorem reset_when_idle_afterFree : ∃ kv : KVCacheManager Transcript,
    KVReachableCovered transcriptFns kv ∧ kv.PrefixCacheReset ∧
      kv.blockPool.cachedBlockHashToBlock ≠ .empty := by
  obtain ⟨kv₀, hcreate⟩ : ∃ kv : KVCacheManager Transcript,
      create twoFullConfig 8 1 true false false 1 1 = .ok kv := ⟨_, rfl⟩
  obtain ⟨kv, hrun, hhash, htables, hgroups⟩ : ∃ kv,
      runOps (runKVOp transcriptFns) kv₀
          [.allocateSlots (threeTokens 0) true { numNewTokens := 3 }, .free 0] = .ok kv ∧
        kv.blockPool.cachedBlockHashToBlock.cache ⟨[[([7], none)]], 0⟩ ≠ none ∧
        (∀ m ∈ kv.coordinator.singleTypeManagers, m.reqToBlocks.entries = []) ∧
        ∀ spec ∈ kv.coordinator.kvCacheConfig.kvCacheGroups,
          spec.isSinkFullAttention = false := by
    cases hcreate
    exact ⟨_, rfl, by decide, by decide, by decide⟩
  have hreach : KVReachableCovered transcriptFns kv := by
    refine Reachable.runOps_of_forall
      (.start ⟨_, 8, 1, true, false, false, 1, 1, by decide, by decide, hcreate⟩) ?_ hrun
    intro op hop u
    simp only [mem_cons, not_mem_nil, or_false] at hop
    rcases hop with rfl | rfl
    · exact ⟨⟨threeTokens_hashChain 0, by decide, by decide, by decide⟩, fun h => by cases h⟩
    · exact ⟨trivial, trivial⟩
  have hidle := idle_of_noTables htables
  refine ⟨kv, hreach, (reset_when_idle transcriptFns_collisionFree hreach hidle).mpr hgroups, ?_⟩
  intro hempty
  rw [hempty] at hhash
  exact hhash rfl

/-- A new manager with a sink group holds no request and cannot be reset. -/
theorem reset_not_when_idle : ¬∀ kv : KVCacheManager Transcript,
    KVReachable transcriptFns kv → kv.Idle → kv.PrefixCacheReset := by
  intro hall
  obtain ⟨kv, hcreate⟩ : ∃ kv : KVCacheManager Transcript,
      create sinkConfig 8 1 true false false 1 1 = .ok kv := ⟨_, rfl⟩
  have hreach : KVReachable transcriptFns kv :=
    .start ⟨_, 8, 1, true, false, false, 1, 1, by decide, by decide, hcreate⟩
  have hbad : kv.resetPrefixCache.2 = false := by
    cases hcreate
    decide
  have hidle : kv.Idle := by
    apply idle_of_noTables
    cases hcreate
    decide
  have hgood := (hall kv hreach hidle).result
  rw [hbad] at hgood
  cases hgood

end KVCacheManager

end VllmCore
