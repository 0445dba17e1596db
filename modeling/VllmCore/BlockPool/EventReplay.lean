import VllmCore.BlockPool.HashConsistency
/-!
# Replaying the events of a pool

A consumer that applies the events in their order holds each hash as often as blocks of the
pool carry it, whatever is cached, evicted and taken in between.
-/

namespace VllmCore.BlockPool

open List Support

variable {D : Type} [DecidableEq D]

/-- What a consumer holds after one more event. -/
def applyEvent (held : Multiset (BlockHash D)) : KVCacheEvent D → Multiset (BlockHash D)
  | .blockStored e => held + e.blockHashes
  | .blockRemoved blockHashes _ => held - blockHashes
  | .allBlocksCleared => 0

def replay (events : List (KVCacheEvent D)) : Multiset (BlockHash D) := events.foldl applyEvent 0

def carried (p : BlockPool D) (b : BlockId) : Option (BlockHash D) :=
  (p.blocks b).blockHash.map (·.blockHash)

/-- The hashes on the blocks, each as often as it is carried. -/
def Carries (p : BlockPool D) (held : Multiset (BlockHash D)) : Prop :=
  ∃ hashed : List BlockId, hashed.Nodup ∧ (∀ b ∉ hashed, p.carried b = none) ∧
    held = hashed.filterMap p.carried

/-- The events that were taken and those still queued tell what the blocks carry. -/
structure Tracked (taken : List (KVCacheEvent D)) (p : BlockPool D) : Prop where
  consistent : p.HashConsistent
  enabled : p.enableKvCacheEvents = true
  carries : p.Carries (replay (taken ++ p.kvEventQueue))

variable {p p' q : BlockPool D} {b : BlockId} {held : Multiset (BlockHash D)}
  {taken : List (KVCacheEvent D)} {bs : List BlockId}

@[simp] theorem replay_concat (events : List (KVCacheEvent D)) (e : KVCacheEvent D) :
    replay (events ++ [e]) = applyEvent (replay events) e := foldl_concat ..

/-- What the other blocks carry, when one block changes. -/
theorem Carries.apart (h : p.Carries held) (b : BlockId) :
    ∃ rest : Multiset (BlockHash D), held = (p.carried b).toList + rest ∧
      ∀ q : BlockPool D, (∀ c, c ≠ b → q.blocks c = p.blocks c) →
        q.Carries ((q.carried b).toList + rest) := by
  obtain ⟨hashed, hnodup, hnone, rfl⟩ := h
  have hcons : ∀ q : BlockPool D, (b :: hashed.erase b).filterMap q.carried =
      (q.carried b).toList ++ (hashed.erase b).filterMap q.carried := by
    intro q
    rw [filterMap_cons]
    cases q.carried b <;> rfl
  refine ⟨(hashed.erase b).filterMap p.carried, ?_, ?_⟩
  · rw [Multiset.coe_add, ← hcons p, Multiset.coe_eq_coe]
    by_cases hb : b ∈ hashed
    · exact (perm_cons_erase hb).filterMap _
    · rw [erase_of_not_mem hb, filterMap_cons_none (hnone b hb)]
  · intro q hother
    have hcarried : ∀ c, c ≠ b → q.carried c = p.carried c := by
      intro c hc
      unfold carried
      rw [hother c hc]
    refine ⟨b :: hashed.erase b, nodup_cons.mpr ⟨hnodup.not_mem_erase, hnodup.erase b⟩, ?_, ?_⟩
    · intro c hc
      rw [mem_cons, not_or] at hc
      rw [hcarried c hc.1]
      exact hnone c fun hmem => hc.2 (hnodup.mem_erase_iff.mpr ⟨hc.1, hmem⟩)
    · rw [hcons q, ← Multiset.coe_add,
        filterMap_congr fun c hc => hcarried c (hnodup.mem_erase_iff.mp hc).1]

/-! ## The calls of the pool -/

theorem Tracked.congr (h : Tracked taken p) (hsame : p.SameHashes q)
    (hqueue : q.kvEventQueue = p.kvEventQueue)
    (henabled : q.enableKvCacheEvents = p.enableKvCacheEvents) : Tracked taken q := by
  have hcarried : q.carried = p.carried := funext fun b => congrArg _ (hsame.blockHash b)
  refine ⟨h.consistent.congr hsame, henabled.trans h.enabled, ?_⟩
  unfold Carries
  rw [hqueue, hcarried]
  exact h.carries

theorem Tracked.setRefCnt (h : Tracked taken p) (b : BlockId) (n : Int) :
    Tracked taken (p.setBlock b { p.blocks b with refCnt := n }) :=
  h.congr (sameHashes_setRefCnt p b n) rfl rfl

theorem Tracked.withQueue (h : Tracked taken p) (queue : FreeKVCacheBlockQueue) :
    Tracked taken { p with freeBlockQueue := queue } :=
  h.congr ⟨fun _ => rfl, fun _ => rfl, rfl, rfl, rfl⟩ rfl rfl

theorem Tracked.maybeEvict (h : Tracked taken p) (b : BlockId) :
    Tracked taken (p.maybeEvictCachedBlock b).1 := by
  obtain ⟨hconsistent, hnone, hother⟩ := maybeEvict_spec h.consistent b
  cases hb : (p.blocks b).blockHash with
  | none =>
    unfold maybeEvictCachedBlock
    rw [hb]
    exact h
  | some key =>
    obtain ⟨hqueue, henabled⟩ : (p.maybeEvictCachedBlock b).1.kvEventQueue =
        p.kvEventQueue ++ [.blockRemoved [key.blockHash] .gpu] ∧
        (p.maybeEvictCachedBlock b).1.enableKvCacheEvents = true := by
      have hpop := h.consistent.pop_eq hb
      unfold maybeEvictCachedBlock
      cases hres : p.cachedBlockHashToBlock.pop key b with
      | mk found cache =>
        rw [hres] at hpop
        obtain rfl : found = some b := hpop
        simp [hb, hres, setBlock, h.enabled]
    obtain ⟨rest, hheld, hchanged⟩ := h.carries.apart b
    have hcarries := hchanged _ hother
    refine ⟨hconsistent, henabled, ?_⟩
    rw [carried, hb] at hheld
    rw [carried, hnone] at hcarries
    rw [hqueue, ← append_assoc, replay_concat, hheld]
    have hremoved : applyEvent (([key.blockHash] : Multiset (BlockHash D)) + rest)
        (.blockRemoved [key.blockHash] .gpu) = rest := add_tsub_cancel_left ..
    rw [Option.map_some, Option.toList_some, hremoved]
    rwa [Option.map_none, Option.toList_none, Multiset.coe_nil, zero_add] at hcarries

theorem Tracked.claimBlock (h : Tracked taken p) (hclaim : p.claimBlock b = .ok p') :
    Tracked taken p' := by
  have hevicted : Tracked taken (if p.enableCaching then (p.maybeEvictCachedBlock b).1 else p) := by
    split
    · exact h.maybeEvict b
    · exact h
  unfold BlockPool.claimBlock at hclaim
  generalize (if p.enableCaching then (p.maybeEvictCachedBlock b).1 else p) = q at *
  simp only [bind_ok, pyAssert_ok, pure_ok] at hclaim
  obtain ⟨_, _, rfl⟩ := hclaim
  exact (hevicted.setRefCnt b _).congr ⟨fun _ => rfl, fun _ => rfl, rfl, rfl, rfl⟩ rfl rfl

theorem Tracked.freeBlocks (h : Tracked taken p) (bs : List BlockId) :
    Tracked taken (p.freeBlocks bs) := by
  have hdrop : ∀ p, Tracked taken p → Tracked taken (bs.foldl dropRef p) := by
    induction bs with
    | nil => exact fun _ hp => hp
    | cons b bs ih => exact fun p hp => ih _ (hp.setRefCnt b _)
  exact (hdrop p h).withQueue _

variable {r : Request D} {fns : HashFns D} {numCached numFull blockSize groupId : Nat}

theorem cacheFullBlock_carries {hashes : BlockHashListWithBlockSize D} {e : Nat × BlockId}
    {st st' : BlockPool D × List (BlockHash D)} (h : st.1.Carries (held + st.2))
    (hcache : cacheFullBlock r hashes groupId st e = .ok st') :
    st'.1.Carries (held + st'.2) ∧ st'.1.kvEventQueue = st.1.kvEventQueue ∧
      st'.1.enableKvCacheEvents = st.1.enableKvCacheEvents := by
  simp only [cacheFullBlock] at hcache
  split at hcache
  · rw [pure_ok] at hcache
    exact hcache ▸ ⟨h, rfl, rfl⟩
  · simp only [bind_ok, pyAssert_ok, pure_ok] at hcache
    obtain ⟨_, hnone, blockHash, _, rfl⟩ := hcache
    obtain ⟨rest, hheld, hchanged⟩ := h.apart e.2
    rw [carried, hnone, Option.map_none, Option.toList_none, Multiset.coe_nil, zero_add] at hheld
    refine ⟨?_, rfl, rfl⟩
    rw [← Multiset.coe_add, ← add_assoc, hheld, add_comm]
    have hcarries := hchanged (st.1.setBlock e.2 { st.1.blocks e.2 with
      blockHash := some ⟨blockHash, groupId⟩ }) fun c hc => setBlock_of_ne st.1 _ hc
    rw [carried, setBlock_self] at hcarries
    exact hcarries

theorem Tracked.cacheFullBlocks (h : Tracked taken p) (hcaching : p.enableCaching = true)
    (hcache : p.cacheFullBlocks fns r bs numCached numFull blockSize groupId = .ok p') :
    Tracked taken p' := by
  have hconsistent := cacheFullBlocks_hashConsistent h.consistent hcaching hcache
  unfold BlockPool.cacheFullBlocks at hcache
  split at hcache
  · rw [pure_ok] at hcache
    exact hcache ▸ h
  · simp only [bind_ok] at hcache
    obtain ⟨_, _, hashes, _, ⟨q, newHashes⟩, hloop, hcache⟩ := hcache
    obtain ⟨hcarries, hqueue, henabled⟩ := foldlM_inv
      (P := fun st => st.1.Carries (replay (taken ++ p.kvEventQueue) + st.2) ∧
        st.1.kvEventQueue = p.kvEventQueue ∧ st.1.enableKvCacheEvents = true)
      (fun _ _ _ _ hs hx => (cacheFullBlock_carries hs.1 hx).imp_right fun hsame =>
        ⟨hsame.1.trans hs.2.1, hsame.2.trans hs.2.2⟩)
      ⟨(add_zero (replay (taken ++ p.kvEventQueue))).symm ▸ h.carries, rfl, h.enabled⟩ hloop
    rw [if_pos henabled] at hcache
    simp only [bind_ok, pure_ok] at hcache
    obtain ⟨_, _, _, _, rfl⟩ := hcache
    refine ⟨hconsistent, henabled, ?_⟩
    dsimp only at hqueue ⊢
    rw [hqueue, ← append_assoc, replay_concat]
    exact hcarries

theorem Tracked.resetPrefixCache (h : Tracked taken p) :
    Tracked taken p.resetPrefixCache.1 := by
  have hconsistent := resetPrefixCache_hashConsistent h.consistent
  unfold BlockPool.resetPrefixCache at hconsistent ⊢
  dsimp only at hconsistent ⊢
  split
  · exact h
  next hunused =>
    rw [if_neg hunused, if_pos h.enabled] at hconsistent
    rw [if_pos h.enabled]
    refine ⟨hconsistent, h.enabled, ?_⟩
    rw [← append_assoc, replay_concat]
    exact ⟨[], nodup_nil, fun _ _ => rfl, rfl⟩

theorem Tracked.takeEvents (h : Tracked taken p) :
    Tracked (taken ++ p.takeEvents.1) p.takeEvents.2 := by
  unfold BlockPool.takeEvents
  rw [if_pos h.enabled]
  refine ⟨h.consistent.congr ⟨fun _ => rfl, fun _ => rfl, rfl, rfl, rfl⟩, h.enabled, ?_⟩
  rw [append_nil]
  exact h.carries

/-! ## Runs -/

/-- The events that a call hands out. -/
def takenBy (p : BlockPool D) : PoolOp D → List (KVCacheEvent D)
  | .takeEvents => p.takeEvents.1
  | _ => []

def runPublishing (fns : HashFns D) (st : BlockPool D × List (KVCacheEvent D)) (op : PoolOp D) :
    Py (BlockPool D × List (KVCacheEvent D)) := do
  let p ← runPoolOp fns st.1 op
  return (p, st.2 ++ st.1.takenBy op)

/-- The pools that publish events, with all the events that were taken. -/
def PublishingReachable (fns : HashFns D) : BlockPool D × List (KVCacheEvent D) → Prop :=
  Reachable (fun st => st.2 = [] ∧ ∃ n caching hashBlockSize,
      create n caching hashBlockSize true = .ok st.1)
    (OpStep (fun st => PoolOpAllowed st.1) (runPublishing fns))

theorem create_tracked {n hashBlockSize : Nat} {caching : Bool}
    (h : create n caching hashBlockSize true = .ok p) : Tracked [] p := by
  have hconsistent := create_hashConsistent h
  have hnone := create_unhashed h
  unfold create at h
  simp only [bind_ok, pyAssert_ok, pure_ok] at h
  obtain ⟨_, _, ⟨nullBlock, queue⟩, _, rfl⟩ := h
  exact ⟨hconsistent, rfl, [], nodup_nil, fun b _ => congrArg _ (hnone b), rfl⟩

theorem Tracked.run {op : PoolOp D} (h : Tracked taken p) (hop : PoolOpAllowed p op)
    (hrun : runPoolOp fns p op = .ok p') : Tracked (taken ++ p.takenBy op) p' := by
  have hother : ∀ {q}, Tracked taken q → Tracked (taken ++ []) q := fun hq => by rwa [append_nil]
  cases op with
  | cacheFullBlocks => exact hother (h.cacheFullBlocks hop hrun)
  | getNewBlocks n =>
    obtain ⟨bs, hrun⟩ := map_snd_ok.mp hrun
    simp only [BlockPool.getNewBlocks, bind_ok, pure_ok] at hrun
    obtain ⟨_, _, ⟨ret, queue⟩, _, q, hloop, rfl, rfl⟩ := hrun
    exact hother (foldlM_inv (fun _ _ _ _ hs hx => hs.claimBlock hx) (h.withQueue queue) hloop)
  | touch blocks =>
    refine hother (foldlM_inv ?_ h hrun)
    intro q b q' _ hq hb
    simp only [touchBlock, bind_ok, pure_ok] at hb
    obtain ⟨queue, _, rfl⟩ := hb
    exact (hq.setRefCnt b _).withQueue queue
  | freeBlocks bs =>
    cases hrun
    exact hother (h.freeBlocks bs)
  | evictBlocks ids =>
    refine hother (foldlM_inv ?_ h hrun)
    intro q b q' _ hq hb
    simp only [evictBlock, bind_ok, pyAssert_ok, pure_ok] at hb
    obtain ⟨_, _, rfl⟩ := hb
    exact hq.maybeEvict b
  | resetPrefixCache =>
    cases hrun
    exact hother h.resetPrefixCache
  | takeEvents =>
    cases hrun
    exact h.takeEvents
  | reserveSinkBlocks n =>
    obtain ⟨bs, hrun⟩ := map_snd_ok.mp hrun
    simp only [BlockPool.reserveSinkBlocks, bind_ok, pure_ok] at hrun
    obtain ⟨⟨ret, queue⟩, _, rfl, rfl⟩ := hrun
    exact hother (h.withQueue queue)

theorem Carries.mem_iff (h : p.Carries held) (hp : p.HashConsistent) {blockHash : BlockHash D} :
    blockHash ∈ held ↔
      ∃ groupId, (p.cachedBlockHashToBlock.getOneBlock ⟨blockHash, groupId⟩).isSome = true := by
  have hiff : blockHash ∈ held ↔ ∃ b, p.carried b = some blockHash := by
    obtain ⟨hashed, _, hnone, rfl⟩ := h
    rw [Multiset.mem_coe, mem_filterMap]
    refine ⟨fun ⟨b, _, hb⟩ => ⟨b, hb⟩, fun ⟨b, hb⟩ => ⟨b, ?_, hb⟩⟩
    by_contra hmem
    rw [hnone b hmem] at hb
    cases hb
  rw [hiff]
  constructor
  · rintro ⟨b, hb⟩
    obtain ⟨key, hkey, rfl⟩ := Option.map_eq_some_iff.mp hb
    have hstored := (hp.hashed_iff b key).mp hkey
    refine ⟨key.groupId, ?_⟩
    unfold BlockHashToBlockMap.Stores at hstored
    unfold BlockHashToBlockMap.getOneBlock
    cases hc : p.cachedBlockHashToBlock.cache key with
    | none => simp [hc] at hstored
    | some blocks =>
      cases blocks with
      | single b' => rfl
      | dict bs =>
        simpa [Dict.values] using hp.wellKeyed.nonempty key bs hc
  · rintro ⟨groupId, hsome⟩
    obtain ⟨b, hb⟩ := Option.isSome_iff_exists.mp hsome
    have hstored := BlockHashToBlockMap.stores_of_getOneBlock hp.wellKeyed hb
    exact ⟨b, congrArg _ ((hp.hashed_iff b _).mpr hstored)⟩

/-- A consumer of all the events of a run holds each hash as often as blocks carry it, and
holds it when a lookup in some group finds a block. -/
theorem replay_tracks_cache {fns : HashFns D} {st : BlockPool D × List (KVCacheEvent D)}
    (h : PublishingReachable fns st) :
    st.1.Carries (replay (st.2 ++ st.1.kvEventQueue)) ∧
      ∀ blockHash, blockHash ∈ replay (st.2 ++ st.1.kvEventQueue) ↔
        ∃ groupId,
          (st.1.cachedBlockHashToBlock.getOneBlock ⟨blockHash, groupId⟩).isSome = true := by
  have htracked : Tracked st.2 st.1 := by
    refine Reachable.invariant (P := fun st => Tracked st.2 st.1) ?_ ?_ h
    · rintro ⟨p, taken⟩ ⟨rfl, n, caching, hashBlockSize, hcreate⟩
      exact create_tracked hcreate
    · rintro ⟨p, taken⟩ st' htracked ⟨op, hop, hrun⟩
      simp only [runPublishing, bind_ok, pure_ok] at hrun
      obtain ⟨p', hrun, rfl⟩ := hrun
      exact htracked.run hop hrun
  exact ⟨htracked.carries, fun blockHash => htracked.carries.mem_iff htracked.consistent⟩

/-- One hash on two blocks, of which one is evicted after the events were taken. -/
theorem replay_tracks_cache_shared : ∃ st, PublishingReachable transcriptFns st ∧
    st.2.length = 2 ∧ [[([7], none)]] ∈ replay (st.2 ++ st.1.kvEventQueue) := by
  obtain ⟨p₀, hcreate⟩ : ∃ p, create (D := Transcript) 3 true 1 true = .ok p := ⟨_, rfl⟩
  obtain ⟨st, hrun, hlen, hone⟩ : ∃ st,
      runOps (checked (fun st => PoolOpAllowed st.1) (runPublishing transcriptFns)) (p₀, [])
        (sharedHashOps ++ [.takeEvents, .evictBlocks [1]]) = .ok st ∧ st.2.length = 2 ∧
      (st.1.cachedBlockHashToBlock.getOneBlock ⟨[[([7], none)]], 0⟩).isSome = true := by
    cases hcreate
    exact ⟨_, rfl, by decide, by decide⟩
  have hreach : PublishingReachable transcriptFns st :=
    Reachable.runOps (.start ⟨rfl, 3, true, 1, hcreate⟩) hrun
  exact ⟨st, hreach, hlen, ((replay_tracks_cache hreach).2 _).mpr ⟨0, hone⟩⟩

end VllmCore.BlockPool
