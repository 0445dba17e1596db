import VllmCore.BlockPool
import VllmCore.Support.Transition
/-!
# The hash map agrees with the hashes kept on the blocks

The map stores a block under a key, under its own number, exactly when the
block carries that key as its hash.  Registration, eviction and reset are the
only operations that touch either side; each keeps the two in step, whatever
blocks it is called with.
-/

namespace VllmCore

open Function List Support Dict

variable {D : Type} [DecidableEq D]

namespace BlockHashToBlockMap

/-- Block `b` is stored under `key` with dict key `blockId`. -/
def Stores (m : BlockHashToBlockMap D) (key : BlockHashWithGroupId D)
    (blockId b : BlockId) : Prop :=
  match m.cache key with
  | none => False
  | some (.single b') => b' = b ∧ blockId = b
  | some (.dict bs) => bs.get? blockId = some b

/-- Every block is stored under its own number, and no dict is empty. -/
structure WellKeyed (m : BlockHashToBlockMap D) : Prop where
  own_number : ∀ key blockId b, m.Stores key blockId b → blockId = b
  nonempty : ∀ key bs, m.cache key = some (.dict bs) → bs.entries ≠ []

theorem stores_empty (key : BlockHashWithGroupId D) (i b : BlockId) :
    ¬(empty : BlockHashToBlockMap D).Stores key i b := by
  simp [Stores, empty]

theorem wellKeyed_empty : (empty : BlockHashToBlockMap D).WellKeyed where
  own_number := fun key i b h => absurd h (stores_empty key i b)
  nonempty := by intro key bs h; simp [empty] at h

variable {b : BlockId} {key : BlockHashWithGroupId D} {m : BlockHashToBlockMap D}

theorem stores_update {k : BlockHashWithGroupId D} {c : Option CachedBlocks} {i : BlockId}
    (h : k ≠ key) : Stores ⟨update m.cache key c⟩ k i b ↔ m.Stores k i b := by
  simp [Stores, update_of_ne h]

theorem stores_insert (hm : m.WellKeyed) (key : BlockHashWithGroupId D) (b : BlockId)
    (k : BlockHashWithGroupId D) (i c : BlockId) :
    (m.insert key b).Stores k i c ↔ m.Stores k i c ∨ (k = key ∧ i = b ∧ c = b) := by
  by_cases hk : k = key
  · subst hk
    have hown := hm.own_number k i c
    unfold insert
    cases hc : m.cache k with
    | none => simp only [Stores, hc, update_self]; grind
    | some e =>
      cases e with
      | single b' =>
        simp only [Stores, hc, update_self, get?_set, get?_empty]
        grind
      | dict bs =>
        simp only [Stores, hc, update_self, get?_set] at hown ⊢
        grind
  · have hno : ¬(k = key ∧ i = b ∧ c = b) := fun h => hk h.1
    unfold insert
    cases hc : m.cache key with
    | none => rw [stores_update hk]; simp [hno]
    | some e => cases e <;> simp only [stores_update hk, hno, or_false]

theorem wellKeyed_insert (hm : m.WellKeyed)
    (key : BlockHashWithGroupId D) (b : BlockId) : (m.insert key b).WellKeyed where
  own_number := by
    intro k i c h
    rcases (stores_insert hm key b k i c).mp h with h | ⟨_, hi, hc⟩
    · exact hm.own_number k i c h
    · rw [hi, hc]
  nonempty := by
    intro k bs h
    by_cases hk : k = key
    · subst hk
      have hget : bs.get? b = some b := by
        unfold insert at h
        cases hc : m.cache k with
        | none => simp [hc] at h
        | some e =>
          cases e <;> simp only [hc, update_self, Option.some.injEq,
            CachedBlocks.dict.injEq] at h <;> simp [← h]
      intro hnil
      rw [get?_eq_some_iff, hnil] at hget
      exact absurd hget (by simp)
    · apply hm.nonempty k bs
      unfold insert at h
      cases hc : m.cache key with
      | none => simpa [hc, update_of_ne hk] using h
      | some e => cases e <;> simpa [hc, update_of_ne hk] using h

theorem stores_pop (m : BlockHashToBlockMap D)
    (key : BlockHashWithGroupId D) (b : BlockId) (k : BlockHashWithGroupId D)
    (i c : BlockId) :
    (m.pop key b).2.Stores k i c ↔ m.Stores k i c ∧ ¬(k = key ∧ i = b) := by
  by_cases hk : k = key
  · subst hk
    unfold pop
    cases hc : m.cache k with
    | none => simp [Stores, hc]
    | some e =>
      cases e with
      | single b' =>
        by_cases hb : b' = b
        · subst hb
          simp only [if_true, Stores, hc, update_self]
          grind
        · simp only [if_neg hb, Stores, hc]
          grind
      | dict bs =>
        have hget := get?_erase bs b i
        by_cases hrest : (bs.erase b).entries.isEmpty
        · have hnone : (bs.erase b).get? i = none := by
            rw [get?_eq_none_iff, Dict.keys, isEmpty_iff.mp hrest]
            simp
          simp only [Stores, hrest, hc, if_true, update_self]
          grind
        · simp only [Stores, hrest, hc, update_self]
          grind
  · have hno : ¬(k = key ∧ i = b) := fun h => hk h.1
    unfold pop
    cases hc : m.cache key with
    | none => simp [hno]
    | some e =>
      cases e with
      | single b' =>
        by_cases hb : b' = b
        · simp only [if_pos hb, stores_update hk, hno, not_false_eq_true, and_true]
        · simp [if_neg hb, hno]
      | dict bs => simp only [stores_update hk, hno, not_false_eq_true, and_true]

theorem wellKeyed_pop (hm : m.WellKeyed)
    (key : BlockHashWithGroupId D) (b : BlockId) : (m.pop key b).2.WellKeyed where
  own_number := fun k i c h =>
    hm.own_number k i c ((stores_pop m key b k i c).mp h).1
  nonempty := by
    intro k bs h
    unfold pop at h
    cases hc : m.cache key with
    | none => exact hm.nonempty k bs (by simpa [hc] using h)
    | some e =>
      cases e with
      | single b' =>
        by_cases hb : b' = b
        · by_cases hk : k = key
          · simp [hc, hb, hk] at h
          · exact hm.nonempty k bs
              (by simpa [hc, hb, update_of_ne hk] using h)
        · exact hm.nonempty k bs (by simpa [hc, hb] using h)
      | dict bs' =>
        by_cases hk : k = key
        · simp only [hc, hk, update_self] at h
          split at h
          · simp at h
          · rename_i hne
            simp only [Option.some.injEq, CachedBlocks.dict.injEq] at h
            subst h
            simpa [List.isEmpty_iff] using hne
        · exact hm.nonempty k bs (by simpa [hc, update_of_ne hk] using h)

theorem pop_of_stores (h : m.Stores key b b) : (m.pop key b).1 = some b := by
  unfold Stores at h
  unfold pop
  cases hc : m.cache key with
  | none => simp [hc] at h
  | some e =>
    cases e with
    | single b' => simp_all
    | dict bs => simpa [hc] using h

theorem stores_of_getOneBlock (hm : m.WellKeyed) (h : m.getOneBlock key = some b) :
    m.Stores key b b := by
  unfold getOneBlock at h
  cases hc : m.cache key with
  | none => simp [hc] at h
  | some e =>
    cases e with
    | single b' => simp_all [Stores]
    | dict bs =>
      simp only [hc] at h
      have hvalue : b ∈ bs.values := mem_of_mem_head? h
      obtain ⟨⟨i, c⟩, hentry, hcb⟩ := mem_map.mp hvalue
      subst hcb
      have hstored : m.Stores key i c := by
        simp only [Stores, hc]
        exact (get?_eq_some_iff bs i c).mpr hentry
      have hi := hm.own_number key i c hstored
      exact hi ▸ hstored

end BlockHashToBlockMap

namespace BlockPool

/-- The map and the hashes on the blocks agree.  Without caching there are no
hashes at all. -/
structure HashConsistent (p : BlockPool D) : Prop where
  hashed_iff : ∀ b key,
    (p.blocks b).blockHash = some key ↔ p.cachedBlockHashToBlock.Stores key b b
  wellKeyed : p.cachedBlockHashToBlock.WellKeyed
  null_unhashed : ∀ b, (p.blocks b).isNull = true → (p.blocks b).blockHash = none
  caching : ∀ b key, (p.blocks b).blockHash = some key → p.enableCaching = true
  nullBlock : (p.blocks p.nullBlock).isNull = true

/-- The pools agree on everything the consistency of the hashes is about. -/
structure SameHashes (p q : BlockPool D) : Prop where
  blockHash : ∀ b, (q.blocks b).blockHash = (p.blocks b).blockHash
  isNull : ∀ b, (q.blocks b).isNull = (p.blocks b).isNull
  cache : q.cachedBlockHashToBlock = p.cachedBlockHashToBlock
  enableCaching : q.enableCaching = p.enableCaching
  nullBlock : q.nullBlock = p.nullBlock

theorem SameHashes.refl (p : BlockPool D) : p.SameHashes p :=
  ⟨fun _ => rfl, fun _ => rfl, rfl, rfl, rfl⟩

variable {q : BlockPool D} {hashBlockSize numCached numFull blockSize : Nat} {caching events : Bool}

theorem SameHashes.trans {p s : BlockPool D} (h : p.SameHashes q) (h' : q.SameHashes s) :
    p.SameHashes s where
  blockHash b := (h'.blockHash b).trans (h.blockHash b)
  isNull b := (h'.isNull b).trans (h.isNull b)
  cache := h'.cache.trans h.cache
  enableCaching := h'.enableCaching.trans h.enableCaching
  nullBlock := h'.nullBlock.trans h.nullBlock

theorem HashConsistent.congr {p : BlockPool D} (hp : p.HashConsistent)
    (h : p.SameHashes q) : q.HashConsistent where
  hashed_iff := by intro b key; rw [h.blockHash, h.cache]; exact hp.hashed_iff b key
  wellKeyed := by rw [h.cache]; exact hp.wellKeyed
  null_unhashed := by intro b; rw [h.blockHash, h.isNull]; exact hp.null_unhashed b
  caching := by intro b key; rw [h.blockHash, h.enableCaching]; exact hp.caching b key
  nullBlock := by rw [h.nullBlock, h.isNull]; exact hp.nullBlock

def HashesShrink (p q : BlockPool D) : Prop :=
  ∀ b, (p.blocks b).blockHash = none → (q.blocks b).blockHash = none

variable {p p' : BlockPool D} {b : BlockId} {key : BlockHashWithGroupId D} {n groupId : Nat}
  {r : Request D} {blocks bs : List BlockId} {fns : HashFns D}

theorem SameHashes.shrink (h : p.SameHashes q) : p.HashesShrink q := by
  intro b hb
  rw [h.blockHash, hb]

/-! ## Single blocks -/

@[simp] theorem setBlock_self (p : BlockPool D) (b : BlockId) (blk : KVCacheBlock D) :
    (p.setBlock b blk).blocks b = blk := by simp [setBlock]

theorem setBlock_of_ne (p : BlockPool D) {c : BlockId} (blk : KVCacheBlock D) (h : c ≠ b) :
    (p.setBlock b blk).blocks c = p.blocks c := by
  simp [setBlock, update_of_ne h]

theorem sameHashes_setRefCnt (p : BlockPool D) (b : BlockId) (n : Int) :
    p.SameHashes (p.setBlock b { p.blocks b with refCnt := n }) := by
  refine ⟨fun c => ?_, fun c => ?_, rfl, rfl, rfl⟩
  · by_cases hc : c = b
    · subst hc; simp
    · rw [setBlock_of_ne p _ hc]
  · by_cases hc : c = b
    · subst hc; simp
    · rw [setBlock_of_ne p _ hc]

theorem HashConsistent.register (hp : p.HashConsistent) (key : BlockHashWithGroupId D)
    (hcaching : p.enableCaching = true) (hnull : (p.blocks b).isNull = false)
    (hfresh : (p.blocks b).blockHash = none) (log : List (BlockRecord D)) :
    BlockPool.HashConsistent
      { p.setBlock b { p.blocks b with blockHash := some key } with
        cachedBlockHashToBlock := p.cachedBlockHashToBlock.insert key b
        history := log } where
  hashed_iff := by
    intro c k
    have hc := hp.hashed_iff c k
    rw [BlockHashToBlockMap.stores_insert hp.wellKeyed]
    by_cases hcb : c = b
    · subst hcb
      simp only [setBlock_self, Option.some.injEq]
      grind
    · rw [setBlock_of_ne p _ hcb, hc]
      grind
  wellKeyed := BlockHashToBlockMap.wellKeyed_insert hp.wellKeyed key b
  null_unhashed := by
    intro c
    by_cases hcb : c = b
    · subst hcb
      simp [hnull]
    · simpa only [setBlock_of_ne p _ hcb] using hp.null_unhashed c
  caching := fun _ _ _ => hcaching
  nullBlock := by
    by_cases hn : p.nullBlock = b
    · exact absurd (hn ▸ hp.nullBlock) (by simp [hnull])
    · rw [← hp.nullBlock]
      exact congrArg _ (setBlock_of_ne p _ hn)

theorem HashConsistent.pop_eq (hp : p.HashConsistent) (h : (p.blocks b).blockHash = some key) :
    (p.cachedBlockHashToBlock.pop key b).1 = some b :=
  BlockHashToBlockMap.pop_of_stores ((hp.hashed_iff b key).mp h)

theorem HashConsistent.dropHash (hp : p.HashConsistent) (hb : (p.blocks b).blockHash = some key) :
    BlockPool.HashConsistent
      { p.setBlock b { p.blocks b with blockHash := none } with
        cachedBlockHashToBlock := (p.cachedBlockHashToBlock.pop key b).2 } where
  hashed_iff := by
    intro c k
    have hc := hp.hashed_iff c k
    rw [BlockHashToBlockMap.stores_pop]
    by_cases hcb : c = b
    · subst hcb
      simp only [setBlock_self]
      grind
    · rw [setBlock_of_ne p _ hcb, hc]
      grind
  wellKeyed := BlockHashToBlockMap.wellKeyed_pop hp.wellKeyed key b
  null_unhashed := by
    intro c
    by_cases hcb : c = b
    · subst hcb; simp
    · simpa only [setBlock_of_ne p _ hcb] using hp.null_unhashed c
  caching := fun _ _ _ => hp.caching b key hb
  nullBlock := by
    rw [← hp.nullBlock]
    by_cases hn : p.nullBlock = b
    · subst hn; simp [setBlock]
    · exact congrArg _ (setBlock_of_ne p _ hn)

/-- What an eviction leaves behind: the pool with the hash of one block dropped
on both sides, up to the events it emits. -/
theorem maybeEvict_eq (hp : p.HashConsistent) (hb : (p.blocks b).blockHash = some key) :
    ∃ events, (p.maybeEvictCachedBlock b) =
      ({ p.setBlock b { p.blocks b with blockHash := none } with
          cachedBlockHashToBlock := (p.cachedBlockHashToBlock.pop key b).2
          kvEventQueue := events }, true) := by
  have hpop := hp.pop_eq hb
  unfold maybeEvictCachedBlock
  rcases hres : p.cachedBlockHashToBlock.pop key b with ⟨found, cache⟩
  rw [hres] at hpop
  have hfound : found = some b := hpop
  subst hfound
  simp only [hb, hres]
  cases hev : p.enableKvCacheEvents with
  | false => exact ⟨p.kvEventQueue, by simp [setBlock, hev]⟩
  | true => exact ⟨_, by simp [setBlock, hev]; rfl⟩

theorem maybeEvict_spec (hp : p.HashConsistent) (b : BlockId) :
    (p.maybeEvictCachedBlock b).1.HashConsistent ∧
      ((p.maybeEvictCachedBlock b).1.blocks b).blockHash = none ∧
      ∀ c, c ≠ b → (p.maybeEvictCachedBlock b).1.blocks c = p.blocks c := by
  cases hb : (p.blocks b).blockHash with
  | none =>
    have heq : (p.maybeEvictCachedBlock b).1 = p := by
      unfold maybeEvictCachedBlock
      rw [hb]
    rw [heq]
    exact ⟨hp, hb, fun _ _ => rfl⟩
  | some key =>
    obtain ⟨events, heq⟩ := maybeEvict_eq hp hb
    rw [heq]
    refine ⟨(hp.dropHash hb).congr ⟨fun _ => rfl, fun _ => rfl, rfl, rfl, rfl⟩, ?_, ?_⟩
    · simp [setBlock]
    · intro c hc
      exact setBlock_of_ne p _ hc

/-! ## The operations -/

theorem create_unhashed (h : create n caching hashBlockSize events = .ok p) (b : BlockId) :
    (p.blocks b).blockHash = none := by
  unfold create at h
  simp only [bind_ok, pyAssert_ok, pure_ok] at h
  obtain ⟨_, _, ⟨nullBlock, queue⟩, _, rfl⟩ := h
  by_cases hb : b = nullBlock
  · subst hb; simp
  · simp [update_of_ne hb]

theorem hashConsistent_of_unhashed (hblocks : ∀ b, (p.blocks b).blockHash = none)
    (hcache : p.cachedBlockHashToBlock = .empty)
    (hnull : (p.blocks p.nullBlock).isNull = true) : p.HashConsistent where
  hashed_iff := by
    intro b key
    rw [hblocks, hcache]
    simp [BlockHashToBlockMap.stores_empty]
  wellKeyed := hcache ▸ BlockHashToBlockMap.wellKeyed_empty
  null_unhashed := fun b _ => hblocks b
  caching := by intro b key h; simp [hblocks] at h
  nullBlock := hnull

theorem create_hashConsistent
    (h : create n caching hashBlockSize events = .ok p) : p.HashConsistent := by
  refine hashConsistent_of_unhashed (create_unhashed h) ?_ ?_
  · unfold create at h
    simp only [bind_ok, pyAssert_ok, pure_ok] at h
    obtain ⟨_, _, ⟨nullBlock, queue⟩, _, rfl⟩ := h
    rfl
  · unfold create at h
    simp only [bind_ok, pyAssert_ok, pure_ok] at h
    obtain ⟨_, _, ⟨nullBlock, queue⟩, _, rfl⟩ := h
    simp

theorem cacheFullBlock_hashConsistent {hashes : BlockHashListWithBlockSize D} {e : Nat × BlockId}
    {st st' : BlockPool D × List (BlockHash D)}
    (hp : st.1.HashConsistent ∧ st.1.enableCaching = true)
    (h : cacheFullBlock r hashes groupId st e = .ok st') :
    st'.1.HashConsistent ∧ st'.1.enableCaching = true := by
  simp only [cacheFullBlock] at h
  split at h
  · rw [pure_ok] at h
    exact h ▸ hp
  · rename_i hnull
    simp only [bind_ok, pyAssert_ok, pure_ok] at h
    obtain ⟨_, hfresh, blockHash, _, rfl⟩ := h
    exact ⟨hp.1.register _ hp.2 (by simpa using hnull) hfresh _, hp.2⟩

theorem cacheFullBlocks_hashConsistent (hp : p.HashConsistent) (hcaching : p.enableCaching = true)
    (h : cacheFullBlocks fns p r blocks numCached numFull blockSize groupId = .ok p') :
    p'.HashConsistent := by
  unfold cacheFullBlocks at h
  split at h
  · rw [pure_ok] at h
    exact h ▸ hp
  · simp only [bind_ok] at h
    obtain ⟨_, _, hashes, _, ⟨q, newHashes⟩, hloop, h⟩ := h
    have hq : q.HashConsistent ∧ q.enableCaching = true :=
      foldlM_inv (P := fun st => st.1.HashConsistent ∧ st.1.enableCaching = true)
        (fun _ _ _ _ hs hx => cacheFullBlock_hashConsistent hs hx)
        (show p.HashConsistent ∧ p.enableCaching = true from ⟨hp, hcaching⟩) hloop
    split at h
    · simp only [bind_ok, pure_ok] at h
      obtain ⟨_, _, _, _, rfl⟩ := h
      exact hq.1.congr ⟨fun _ => rfl, fun _ => rfl, rfl, rfl, rfl⟩
    · rw [pure_ok] at h
      exact h ▸ hq.1

theorem mem_numberedSlice {start stop idx : Nat} :
    (idx, b) ∈ numberedSlice blocks start stop ↔
      start ≤ idx ∧ idx < stop ∧ blocks[idx]? = some b := by
  unfold numberedSlice
  rw [mem_map]
  constructor
  · rintro ⟨e, he, heq⟩
    cases heq
    rw [mem_zipIdx_iff_le_and_getElem?_sub, getElem?_drop, getElem?_take] at he
    obtain ⟨hle, hget⟩ := he
    rw [show start + (e.2 - start) = e.2 by omega] at hget
    split at hget
    · rename_i hlt
      exact ⟨hle, hlt, hget⟩
    · cases hget
  · rintro ⟨hle, hlt, hget⟩
    refine ⟨(b, idx), ?_, rfl⟩
    rw [mem_zipIdx_iff_le_and_getElem?_sub, getElem?_drop, getElem?_take]
    refine ⟨hle, ?_⟩
    rw [show start + (idx - start) = idx by omega, if_pos hlt]
    exact hget

theorem cacheFullBlocks_hashed
    (h : cacheFullBlocks fns p r blocks numCached numFull blockSize groupId = .ok p')
    (hb : (p'.blocks b).blockHash ≠ none) : (p.blocks b).blockHash ≠ none ∨ b ∈ blocks := by
  by_contra hcon
  rw [not_or, not_not] at hcon
  apply hb
  unfold cacheFullBlocks at h
  split at h
  · rw [pure_ok] at h
    exact h ▸ hcon.1
  · simp only [bind_ok] at h
    obtain ⟨_, _, hashes, _, ⟨q, newHashes⟩, hloop, h⟩ := h
    have hq : (q.blocks b).blockHash = none := by
      refine foldlM_inv (P := fun st => (st.1.blocks b).blockHash = none) ?_ ?_ hloop
      · rintro ⟨s, l⟩ ⟨idx, c⟩ st' hmem hs hx
        simp only [cacheFullBlock] at hx
        split at hx
        · rw [pure_ok] at hx
          exact hx ▸ hs
        · simp only [bind_ok, pyAssert_ok, pure_ok] at hx
          obtain ⟨_, _, blockHash, _, rfl⟩ := hx
          have hbc : b ≠ c := by
            rintro rfl
            exact hcon.2 (mem_of_getElem? (mem_numberedSlice.mp hmem).2.2)
          exact (congrArg KVCacheBlock.blockHash (setBlock_of_ne s _ hbc)).trans hs
      · exact hcon.1
    split at h
    · simp only [bind_ok, pure_ok] at h
      obtain ⟨_, _, _, _, rfl⟩ := h
      exact hq
    · rw [pure_ok] at h
      exact h ▸ hq

theorem claimBlock_evicted (hp : p.HashConsistent) (b : BlockId) :
    (if p.enableCaching then (p.maybeEvictCachedBlock b).1 else p).HashConsistent ∧
      ((if p.enableCaching then (p.maybeEvictCachedBlock b).1 else p).blocks b).blockHash
        = none ∧
      ∀ c, c ≠ b →
        (if p.enableCaching then (p.maybeEvictCachedBlock b).1 else p).blocks c
          = p.blocks c := by
  by_cases hc : p.enableCaching = true
  · simpa only [if_pos hc] using maybeEvict_spec hp b
  · have hnone : (p.blocks b).blockHash = none := by
      cases hb : (p.blocks b).blockHash with
      | none => rfl
      | some key => exact absurd (hp.caching b key hb) hc
    rw [if_neg hc]
    exact ⟨hp, hnone, fun _ _ => rfl⟩

theorem claimBlock_hashConsistent (hp : p.HashConsistent) (h : claimBlock p b = .ok p') :
    p'.HashConsistent ∧ (p'.blocks b).blockHash = none ∧
      ∀ c, (p.blocks c).blockHash = none → (p'.blocks c).blockHash = none := by
  obtain ⟨hcons, hself, hother⟩ := claimBlock_evicted hp b
  unfold claimBlock at h
  generalize (if p.enableCaching then (p.maybeEvictCachedBlock b).1 else p) = q at *
  simp only [bind_ok, pyAssert_ok, pure_ok] at h
  obtain ⟨_, _, rfl⟩ := h
  have hsame : q.SameHashes (q.setBlock b { q.blocks b with
      refCnt := (q.blocks b).refCnt + 1 }) := sameHashes_setRefCnt q b _
  have hnone : ((q.setBlock b { q.blocks b with
      refCnt := (q.blocks b).refCnt + 1 }).blocks b).blockHash = none := by
    rw [hsame.blockHash, hself]
  refine ⟨hcons.congr ⟨hsame.blockHash, hsame.isNull, rfl, rfl, rfl⟩, hnone, ?_⟩
  intro c hc
  by_cases hcb : c = b
  · subst hcb; exact hnone
  · have := hsame.blockHash c
    rw [hother c hcb] at this
    exact this.trans hc

theorem getNewBlocks_hashConsistent {n : Int} (hp : p.HashConsistent)
    (h : p.getNewBlocks n = .ok (bs, p')) :
    p'.HashConsistent ∧ (∀ b ∈ bs, (p'.blocks b).blockHash = none) ∧ p.HashesShrink p' := by
  unfold getNewBlocks at h
  simp only [bind_ok, pure_ok] at h
  obtain ⟨_, _, ⟨ret, queue⟩, _, q, hloop, hres⟩ := h
  obtain ⟨rfl, rfl⟩ := hres
  have hstart : ({ p with freeBlockQueue := queue } : BlockPool D).HashConsistent :=
    hp.congr ⟨fun _ => rfl, fun _ => rfl, rfl, rfl, rfl⟩
  have hend := foldlM_accumulates
    (P := fun s M => s.HashConsistent ∧ (∀ b ∈ M, (s.blocks b).blockHash = none) ∧
      p.HashesShrink s)
    (M := 0) (s := ({ p with freeBlockQueue := queue } : BlockPool D)) ?_
    ⟨hstart, by simp, fun _ hb => hb⟩ hloop
  · exact ⟨hend.1, fun b hb => hend.2.1 b (by simpa using hb), hend.2.2⟩
  · rintro s M b s' _ ⟨hs, hM, hshrink⟩ hb
    obtain ⟨hs', hself, hmono⟩ := claimBlock_hashConsistent hs hb
    refine ⟨hs', ?_, fun c hc => hmono c (hshrink c hc)⟩
    intro c hc
    rcases Multiset.mem_cons.mp hc with rfl | hc
    · exact hself
    · exact hmono c (hM c hc)

theorem touchBlock_sameHashes (h : touchBlock p b = .ok p') : p.SameHashes p' := by
  unfold touchBlock at h
  simp only [bind_ok, pure_ok] at h
  obtain ⟨queue, _, rfl⟩ := h
  have hsame := sameHashes_setRefCnt p b ((p.blocks b).refCnt + 1)
  exact ⟨hsame.blockHash, hsame.isNull, rfl, rfl, rfl⟩

theorem touch_sameHashes (h : p.touch bs = .ok p') : p.SameHashes p' :=
  foldlM_inv (P := fun q => p.SameHashes q)
    (fun _ _ _ _ hs hx => hs.trans (touchBlock_sameHashes hx)) (SameHashes.refl p) h

theorem dropRefs_sameHashes (bs : List BlockId) (p : BlockPool D) :
    p.SameHashes (bs.foldl dropRef p) := by
  induction bs generalizing p with
  | nil => exact SameHashes.refl p
  | cons b bs ih =>
    exact (sameHashes_setRefCnt p b _).trans (ih _)

theorem freeBlocks_sameHashes (p : BlockPool D) (bs : List BlockId) :
    p.SameHashes (p.freeBlocks bs) := by
  have h := dropRefs_sameHashes bs p
  exact ⟨h.blockHash, h.isNull, h.cache, h.enableCaching, h.nullBlock⟩

theorem evictBlock_hashConsistent (hp : p.HashConsistent) (h : p.evictBlock b = .ok p') :
    p'.HashConsistent := by
  unfold evictBlock at h
  simp only [bind_ok, pyAssert_ok, pure_ok] at h
  obtain ⟨_, _, rfl⟩ := h
  exact (maybeEvict_spec hp b).1

theorem evictBlocks_hashConsistent (hp : p.HashConsistent) (h : p.evictBlocks bs = .ok p') :
    p'.HashConsistent :=
  foldlM_inv (fun _ _ _ _ hs hx => evictBlock_hashConsistent hs hx) hp h

theorem evictBlocks_shrink (hp : p.HashConsistent) (h : p.evictBlocks bs = .ok p') :
    p.HashesShrink p' := by
  have hend := foldlM_inv (P := fun q => q.HashConsistent ∧ p.HashesShrink q) ?_
    ⟨hp, fun _ hb => hb⟩ h
  · exact hend.2
  · rintro q b q' _ ⟨hq, hshrink⟩ hb
    refine ⟨evictBlock_hashConsistent hq hb, ?_⟩
    simp only [evictBlock, bind_ok, pyAssert_ok, pure_ok] at hb
    obtain ⟨_, _, rfl⟩ := hb
    obtain ⟨_, hself, hother⟩ := maybeEvict_spec hq b
    intro c hc
    by_cases hcb : c = b
    · exact hcb ▸ hself
    · rw [hother c hcb]
      exact hshrink c hc

theorem resetPrefixCache_hashConsistent (hp : p.HashConsistent) :
    p.resetPrefixCache.1.HashConsistent := by
  unfold resetPrefixCache
  dsimp only
  split
  · exact hp
  · dsimp only
    split <;> exact hashConsistent_of_unhashed (fun _ => rfl) rfl hp.nullBlock

theorem resetPrefixCache_shrink (p : BlockPool D) :
    p.HashesShrink p.resetPrefixCache.1 := by
  unfold resetPrefixCache
  dsimp only
  split
  · exact fun _ hb => hb
  · dsimp only
    split <;> exact fun _ _ => rfl

theorem takeEvents_sameHashes (p : BlockPool D) : p.SameHashes p.takeEvents.2 := by
  unfold takeEvents
  split <;> exact ⟨fun _ => rfl, fun _ => rfl, rfl, rfl, rfl⟩

theorem reserveSinkBlocks_sameHashes (h : p.reserveSinkBlocks n = .ok (bs, p')) :
    p.SameHashes p' := by
  unfold reserveSinkBlocks at h
  simp only [bind_ok, pure_ok] at h
  obtain ⟨⟨ret, queue⟩, _, hres⟩ := h
  cases hres
  exact ⟨fun _ => rfl, fun _ => rfl, rfl, rfl, rfl⟩

/-! ## Runs of the pool -/

inductive PoolOp (D : Type)
  | cacheFullBlocks (r : Request D) (blocks : List BlockId)
      (numCachedBlocks numFullBlocks blockSize groupId : Nat)
  | getNewBlocks (numBlocks : Int)
  | touch (blocks : List BlockId)
  | freeBlocks (orderedBlocks : List BlockId)
  | evictBlocks (blockIds : List BlockId)
  | resetPrefixCache
  | takeEvents
  | reserveSinkBlocks (n : Nat)

def runPoolOp (fns : HashFns D) (p : BlockPool D) : PoolOp D → Py (BlockPool D)
  | .cacheFullBlocks r blocks numCached numFull blockSize groupId =>
    cacheFullBlocks fns p r blocks numCached numFull blockSize groupId
  | .getNewBlocks n => Prod.snd <$> p.getNewBlocks n
  | .touch blocks => p.touch blocks
  | .freeBlocks blocks => pure (p.freeBlocks blocks)
  | .evictBlocks blocks => p.evictBlocks blocks
  | .resetPrefixCache => pure p.resetPrefixCache.1
  | .takeEvents => pure p.takeEvents.2
  | .reserveSinkBlocks n => Prod.snd <$> p.reserveSinkBlocks n

/-- Blocks are registered only when caching is enabled: every caller of
`cache_full_blocks` checks it first. -/
def PoolOpAllowed (p : BlockPool D) : PoolOp D → Prop
  | .cacheFullBlocks .. => p.enableCaching = true
  | _ => True

instance (p : BlockPool D) (op : PoolOp D) : Decidable (PoolOpAllowed p op) := by
  cases op <;> unfold PoolOpAllowed <;> infer_instance

def PoolReachable (fns : HashFns D) : BlockPool D → Prop :=
  Reachable
    (fun p => ∃ n caching hashBlockSize events,
      create n caching hashBlockSize events = .ok p)
    (OpStep PoolOpAllowed (runPoolOp fns))

theorem runPoolOp_hashConsistent {op : PoolOp D} (hp : p.HashConsistent) (hop : PoolOpAllowed p op)
    (h : runPoolOp fns p op = .ok p') : p'.HashConsistent := by
  cases op with
  | cacheFullBlocks r blocks numCached numFull blockSize groupId =>
    exact cacheFullBlocks_hashConsistent hp hop h
  | getNewBlocks n =>
    obtain ⟨bs, h⟩ := map_snd_ok.mp h
    exact (getNewBlocks_hashConsistent hp h).1
  | touch blocks => exact hp.congr (touch_sameHashes h)
  | freeBlocks blocks =>
    cases h
    exact hp.congr (freeBlocks_sameHashes p blocks)
  | evictBlocks blocks => exact evictBlocks_hashConsistent hp h
  | resetPrefixCache =>
    cases h
    exact resetPrefixCache_hashConsistent hp
  | takeEvents =>
    cases h
    exact hp.congr (takeEvents_sameHashes p)
  | reserveSinkBlocks n =>
    obtain ⟨bs, h⟩ := map_snd_ok.mp h
    exact hp.congr (reserveSinkBlocks_sameHashes h)

theorem PoolReachable.hashConsistent (h : PoolReachable fns p) : p.HashConsistent := by
  refine h.invariant ?_ ?_
  · rintro p ⟨n, caching, hashBlockSize, events, hcreate⟩
    exact create_hashConsistent hcreate
  · rintro p p' hp ⟨op, hop, hrun⟩
    exact runPoolOp_hashConsistent hp hop hrun

/-- In every reachable pool the two sides agree: a block is stored once, under
its own number and the key it carries; the null block is neither stored nor
hashed; handed-out blocks are unhashed; and an eviction never misses. -/
theorem hash_map_consistent {fns : HashFns D} {p : BlockPool D} (h : PoolReachable fns p) :
    (∀ b key, (p.blocks b).blockHash = some key ↔ p.cachedBlockHashToBlock.Stores key b b) ∧
    (∀ key i b, p.cachedBlockHashToBlock.Stores key i b → i = b) ∧
    (∀ key key' i i' b, p.cachedBlockHashToBlock.Stores key i b →
      p.cachedBlockHashToBlock.Stores key' i' b → key = key') ∧
    ((p.blocks p.nullBlock).blockHash = none ∧
      ∀ key i, ¬p.cachedBlockHashToBlock.Stores key i p.nullBlock) ∧
    (∀ n bs p', p.getNewBlocks n = .ok (bs, p') → ∀ b ∈ bs, (p'.blocks b).blockHash = none) ∧
    (∀ b key, (p.blocks b).blockHash = some key →
      (p.cachedBlockHashToBlock.pop key b).1 = some b) := by
  have hp := h.hashConsistent
  have hown := hp.wellKeyed.own_number
  have hstored : ∀ key i b, p.cachedBlockHashToBlock.Stores key i b →
      (p.blocks b).blockHash = some key := by
    intro key i b hst
    have hi := hown key i b hst
    exact (hp.hashed_iff b key).mpr (hi ▸ hst)
  refine ⟨hp.hashed_iff, hown, ?_, ⟨hp.null_unhashed _ hp.nullBlock, ?_⟩, ?_, ?_⟩
  · intro key key' i i' b hst hst'
    have hkeys := (hstored key i b hst).symm.trans (hstored key' i' b hst')
    exact Option.some.inj hkeys
  · intro key i hst
    have hnone := hp.null_unhashed _ hp.nullBlock
    rw [hstored key i _ hst] at hnone
    cases hnone
  · intro n bs p' hnew
    exact (getNewBlocks_hashConsistent hp hnew).2.1
  · intro b key hb
    exact hp.pop_eq hb

/-- Two requests with one block of equal content, under a pool of two free
blocks. -/
def sharedHashOps : List (PoolOp Transcript) :=
  let r : Request Transcript :=
    { requestId := 0, allTokenIds := [7], blockHashes := [[([7], none)]] }
  [.getNewBlocks 2, .cacheFullBlocks r [1] 0 1 1 0, .cacheFullBlocks r [2] 0 1 1 0]

/-- Both blocks are stored under the common hash, in the dict form, and either
can be evicted. -/
theorem hash_map_consistent_shared :
    ∃ p, PoolReachable transcriptFns p ∧ (p.blocks 1).blockHash = (p.blocks 2).blockHash ∧
      (p.cachedBlockHashToBlock.pop ⟨[[([7], none)]], 0⟩ 2).1 = some 2 := by
  obtain ⟨p₀, hcreate⟩ : ∃ p, create (D := Transcript) 3 true 1 = .ok p := ⟨_, rfl⟩
  obtain ⟨p, hrun, h1, h2⟩ : ∃ p,
      runOps (checked PoolOpAllowed (runPoolOp transcriptFns)) p₀ sharedHashOps = .ok p ∧
      (p.blocks 1).blockHash = some ⟨[[([7], none)]], 0⟩ ∧
      (p.blocks 2).blockHash = some ⟨[[([7], none)]], 0⟩ := by
    cases hcreate
    exact ⟨_, rfl, by decide, by decide⟩
  have hreach : PoolReachable transcriptFns p :=
    Reachable.runOps (.start ⟨3, true, 1, false, hcreate⟩) hrun
  exact ⟨p, hreach, h1.trans h2.symm, (hash_map_consistent hreach).2.2.2.2.2 2 _ h2⟩

end BlockPool

end VllmCore
