import VllmCore.BlockPool.HashConsistency
/-!
# What a cached block was registered for

A block that carries a hash was registered under it, on behalf of a request whose
hash at that index it is, and was not handed out since.  The invariant is kept by
every call of the pool; the requests in question all have some property `Good`.
-/

namespace VllmCore

open Support

variable {D : Type} [DecidableEq D]

/-- The hash of block `idx` of a request, at the granularity of some group. -/
def HashAt (hashBlockSize : Nat) (r : Request D) (idx : Nat) (h : BlockHash D) : Prop :=
  ∃ blockSize hashes, convertBlockHashes r.blockHashes hashBlockSize blockSize = .ok hashes ∧
    hashes.getValueAt idx = .ok h

namespace BlockPool

/-- The last event of the block was its registration under the key, as block `idx` of
the request `r`. -/
def RegisteredAs (p : BlockPool D) (b : BlockId) (key : BlockHashWithGroupId D) (idx : Nat)
    (r : Request D) : Prop :=
  HashAt p.hashBlockSize r idx key.blockHash ∧ ∃ before after,
    p.history = before ++ .registered b key.groupId idx r :: after ∧ .handedOut b ∉ after

/-- Every cached block is registered as a block of a good request. -/
structure Registered (good : Request D → Prop) (p : BlockPool D) : Prop where
  consistent : p.HashConsistent
  cached : ∀ b key, (p.blocks b).blockHash = some key →
    ∃ idx r, good r ∧ p.RegisteredAs b key idx r

/-- No hash is new, and nothing is recorded. -/
structure KeepsHistory (p q : BlockPool D) : Prop where
  history : q.history = p.history
  hashBlockSize : q.hashBlockSize = p.hashBlockSize
  blockHash : ∀ b key, (q.blocks b).blockHash = some key → (p.blocks b).blockHash = some key

theorem KeepsHistory.refl (p : BlockPool D) : p.KeepsHistory p := ⟨rfl, rfl, fun _ _ h => h⟩

variable {q : BlockPool D} {key : BlockHashWithGroupId D}
  {idx n groupId blockSize hashBlockSize : Nat}

theorem KeepsHistory.trans {p s : BlockPool D} (h : p.KeepsHistory q)
    (h' : q.KeepsHistory s) : p.KeepsHistory s where
  history := h'.history.trans h.history
  hashBlockSize := h'.hashBlockSize.trans h.hashBlockSize
  blockHash b key hb := h.blockHash b key (h'.blockHash b key hb)

variable {b : BlockId} {p p' : BlockPool D} {r : Request D} {bs : List BlockId} {fns : HashFns D}

theorem RegisteredAs.congr (h : p.RegisteredAs b key idx r) (hhistory : q.history = p.history)
    (hsize : q.hashBlockSize = p.hashBlockSize) : q.RegisteredAs b key idx r := by
  unfold RegisteredAs
  rw [hhistory, hsize]
  exact h

theorem RegisteredAs.record
    (h : p.RegisteredAs b key idx r) {e : BlockRecord D} (hhistory : q.history = p.history ++ [e])
    (hsize : q.hashBlockSize = p.hashBlockSize) (he : e ≠ .handedOut b) :
    q.RegisteredAs b key idx r := by
  obtain ⟨hhash, before, after, hsplit, hnot⟩ := h
  refine ⟨hsize.symm ▸ hhash, before, after ++ [e], ?_, ?_⟩
  · rw [hhistory, hsplit, List.append_assoc, List.cons_append]
  · rw [List.mem_append, not_or, List.mem_singleton]
    exact ⟨hnot, Ne.symm he⟩

variable {good : Request D → Prop}

theorem Registered.keep (hp : Registered good p) (h : p.KeepsHistory q)
    (hq : q.HashConsistent) : Registered good q where
  consistent := hq
  cached := by
    intro b key hb
    obtain ⟨idx, r, hgood, hreg⟩ := hp.cached b key (h.blockHash b key hb)
    exact ⟨idx, r, hgood, hreg.congr h.history h.hashBlockSize⟩

/-! ## Calls that record nothing -/

theorem setBlock_keepsHistory (p : BlockPool D) (b : BlockId) {blk : KVCacheBlock D}
    (hblk : blk.blockHash = (p.blocks b).blockHash) : p.KeepsHistory (p.setBlock b blk) := by
  refine ⟨rfl, rfl, ?_⟩
  intro c key hc
  by_cases hcb : c = b
  · subst hcb
    rwa [setBlock_self, hblk] at hc
  · rwa [setBlock_of_ne p _ hcb] at hc

theorem maybeEvict_keepsHistory (hp : p.HashConsistent) (b : BlockId) :
    p.KeepsHistory (p.maybeEvictCachedBlock b).1 := by
  obtain ⟨_, hnone, hother⟩ := maybeEvict_spec hp b
  have hframe : (p.maybeEvictCachedBlock b).1.history = p.history ∧
      (p.maybeEvictCachedBlock b).1.hashBlockSize = p.hashBlockSize := by
    unfold maybeEvictCachedBlock
    split
    · exact ⟨rfl, rfl⟩
    · split
      · exact ⟨rfl, rfl⟩
      · dsimp only
        split <;> exact ⟨rfl, rfl⟩
  refine ⟨hframe.1, hframe.2, ?_⟩
  intro c key hc
  by_cases hcb : c = b
  · subst hcb
    rw [hnone] at hc
    cases hc
  · rwa [hother c hcb] at hc

theorem touch_keepsHistory (h : p.touch bs = .ok p') : p.KeepsHistory p' := by
  refine foldlM_inv (P := fun q => p.KeepsHistory q) ?_ (.refl p) h
  intro q b q' _ hq hb
  simp only [touchBlock, bind_ok, pure_ok] at hb
  obtain ⟨queue, _, rfl⟩ := hb
  have hset : q.KeepsHistory
      (q.setBlock b { q.blocks b with refCnt := (q.blocks b).refCnt + 1 }) :=
    setBlock_keepsHistory q b rfl
  exact hq.trans ⟨rfl, rfl, hset.blockHash⟩

theorem freeBlocks_keepsHistory (p : BlockPool D) (bs : List BlockId) :
    p.KeepsHistory (p.freeBlocks bs) := by
  have hdrop : ∀ (bs : List BlockId) (p : BlockPool D), p.KeepsHistory (bs.foldl dropRef p) := by
    intro bs
    induction bs with
    | nil => exact .refl
    | cons b bs ih =>
      intro p
      have hfirst : p.KeepsHistory (p.dropRef b) := setBlock_keepsHistory p b rfl
      exact hfirst.trans (ih (p.dropRef b))
  have h := hdrop bs p
  exact ⟨h.history, h.hashBlockSize, h.blockHash⟩

theorem evictBlocks_keepsHistory (hp : p.HashConsistent) (h : p.evictBlocks bs = .ok p') :
    p.KeepsHistory p' := by
  refine (foldlM_inv (P := fun q => q.HashConsistent ∧ p.KeepsHistory q) ?_ ⟨hp, .refl p⟩ h).2
  rintro q b q' _ ⟨hq, hkeep⟩ hb
  have hq' := evictBlock_hashConsistent hq hb
  simp only [evictBlock, bind_ok, pyAssert_ok, pure_ok] at hb
  obtain ⟨_, _, rfl⟩ := hb
  exact ⟨hq', hkeep.trans (maybeEvict_keepsHistory hq b)⟩

theorem resetPrefixCache_keepsHistory (p : BlockPool D) :
    p.KeepsHistory p.resetPrefixCache.1 := by
  unfold resetPrefixCache
  dsimp only
  split
  · exact .refl p
  · dsimp only
    split <;> exact ⟨rfl, rfl, fun _ _ h => by cases h⟩

theorem takeEvents_keepsHistory (p : BlockPool D) : p.KeepsHistory p.takeEvents.2 := by
  unfold takeEvents
  split <;> exact ⟨rfl, rfl, fun _ _ h => h⟩

theorem reserveSinkBlocks_keepsHistory (h : p.reserveSinkBlocks n = .ok (bs, p')) :
    p.KeepsHistory p' := by
  unfold reserveSinkBlocks at h
  simp only [bind_ok, pure_ok] at h
  obtain ⟨⟨ret, queue⟩, _, hres⟩ := h
  cases hres
  exact ⟨rfl, rfl, fun _ _ h => h⟩

/-! ## Calls that record something -/

theorem Registered.claimBlock (hp : Registered good p) (h : claimBlock p b = .ok p') :
    Registered good p' := by
  have hp' := (claimBlock_hashConsistent hp.consistent h).1
  have hnone := (claimBlock_hashConsistent hp.consistent h).2.1
  have hevict : p.KeepsHistory
      (if p.enableCaching then (p.maybeEvictCachedBlock b).1 else p) := by
    split
    · exact maybeEvict_keepsHistory hp.consistent b
    · exact .refl p
  refine ⟨hp', ?_⟩
  intro c key hc
  have hcb : c ≠ b := by
    rintro rfl
    rw [hnone] at hc
    cases hc
  unfold BlockPool.claimBlock at h
  generalize (if p.enableCaching then (p.maybeEvictCachedBlock b).1 else p) = q at *
  simp only [bind_ok, pyAssert_ok, pure_ok] at h
  obtain ⟨_, _, rfl⟩ := h
  have hset : q.KeepsHistory
      (q.setBlock b { q.blocks b with refCnt := (q.blocks b).refCnt + 1 }) :=
    setBlock_keepsHistory q b rfl
  obtain ⟨idx, r, hgood, hreg⟩ :=
    hp.cached c key (hevict.blockHash c key (hset.blockHash c key hc))
  refine ⟨idx, r, hgood, hreg.record (e := .handedOut b) ?_ hevict.hashBlockSize ?_⟩
  · show q.history ++ _ = _
    rw [hevict.history]
  · intro heq
    cases heq
    exact hcb rfl

theorem Registered.getNewBlocks {n : Int} (hp : Registered good p)
    (h : p.getNewBlocks n = .ok (bs, p')) : Registered good p' := by
  unfold BlockPool.getNewBlocks at h
  simp only [bind_ok, pure_ok] at h
  obtain ⟨_, _, ⟨ret, queue⟩, _, q, hloop, hres⟩ := h
  cases hres
  have hstart : Registered good { p with freeBlockQueue := queue } :=
    hp.keep ⟨rfl, rfl, fun _ _ h => h⟩
      (hp.consistent.congr ⟨fun _ => rfl, fun _ => rfl, rfl, rfl, rfl⟩)
  exact foldlM_inv (fun _ _ _ _ hs hx => hs.claimBlock hx) hstart hloop

theorem Registered.cacheFullBlock {hashes : BlockHashListWithBlockSize D} {e : Nat × BlockId}
    {st st' : BlockPool D × List (BlockHash D)} (hgood : good r)
    (hhashes : convertBlockHashes r.blockHashes hashBlockSize blockSize = .ok hashes)
    (hp : Registered good st.1 ∧ st.1.enableCaching = true ∧ st.1.hashBlockSize = hashBlockSize)
    (h : cacheFullBlock r hashes groupId st e = .ok st') :
    Registered good st'.1 ∧ st'.1.enableCaching = true ∧ st'.1.hashBlockSize = hashBlockSize := by
  obtain ⟨hcons, hcaching⟩ := cacheFullBlock_hashConsistent ⟨hp.1.consistent, hp.2.1⟩ h
  obtain ⟨p, newHashes⟩ := st
  obtain ⟨idx, b⟩ := e
  obtain ⟨hreg, _, hsize⟩ := hp
  simp only [BlockPool.cacheFullBlock] at h
  split at h
  · rw [pure_ok] at h
    subst h
    exact ⟨hreg, hcaching, hsize⟩
  · simp only [bind_ok, pyAssert_ok, pure_ok] at h
    obtain ⟨_, _, blockHash, hvalue, rfl⟩ := h
    refine ⟨⟨hcons, ?_⟩, hcaching, hsize⟩
    intro c key hc
    by_cases hcb : c = b
    · subst hcb
      have hkey : key = ⟨blockHash, groupId⟩ := by
        simp only [setBlock_self, Option.some.injEq] at hc
        exact hc.symm
      subst hkey
      refine ⟨idx, r, hgood, ⟨blockSize, hashes, ?_, hvalue⟩, p.history, [], rfl,
        List.not_mem_nil⟩
      show convertBlockHashes r.blockHashes p.hashBlockSize blockSize = .ok hashes
      rw [← hhashes, ← hsize]
    · have hold : (p.blocks c).blockHash = some key := by
        rw [← hc]
        exact (congrArg KVCacheBlock.blockHash (setBlock_of_ne p _ hcb)).symm
      obtain ⟨idx', r', hgood', hreg'⟩ := hreg.cached c key hold
      exact ⟨idx', r', hgood', hreg'.record rfl rfl (by intro heq; cases heq)⟩

theorem Registered.cacheFullBlocks {blocks : List BlockId}
    {numCached numFull : Nat} (hp : Registered good p)
    (hcaching : p.enableCaching = true) (hgood : good r)
    (h : cacheFullBlocks fns p r blocks numCached numFull blockSize groupId = .ok p') :
    Registered good p' := by
  unfold BlockPool.cacheFullBlocks at h
  split at h
  · rw [pure_ok] at h
    exact h ▸ hp
  · simp only [bind_ok] at h
    obtain ⟨_, _, hashes, hconv, ⟨q, newHashes⟩, hloop, h⟩ := h
    have hstart : Registered good (p, ([] : List (BlockHash D))).1 ∧
        p.enableCaching = true ∧ p.hashBlockSize = p.hashBlockSize := ⟨hp, hcaching, rfl⟩
    have hq := (foldlM_inv (P := fun st : BlockPool D × List (BlockHash D) =>
        Registered good st.1 ∧ st.1.enableCaching = true ∧
          st.1.hashBlockSize = p.hashBlockSize)
      (fun _ _ _ _ hs hx => Registered.cacheFullBlock hgood hconv hs hx) hstart hloop).1
    split at h
    · simp only [bind_ok, pure_ok] at h
      obtain ⟨_, _, _, _, rfl⟩ := h
      exact hq.keep ⟨rfl, rfl, fun _ _ h => h⟩
        (hq.consistent.congr ⟨fun _ => rfl, fun _ => rfl, rfl, rfl, rfl⟩)
    · rw [pure_ok] at h
      exact h ▸ hq

/-! ## Sequences of calls -/

/-- Blocks are registered on behalf of good requests only, and only with caching. -/
def GoodPoolOp (good : Request D → Prop) (p : BlockPool D) : PoolOp D → Prop
  | .cacheFullBlocks r .. => p.enableCaching = true ∧ good r
  | _ => True

def PoolSteps (fns : HashFns D) (good : Request D → Prop) : BlockPool D → BlockPool D → Prop :=
  Relation.ReflTransGen (OpStep (GoodPoolOp good) (runPoolOp fns))

theorem runPoolOp_registered {op : PoolOp D} (hp : Registered good p) (hop : GoodPoolOp good p op)
    (h : runPoolOp fns p op = .ok p') : Registered good p' := by
  have hallowed : PoolOpAllowed p op := by
    cases op with
    | cacheFullBlocks r blocks numCached numFull blockSize groupId =>
      exact hop.1
    | _ => trivial
  have hcons := runPoolOp_hashConsistent hp.consistent hallowed h
  cases op with
  | cacheFullBlocks r blocks numCached numFull blockSize groupId =>
    exact hp.cacheFullBlocks hop.1 hop.2 h
  | getNewBlocks n =>
    obtain ⟨bs, h⟩ := map_snd_ok.mp h
    exact hp.getNewBlocks h
  | touch blocks => exact hp.keep (touch_keepsHistory h) hcons
  | freeBlocks blocks =>
    cases h
    exact hp.keep (freeBlocks_keepsHistory p blocks) hcons
  | evictBlocks blocks => exact hp.keep (evictBlocks_keepsHistory hp.consistent h) hcons
  | resetPrefixCache =>
    cases h
    exact hp.keep (resetPrefixCache_keepsHistory p) hcons
  | takeEvents =>
    cases h
    exact hp.keep (takeEvents_keepsHistory p) hcons
  | reserveSinkBlocks n =>
    obtain ⟨bs, h⟩ := map_snd_ok.mp h
    exact hp.keep (reserveSinkBlocks_keepsHistory h) hcons

theorem Registered.steps (hp : Registered good p) (h : PoolSteps fns good p p') :
    Registered good p' := by
  induction h with
  | refl => exact hp
  | tail _ hstep ih =>
    obtain ⟨op, hop, hrun⟩ := hstep
    exact runPoolOp_registered ih hop hrun

theorem PoolSteps.single (op : PoolOp D) (hop : GoodPoolOp good p op)
    (h : runPoolOp fns p op = .ok p') : PoolSteps fns good p p' :=
  Relation.ReflTransGen.single ⟨op, hop, h⟩

theorem create_registered {caching events : Bool}
    (h : create n caching hashBlockSize events = .ok p) : Registered good p := by
  refine ⟨create_hashConsistent h, ?_⟩
  intro b key hb
  rw [create_unhashed h] at hb
  cases hb

end BlockPool

end VllmCore
