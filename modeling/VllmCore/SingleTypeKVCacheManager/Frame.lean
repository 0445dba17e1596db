import VllmCore.SingleTypeKVCacheManager
/-!
# What the methods of a manager leave alone

No method changes the configuration of a manager.
-/

namespace VllmCore

open Support

variable {D : Type} [DecidableEq D]

namespace SingleTypeKVCacheManager

structure SameConfig (m m' : SingleTypeKVCacheManager D) : Prop where
  spec : m'.spec = m.spec
  blockSize : m'.blockSize = m.blockSize
  enableCaching : m'.enableCaching = m.enableCaching
  kvCacheGroupId : m'.kvCacheGroupId = m.kvCacheGroupId
  nullBlock : m'.nullBlock = m.nullBlock
  sinkBlocks : m'.sinkBlocks = m.sinkBlocks

theorem SameConfig.refl (m : SingleTypeKVCacheManager D) : m.SameConfig m :=
  ⟨rfl, rfl, rfl, rfl, rfl, rfl⟩

theorem SameConfig.trans {m₁ m₂ m₃ : SingleTypeKVCacheManager D} (h : m₁.SameConfig m₂)
    (h' : m₂.SameConfig m₃) : m₁.SameConfig m₃ where
  spec := h'.spec.trans h.spec
  blockSize := h'.blockSize.trans h.blockSize
  enableCaching := h'.enableCaching.trans h.enableCaching
  kvCacheGroupId := h'.kvCacheGroupId.trans h.kvCacheGroupId
  nullBlock := h'.nullBlock.trans h.nullBlock
  sinkBlocks := h'.sinkBlocks.trans h.sinkBlocks

theorem setBlocks_sameConfig (m : SingleTypeKVCacheManager D) (rid : ReqId)
    (blocks : List BlockId) : m.SameConfig (m.setBlocks rid blocks) :=
  ⟨rfl, rfl, rfl, rfl, rfl, rfl⟩

theorem free_sameConfig (m : SingleTypeKVCacheManager D) (p : BlockPool D) (rid : ReqId) :
    m.SameConfig (m.free p rid).1 := ⟨rfl, rfl, rfl, rfl, rfl, rfl⟩

theorem removeSkippedBlocksBase_sameConfig (m : SingleTypeKVCacheManager D)
    (p : BlockPool D) (rid : ReqId) (n : Int) :
    m.SameConfig (m.removeSkippedBlocksBase p rid n).1 := by
  unfold removeSkippedBlocksBase
  dsimp only
  split
  · exact .refl m
  · exact m.setBlocks_sameConfig rid _

variable {m m' : SingleTypeKVCacheManager D} {n : Int} {p p' : BlockPool D} {rid : ReqId}

theorem removeLastStateBlock_sameConfig (h : m.removeLastStateBlock p rid n = .ok (m', p')) :
    m.SameConfig m' := by
  unfold removeLastStateBlock at h
  split at h
  · cases h
    exact .refl m
  · split at h
    · simp only [bind_ok] at h
      obtain ⟨b, _, h⟩ := h
      split at h
      · cases h
        exact .refl m
      · simp only [bind_ok, pure_ok] at h
        obtain ⟨blocks, _, hres⟩ := h
        cases hres
        exact m.setBlocks_sameConfig rid blocks
    · cases h
      exact .refl m

theorem removeSkippedBlocks_sameConfig (h : m.removeSkippedBlocks p rid n = .ok (m', p')) :
    m.SameConfig m' := by
  unfold removeSkippedBlocks at h
  split at h
  · rename_i numSpec _
    have hbase := m.removeSkippedBlocksBase_sameConfig p rid (max 0 (n - numSpec))
    dsimp only at h
    split at h
    · exact hbase.trans (removeLastStateBlock_sameConfig h)
    · cases h
      exact hbase
  · have hbase := m.removeSkippedBlocksBase_sameConfig p rid n
    rwa [pure_ok.mp h] at hbase

variable {bs : List BlockId} {fns : HashFns D} {r : Request D}

theorem allocateNewBlocksBase_sameConfig
    (h : m.allocateNewBlocksBase p rid n = .ok (bs, m', p')) : m.SameConfig m' := by
  unfold allocateNewBlocksBase at h
  dsimp only at h
  split at h
  · cases h
    exact m.setBlocks_sameConfig rid _
  · simp only [bind_ok, pure_ok] at h
    obtain ⟨⟨new, q⟩, _, hres⟩ := h
    cases hres
    exact ⟨rfl, rfl, rfl, rfl, rfl, rfl⟩

theorem allocateNewBlocks_sameConfig {n' : Int}
    (h : m.allocateNewBlocks p rid n n' = .ok (bs, m', p')) : m.SameConfig m' := by
  unfold allocateNewBlocks at h
  split at h
  · split at h
    · unfold allocateNewBlocksAlign at h
      dsimp only at h
      split at h
      · cases h
        exact m.setBlocks_sameConfig rid _
      · simp only [bind_ok, pyAssert_ok, pure_ok] at h
        obtain ⟨_, _, T, _, _, _, ⟨new, q⟩, _, hres⟩ := h
        cases hres
        exact ⟨rfl, rfl, rfl, rfl, rfl, rfl⟩
    · exact allocateNewBlocksBase_sameConfig h
  · exact allocateNewBlocksBase_sameConfig h

theorem allocateNewComputedBlocks_sameConfig {hits : List BlockId} {numLocal numExternal : Int}
    (h : m.allocateNewComputedBlocks p rid hits numLocal numExternal = .ok (m', p')) :
    m.SameConfig m' := by
  unfold allocateNewComputedBlocks at h
  split at h
  · simp only [bind_ok, pure_ok] at h
    obtain ⟨_, _, hres⟩ := h
    cases hres
    exact .refl m
  · dsimp only at h
    simp only [bind_ok] at h
    obtain ⟨_, _, q, _, h⟩ := h
    generalize (if 0 < m.getNumSkippedTokens (numLocal + numExternal) / (m.blockSize : Int)
      then min (numLocal + numExternal - m.getNumSkippedTokens (numLocal + numExternal))
        numExternal else numExternal) = ext at h
    split at h
    · simp only [bind_ok, pure_ok] at h
      obtain ⟨⟨new, q'⟩, _, hres⟩ := h
      cases hres
      exact ⟨rfl, rfl, rfl, rfl, rfl, rfl⟩
    · rw [pure_ok] at h
      cases h
      exact ⟨rfl, rfl, rfl, rfl, rfl, rfl⟩

theorem cacheBlocksBase_sameConfig
    (h : m.cacheBlocksBase fns p r n = .ok (m', p')) : m.SameConfig m' := by
  unfold cacheBlocksBase at h
  dsimp only at h
  split at h
  · cases h
    exact .refl m
  · simp only [bind_ok, pure_ok] at h
    obtain ⟨q, _, hres⟩ := h
    cases hres
    exact ⟨rfl, rfl, rfl, rfl, rfl, rfl⟩

theorem cacheBlocks_sameConfig (h : m.cacheBlocks fns p r n = .ok (m', p')) : m.SameConfig m' := by
  unfold cacheBlocks at h
  split at h
  · cases h
  · simp only [bind_ok, pure_ok] at h
    obtain ⟨⟨m₁, p₁⟩, hbase, keys, _, hres⟩ := h
    cases hres
    exact (cacheBlocksBase_sameConfig hbase).trans ⟨rfl, rfl, rfl, rfl, rfl, rfl⟩
  · exact cacheBlocksBase_sameConfig h

theorem takeNewBlockIds_sameConfig (m : SingleTypeKVCacheManager D) :
    m.SameConfig m.takeNewBlockIds.2 := ⟨rfl, rfl, rfl, rfl, rfl, rfl⟩

theorem newStepStarts_sameConfig (m : SingleTypeKVCacheManager D) :
    m.SameConfig m.newStepStarts := ⟨rfl, rfl, rfl, rfl, rfl, rfl⟩

end SingleTypeKVCacheManager

end VllmCore
