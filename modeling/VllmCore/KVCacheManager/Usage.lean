import VllmCore.KVCacheManager.Runs
import Mathlib.Algebra.Order.Field.Rat
import Mathlib.Data.Set.Card
/-!
# The usage of the KV cache

The counter of free blocks tells how many of the blocks are held.
-/

namespace VllmCore.KVCacheManager

open List Support

variable {D : Type} [DecidableEq D] {kv : KVCacheManager D}

/-- The blocks that are in a block table or reserved for good. -/
def heldBlocks (kv : KVCacheManager D) : Set BlockId :=
  {b | b < kv.blockPool.numGpuBlocks ∧ b ≠ kv.blockPool.nullBlock ∧
    (b ∈ kv.coordinator.references ∨ b ∈ kv.coordinator.reserved)}

theorem RefInv.ncard_heldBlocks (h : kv.RefInv) :
    kv.heldBlocks.ncard + kv.blockPool.freeBlockQueue.blocks.length + 1 =
      kv.blockPool.numGpuBlocks := by
  have hrefs : BlockPool.PoolInv kv.coordinator.reserved kv.blockPool
      kv.coordinator.references := h.coordinator.pool.refs
  let queued := kv.blockPool.freeBlockQueue.blocks.toFinset
  let usable := (Finset.range kv.blockPool.numGpuBlocks).erase kv.blockPool.nullBlock
  have hsub : queued ⊆ usable := by
    intro b hb
    obtain ⟨hlt, hnull, _⟩ := (hrefs.mem_queue b).mp (mem_toFinset.mp hb)
    exact Finset.mem_erase.mpr ⟨hnull, Finset.mem_range.mpr hlt⟩
  have hheld : kv.heldBlocks = ↑(usable \ queued) := by
    ext b
    simp only [heldBlocks, Set.mem_ofPred_eq, Finset.coe_sdiff, Set.mem_sdiff, Finset.mem_coe,
      usable, queued, Finset.mem_erase, mem_toFinset, hrefs.mem_queue, Finset.mem_range,
      Multiset.count_eq_zero]
    tauto
  rw [hheld, Set.ncard_coe_finset, ← toFinset_card_of_nodup hrefs.nodup,
    Finset.card_sdiff_add_card_eq_card hsub,
    Finset.card_erase_add_one (Finset.mem_range.mpr hrefs.null_lt), Finset.card_range]

/-- In every state of a run the usage is the share of the usable blocks that are held. -/
theorem usage_exact {fns : HashFns D} (hfns : CollisionFree fns) {kv : KVCacheManager D}
    (h : KVReachableCovered fns kv) :
    kv.blockPool.getUsage = (kv.heldBlocks.ncard : Rat) / (kv.blockPool.numGpuBlocks - 1) := by
  have hinv := h.refInv hfns
  have hfree : kv.blockPool.getNumFreeBlocks = kv.blockPool.freeBlockQueue.blocks.length :=
    hinv.coordinator.pool.refs.numFree
  unfold BlockPool.getUsage
  rw [hfree, ← hinv.ncard_heldBlocks]
  generalize kv.heldBlocks.ncard = held
  generalize kv.blockPool.freeBlockQueue.blocks.length = free
  dsimp only
  push_cast
  rw [add_sub_cancel_right, add_sub_cancel_right]
  split
  next hnone =>
    obtain rfl : held = 0 := by omega
    rw [Nat.cast_zero, zero_div]
  next hsome =>
    have hne : (held + free : Rat) ≠ 0 := by exact_mod_cast hsome
    rw [eq_div_iff hne, sub_mul, div_mul_cancel₀ _ hne, one_mul, add_sub_cancel_right]

/-- The request holds nine of fifteen blocks. -/
theorem usage_exact_threeTokens : ∃ kv : KVCacheManager Transcript,
    kv.blockPool.getUsage = 3 / 5 ∧ (kv.heldBlocks.ncard : Rat) / (16 - 1) = 3 / 5 := by
  obtain ⟨kv₀, hcreate⟩ : ∃ kv : KVCacheManager Transcript,
      create twoFullConfig 8 1 true false false 1 1 = .ok kv := ⟨_, rfl⟩
  obtain ⟨kv, hrun, husage, hblocks⟩ : ∃ kv, runKVOp transcriptFns kv₀
      (.allocateSlots (threeTokens 0) true { numNewTokens := 3 }) = .ok kv ∧
        kv.blockPool.getUsage = 3 / 5 ∧ kv.blockPool.numGpuBlocks = 16 := by
    cases hcreate
    exact ⟨_, rfl, by decide +kernel, rfl⟩
  have hreach : KVReachableCovered transcriptFns kv :=
    Reachable.next (.start ⟨_, 8, 1, true, false, false, 1, 1, by decide, by decide, hcreate⟩)
      ⟨.allocateSlots (threeTokens 0) true { numNewTokens := 3 },
        ⟨⟨threeTokens_hashChain 0, by decide, by decide, by decide⟩, fun h => by cases h⟩, hrun⟩
  have hexact := usage_exact transcriptFns_collisionFree hreach
  rw [hblocks] at hexact
  exact ⟨kv, husage, hexact.symm.trans husage⟩

end VllmCore.KVCacheManager
