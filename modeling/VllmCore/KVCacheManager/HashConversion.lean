import VllmCore.BlockHash.Conversion
import VllmCore.KVCacheManager.PoolSteps
/-!
# One conversion for insertion and lookup

Blocks are registered under the hashes of the request at the granularity of the group, and
looked up under them.  Both sides convert the hashes on their own; they read the same
entries.
-/

namespace VllmCore

open List Nat Support

variable {D : Type} [DecidableEq D]

namespace BlockPool

/-! ## Registration -/

variable {r : Request D} {hashes : BlockHashListWithBlockSize D} {groupId : Nat}

end BlockPool

namespace KVCacheManager

variable {fns : HashFns D} {kv : KVCacheManager D}

theorem KVReachable.wf (h : KVReachable fns kv) : kv.Wf := by
  refine h.invariant ?_ ?_
  · rintro kv ⟨config, maxModelLen, hashBlockSize, caching, useEagle, events, dcp, pcp, hworld,
      hlen, hcreate⟩
    have hinv := create_refInv hworld hlen hcreate
    exact ⟨hinv.coordinator.wf, hinv.caching⟩
  · rintro kv kv' hwf ⟨op, -, hrun⟩
    have hgood : GoodKVOp (fun _ : Request D => True) op := by
      cases op <;> trivial
    exact hwf.congr (runKVOp_moves hwf hgood hrun)

end KVCacheManager

/-! ## The conversion as a whole -/

end VllmCore
