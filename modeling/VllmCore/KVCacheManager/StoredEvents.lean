import VllmCore.BlockHash.Conversion
import VllmCore.KVCacheManager.Runs
/-!
# The events of registered blocks

A `BlockStored` event names the hashes of the blocks that were registered, the tokens they
hold and the hash before them.  A listener reads the tokens slice by slice, one for each
hash.  Null blocks are left out of the hashes but not of the tokens.
-/

set_option linter.unusedSectionVars false

namespace VllmCore

open List Nat Support

variable {D : Type}

/-- The hash of block `i` of a request, at the granularity of `blockSize`. -/
def blockHashAt (fns : HashFns D) (hashBlockSize blockSize : Nat) (r : Request D) (i : Nat) :
    BlockHash D :=
  ((expectedHashes fns hashBlockSize r).drop (i * (blockSize / hashBlockSize))).take
    (blockSize / hashBlockSize)

/-- Slice `k` of the tokens of an event, which holds one block. -/
def BlockStored.slice (e : BlockStored D) (k : Nat) : List Token :=
  (e.tokenIds.drop (k * e.blockSize)).take e.blockSize

/-- The event tells of the blocks of `r` from `first` on: there is one slice of tokens for
each hash, a hash is that of the tokens in its slice, and the parent is the block before the
first slice. -/
structure BlockStored.Aligned (fns : HashFns D) (hashBlockSize : Nat) (r : Request D) (first : Nat)
    (e : BlockStored D) : Prop where
  count : e.tokenIds.length = e.blockHashes.length * e.blockSize
  hash : ∀ k h, e.blockHashes[k]? = some h →
    e.slice k = tokenSlice r ((first + k) * e.blockSize) ((first + k) * e.blockSize + e.blockSize) ∧
      h = blockHashAt fns hashBlockSize e.blockSize r (first + k)
  parent : e.parentBlockHash =
    if first = 0 then none else some (blockHashAt fns hashBlockSize e.blockSize r (first - 1))

variable {r : Request D} {start stop : Nat}

namespace BlockPool

variable [DecidableEq D]

/-! ## The hashes of one call -/

variable {p p' : BlockPool D} {hashes : BlockHashListWithBlockSize D} {groupId : Nat}
  {blocks : List BlockId}

def fourTokens : Request Transcript where
  requestId := 0
  allTokenIds := [7, 8, 9, 10]
  blockHashes := [[([7, 8], none)], [([9, 10], none), ([7, 8], none)]]

end BlockPool

end VllmCore
