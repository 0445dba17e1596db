import VllmCore.BlockHash.Incremental
/-!
# What equal hashes say

Without collisions, a hash determines the position of its block, and the tokens and
extra keys of all blocks up to it.
-/

namespace VllmCore

open List Nat Support

variable {D : Type}

variable {r r' : Request D} {blockSize hashBlockSize : Nat} {fns : HashFns D}
  {l : BlockHashListWithBlockSize D}

namespace BlockHashListWithBlockSize

end BlockHashListWithBlockSize

end VllmCore
