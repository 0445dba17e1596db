import VllmCore.Request
/-!
# Block hashes

The hash of a full block covers its tokens, its extra keys (multimodal items,
adapter, cache salt, prompt embeddings) and the hash of the block before it.
A request keeps the hashes of its full blocks and extends the list whenever
tokens are appended.

The hash function is a parameter.  Groups whose block size is a multiple of the
hashed one use the concatenation of consecutive digests; since all digests have
one length, such a concatenation is kept as the list of its digests.
-/

namespace VllmCore

open Support

/-- A component of the extra keys of a block.  Adapter names and cache salts are
both plain strings in the hashed tuple. -/
inductive ExtraKey
  | mm (identifier : String) (offset : Int)
  | str (s : String)
  | embeds (digest : Nat)
  deriving DecidableEq, Repr

/-- What is hashed for one block: the parent hash, the tokens, the extra keys. -/
abbrev HashInput (D : Type) := D × List Token × Option (List ExtraKey)

/-- The hash functions of the engine: of a block, the seed `NONE_HASH` that
stands for the parent of a first block, and of a slice of the prompt embeddings. -/
structure HashFns (D : Type) where
  hashFunction : HashInput D → D
  noneHash : D
  embedsDigest : List Nat → Nat

/-- A digest that keeps everything it was computed from, latest block first. -/
abbrev Transcript := List (List Token × Option (List ExtraKey))

/-- Hash functions without collisions, for concrete runs. -/
def transcriptFns : HashFns Transcript where
  hashFunction := fun (parent, tokens, keys) => (tokens, keys) :: parent
  noneHash := []
  embedsDigest := fun rows => rows.foldl (fun n row => 31 * n + row) 7

variable {D : Type}

/-- The loop of `_gen_mm_extra_hash_keys` over the items from `currMmIdx` on. -/
def genMmExtraHashKeysLoop (startTokenIdx endTokenIdx : Nat) :
    List MultiModalFeatureSpec → Int → List ExtraKey × Int
  | [], currMmIdx => ([], currMmIdx)
  | f :: fs, currMmIdx =>
    let offset := f.mmPosition.offset
    let length := f.mmPosition.length
    if offset < endTokenIdx then
      if offset + length ≤ startTokenIdx then
        -- This block has passed the current item.
        genMmExtraHashKeysLoop startTokenIdx endTokenIdx fs (currMmIdx + 1)
      else
        let key := ExtraKey.mm f.identifier (offset - startTokenIdx)
        if offset + length ≤ endTokenIdx then
          -- The block ends the item and may also contain the next one.
          let rest := genMmExtraHashKeysLoop startTokenIdx endTokenIdx fs (currMmIdx + 1)
          (key :: rest.1, rest.2)
        else ([key], currMmIdx)
    else ([], currMmIdx)

/-- `_gen_mm_extra_hash_keys`.  A negative `startMmIdx` counts from the end. -/
def genMmExtraHashKeys (mmFeatures : List MultiModalFeatureSpec)
    (startTokenIdx endTokenIdx : Nat) (startMmIdx : Int) : List ExtraKey × Int :=
  match mmFeatures.getLast? with
  | none => ([], startMmIdx)
  | some last =>
    if last.mmPosition.offset + last.mmPosition.length ≤ startTokenIdx then
      ([], startMmIdx)
    else
      let start := if startMmIdx < 0 then mmFeatures.length + startMmIdx else startMmIdx
      genMmExtraHashKeysLoop startTokenIdx endTokenIdx
        (mmFeatures.drop start.toNat) start

def genLoraExtraHashKeys (r : Request D) : List ExtraKey :=
  match r.loraRequest with
  | none => []
  | some l => [.str l.loraName]

/-- The cache salt, in the first block only; an empty salt counts as none. -/
def genCacheSaltKeys (r : Request D) (startTokenIdx : Nat) : List ExtraKey :=
  match r.cacheSalt with
  | none => []
  | some salt => if startTokenIdx = 0 ∧ salt ≠ "" then [.str salt] else []

/-- `_gen_prompt_embeds_extra_hash_keys`, without its memo table. -/
def genPromptEmbedsExtraHashKeys (fns : HashFns D) (r : Request D)
    (startTokenIdx endTokenIdx : Nat) : List ExtraKey :=
  match r.promptEmbeds with
  | none => []
  | some e => [.embeds (fns.embedsDigest ((e.take endTokenIdx).drop startTokenIdx))]

def assembleExtraKeys (fns : HashFns D) (r : Request D) (startTokenIdx endTokenIdx : Nat)
    (mmKeys : List ExtraKey) : Option (List ExtraKey) :=
  match genLoraExtraHashKeys r ++ mmKeys ++ genCacheSaltKeys r startTokenIdx ++
      genPromptEmbedsExtraHashKeys fns r startTokenIdx endTokenIdx with
  | [] => none
  | keys => some keys

def generateBlockHashExtraKeys (fns : HashFns D) (r : Request D)
    (startTokenIdx endTokenIdx : Nat) (startMmIdx : Int) : Option (List ExtraKey) × Int :=
  let mm := genMmExtraHashKeys r.mmFeatures startTokenIdx endTokenIdx startMmIdx
  (assembleExtraKeys fns r startTokenIdx endTokenIdx mm.1, mm.2)

def hashBlockTokens (fns : HashFns D) (parentBlockHash : Option D)
    (currBlockTokenIds : List Token) (extraKeys : Option (List ExtraKey)) : D :=
  fns.hashFunction (parentBlockHash.getD fns.noneHash, currBlockTokenIds, extraKeys)

/-- The tokens `[start, stop)` of a request. -/
def tokenSlice (r : Request D) (start stop : Nat) : List Token :=
  (r.allTokenIds.take stop).drop start

/-- The `while True` loop of `request_block_hasher`; `fuel` bounds the number of
its iterations. -/
def requestBlockHasherLoop (fns : HashFns D) (blockSize : Nat) (r : Request D) :
    Nat → Nat → Int → Option D → List D
  | 0, _, _, _ => []
  | fuel + 1, startTokenIdx, currMmIdx, prevBlockHash =>
    let endTokenIdx := startTokenIdx + blockSize
    if r.numTokens < endTokenIdx then []
    else
      let extra := generateBlockHashExtraKeys fns r startTokenIdx endTokenIdx currMmIdx
      let blockHash := hashBlockTokens fns prevBlockHash
        (tokenSlice r startTokenIdx endTokenIdx) extra.1
      blockHash :: requestBlockHasherLoop fns blockSize r fuel endTokenIdx extra.2
        (some blockHash)

/-- `get_request_block_hasher`: the hashes of the full blocks that have none yet.
The multimodal items are searched from the first one when no block is hashed,
and from the last one otherwise. -/
def requestBlockHasher (fns : HashFns D) (blockSize : Nat) (r : Request D) : List D :=
  let startTokenIdx := r.blockHashes.length * blockSize
  if r.numTokens < startTokenIdx + blockSize then []
  else
    let currMmIdx : Int := if 0 < startTokenIdx then -1 else 0
    requestBlockHasherLoop fns blockSize r r.numTokens startTokenIdx currMmIdx
      r.blockHashes.getLast?

/-! ## Other granularities -/

/-- A block hash at the granularity of a group: consecutive digests. -/
abbrev BlockHash (D : Type) := List D

/-- `BlockHashListWithBlockSize`: one entry for each `scaleFactor` digests. -/
structure BlockHashListWithBlockSize (D : Type) where
  blockHashes : List D
  scaleFactor : Nat

namespace BlockHashListWithBlockSize

def create (blockHashes : List D) (hashBlockSize targetBlockSize : Nat) :
    Py (BlockHashListWithBlockSize D) := do
  pyAssert (targetBlockSize % hashBlockSize = 0) "target_block_size % hash_block_size == 0"
  pure ⟨blockHashes, targetBlockSize / hashBlockSize⟩

/-- `__len__`. -/
def length (l : BlockHashListWithBlockSize D) : Nat := l.blockHashes.length / l.scaleFactor

/-- `_get_value_at`: the digests from `idx * scaleFactor` on, which must all be
there. -/
def getValueAt (l : BlockHashListWithBlockSize D) (idx : Nat) : Py (BlockHash D) :=
  if idx * l.scaleFactor + l.scaleFactor ≤ l.blockHashes.length then
    .ok ((l.blockHashes.drop (idx * l.scaleFactor)).take l.scaleFactor)
  else .error (.indexError "list index out of range")

end BlockHashListWithBlockSize

/-- The hashes of a request as a group of block size `blockSize` sees them.  At
the hashed granularity the list is used as it is. -/
def convertBlockHashes (blockHashes : List D) (hashBlockSize blockSize : Nat) :
    Py (BlockHashListWithBlockSize D) :=
  if blockSize = hashBlockSize then .ok ⟨blockHashes, 1⟩
  else BlockHashListWithBlockSize.create blockHashes hashBlockSize blockSize

end VllmCore
