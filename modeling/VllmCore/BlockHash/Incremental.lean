import VllmCore.BlockHash.FromScratch
/-!
# Runs of one request

The tokens of a request change when output tokens are appended and when a session
takes its next input chunk.  In runs whose steps meet two conditions, the hashes are
at all times those of one pass from scratch.  Two short runs show what happens
otherwise.
-/

namespace VllmCore

open List Nat Support

variable {D : Type}

/-! ## Steps -/

/-- What changes the tokens of a request.  A session update drops the tokens that are
not computed, according to the number of computed tokens at that time. -/
inductive HashOp
  | appendOutputTokenIds (tokenIds : List Token)
  | updateAsSession (numComputedTokens : Nat) (update : StreamingUpdate)
  deriving DecidableEq

def runHashOp (fns : HashFns D) (blockSize : Nat) (r : Request D) : HashOp → Py (Request D)
  | .appendOutputTokenIds tokenIds =>
    pure (r.appendOutputTokenIds (some (requestBlockHasher fns blockSize)) tokenIds)
  | .updateAsSession numComputedTokens update =>
    { r with numComputedTokens := numComputedTokens }.updateAsSession
      (some (requestBlockHasher fns blockSize)) update

/-- The conditions on a step.  Where blocks were hashed before, no item but the last
overlaps a block that is hashed now; and a session update does not drop a hashed
token, and places its items behind the items there are. -/
def HashOpOk (blockSize : Nat) (r : Request D) : HashOp → Prop
  | .appendOutputTokenIds tokenIds =>
    NoEarlierItem blockSize { r with allTokenIds := r.allTokenIds ++ tokenIds }
  | .updateAsSession numComputedTokens update => ∀ promptTokenIds,
      r.promptTokenIds = some promptTokenIds →
      let session := { r with numComputedTokens := numComputedTokens }.extendSession update
        promptTokenIds
      r.blockHashes.length * blockSize ≤ numComputedTokens ∧ MmOrdered session.mmFeatures ∧
        NoEarlierItem blockSize session

def IsNewRequest (fns : HashFns D) (blockSize : Nat) (r : Request D) : Prop :=
  ∃ a : Request.Args, Request.create (some (requestBlockHasher fns blockSize)) a = .ok r ∧
    MmOrdered a.mmFeatures

/-- The hashes are those of one pass over the present tokens, and their extra keys name
every item that overlaps the block. -/
def HashesAgree (fns : HashFns D) (blockSize : Nat) (r : Request D) : Prop :=
  r.blockHashes = hashesFromScratch fns blockSize r ∧
    hashesFromScratch fns blockSize r = expectedHashes fns blockSize r

structure HashesCurrent (fns : HashFns D) (blockSize : Nat) (r : Request D) : Prop where
  hashes : r.blockHashes = expectedHashes fns blockSize r
  ordered : MmOrdered r.mmFeatures

variable {blockSize : Nat} {fns : HashFns D} {r r' : Request D}

theorem HashesCurrent.agree (hpos : 0 < blockSize) (h : HashesCurrent fns blockSize r) :
    HashesAgree fns blockSize r := by
  have hscratch : hashesFromScratch fns blockSize r = expectedHashes fns blockSize r :=
    hashesFromScratch_eq hpos h.ordered
  exact ⟨h.hashes.trans hscratch.symm, hscratch⟩

theorem HashesCurrent.updateBlockHashes (hpos : 0 < blockSize) (hordered : MmOrdered r.mmFeatures)
    (hpre : HashedPrefix fns blockSize r) (hitems : NoEarlierItem blockSize r) :
    HashesCurrent fns blockSize
      (Request.updateBlockHashes (some (requestBlockHasher fns blockSize)) r) :=
  ⟨updateBlockHashes_eq hpos hordered hpre hitems, hordered⟩

theorem tokenSlice_congr {start stop : Nat}
    (htokens : r'.allTokenIds.take stop = r.allTokenIds.take stop) :
    tokenSlice r' start stop = tokenSlice r start stop := by
  unfold tokenSlice
  rw [htokens]

theorem hashedPrefix_of_same (hpos : 0 < blockSize)
    (h : r.blockHashes = expectedHashes fns blockSize r) (hhashes : r'.blockHashes = r.blockHashes)
    (hlora : r'.loraRequest = r.loraRequest) (hsalt : r'.cacheSalt = r.cacheSalt)
    (hembeds : r'.promptEmbeds = r.promptEmbeds)
    (htokens : r.blockHashes.length * blockSize ≤ r'.numTokens)
    (hsame : ∀ stop, stop ≤ r.blockHashes.length * blockSize →
      r'.allTokenIds.take stop = r.allTokenIds.take stop)
    (hitems : ∀ start stop, stop ≤ r.blockHashes.length * blockSize →
      overlappingMmKeys r'.mmFeatures start stop = overlappingMmKeys r.mmFeatures start stop) :
    HashedPrefix fns blockSize r' := by
  have hlen : r.blockHashes.length = r.numTokens / blockSize := by
    rw [h]
    unfold expectedHashes
    rw [length_chain, length_blockInputs]
  have hle : r.numTokens / blockSize ≤ r'.numTokens / blockSize := by
    rw [le_div_iff_mul_le hpos, ← hlen]
    exact htokens
  have hinput : ∀ i ∈ List.range (r.numTokens / blockSize),
      blockInput fns blockSize r i = blockInput fns blockSize r' i := by
    intro i hi
    rw [mem_range] at hi
    have hstop : i * blockSize + blockSize ≤ r.blockHashes.length * blockSize := by
      have hmul : (i + 1) * blockSize ≤ r.blockHashes.length * blockSize :=
        mul_le_mul_right _ (by omega)
      rwa [add_mul, one_mul] at hmul
    unfold blockInput assembleExtraKeys genLoraExtraHashKeys genCacheSaltKeys
      genPromptEmbedsExtraHashKeys
    rw [tokenSlice_congr (hsame _ hstop), hitems _ _ hstop, hlora, hsalt, hembeds]
  unfold HashedPrefix expectedHashes
  rw [hhashes, h]
  apply chain_prefix
  unfold blockInputs
  rw [map_congr_left hinput]
  obtain ⟨k, hk⟩ := Nat.exists_eq_add_of_le hle
  rw [hk, range_add, map_append]
  exact prefix_append _ _

theorem overlappingMmKeys_append_shift {features update : List MultiModalFeatureSpec}
    {base start stop : Nat} (hle : stop ≤ base) :
    overlappingMmKeys (features ++ shiftMmFeatures base update) start stop =
      overlappingMmKeys features start stop := by
  have hnone : (shiftMmFeatures base update).filter (·.Overlaps start stop) = [] := by
    rw [filter_eq_nil_iff]
    intro f hf
    obtain ⟨g, _, rfl⟩ := mem_map.mp hf
    rw [decide_eq_true_eq]
    unfold MultiModalFeatureSpec.Overlaps
    dsimp only
    omega
  unfold overlappingMmKeys
  rw [filter_append, hnone, append_nil]

/-! ## The runs -/

theorem create_hashesCurrent (hpos : 0 < blockSize) (h : IsNewRequest fns blockSize r) :
    HashesCurrent fns blockSize r := by
  obtain ⟨a, hcreate, hordered⟩ := h
  unfold Request.create at hcreate
  simp only [bind_ok, pure_ok] at hcreate
  obtain ⟨maxTokens, _, numPromptTokens, _, rfl⟩ := hcreate
  exact .updateBlockHashes hpos hordered nil_prefix fun hne => absurd rfl hne

theorem runHashOp_hashesCurrent (hpos : 0 < blockSize) {op : HashOp}
    (h : HashesCurrent fns blockSize r) (hop : HashOpOk blockSize r op)
    (hrun : runHashOp fns blockSize r op = .ok r') : HashesCurrent fns blockSize r' := by
  have hhashed : r.blockHashes.length * blockSize ≤ r.numTokens := by
    rw [h.hashes]
    unfold expectedHashes
    rw [length_chain, length_blockInputs]
    exact div_mul_le_self _ _
  cases op with
  | appendOutputTokenIds tokenIds =>
    cases hrun
    refine .updateBlockHashes hpos h.ordered ?_ hop
    refine hashedPrefix_of_same hpos h.hashes rfl rfl rfl rfl ?_ ?_ fun _ _ _ => rfl
    · show _ ≤ (r.allTokenIds ++ tokenIds).length
      rw [length_append]
      exact hhashed.trans (le_add_right _ _)
    · intro stop hstop
      exact take_append_of_le_length (hstop.trans hhashed)
  | updateAsSession numComputedTokens update =>
    unfold runHashOp Request.updateAsSession at hrun
    cases hprompt : r.promptTokenIds with
    | none =>
      rw [hprompt] at hrun
      cases hrun
    | some promptTokenIds =>
      rw [hprompt] at hrun
      rw [pure_ok] at hrun
      subst hrun
      obtain ⟨hcomputed, hordered, hitems⟩ := hop promptTokenIds hprompt
      have hbase : r.blockHashes.length * blockSize ≤
          (r.allTokenIds.take numComputedTokens).length := by
        rw [length_take]
        exact le_min hcomputed hhashed
      have hpre : HashedPrefix fns blockSize
          ({ r with numComputedTokens := numComputedTokens }.extendSession update
            promptTokenIds) := by
        refine hashedPrefix_of_same hpos h.hashes rfl rfl rfl rfl ?_ ?_ ?_
        · show _ ≤ (r.allTokenIds.take numComputedTokens ++ _).length
          rw [length_append]
          exact hbase.trans (le_add_right _ _)
        · intro stop hstop
          show (r.allTokenIds.take numComputedTokens ++ _).take stop = _
          rw [take_append_of_le_length (hstop.trans hbase), take_take,
            min_eq_left (hstop.trans hcomputed)]
        · intro start stop hstop
          exact overlappingMmKeys_append_shift (hstop.trans hbase)
      have hcurrent := HashesCurrent.updateBlockHashes hpos hordered hpre hitems
      exact ⟨hcurrent.hashes, hcurrent.ordered⟩

def HashReachable (fns : HashFns D) (blockSize : Nat) : Request D → Prop :=
  Reachable (IsNewRequest fns blockSize) (OpStep (HashOpOk blockSize) (runHashOp fns blockSize))

theorem HashReachable.hashesCurrent (hpos : 0 < blockSize) (h : HashReachable fns blockSize r) :
    HashesCurrent fns blockSize r := by
  refine h.invariant (fun r hr => create_hashesCurrent hpos hr) ?_
  rintro r r' hr ⟨op, hop, hrun⟩
  exact runHashOp_hashesCurrent hpos hr hop hrun

/-- As long as every step meets the conditions, the hashes are those of one pass from
scratch, with every overlapping item in the extra keys. -/
theorem hashes_fromScratch {fns : HashFns D} {blockSize : Nat} (hpos : 0 < blockSize)
    {r : Request D} (h : HashReachable fns blockSize r) : HashesAgree fns blockSize r :=
  (h.hashesCurrent hpos).agree hpos

/-! ### Two images in the last block of a prompt -/

def imageAt (identifier : String) (offset : Nat) : MultiModalFeatureSpec :=
  { identifier := identifier, mmPosition := { offset := offset, length := 1 } }

def imagePrompt (images : List MultiModalFeatureSpec) : Request.Args where
  requestId := 0
  promptTokenIds := some [1, 2, 3, 4, 0, 0]
  samplingParams := some { maxTokens := 4 }
  mmFeatures := images

/-- One image in each block. -/
theorem hashes_fromScratch_images : ∃ r, HashReachable transcriptFns 4 r ∧
    r.blockHashes.length = 2 ∧ HashesAgree transcriptFns 4 r := by
  obtain ⟨r₀, hcreate⟩ : ∃ r₀ : Request Transcript,
      Request.create (some (requestBlockHasher transcriptFns 4))
        (imagePrompt [imageAt "a" 1, imageAt "b" 5]) = .ok r₀ := ⟨_, rfl⟩
  obtain ⟨r, hrun, hop, hlen⟩ : ∃ r,
      runHashOp transcriptFns 4 r₀ (.appendOutputTokenIds [5, 6]) = .ok r ∧
        HashOpOk 4 r₀ (.appendOutputTokenIds [5, 6]) ∧ r.blockHashes.length = 2 := by
    cases hcreate
    refine ⟨_, rfl, ?_, rfl⟩
    intro _ f hf j hj hlt
    have hfirst : f = imageAt "a" 1 := by
      change f ∈ [imageAt "a" 1] at hf
      exact mem_singleton.mp hf
    subst hfirst
    change 1 ≤ j at hj
    unfold MultiModalFeatureSpec.Overlaps imageAt
    dsimp only
    omega
  have hreach : HashReachable transcriptFns 4 r :=
    (Reachable.start ⟨_, hcreate, by decide⟩).next ⟨_, hop, hrun⟩
  exact ⟨r, hreach, hlen, hashes_fromScratch (by decide) hreach⟩

/-- With both images in the second block, the block is hashed when the output completes
it, and the key of the first image is missing. -/
theorem hashes_not_fromScratch : ¬∀ r : Request Transcript,
    Reachable (IsNewRequest transcriptFns 4)
      (OpStep (fun _ _ => True) (runHashOp transcriptFns 4)) r →
    HashesAgree transcriptFns 4 r := by
  intro hall
  obtain ⟨r₀, hcreate⟩ : ∃ r₀ : Request Transcript,
      Request.create (some (requestBlockHasher transcriptFns 4))
        (imagePrompt [imageAt "a" 4, imageAt "b" 5]) = .ok r₀ := ⟨_, rfl⟩
  obtain ⟨r, hrun, hbad⟩ : ∃ r,
      runHashOp transcriptFns 4 r₀ (.appendOutputTokenIds [5, 6]) = .ok r ∧
        r.blockHashes ≠ hashesFromScratch transcriptFns 4 r := by
    cases hcreate
    exact ⟨_, rfl, by decide⟩
  exact hbad (hall r ((Reachable.start ⟨_, hcreate, by decide⟩).next ⟨_, trivial, hrun⟩)).1

/-! ## What a hash identifies -/

theorem hashChain_of_reachable (h : Reachable (IsNewRequest fns blockSize)
    (OpStep (fun _ _ => True) (runHashOp fns blockSize)) r) : HashChain fns r := by
  refine h.invariant (fun r ⟨a, hcreate, _⟩ => create_hashChain hcreate) ?_
  rintro r r' hr ⟨op, _, hrun⟩
  cases op with
  | appendOutputTokenIds tokenIds =>
    cases hrun
    exact hr.appendOutputTokenIds blockSize tokenIds
  | updateAsSession numComputedTokens update =>
    simp only [runHashOp, Request.updateAsSession] at hrun
    split at hrun
    · cases hrun
    next promptTokenIds _ =>
      rw [pure_ok] at hrun
      subst hrun
      exact HashChain.updateBlockHashes (r := { r with
        numComputedTokens := numComputedTokens }.extendSession update promptTokenIds) hr blockSize

/-- Whatever two requests went through, a block hash that both have stands at one index, and
the hashes before it are the same. -/
theorem hash_identifies_content {fns : HashFns D} (hfns : CollisionFree fns) {blockSize : Nat}
    {r r' : Request D}
    (hr : Reachable (IsNewRequest fns blockSize)
      (OpStep (fun _ _ => True) (runHashOp fns blockSize)) r)
    (hr' : Reachable (IsNewRequest fns blockSize)
      (OpStep (fun _ _ => True) (runHashOp fns blockSize)) r') {i j : Nat} {hash : D}
    (hi : r.blockHashes[i]? = some hash) (hj : r'.blockHashes[j]? = some hash) :
    i = j ∧ r.blockHashes.take (i + 1) = r'.blockHashes.take (i + 1) := by
  obtain ⟨hindex, htake⟩ := IsHashChain.take_eq hfns (hashChain_of_reachable hr)
    (hashChain_of_reachable hr') (i := i + 1) (j := j + 1) hi hj
  exact ⟨Nat.succ.inj hindex, (cons.inj htake).2⟩

/-- The second block of a request that has taken output, and of one that has not. -/
theorem hash_identifies_content_output : ∃ r r' : Request Transcript,
    r.blockHashes ≠ r'.blockHashes ∧ r.blockHashes.take 2 = r'.blockHashes.take 2 := by
  obtain ⟨r₀, hcreate⟩ : ∃ r₀ : Request Transcript,
      Request.create (some (requestBlockHasher transcriptFns 2)) (imagePrompt []) = .ok r₀ :=
    ⟨_, rfl⟩
  obtain ⟨r, hrun, hne, hash, hi, hj⟩ : ∃ r,
      runHashOp transcriptFns 2 r₀ (.appendOutputTokenIds [5, 6]) = .ok r ∧
        r.blockHashes ≠ r₀.blockHashes ∧
          ∃ hash, r.blockHashes[1]? = some hash ∧ r₀.blockHashes[1]? = some hash := by
    cases hcreate
    exact ⟨_, rfl, by decide, _, rfl, rfl⟩
  have hstart : Reachable (IsNewRequest transcriptFns 2)
      (OpStep (fun _ _ => True) (runHashOp transcriptFns 2)) r₀ := .start ⟨_, hcreate, by decide⟩
  exact ⟨r, r₀, hne, (hash_identifies_content transcriptFns_collisionFree
    (hstart.next ⟨_, trivial, hrun⟩) hstart hi hj).2⟩

end VllmCore
