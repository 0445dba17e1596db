import VllmCore.BlockHash.Chain
import VllmCore.StreamingSession
import VllmCore.Support.Chain
import VllmCore.Support.Transition
import Mathlib.Data.List.Range
/-!
# Incremental hashing against hashing from scratch

The hashes of a request are extended whenever tokens arrive.  They should be those
of one pass over the final tokens, in which the extra keys of a block name every
multimodal item that overlaps it.  A pass that continues after the hashed blocks
only looks at the last item, and a session update drops tokens without dropping
their hashes; the theorem at the end says under which conditions on the steps
of a run the two agree nevertheless.
-/

namespace VllmCore

open List Nat Support

variable {D : Type}

/-! ## What a block is hashed from -/

/-- The item has a token in the block `[startTokenIdx, endTokenIdx)`. -/
def MultiModalFeatureSpec.Overlaps (f : MultiModalFeatureSpec) (startTokenIdx endTokenIdx : Nat) :
    Prop :=
  f.mmPosition.offset < endTokenIdx ∧ startTokenIdx < f.mmPosition.offset + f.mmPosition.length

instance (f : MultiModalFeatureSpec) (startTokenIdx endTokenIdx : Nat) :
    Decidable (f.Overlaps startTokenIdx endTokenIdx) := by
  unfold MultiModalFeatureSpec.Overlaps
  infer_instance

/-- The key of an item in a block: its identifier and its place relative to the block. -/
def MultiModalFeatureSpec.keyIn (f : MultiModalFeatureSpec) (startTokenIdx : Nat) : ExtraKey :=
  .mm f.identifier (f.mmPosition.offset - startTokenIdx)

def overlappingMmKeys (features : List MultiModalFeatureSpec) (startTokenIdx endTokenIdx : Nat) :
    List ExtraKey :=
  (features.filter (·.Overlaps startTokenIdx endTokenIdx)).map (·.keyIn startTokenIdx)

/-- The tokens of block `i`, and its extra keys with every overlapping item. -/
def blockInput (fns : HashFns D) (blockSize : Nat) (r : Request D) (i : Nat) :
    List Token × Option (List ExtraKey) :=
  (tokenSlice r (i * blockSize) (i * blockSize + blockSize),
    assembleExtraKeys fns r (i * blockSize) (i * blockSize + blockSize)
      (overlappingMmKeys r.mmFeatures (i * blockSize) (i * blockSize + blockSize)))

/-- What all full blocks are hashed from. -/
def blockInputs (fns : HashFns D) (blockSize : Nat) (r : Request D) :
    List (List Token × Option (List ExtraKey)) :=
  (List.range (r.numTokens / blockSize)).map (blockInput fns blockSize r)

@[simp] theorem length_blockInputs (fns : HashFns D) (blockSize : Nat) (r : Request D) :
    (blockInputs fns blockSize r).length = r.numTokens / blockSize := by
  unfold blockInputs
  rw [length_map, length_range]

def hashLink (fns : HashFns D) (parent : D) (x : List Token × Option (List ExtraKey)) : D :=
  fns.hashFunction (parent, x.1, x.2)

def expectedHashes (fns : HashFns D) (blockSize : Nat) (r : Request D) : List D :=
  chain (hashLink fns) fns.noneHash (blockInputs fns blockSize r)

def hashesFromScratch (fns : HashFns D) (blockSize : Nat) (r : Request D) : List D :=
  requestBlockHasher fns blockSize { r with blockHashes := [] }

/-- Each item begins at the end of the one before it, or later. -/
def MmOrdered (features : List MultiModalFeatureSpec) : Prop :=
  features.Pairwise fun f g => f.mmPosition.offset + f.mmPosition.length ≤ g.mmPosition.offset

instance (features : List MultiModalFeatureSpec) : Decidable (MmOrdered features) := by
  unfold MmOrdered
  infer_instance

theorem genMmExtraHashKeysLoop_spec {startTokenIdx endTokenIdx : Nat}
    (hle : startTokenIdx ≤ endTokenIdx) :
    ∀ {features : List MultiModalFeatureSpec} {c : Int}, MmOrdered features →
      (genMmExtraHashKeysLoop startTokenIdx endTokenIdx features c).1 =
          overlappingMmKeys features startTokenIdx endTokenIdx ∧
        ∃ n : Nat, (genMmExtraHashKeysLoop startTokenIdx endTokenIdx features c).2 = c + n ∧
          ∀ f ∈ features.take n, f.mmPosition.offset + f.mmPosition.length ≤ endTokenIdx := by
  intro features
  induction features with
  | nil =>
    intro c _
    exact ⟨rfl, 0, (Int.add_zero c).symm, by simp⟩
  | cons f fs ih =>
    intro c hordered
    obtain ⟨hfirst, hrest⟩ := pairwise_cons.mp hordered
    -- Items behind one that reaches the end of the block do not overlap it.
    have hbehind : endTokenIdx ≤ f.mmPosition.offset + f.mmPosition.length →
        overlappingMmKeys fs startTokenIdx endTokenIdx = [] := by
      intro hend
      unfold overlappingMmKeys
      rw [map_eq_nil_iff, filter_eq_nil_iff]
      intro g hg
      have hnext := hfirst g hg
      rw [decide_eq_true_eq]
      unfold MultiModalFeatureSpec.Overlaps
      omega
    have hcons : overlappingMmKeys (f :: fs) startTokenIdx endTokenIdx =
        if f.Overlaps startTokenIdx endTokenIdx then
          f.keyIn startTokenIdx :: overlappingMmKeys fs startTokenIdx endTokenIdx
        else overlappingMmKeys fs startTokenIdx endTokenIdx := by
      unfold overlappingMmKeys
      split <;> simp_all
    rw [hcons]
    unfold genMmExtraHashKeysLoop
    dsimp only
    obtain ⟨hkeys, n, hidx, htake⟩ := ih (c := c + 1) hrest
    have hnext : ∃ k : Nat, (genMmExtraHashKeysLoop startTokenIdx endTokenIdx fs (c + 1)).2 =
        c + k ∧ (f.mmPosition.offset + f.mmPosition.length ≤ endTokenIdx →
          ∀ g ∈ (f :: fs).take k, g.mmPosition.offset + g.mmPosition.length ≤ endTokenIdx) := by
      refine ⟨n + 1, by rw [hidx]; push_cast; omega, ?_⟩
      intro hf g hg
      rw [take_succ_cons, mem_cons] at hg
      rcases hg with rfl | hg
      · exact hf
      · exact htake g hg
    obtain ⟨k, hk, hall⟩ := hnext
    have hiff : f.Overlaps startTokenIdx endTokenIdx ↔ f.mmPosition.offset < endTokenIdx ∧
        startTokenIdx < f.mmPosition.offset + f.mmPosition.length := Iff.rfl
    by_cases hstart : f.mmPosition.offset < endTokenIdx
    · rw [if_pos hstart]
      by_cases hpassed : f.mmPosition.offset + f.mmPosition.length ≤ startTokenIdx
      · -- The block is behind the item.
        have hnot : ¬f.Overlaps startTokenIdx endTokenIdx := by rw [hiff]; omega
        rw [if_pos hpassed, if_neg hnot]
        exact ⟨hkeys, k, hk, hall (hpassed.trans hle)⟩
      · have hov : f.Overlaps startTokenIdx endTokenIdx := by rw [hiff]; omega
        rw [if_neg hpassed, if_pos hov]
        by_cases hend : f.mmPosition.offset + f.mmPosition.length ≤ endTokenIdx
        · rw [if_pos hend]
          refine ⟨?_, k, hk, hall hend⟩
          rw [hkeys]
          rfl
        · rw [if_neg hend, hbehind (by omega)]
          exact ⟨rfl, 0, (Int.add_zero c).symm, by simp⟩
    · have hnot : ¬f.Overlaps startTokenIdx endTokenIdx := by rw [hiff]; omega
      rw [if_neg hstart, if_neg hnot, hbehind (by omega)]
      exact ⟨rfl, 0, (Int.add_zero c).symm, by simp⟩

/-- The number of items in front of an index, which counts from the end if negative. -/
def mmSkipped (features : List MultiModalFeatureSpec) (c : Int) : Nat :=
  (if c < 0 then features.length + c else c).toNat

variable {features : List MultiModalFeatureSpec} {c : Int} {blockSize : Nat} {r : Request D}
  {fns : HashFns D}

theorem genMmExtraHashKeys_spec {startTokenIdx endTokenIdx : Nat}
    (hle : startTokenIdx ≤ endTokenIdx) (hordered : MmOrdered features)
    (hc : -(features.length : Int) ≤ c ∨ features = [])
    (hskip : ∀ f ∈ features.take (mmSkipped features c), ¬f.Overlaps startTokenIdx endTokenIdx) :
    (genMmExtraHashKeys features startTokenIdx endTokenIdx c).1 =
        overlappingMmKeys features startTokenIdx endTokenIdx ∧
      ((genMmExtraHashKeys features startTokenIdx endTokenIdx c).2 = c ∨
        0 ≤ (genMmExtraHashKeys features startTokenIdx endTokenIdx c).2 ∧
          ∀ f ∈ features.take (genMmExtraHashKeys features startTokenIdx endTokenIdx c).2.toNat,
            f ∈ features.take (mmSkipped features c) ∨
              f.mmPosition.offset + f.mmPosition.length ≤ endTokenIdx) := by
  unfold genMmExtraHashKeys
  cases hlast : features.getLast? with
  | none =>
    rw [getLast?_eq_none_iff] at hlast
    subst hlast
    exact ⟨rfl, .inl rfl⟩
  | some last =>
    dsimp only
    obtain ⟨pre, rfl⟩ := getLast?_eq_some_iff.mp hlast
    split
    · -- The block is behind all items.
      refine ⟨?_, .inl rfl⟩
      have hnone : overlappingMmKeys (pre ++ [last]) startTokenIdx endTokenIdx = [] := by
        unfold overlappingMmKeys
        rw [map_eq_nil_iff, filter_eq_nil_iff]
        intro f hf
        rw [decide_eq_true_eq]
        unfold MmOrdered at hordered
        rw [pairwise_append] at hordered
        rcases mem_append.mp hf with hf | hf
        · have hnext := hordered.2.2 f hf last (by simp)
          unfold MultiModalFeatureSpec.Overlaps
          omega
        · rw [mem_singleton.mp hf]
          unfold MultiModalFeatureSpec.Overlaps
          omega
      rw [hnone]
    · rename_i hnot
      generalize hstart : (if c < 0 then (((pre ++ [last]).length : Nat) : Int) + c else c) =
        start
      have hskipped : mmSkipped (pre ++ [last]) c = start.toNat := by
        unfold mmSkipped
        rw [hstart]
      have hnonneg : 0 ≤ start := by
        rcases hc with hc | hc
        · split at hstart <;> omega
        · simp at hc
      rw [hskipped] at hskip ⊢
      generalize pre ++ [last] = features at *
      have hdrop : MmOrdered (features.drop start.toNat) :=
        hordered.sublist (drop_sublist _ _)
      obtain ⟨hkeys, n, hidx, htake⟩ :=
        @genMmExtraHashKeysLoop_spec startTokenIdx endTokenIdx hle _ start hdrop
      refine ⟨?_, .inr ⟨by omega, ?_⟩⟩
      · rw [hkeys]
        have hsplit := take_append_drop start.toNat features
        have hnone : (features.take start.toNat).filter
            (·.Overlaps startTokenIdx endTokenIdx) = [] := by
          rw [filter_eq_nil_iff]
          intro f hf
          simpa using hskip f hf
        unfold overlappingMmKeys
        nth_rewrite 2 [← hsplit]
        rw [filter_append, hnone, nil_append]
      · intro f hf
        rw [hidx, show (start + (n : Int)).toNat = start.toNat + n by omega, take_add,
          mem_append] at hf
        exact hf.imp_right (htake f)

/-! ## One pass of the hasher -/

/-- Starting at block `i` with item index `c`, no item that is skipped overlaps a block
that is still to be hashed. -/
def MmIndexOk (features : List MultiModalFeatureSpec) (blockSize numBlocks i : Nat) (c : Int) :
    Prop :=
  (-(features.length : Int) ≤ c ∨ features = []) ∧
    ∀ f ∈ features.take (mmSkipped features c), ∀ j, i ≤ j → j < numBlocks →
      ¬f.Overlaps (j * blockSize) (j * blockSize + blockSize)

theorem MmIndexOk.next (hordered : MmOrdered features)
    {numBlocks i : Nat} (h : MmIndexOk features blockSize numBlocks i c) (hi : i < numBlocks) :
    (genMmExtraHashKeys features (i * blockSize) (i * blockSize + blockSize) c).1 =
        overlappingMmKeys features (i * blockSize) (i * blockSize + blockSize) ∧
      MmIndexOk features blockSize numBlocks (i + 1)
        (genMmExtraHashKeys features (i * blockSize) (i * blockSize + blockSize) c).2 := by
  obtain ⟨hkeys, hidx⟩ := genMmExtraHashKeys_spec (le_add_right _ _) hordered h.1
    fun f hf => h.2 f hf i (le_refl i) hi
  refine ⟨hkeys, ?_⟩
  rcases hidx with hsame | ⟨hnonneg, hmem⟩
  · rw [hsame]
    exact ⟨h.1, fun f hf j hij => h.2 f hf j (by omega)⟩
  · refine ⟨.inl (by omega), ?_⟩
    intro f hf j hij hj
    unfold mmSkipped at hf
    rw [if_neg (by omega)] at hf
    rcases hmem f hf with hold | hend
    · exact h.2 f hold j (by omega) hj
    · -- The item ended before block `j`.
      have hmul : (i + 1) * blockSize ≤ j * blockSize := mul_le_mul_right _ hij
      rw [add_mul, one_mul] at hmul
      unfold MultiModalFeatureSpec.Overlaps
      omega

theorem requestBlockHasherLoop_eq (fns : HashFns D) (hpos : 0 < blockSize)
    (hordered : MmOrdered r.mmFeatures) :
    ∀ {fuel i : Nat} {c : Int} {prev : Option D}, i ≤ r.numTokens / blockSize →
      r.numTokens / blockSize ≤ i + fuel →
      MmIndexOk r.mmFeatures blockSize (r.numTokens / blockSize) i c →
      requestBlockHasherLoop fns blockSize r fuel (i * blockSize) c prev =
        chain (hashLink fns) (prev.getD fns.noneHash) ((blockInputs fns blockSize r).drop i) := by
  intro fuel
  induction fuel with
  | zero =>
    intro i c prev hi hfuel _
    rw [drop_eq_nil_of_le (by rw [length_blockInputs]; omega)]
    rfl
  | succ fuel ih =>
    intro i c prev hi hfuel hc
    have hfull : i * blockSize + blockSize ≤ r.numTokens ↔ i < r.numTokens / blockSize := by
      rw [← succ_le_iff, le_div_iff_mul_le hpos, Nat.succ_mul]
    unfold requestBlockHasherLoop
    dsimp only
    split
    · rename_i hshort
      rw [drop_eq_nil_of_le (by rw [length_blockInputs]; omega)]
      rfl
    · rename_i hlong
      have hlt : i < r.numTokens / blockSize := hfull.mp (by omega)
      have hlen : i < (blockInputs fns blockSize r).length := by
        rw [length_blockInputs]
        exact hlt
      have hitem : (blockInputs fns blockSize r)[i] = blockInput fns blockSize r i := by
        simp only [blockInputs, getElem_map, getElem_range]
      obtain ⟨hkeys, hnext⟩ := hc.next hordered hlt
      rw [drop_eq_getElem_cons hlen, hitem]
      have hstep : i * blockSize + blockSize = (i + 1) * blockSize := by
        rw [add_mul, one_mul]
      have hlink : hashBlockTokens fns prev
          (tokenSlice r (i * blockSize) (i * blockSize + blockSize))
          (generateBlockHashExtraKeys fns r (i * blockSize) (i * blockSize + blockSize) c).1 =
          hashLink fns (prev.getD fns.noneHash) (blockInput fns blockSize r i) := by
        unfold hashBlockTokens generateBlockHashExtraKeys hashLink blockInput
        dsimp only
        rw [hkeys]
      have hindex : (generateBlockHashExtraKeys fns r (i * blockSize)
          (i * blockSize + blockSize) c).2 =
          (genMmExtraHashKeys r.mmFeatures (i * blockSize) (i * blockSize + blockSize) c).2 := rfl
      rw [hlink, hindex]
      conv_lhs => rw [hstep]
      rw [ih (by omega) (by omega) (by rwa [hstep] at hnext)]
      rfl

/-- No item other than the last one overlaps a block that is hashed now, unless no block
was hashed before. -/
def NoEarlierItem (blockSize : Nat) (r : Request D) : Prop :=
  r.blockHashes ≠ [] → ∀ f ∈ r.mmFeatures.dropLast, ∀ j, r.blockHashes.length ≤ j →
    j < r.numTokens / blockSize → ¬f.Overlaps (j * blockSize) (j * blockSize + blockSize)

/-- The hashes are those of the first full blocks. -/
def HashedPrefix (fns : HashFns D) (blockSize : Nat) (r : Request D) : Prop :=
  r.blockHashes <+: expectedHashes fns blockSize r

theorem updateBlockHashes_eq (hpos : 0 < blockSize)
    (hordered : MmOrdered r.mmFeatures) (hpre : HashedPrefix fns blockSize r)
    (hitems : NoEarlierItem blockSize r) :
    r.blockHashes ++ requestBlockHasher fns blockSize r = expectedHashes fns blockSize r := by
  have hlen := length_blockInputs fns blockSize r
  have hk : r.blockHashes.length ≤ r.numTokens / blockSize := by
    have hle := hpre.length_le
    unfold expectedHashes at hle
    rwa [length_chain, hlen] at hle
  have htake : r.blockHashes =
      chain (hashLink fns) fns.noneHash ((blockInputs fns blockSize r).take
        r.blockHashes.length) := by
    rw [← chain_take]
    exact prefix_iff_eq_take.mp hpre
  have hindex : MmIndexOk r.mmFeatures blockSize (r.numTokens / blockSize) r.blockHashes.length
      (if 0 < r.blockHashes.length * blockSize then -1 else 0) := by
    by_cases hnil : r.mmFeatures = []
    · rw [hnil]
      exact ⟨.inr rfl, by simp⟩
    · have hone : 0 < r.mmFeatures.length := length_pos_iff.mpr hnil
      split
      · rename_i hstart
        have hne : r.blockHashes ≠ [] := by
          intro h0
          rw [h0, length_nil, zero_mul] at hstart
          omega
        refine ⟨.inl (by omega), ?_⟩
        have hskip : mmSkipped r.mmFeatures (-1) = r.mmFeatures.length - 1 := by
          unfold mmSkipped
          omega
        rw [hskip, ← dropLast_eq_take]
        exact hitems hne
      · exact ⟨.inl (by omega), by simp [mmSkipped]⟩
  have hnew : requestBlockHasher fns blockSize r =
      chain (hashLink fns) (r.blockHashes.getLast?.getD fns.noneHash)
        ((blockInputs fns blockSize r).drop r.blockHashes.length) := by
    unfold requestBlockHasher
    dsimp only
    split
    · rename_i hshort
      have hfull : r.numTokens / blockSize ≤ r.blockHashes.length := by
        rw [← Nat.lt_succ_iff, Nat.div_lt_iff_lt_mul hpos, Nat.succ_mul]
        exact hshort
      rw [drop_eq_nil_of_le (by omega)]
      rfl
    · refine requestBlockHasherLoop_eq fns hpos hordered hk ?_ hindex
      exact (div_le_self _ _).trans (le_add_left _ _)
  unfold expectedHashes
  rw [hnew]
  conv_lhs => rw [htake]
  rw [← take_append_drop r.blockHashes.length (blockInputs fns blockSize r), chain_append,
    take_append_drop, ← htake]

theorem hashesFromScratch_eq (hpos : 0 < blockSize) (hordered : MmOrdered r.mmFeatures) :
    hashesFromScratch fns blockSize r = expectedHashes fns blockSize r :=
  updateBlockHashes_eq (r := { r with blockHashes := [] }) hpos hordered
    nil_prefix (fun hne => absurd rfl hne)

end VllmCore
