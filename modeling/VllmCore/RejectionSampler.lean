import VllmCore.Support.Kernels
import Mathlib.Algebra.Field.Defs
import Mathlib.Order.WithBot
/-!
# The rejection sampler for random requests

`rejection_random_sample_kernel` accepts the drafts of a request until one fails its test, and
puts a recovered token in its place; `sample_recovered_tokens_kernel` has drawn a recovered
token for every draft.  A tensor on the device is a function of the offset, and the programs of
a launch run one after the other.  The noise comes from outside: the uniform numbers, and
the reciprocals of the exponential ones.
-/

namespace VllmCore.RejectionSampler

open Function Support

variable {K : Type} [Field K] [LinearOrder K]

/-- The tensors of `rejection_sample`; without `draftProbs`, `NO_DRAFT_PROBS` holds. -/
structure Batch (K : Type) where
  batchSize : Nat
  maxSpecLen : Nat
  vocabSize : Nat
  cuNumDraftTokens : Nat → Nat
  draftTokenIds : Nat → Nat
  draftProbs : Option (Nat → K)
  targetProbs : Nat → K
  bonusTokenIds : Nat → Nat
  uniformProbs : Nat → K
  isGreedy : Nat → Bool
  invQ : Nat → K

def placeholderTokenId : Int := -1

def Batch.startIdx (b : Batch K) (reqIdx : Nat) : Nat :=
  if reqIdx = 0 then 0 else b.cuNumDraftTokens (reqIdx - 1)

def Batch.numDraftTokens (b : Batch K) (reqIdx : Nat) : Nat :=
  b.cuNumDraftTokens reqIdx - b.startIdx reqIdx

/-! ## `sample_recovered_tokens_kernel` -/

/-- `tl.load(ptr + offset, mask=mask, other=0.0)`. -/
def maskedLoad (ptr : Nat → K) (offset : Nat) (mask : Prop) [Decidable mask] : K :=
  if mask then ptr offset else 0

def Batch.prob (b : Batch K) (tokenIdx vocabOffset : Nat) : K :=
  match b.draftProbs with
  | none =>
    maskedLoad b.targetProbs (tokenIdx * b.vocabSize + vocabOffset)
      (vocabOffset < b.vocabSize ∧ vocabOffset ≠ b.draftTokenIds tokenIdx)
  | some draftProbs =>
    let draftProb := maskedLoad draftProbs (tokenIdx * b.vocabSize + vocabOffset)
      (vocabOffset < b.vocabSize)
    let targetProb := maskedLoad b.targetProbs (tokenIdx * b.vocabSize + vocabOffset)
      (vocabOffset < b.vocabSize)
    max (targetProb - draftProb) 0

def Batch.score (b : Batch K) (tokenIdx reqIdx vocabOffset : Nat) : K :=
  b.prob tokenIdx vocabOffset *
    maskedLoad b.invQ (reqIdx * b.vocabSize + vocabOffset) (vocabOffset < b.vocabSize)

/-- `tl.max(score, axis=0, return_indices=True)` of the lanes up to `n`: the first one that has
the greatest score. -/
def tileMax (score : Nat → K) : Nat → K × Nat
  | 0 => (score 0, 0)
  | n + 1 =>
    if (tileMax score n).1 < score (n + 1) then (score (n + 1), n + 1) else tileMax score n

/-- One round of the loop over the tiles; the state is `max_val` and `recovered_id`. -/
def tileStep (score : Nat → K) (blockSize : Nat) (st : WithBot K × Nat) (v : Nat) :
    WithBot K × Nat :=
  let localMax := tileMax (fun lane => score (v + lane)) (blockSize - 1)
  if st.1 < (localMax.1 : WithBot K) then ((localMax.1 : WithBot K), v + localMax.2) else st

/-- `range(0, vocab_size, BLOCK_SIZE)`. -/
def tileStarts (vocabSize blockSize : Nat) : List Nat :=
  (List.range ((vocabSize + blockSize - 1) / blockSize)).map (· * blockSize)

def recoveredId (score : Nat → K) (vocabSize blockSize : Nat) : Nat :=
  ((tileStarts vocabSize blockSize).foldl (tileStep score blockSize) (⊥, 0)).2

def sampleRecoveredTokensKernel (b : Batch K) (blockSize reqIdx pos : Nat)
    (outputTokenIds : Nat → Nat) : Nat → Nat :=
  -- Early exit for out-of-range positions.
  if b.numDraftTokens reqIdx ≤ pos then outputTokenIds
  else
    let tokenIdx := b.startIdx reqIdx + pos
    update outputTokenIds tokenIdx
      (recoveredId (b.score tokenIdx reqIdx) b.vocabSize blockSize)

/-- `sample_recovered_tokens`, into an array that is not initialized. -/
def sampleRecoveredTokens (b : Batch K) (empty : Nat → Nat) : Nat → Nat :=
  launch b.batchSize (fun reqIdx => launch b.maxSpecLen fun pos =>
    sampleRecoveredTokensKernel b 8192 reqIdx pos) empty

/-! ## `rejection_random_sample_kernel` -/

def Batch.Accepts (b : Batch K) (tokenIdx : Nat) : Prop :=
  let draftTokenId := b.draftTokenIds tokenIdx
  let draftProb :=
    match b.draftProbs with
    | none => 1
    | some draftProbs => draftProbs (tokenIdx * b.vocabSize + draftTokenId)
  let targetProb := b.targetProbs (tokenIdx * b.vocabSize + draftTokenId)
  0 < draftProb ∧ b.uniformProbs tokenIdx ≤ targetProb / draftProb

instance (b : Batch K) (tokenIdx : Nat) : Decidable (b.Accepts tokenIdx) :=
  inferInstanceAs (Decidable (_ ∧ _))

/-- One round of the loop over the positions; the state is `rejected` and the output. -/
def rejectionRandomStep (b : Batch K) (recoveredTokenIds : Nat → Nat) (reqIdx : Nat)
    (st : Bool × (Nat → Int)) (pos : Nat) : Bool × (Nat → Int) :=
  let tokenIdx := b.startIdx reqIdx + pos
  let address := reqIdx * (b.maxSpecLen + 1) + pos
  if st.1 then st
  else if b.Accepts tokenIdx then
    (false, update st.2 address (b.draftTokenIds tokenIdx : Int))
  else
    -- Reject. Use recovered token.
    (true, update st.2 address (recoveredTokenIds tokenIdx : Int))

def rejectionRandomSampleKernel (b : Batch K) (recoveredTokenIds : Nat → Nat) (reqIdx : Nat)
    (outputTokenIds : Nat → Int) : Nat → Int :=
  -- Early exit for greedy sampling requests.
  if b.isGreedy reqIdx then outputTokenIds
  else
    let st := (List.range (b.numDraftTokens reqIdx)).foldl
      (rejectionRandomStep b recoveredTokenIds reqIdx) (false, outputTokenIds)
    if st.1 then st.2
    else
      -- If all tokens are accepted, append the bonus token.
      update st.2 (reqIdx * (b.maxSpecLen + 1) + b.numDraftTokens reqIdx)
        (b.bonusTokenIds reqIdx : Int)

/-- `rejection_sample` after its greedy requests, whose rows the output has already. -/
def rejectionSample (b : Batch K) (empty : Nat → Nat) (outputTokenIds : Nat → Int) : Nat → Int :=
  launch b.batchSize (rejectionRandomSampleKernel b (sampleRecoveredTokens b empty)) outputTokenIds

end VllmCore.RejectionSampler
