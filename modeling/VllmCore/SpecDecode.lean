import VllmCore.Support.Ragged
import VllmCore.Request
/-!
# Speculative decoding with greedy sampling

The model runner scores the draft tokens of every request of a batch in one forward
pass.  Modelled are the index arithmetic of `_calc_spec_decode_metadata`
(`gpu_model_runner.py`), `rejection_greedy_sample_kernel`, `rejection_sample` and
`parse_output` (`rejection_sampler.py`), and what `_prepare_inputs` and
`_bookkeeping_sync` do around them, with synchronous scheduling.

The network is its argmax: the next token as a function of the tokens whose keys
and values it attends to.
-/

namespace VllmCore.SpecDecode

open Support

def placeholderTokenId : Token := -1

/-- A network with greedy sampling: its next token, one of its vocabulary. -/
structure Argmax (vocabSize : Nat) where
  next : List Token → Token
  nonneg : ∀ ctx, 0 ≤ next ctx
  lt : ∀ ctx, next ctx < vocabSize

/-- One request of the batch of a step: the tokens whose keys and values are in its
blocks, the tokens scheduled now, the last `numDraftTokens` of them drafts, and
whether they reach the end of its tokens only later (`discard_request_mask`). -/
structure Row where
  kv : List Token
  inputIds : List Token
  numDraftTokens : Nat
  discard : Bool
  lt : numDraftTokens < inputIds.length

def Row.argmax {vocabSize : Nat} (A : Argmax vocabSize) (r : Row) : List Token :=
  (List.range r.inputIds.length).map fun j => A.next (r.kv ++ r.inputIds.take (j + 1))

/-! ## `_calc_spec_decode_metadata` -/

structure SpecDecodeMetadata where
  draftTokenIds : List Token
  numDraftTokens : List Nat
  cuNumDraftTokens : List Nat
  targetLogitsIndices : List Nat
  bonusLogitsIndices : List Nat
  logitsIndices : List Nat

def SpecDecodeMetadata.maxSpecLen (m : SpecDecodeMetadata) : Nat := m.numDraftTokens.foldl max 0

def getCumsumAndArange (numTokens : List Nat) : List Nat × List Nat :=
  let cuNumTokens := cumsum numTokens
  let cumsumsOffsets := npRepeat (npSub cuNumTokens numTokens) numTokens
  (cuNumTokens, npSub (List.range' 0 numTokens.sum) cumsumsOffsets)

/-- `_calc_spec_decode_metadata`; `inputIds` is the flat array of the scheduled tokens.
No difference of indices is negative: with its drafts a request is scheduled one more
token at least. -/
def calcSpecDecodeMetadata (inputIds : List Token)
    (numDraftTokens cuNumScheduledTokens : List Nat) :
    Py SpecDecodeMetadata := do
  let numSampledTokens := numDraftTokens.map (· + 1)
  let (cuNumSampledTokens, arange) := getCumsumAndArange numSampledTokens
  let logitsIndices := npRepeat (npSub cuNumScheduledTokens numSampledTokens) numSampledTokens
  let logitsIndices := npAdd logitsIndices arange
  let bonusLogitsIndices := cuNumSampledTokens.map (· - 1)
  let (cuNumDraftTokens, arange) := getCumsumAndArange numDraftTokens
  let targetLogitsIndices := npRepeat (npSub cuNumSampledTokens numSampledTokens) numDraftTokens
  let targetLogitsIndices := npAdd targetLogitsIndices arange
  let draftTokenIds ← gather inputIds logitsIndices
  let draftTokenIds ← gather draftTokenIds (targetLogitsIndices.map (· + 1))
  return { draftTokenIds, numDraftTokens, cuNumDraftTokens, targetLogitsIndices,
           bonusLogitsIndices, logitsIndices }

/-! ## The rejection sampler -/

/-- The loop of the kernel, with `left` positions still to go. -/
def greedyLoop (draftTokenIds targetArgmax : List Token) (startIdx : Nat) :
    Nat → Nat → Bool → List Token → Py (Bool × List Token)
  | 0, _, rejected, row => return (rejected, row)
  | left + 1, pos, rejected, row =>
    if rejected then greedyLoop draftTokenIds targetArgmax startIdx left (pos + 1) rejected row
    else do
      let draftTokenId ← pyGet draftTokenIds ((startIdx + pos : Nat) : Int)
      let targetArgmaxId ← pyGet targetArgmax ((startIdx + pos : Nat) : Int)
      let row ← pySet row (pos : Int) targetArgmaxId
      greedyLoop draftTokenIds targetArgmax startIdx left (pos + 1)
        (draftTokenId ≠ targetArgmaxId) row

def startIdxOf (cuNumDraftTokens : List Nat) (reqIdx : Nat) : Py Nat :=
  if reqIdx = 0 then pure 0 else pyGet cuNumDraftTokens ((reqIdx - 1 : Nat) : Int)

/-- `rejection_greedy_sample_kernel`, the program of one request: the row of
`output_token_ids` that it writes, all placeholders before. -/
def rejectionGreedySampleKernel (cuNumDraftTokens : List Nat)
    (draftTokenIds targetArgmax bonusTokenIds : List Token) (maxSpecLen reqIdx : Nat) :
    Py (List Token) := do
  let startIdx ← startIdxOf cuNumDraftTokens reqIdx
  let endIdx ← pyGet cuNumDraftTokens (reqIdx : Int)
  let numDraftTokens := endIdx - startIdx
  let row := List.replicate (maxSpecLen + 1) placeholderTokenId
  let (rejected, row) ← greedyLoop draftTokenIds targetArgmax startIdx numDraftTokens 0 false row
  if rejected then return row
  else
    -- If all tokens are accepted, append the bonus token.
    let bonusTokenId ← pyGet bonusTokenIds (reqIdx : Int)
    pySet row (numDraftTokens : Int) bonusTokenId

/-- `rejection_sample` for a batch of greedy requests. -/
def rejectionSample (m : SpecDecodeMetadata) (targetArgmax bonusTokenIds : List Token) :
    Py (List (List Token)) :=
  (List.range m.numDraftTokens.length).mapM fun reqIdx =>
    rejectionGreedySampleKernel m.cuNumDraftTokens m.draftTokenIds targetArgmax bonusTokenIds
      m.maxSpecLen reqIdx

/-- `parse_output`, without the log probabilities. -/
def parseOutput (vocabSize : Nat) (outputTokenIds : List (List Token)) (discard : List Bool) :
    List (List Token) :=
  List.zipWith (fun row discarded =>
    if discarded then []
    else row.filter fun t => t ≠ placeholderTokenId ∧ t < vocabSize) outputTokenIds discard

/-- The tokens that a step samples for each request of its batch: `_prepare_inputs`, the
forward pass, the sampler and the part of `_bookkeeping_sync` that drops the tokens of
partial prefills. -/
def sampleTokens {vocabSize : Nat} (A : Argmax vocabSize) (rows : List Row) :
    Py (List (List Token)) := do
  let inputIds := rows.flatMap Row.inputIds
  let argmax := rows.flatMap (Row.argmax A)
  let (cuNumTokens, _) := getCumsumAndArange (rows.map fun r => r.inputIds.length)
  if rows.any fun r => r.numDraftTokens ≠ 0 then
    let m ← calcSpecDecodeMetadata inputIds (rows.map Row.numDraftTokens) cuNumTokens
    let logits ← gather argmax m.logitsIndices
    let bonusTokenIds ← gather logits m.bonusLogitsIndices
    let targetArgmax ← gather logits m.targetLogitsIndices
    let outputTokenIds ← rejectionSample m targetArgmax bonusTokenIds
    return parseOutput vocabSize outputTokenIds (rows.map Row.discard)
  else
    -- no draft tokens: one token of each request, at the end of its row
    let logits ← gather argmax (cuNumTokens.map (· - 1))
    return List.zipWith (fun t discarded => if discarded then [] else [t]) logits
      (rows.map Row.discard)

end VllmCore.SpecDecode
