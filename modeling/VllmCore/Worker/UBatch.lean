import VllmCore.Support.Ragged
import VllmCore.Support.PySlice
/-!
# Micro-batches

The tokens of a batch are cut into micro-batches, each of which gets attention metadata of
its own (`ubatch_utils.py`).  A cut may fall inside a request, which then has a part in
both micro-batches.
-/

namespace VllmCore.Worker.UBatch

open Support

/-- `slice(start, stop)`. -/
structure Slice where
  start : Int
  stop : Int
  deriving DecidableEq, Repr

structure UBatchSlice where
  requestSlice : Slice
  tokenSlice : Slice
  deriving DecidableEq, Repr

def UBatchSlice.isEmpty (u : UBatchSlice) : Bool :=
  u.requestSlice.start = u.requestSlice.stop || u.tokenSlice.start = u.tokenSlice.stop

def UBatchSlice.numTokens (u : UBatchSlice) : Int := u.tokenSlice.stop - u.tokenSlice.start

/-! ## `maybe_create_ubatch_slices` -/

def padOutUbatchSlices (ubatchSlices : List UBatchSlice) (numTotalTokens numReqsPadded : Int) :
    Py (List UBatchSlice) := do
  let lastSlice ← pyGet ubatchSlices (-1)
  return ubatchSlices.dropLast ++
    [⟨⟨lastSlice.requestSlice.start, numReqsPadded⟩, ⟨lastSlice.tokenSlice.start, numTotalTokens⟩⟩]

def cuNumTokens (numScheduledTokens : List Nat) : List Int :=
  (0 :: cumsum numScheduledTokens).map Nat.cast

/-- The micro-batch of the tokens from `startToken` to `endToken`: its requests are those from
the one that contains `startToken` to the last that starts before `endToken`. -/
def sliceAt (cuNumTokens : List Int) (startToken endToken : Int) : UBatchSlice where
  requestSlice :=
    ⟨searchsortedRight cuNumTokens startToken - 1, searchsortedLeft cuNumTokens endToken⟩
  tokenSlice := ⟨startToken, endToken⟩

/-- The loop over `all_points`. -/
def slicesFrom (cuNumTokens : List Int) : Int → List Int → List UBatchSlice
  | _, [] => []
  | startToken, endToken :: points =>
    sliceAt cuNumTokens startToken endToken :: slicesFrom cuNumTokens endToken points

/-- `split_point`, which is the same for all cuts; by default the padded tokens are divided
evenly. -/
def splitPointOf (splitPoint : Option Int) (numTokensPadded numUbatches : Nat) : Py Int :=
  match splitPoint with
  | some p => return p
  | none => floorDiv numTokensPadded numUbatches

def allPoints (splitPoint : Int) (numUbatches : Nat) (cuNumTokens : List Int) : Py (List Int) := do
  let total ← pyGet cuNumTokens (-1)
  return (List.range' 1 (numUbatches - 1)).map (fun i : Nat => splitPoint * i) ++ [total]

def maybeCreateUbatchSlices (shouldUbatch : Bool) (numScheduledTokens : List Nat)
    (numTokensPadded numReqsPadded numUbatches : Nat) (splitPoint : Option Int := none) :
    Py (Option (List UBatchSlice × List UBatchSlice)) :=
  if shouldUbatch = false then return none
  else do
    let splitPoint ← splitPointOf splitPoint numTokensPadded numUbatches
    let cu := cuNumTokens numScheduledTokens
    let points ← allPoints splitPoint numUbatches cu
    let ubatchSlices := slicesFrom cu 0 points
    let ubatchSlicesPadded ← padOutUbatchSlices ubatchSlices numTokensPadded numReqsPadded
    pyAssert ((ubatchSlicesPadded.map UBatchSlice.numTokens).sum = numTokensPadded)
      "sum(s.num_tokens for s in ubatch_slices_padded) == num_tokens_padded"
    return some (ubatchSlices, ubatchSlicesPadded)

/-! ## `_make_metadata_with_slice` -/

/-- The fields of `CommonAttentionMetadata` that are sliced. -/
structure CommonAttentionMetadata where
  queryStartLoc : List Int
  queryStartLocCpu : List Int
  seqLens : List Int
  seqLensCpu : List Int
  numComputedTokensCpu : List Int
  numReqs : Int
  numActualTokens : Int
  maxQueryLen : Int
  maxSeqLen : Int
  blockTableTensor : List (List Int)
  slotMapping : List Int
  deriving DecidableEq, Repr

def sliceQueryStartLocs (queryStartLoc : List Int) (requestSlice : Slice) : Py (List Int) := do
  let first ← pyGet queryStartLoc requestSlice.start
  return (pySlice queryStartLoc requestSlice.start (requestSlice.stop + 1)).map (· - first)

/-- `xs[1:] -= k`. -/
def subTail (k : Int) : List Int → List Int
  | [] => []
  | x :: xs => x :: xs.map (· - k)

/-- `xs[-1] -= k`. -/
def subLast (k : Int) (xs : List Int) : List Int := xs.modify (xs.length - 1) (· - k)

/-- `xs.max()`. -/
def tensorMax (xs : List Int) : Py Int :=
  match xs.max? with
  | some m => return m
  | none => .error (.runtimeError "max(): Expected reduction dim to be specified")

structure Skipped where
  first : Int
  last : Int

def Skipped.queryStarts (k : Skipped) (queryStartLoc : List Int) : List Int :=
  let queryStartLoc := if 0 < k.first then subTail k.first queryStartLoc else queryStartLoc
  if 0 < k.last then subLast k.last queryStartLoc else queryStartLoc

/-- The sequence lengths of the slice, without the part of the last request that is skipped. -/
def Skipped.seqLens (k : Skipped) (seqLens : List Int) : List Int :=
  if 0 < k.last then subLast k.last seqLens else seqLens

/-- `tokens_skipped` of the first and of the last request: positive where `splits_first_request`
and `splits_last_request` are set.  The last token may lie behind the last request, when the
slice is padded. -/
def skipped (u : UBatchSlice) (startLocs : List Int) : Py Skipped := do
  let firstStart ← pyGet startLocs u.requestSlice.start
  let firstEnd ← pyGet startLocs (u.requestSlice.start + 1)
  pyAssert (firstStart ≤ u.tokenSlice.start ∧ u.tokenSlice.start < firstEnd)
    "Token slice start outside of first request"
  let lastEnd ← pyGet startLocs u.requestSlice.stop
  return ⟨u.tokenSlice.start - firstStart, lastEnd - u.tokenSlice.stop⟩

/-- `query_start_loc_cpu[1:] - query_start_loc_cpu[:-1]`. -/
def queryLens (queryStartLoc : List Int) : List Int :=
  List.zipWith (· - ·) queryStartLoc.tail queryStartLoc.dropLast

def makeMetadataWithSlice (u : UBatchSlice) (m : CommonAttentionMetadata) :
    Py CommonAttentionMetadata := do
  pyAssert (u.isEmpty = false) "Ubatch slice is empty"
  let k ← skipped u m.queryStartLocCpu
  let queryStartLocCpu ← sliceQueryStartLocs m.queryStartLocCpu u.requestSlice
  let queryStartLoc ← sliceQueryStartLocs m.queryStartLoc u.requestSlice
  pyAssert (2 ≤ queryStartLoc.length) "query_start_loc must have at least 2 elements"
  let queryStartLocCpu := k.queryStarts queryStartLocCpu
  let seqLensCpu := k.seqLens (pySlice m.seqLensCpu u.requestSlice.start u.requestSlice.stop)
  let maxSeqLen ← tensorMax seqLensCpu
  let maxQueryLen ← tensorMax ((queryLens queryStartLocCpu).map fun q => (q.natAbs : Int))
  return {
    queryStartLoc := k.queryStarts queryStartLoc
    queryStartLocCpu := queryStartLocCpu
    seqLens := k.seqLens (pySlice m.seqLens u.requestSlice.start u.requestSlice.stop)
    seqLensCpu := seqLensCpu
    numComputedTokensCpu :=
      pySlice m.numComputedTokensCpu u.requestSlice.start u.requestSlice.stop
    numReqs := u.requestSlice.stop - u.requestSlice.start
    numActualTokens := u.tokenSlice.stop - u.tokenSlice.start
    -- In a dummy run the query starts are all 0.
    maxQueryLen := if maxQueryLen = 0 then m.maxQueryLen else maxQueryLen
    maxSeqLen := maxSeqLen
    blockTableTensor := pySlice m.blockTableTensor u.requestSlice.start u.requestSlice.stop
    slotMapping := pySlice m.slotMapping u.tokenSlice.start u.tokenSlice.stop }

end VllmCore.Worker.UBatch
