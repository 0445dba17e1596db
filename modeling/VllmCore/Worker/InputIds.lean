import VllmCore.Request
import VllmCore.Support.PySlice
import VllmCore.Support.Ragged
import VllmCore.Support.Scatter
/-!
# The input ids under async scheduling

With async scheduling the tokens that a step samples, and the drafts that it proposes, stay
on the GPU.  The next step copies its input ids from the CPU and puts these tokens in their
places, for the requests that were in the step before.

Tensors are lists, those with two dimensions lists of rows.
-/

namespace VllmCore.Worker.InputIds

open List Support

/-! ## Buffers -/

/-- `CpuGpuBuffer`: two tensors of one size. -/
structure CpuGpuBuffer (α : Type) where
  cpu : List α
  gpu : List α
  sameSize : gpu.length = cpu.length

namespace CpuGpuBuffer

variable {α : Type}

def copyToGpu (b : CpuGpuBuffer α) (n : Nat) : CpuGpuBuffer α where
  cpu := b.cpu
  gpu := b.cpu.take n ++ b.gpu.drop n
  sameSize := by
    have hsize := b.sameSize
    rw [length_append, length_take, length_drop]
    omega

/-- `gpu[:n].copy_(src)`; one element is broadcast. -/
def copySlice (b : CpuGpuBuffer α) (n : Nat) (src : List α) : Py (CpuGpuBuffer α) :=
  if h : src.length = min n b.gpu.length then
    .ok ⟨b.cpu, src ++ b.gpu.drop n, by
      have hsize := b.sameSize
      rw [length_append, length_drop, h]
      omega⟩
  else
    match src with
    | [x] => .ok ⟨b.cpu, List.replicate (min n b.gpu.length) x ++ b.gpu.drop n, by
        have hsize := b.sameSize
        rw [length_append, length_replicate, length_drop]
        omega⟩
    | _ => .error (.runtimeError "The size of the tensors must match")

/-- `gpu[:n] = x`. -/
def fillSlice (b : CpuGpuBuffer α) (n : Nat) (x : α) : CpuGpuBuffer α where
  cpu := b.cpu
  gpu := List.replicate (min n b.gpu.length) x ++ b.gpu.drop n
  sameSize := by
    have hsize := b.sameSize
    rw [length_append, length_replicate, length_drop]
    omega

/-- `gpu.scatter_(0, index, src)`. -/
def scatterGpu (b : CpuGpuBuffer α) (index : List Int) (src : List α) : Py (CpuGpuBuffer α) :=
  match h : torchScatter b.gpu index src with
  | .ok gpu => .ok ⟨b.cpu, gpu, (length_torchScatter h).trans b.sameSize⟩
  | .error e => .error e

end CpuGpuBuffer

/-! ## The model runner -/

inductive DraftTokenIds
  | lists (ids : List (List Token))
  | tensor (rows : List (List Token))

/-- The fields of the model runner and of its input batch that are used here. -/
structure ModelRunner (E : Type) where
  reqIds : List ReqId
  prevReqIdToIndex : Option (Dict ReqId Nat)
  prevSampledTokenIds : Option (List (List Token))
  draftTokenIds : Option DraftTokenIds
  numSpecTokens : Nat
  enablePromptEmbeds : Bool
  useAsyncScheduling : Bool
  prevPositions : List Int
  inputIds : CpuGpuBuffer Token
  inputsEmbeds : CpuGpuBuffer E
  isTokenIds : CpuGpuBuffer Bool

/-- The values that the loop of `_prepare_input_ids` collects. -/
structure Flattened where
  sampleFlattenedIndices : List Int := []
  specFlattenedIndices : List Int := []
  prevDraftTokenIndices : List Int := []
  prevIndices : List Int := []
  commonIndicesMatch : Bool := true
  maxFlattenedIndex : Int := -1
  totalNumSpecTokens : Nat := 0
  deriving DecidableEq

/-- `.to(dtype=torch.int32)`. -/
def toInt32 (x : Int) : Int := (x + 2 ^ 31) % 2 ^ 32 - 2 ^ 31

namespace ModelRunner

variable {E : Type}

/-- `prev_req_id_to_index.get(req_id, -1)`. -/
def prevIndexOf (d : Dict ReqId Nat) (reqId : ReqId) : Int :=
  match d.get? reqId with
  | some i => i
  | none => -1

def computePrevPositions (r : ModelRunner E) (numReqs : Nat) : Py (ModelRunner E) :=
  let fill := { r with
    prevPositions := List.replicate (min numReqs r.prevPositions.length) (-1) ++
      r.prevPositions.drop numReqs }
  match r.prevReqIdToIndex with
  | none => pure fill
  | some d =>
    if d.entries.isEmpty then pure fill
    else do
      let prevPositions ← (r.reqIds.take numReqs).zipIdx.foldlM
        (fun positions e => pySet positions (e.2 : Int) (prevIndexOf d e.1)) r.prevPositions
      pure { r with prevPositions }

/-- A turn of the loop of `_prepare_input_ids`. -/
def flattenRow (r : ModelRunner E) (scheduledSpecTokens : Dict ReqId (List Token))
    (cuNumTokens : List Nat) (st : Flattened) (curIndex : Nat) : Py Flattened := do
  let prevIndex ← pyGet r.prevPositions (curIndex : Int)
  if prevIndex < 0 then pure st
  else do
    let reqId ← pyGet r.reqIds (curIndex : Int)
    let draftLen := ((scheduledSpecTokens.get? reqId).getD []).length
    let cu ← pyGet cuNumTokens (curIndex : Int)
    let flattenedIndex : Int := (cu : Int) - 1
    let start := prevIndex * r.numSpecTokens
    pure
      { sampleFlattenedIndices := st.sampleFlattenedIndices ++ [flattenedIndex - draftLen]
        specFlattenedIndices := st.specFlattenedIndices ++
          pyRange (flattenedIndex - draftLen + 1) (flattenedIndex + 1) 1
        prevDraftTokenIndices := st.prevDraftTokenIndices ++
          pyRange start (start + draftLen) 1
        prevIndices := st.prevIndices ++ [prevIndex]
        commonIndicesMatch := st.commonIndicesMatch && decide (prevIndex = flattenedIndex)
        maxFlattenedIndex := max st.maxFlattenedIndex flattenedIndex
        totalNumSpecTokens := st.totalNumSpecTokens + draftLen }

/-- The input ids and, with prompt embeddings, what goes with them. -/
def copyInputsToGpu (r : ModelRunner E) (n : Nat) : ModelRunner E :=
  { r with
    inputIds := r.inputIds.copyToGpu n
    inputsEmbeds := if r.enablePromptEmbeds then r.inputsEmbeds.copyToGpu n else r.inputsEmbeds
    isTokenIds := if r.enablePromptEmbeds then r.isTokenIds.copyToGpu n else r.isTokenIds }

/-- The common case: the batch is unchanged, and a slice is copied. -/
def copySampledSlice (r : ModelRunner E) (rows : List (List Token)) (numCommonTokens : Nat) :
    Py (ModelRunner E) := do
  let src ← (rows.take numCommonTokens).mapM fun row => pyGet row 0
  let inputIds ← r.inputIds.copySlice numCommonTokens src
  pure { r with
    inputIds
    isTokenIds :=
      if r.enablePromptEmbeds then r.isTokenIds.fillSlice numCommonTokens true
      else r.isTokenIds }

def scatterSampled (r : ModelRunner E) (rows : List (List Token)) (f : Flattened) :
    Py (ModelRunner E) := do
  let src ← f.prevIndices.mapM fun i => do
    let row ← pyGet rows i
    pyGet row 0
  let inputIds ← r.inputIds.scatterGpu f.sampleFlattenedIndices src
  pure { r with inputIds }

def scatterDrafts (r : ModelRunner E) (f : Flattened) : Py (ModelRunner E) :=
  match r.draftTokenIds with
  | none => pure r
  | some draftTokenIds =>
    if f.specFlattenedIndices.isEmpty then pure r
    else
      match draftTokenIds with
      | .lists _ => throw (.assertionError "")
      | .tensor rows => do
        let flat := (rows.map (·.map toInt32)).flatten
        let src ← f.prevDraftTokenIndices.mapM fun i => pyGet flat i
        let inputIds ← r.inputIds.scatterGpu f.specFlattenedIndices src
        pure { r with inputIds }

def prepareInputIds (r : ModelRunner E) (scheduledSpecTokens : Dict ReqId (List Token))
    (numReqs totalNumScheduledTokens : Nat) (cuNumTokens : List Nat) : Py (ModelRunner E) :=
  match r.prevSampledTokenIds with
  | none => pure (r.copyInputsToGpu totalNumScheduledTokens)
  | some rows => do
    let f ← (List.range numReqs).foldlM (r.flattenRow scheduledSpecTokens cuNumTokens) {}
    let numCommonTokens := f.sampleFlattenedIndices.length
    let totalWithoutSpec : Int := (totalNumScheduledTokens : Int) - f.totalNumSpecTokens
    let r :=
      if (numCommonTokens : Int) < totalWithoutSpec then
        r.copyInputsToGpu totalNumScheduledTokens
      else r
    if numCommonTokens = 0 then pure r
    else if f.commonIndicesMatch ∧ f.maxFlattenedIndex = (numCommonTokens : Int) - 1 then
      r.copySampledSlice rows numCommonTokens
    else do
      let r ← r.scatterSampled rows f
      r.scatterDrafts f

end ModelRunner

end VllmCore.Worker.InputIds
