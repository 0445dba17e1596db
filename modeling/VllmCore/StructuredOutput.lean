import VllmCore.Support.Dict
/-!
# Grammar bitmasks

The scheduler fills one row for every position of a structured output request that a token
is sampled at (`vllm/v1/structured_output/__init__.py`), advancing the grammar over the
drafts and rolling it back; the worker sorts the rows into the order of its batch
(`vllm/v1/structured_output/utils.py`).
-/

namespace VllmCore.StructuredOutput

open Support

abbrev ReqId := Nat

/-- A row of the bitmask: the tokens that are allowed. -/
abbrev Row := Int → Bool

def fullMask : Row := fun _ => true

/-- `StructuredOutputGrammar`, with its methods on the state of a grammar. -/
structure GrammarOps (σ : Type) where
  acceptToken : σ → Int → σ × Bool
  validateTokens : σ → List Int → List Int
  rollback : σ → Nat → σ
  fillBitmask : σ → Row
  isTerminated : σ → σ × Bool

structure Request where
  useStructuredOutput : Bool := true
  isPrefillChunk : Bool := false
  promptTokenIds : Option (List Int) := none
  reasoningEnded : Option Bool := none

/-- The configuration; `numSpeculativeTokens` is 0 without speculative decoding, and
`isReasoningEnd` is that of the reasoner, if there is one. -/
structure Config where
  isReasoningEnd : Option (List Int → Bool) := none
  enableInReasoning : Bool := false
  maxNumSeqs : Nat
  numSpeculativeTokens : Nat := 0
  fillBitmaskParallelThreshold : Nat := 128
  fillBitmaskParallelBatchSize : Nat := 16

/-- `should_fill_bitmask`, which may set `reasoning_ended`. -/
def shouldFillBitmask (cfg : Config) (r : Request) : Request × Bool :=
  match cfg.isReasoningEnd with
  | none => (r, true)
  | some isReasoningEnd =>
    if cfg.enableInReasoning then (r, true)
    else
      match r.reasoningEnded with
      | some ended => (r, ended)
      | none =>
        let ended := isReasoningEnd (r.promptTokenIds.getD [])
        ({ r with reasoningEnded := some ended }, ended)

/-! ## Filling rows -/

structure Filling (σ : Type) where
  grammars : ReqId → σ
  bitmask : List Row

/-- An item of the batch of `_fill_bitmasks`. -/
structure Fill where
  reqId : ReqId
  index : Nat
  applyBitmask : Bool
  deriving DecidableEq

variable {σ : Type} (G : GrammarOps σ)

namespace Filling

def setGrammar (f : Filling σ) (reqId : ReqId) (s : σ) : Filling σ :=
  { f with grammars := Function.update f.grammars reqId s }

def setRow (f : Filling σ) (index : Nat) (row : Row) : Filling σ :=
  { f with bitmask := f.bitmask.set index row }

end Filling

/-- The body of `_fill_bitmasks`. -/
def fillOne (f : Filling σ) (e : Fill) : Py (Filling σ) := do
  require (e.index < f.bitmask.length) (.indexError "index out of range")
  if e.applyBitmask then
    let (s, terminated) := G.isTerminated (f.grammars e.reqId)
    let f := f.setGrammar e.reqId s
    if terminated then return f.setRow e.index fullMask
    else return f.setRow e.index (G.fillBitmask s)
  else return f.setRow e.index fullMask

def fillBitmasks (f : Filling σ) (batch : List Fill) : Py (Filling σ) :=
  batch.foldlM (fillOne G) f

/-- A draft token advances the grammar, unless it has terminated. -/
def advance (f : Filling σ) (reqId : ReqId) (token : Int) (advancements : Nat) :
    Py (Filling σ × Nat) :=
  match G.isTerminated (f.grammars reqId) with
  | (s, true) => .ok (f.setGrammar reqId s, advancements)
  | (s, false) =>
    match G.acceptToken s token with
    | (_, false) => .error (.assertionError "")
    | (s, true) => .ok (f.setGrammar reqId s, advancements + 1)

/-- The loop over the tokens of one request, with `cumulative_index` and
`state_advancements`. -/
def fillRequest (reqId : ReqId) : List Int → Bool → Nat → Nat → Filling σ →
    Py (Filling σ × Nat × Nat)
  | [], _, index, advancements, f => .ok (f, index, advancements)
  | token :: tokens, applyBitmask, index, advancements, f => do
    let f ← fillBitmasks G f [⟨reqId, index, applyBitmask⟩]
    let applyBitmask := applyBitmask && token != -1
    if applyBitmask then
      let (f, advancements) ← advance G f reqId token advancements
      fillRequest reqId tokens applyBitmask (index + 1) advancements f
    else fillRequest reqId tokens applyBitmask (index + 1) advancements f

/-- The serial path, with `cumulative_index`. -/
def fillSerial (cfg : Config) (spec : Dict ReqId (List Int)) :
    List ReqId → Dict ReqId Request → Nat → Filling σ →
    Py (Dict ReqId Request × Filling σ × Nat)
  | [], requests, index, f => .ok (requests, f, index)
  | reqId :: ids, requests, index, f => do
    let request ← requests.get reqId
    let requests := requests.set reqId (shouldFillBitmask cfg request).1
    let (f, index, advancements) ←
      fillRequest G reqId ((spec.get? reqId).getD [] ++ [-1])
        (shouldFillBitmask cfg request).2 index 0 f
    let f := if 0 < advancements then
        f.setGrammar reqId (G.rollback (f.grammars reqId) advancements) else f
    fillSerial cfg spec ids requests index f

def collectFills (cfg : Config) : List ReqId → Dict ReqId Request → Nat →
    Py (Dict ReqId Request × List Fill)
  | [], requests, _ => .ok (requests, [])
  | reqId :: ids, requests, index => do
    let request ← requests.get reqId
    let requests := requests.set reqId (shouldFillBitmask cfg request).1
    let (requests, fills) ← collectFills cfg ids requests (index + 1)
    .ok (requests, ⟨reqId, index, (shouldFillBitmask cfg request).2⟩ :: fills)

/-- How the items are submitted: in batches of this size, and what is left. -/
def batches (size : Nat) : List Fill → List Fill → List (List Fill)
  | batch, [] => if batch = [] then [] else [batch]
  | batch, e :: fills =>
    if (batch ++ [e]).length = size then (batch ++ [e]) :: batches size [] fills
    else batches size (batch ++ [e]) fills

/-- The threads of the executor: the order in which the items of the batches are done. -/
structure Executor where
  order : List (List Fill) → List Fill
  order_perm : ∀ bs, (order bs).Perm bs.flatten

/-- The requests of the scheduler with their grammars, and `_grammar_bitmask`. -/
structure Manager (σ : Type) where
  requests : Dict ReqId Request
  grammars : ReqId → σ
  bitmask : Option (List Row) := none

/-- `_grammar_bitmask`, allocated at its first use. -/
def allocate (cfg : Config) (bitmask : Option (List Row)) : List Row :=
  bitmask.getD (List.replicate (cfg.maxNumSeqs * (1 + cfg.numSpeculativeTokens)) fullMask)

def grammarBitmask (cfg : Config) (ex : Executor) (m : Manager σ) (ids : List ReqId)
    (spec : Dict ReqId (List Int)) : Py (Manager σ × Option (List Row)) :=
  if ids = [] then .ok (m, none)
  else
    let f : Filling σ := ⟨m.grammars, allocate cfg m.bitmask⟩
    if cfg.fillBitmaskParallelThreshold < ids.length ∧ cfg.numSpeculativeTokens = 0 then do
      let (requests, fills) ← collectFills cfg ids m.requests 0
      let f ← fillBitmasks G f (ex.order (batches cfg.fillBitmaskParallelBatchSize [] fills))
      .ok (⟨requests, f.grammars, some f.bitmask⟩, some (f.bitmask.take ids.length))
    else do
      let (requests, f, index) ← fillSerial G cfg spec ids m.requests 0 f
      .ok (⟨requests, f.grammars, some f.bitmask⟩, some (f.bitmask.take index))

/-- The requests whose rows are in the bitmask, in its order. -/
def structuredOutputRequestIds (requests : Dict ReqId Request) (scheduled : List ReqId) :
    List ReqId :=
  scheduled.filter fun reqId =>
    (requests.get? reqId).any fun r => r.useStructuredOutput && !r.isPrefillChunk

/-- `get_grammar_bitmask`; the output has structured output requests if one of the scheduled
requests uses it and is no prefill chunk. -/
def getGrammarBitmask (cfg : Config) (ex : Executor) (m : Manager σ) (scheduled : List ReqId)
    (spec : Dict ReqId (List Int)) : Py (Manager σ × Option (List ReqId × List Row)) :=
  let ids := structuredOutputRequestIds m.requests scheduled
  if ids = [] then .ok (m, none)
  else do
    match ← grammarBitmask G cfg ex m ids spec with
    | (m, some bitmask) => .ok (m, some (ids, bitmask))
    | (m, none) => .ok (m, none)

/-! ## The worker -/

variable {L : Type}

abbrev Logits (L : Type) := Int → L

/-- `apply_token_bitmask_inplace`: the tokens that a row of the bitmask does not allow get
`-inf`, in all rows or in those of the indices. -/
structure ApplyTokenBitmask (L : Type) where
  negInf : L
  inplace : List (Logits L) → List Row → Option (List Nat) → List (Logits L)
  inplace_eq : ∀ logits bitmask indices, bitmask.length = logits.length →
    inplace logits bitmask indices = logits.zipIdx.map fun e =>
      if (∀ js, indices = some js → e.2 ∈ js) then
        fun token => if bitmask.getD e.2 fullMask token then e.1 token else negInf
      else e.1

def numRows (spec : Dict ReqId (List Int)) (reqId : ReqId) : Nat :=
  1 + ((spec.get? reqId).getD []).length

/-- `struct_out_req_batch_indices`: where the rows of the structured output requests start in
the batch. -/
def batchIndices (spec : Dict ReqId (List Int)) (ids : List ReqId) :
    List ReqId → Nat → Nat → Dict ReqId Nat → Dict ReqId Nat
  | [], _, _, indices => indices
  | reqId :: reqIds, batchIndex, cumulativeOffset, indices =>
    let logitIndex := batchIndex + cumulativeOffset
    let cumulativeOffset := cumulativeOffset + ((spec.get? reqId).getD []).length
    batchIndices spec ids reqIds (batchIndex + 1) cumulativeOffset
      (if reqId ∈ ids then indices.set reqId logitIndex else indices)

/-- The inner loop: rows of the bitmask are copied from one index on to another. -/
def copyRows (bitmask : List Row) (source target : Nat) :
    List Nat → List Row → List Nat → Py (List Row × List Nat)
  | [], sorted, out => .ok (sorted, out)
  | i :: is, sorted, out => do
    let row ← pyGet bitmask (source + i : Nat)
    require (target + i < sorted.length) (.indexError "index out of bounds")
    copyRows bitmask source target is (sorted.set (target + i) row) (out ++ [target + i])

/-- The rows of a request are copied to where its rows start in the batch, if it is there. -/
def placeRows (spec : Dict ReqId (List Int)) (indices : Dict ReqId Nat) (bitmask : List Row)
    (reqId : ReqId) (cumulativeIndex : Nat) (sorted : List Row) (out : List Nat) :
    Py (List Row × List Nat) :=
  match indices.get? reqId with
  | some logitIdx =>
    copyRows bitmask cumulativeIndex logitIdx (List.range (numRows spec reqId)) sorted out
  | none => .ok (sorted, out)

/-- The loop that sorts the rows, with `cumulative_index` and `out_indices`. -/
def sortRows (spec : Dict ReqId (List Int)) (indices : Dict ReqId Nat) (bitmask : List Row) :
    List ReqId → Nat → List Row → List Nat → Py (List Row × List Nat)
  | [], _, sorted, out => .ok (sorted, out)
  | reqId :: ids, cumulativeIndex, sorted, out => do
    let (sorted, out) ← placeRows spec indices bitmask reqId cumulativeIndex sorted out
    sortRows spec indices bitmask ids (cumulativeIndex + numRows spec reqId) sorted out

/-- `apply_grammar_bitmask`, in a batch of these requests. -/
def applyGrammarBitmask (X : ApplyTokenBitmask L) (spec : Dict ReqId (List Int))
    (ids : List ReqId) (bitmask : List Row) (reqIds : List ReqId) (logits : List (Logits L)) :
    Py (List (Logits L)) := do
  let indices := batchIndices spec ids reqIds 0 0 .empty
  let (sorted, out) ← sortRows spec indices bitmask ids 0
    (List.replicate logits.length fullMask) []
  .ok (X.inplace logits sorted (if out.length = logits.length then none else some out))

end VllmCore.StructuredOutput
