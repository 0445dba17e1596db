import VllmCore.Worker.InputBatch
/-!
# What the batch holds for a row

The row of the batch is the record of what its columns hold at one index, read as far as
it is valid.  Each operation acts on whole rows: it moves, exchanges or replaces
them, and the columns only differ in how they are stored.
-/

namespace VllmCore.Worker

open Function List Support Dict

/-- The token columns of a row: the valid prefix of the tokens, where a position that is
given by a prompt embedding has no token, the counters and the block ids. -/
structure TokenColumns where
  tokens : List (Option Token)
  numTokensNoSpec : Nat
  numPromptTokens : Nat
  numComputedTokens : Int
  blockIds : List (List Nat)

structure SamplingColumns where
  temperature : ℚ
  topP : ℚ
  topK : Int
  frequencyPenalty : ℚ
  presencePenalty : ℚ
  repetitionPenalty : ℚ
  numAcceptedTokens : Nat
  generator : Option Nat
  badWordsTokenIds : List (List Token)

/-- Everything the batch holds for a row.  `draftTokens` are the draft tokens as they
stand in the token buffer, behind the valid prefix. -/
structure Row where
  tokenColumns : TokenColumns
  outputTokenIds : Option (List Token)
  specTokenIds : List Token
  draftTokens : List Token
  loraId : Int
  sampling : Option SamplingColumns

/-- What the batch holds under the id of a request: the sets of requests with a
setting, the number of logprobs, and the pooling parameters. -/
structure IdEntry where
  greedy : Bool
  random : Bool
  topP : Bool
  topK : Bool
  frequencyPenalties : Bool
  presencePenalties : Bool
  repetitionPenalties : Bool
  allowedTokenIds : Bool
  numLogprobs : Option Int
  poolingParams : Option PoolingParams
  poolingStates : Option Nat

/-- The parameters of the batch, which no operation changes. -/
structure BatchConfig where
  isPoolingModel : Bool
  vocabSize : Nat
  float32 : ℚ → ℚ
  ratios : List Nat

namespace InputBatch

def config (b : InputBatch) : BatchConfig where
  isPoolingModel := b.isPoolingModel
  vocabSize := b.vocabSize
  float32 := b.float32
  ratios := b.blockTable.ratios

def tokenColumns (b : InputBatch) (i : Nat) : TokenColumns where
  tokens := rowPrefix (fun p => if b.isTokenIds i p then some (b.tokenIdsCpu i p) else none)
    (b.numTokensNoSpec i)
  numTokensNoSpec := b.numTokensNoSpec i
  numPromptTokens := b.numPromptTokens i
  numComputedTokens := b.numComputedTokensCpu i
  blockIds := b.blockTable.row i

def samplingColumns (b : InputBatch) (i : Nat) : SamplingColumns where
  temperature := b.temperatureCpu i
  topP := b.topPCpu i
  topK := b.topKCpu i
  frequencyPenalty := b.frequencyPenaltiesCpu i
  presencePenalty := b.presencePenaltiesCpu i
  repetitionPenalty := b.repetitionPenaltiesCpu i
  numAcceptedTokens := b.numAcceptedTokensCpu i
  generator := b.generators.get? i
  badWordsTokenIds := (b.badWordsTokenIds.get? i).getD []

def specAt (b : InputBatch) (i : Nat) : List Token := (b.specTokenIds[i]?).getD []

def outputAt (b : InputBatch) (i : Nat) : Option (List Token) := (b.reqOutputTokenIds[i]?).getD none

def draftTokens (b : InputBatch) (i : Nat) : List Token :=
  rowPrefix (fun p => b.tokenIdsCpu i (b.numTokensNoSpec i + p)) (b.specAt i).length

def row (b : InputBatch) (i : Nat) : Row where
  tokenColumns := b.tokenColumns i
  outputTokenIds := b.outputAt i
  specTokenIds := b.specAt i
  draftTokens := b.draftTokens i
  loraId := b.requestLoraMapping i
  sampling := if b.isPoolingModel then none else some (b.samplingColumns i)

def idEntry (b : InputBatch) (id : ReqId) : IdEntry where
  greedy := id ∈ b.greedyReqs
  random := id ∈ b.randomReqs
  topP := id ∈ b.topPReqs
  topK := id ∈ b.topKReqs
  frequencyPenalties := id ∈ b.frequencyPenaltiesReqs
  presencePenalties := id ∈ b.presencePenaltiesReqs
  repetitionPenalties := id ∈ b.repetitionPenaltiesReqs
  allowedTokenIds := id ∈ b.hasAllowedTokenIds
  numLogprobs := b.numLogprobs.get? id
  poolingParams := b.poolingParams.get? id
  poolingStates := b.poolingStates.get? id

end InputBatch

/-! ## What belongs to a request -/

structure LiveRequest where
  request : CachedRequestState
  specTokenIds : List Token := []

namespace LiveRequest

variable (c : BatchConfig) (l : LiveRequest)

def tokens : List (Option Token) :=
  (match l.request.promptTokenIds with
    | some ids => ids.map some
    | none => List.replicate l.request.numPromptTokens none) ++
  l.request.outputTokenIds.map some

def tokenColumns : TokenColumns where
  tokens := l.tokens
  numTokensNoSpec := l.request.numTokens
  numPromptTokens := l.request.numPromptTokens
  numComputedTokens := l.request.numComputedTokens
  blockIds := MultiGroupBlockTable.kernelBlocks c.ratios l.request.blockIds

def samplingColumns (p : SamplingParams) : SamplingColumns where
  temperature := c.float32 (InputBatch.effectiveTemperature p)
  topP := c.float32 p.topP
  topK := InputBatch.effectiveTopK c.vocabSize p.topK
  frequencyPenalty := c.float32 p.frequencyPenalty
  presencePenalty := c.float32 p.presencePenalty
  repetitionPenalty := c.float32 p.repetitionPenalty
  numAcceptedTokens := 1
  generator := l.request.generator
  badWordsTokenIds := p.badWordsTokenIds

/-- The adapter of the request, `0` where it has none. -/
def loraId : Int := (l.request.loraRequest.map (·.loraIntId)).getD 0

def row : Row where
  tokenColumns := l.tokenColumns c
  outputTokenIds := some l.request.outputTokenIds
  specTokenIds := l.specTokenIds
  draftTokens := l.specTokenIds
  loraId := l.loraId
  sampling := l.request.samplingParams.map (l.samplingColumns c)

def idEntry : IdEntry :=
  match l.request.samplingParams with
  | some p =>
    { greedy := p.samplingType = .greedy
      random := p.samplingType ≠ .greedy
      topP := p.topP < 1
      topK := 0 < p.topK ∧ p.topK < c.vocabSize
      frequencyPenalties := p.frequencyPenalty ≠ 0
      presencePenalties := p.presencePenalty ≠ 0
      repetitionPenalties := p.repetitionPenalty ≠ 1
      allowedTokenIds := p.allowedTokenIds ≠ []
      numLogprobs := p.logprobs.map (InputBatch.effectiveLogprobs c.vocabSize)
      poolingParams := none
      poolingStates := none }
  | none =>
    { greedy := false, random := false, topP := false, topK := false
      frequencyPenalties := false, presencePenalties := false, repetitionPenalties := false
      allowedTokenIds := false, numLogprobs := none
      poolingParams := l.request.poolingParams
      poolingStates := l.request.poolingStates }

end LiveRequest

/-- What the batch holds under an id that it does not know: nothing. -/
def IdEntry.absent : IdEntry where
  greedy := false
  random := false
  topP := false
  topK := false
  frequencyPenalties := false
  presencePenalties := false
  repetitionPenalties := false
  allowedTokenIds := false
  numLogprobs := none
  poolingParams := none
  poolingStates := none

namespace InputBatch

/-! ## Exchanging rows -/

variable {V α : Type} {src tgt i j n i₁ i₂ : Nat} {xs ys : List α} {b b' : InputBatch}
  {id₁ id₂ id : ReqId}

theorem swapDictValues_get? (d : Dict Nat V) (i j k : Nat) : (swapDictValues d i j).get? k =
      if k = j then d.get? i else if k = i then d.get? j else d.get? k := by
  unfold swapDictValues
  by_cases hij : i = j
  · subst hij
    cases hi : d.get? i <;> simp only [get?_set, get?_erase]
  · cases hi : d.get? i <;> cases hj : d.get? j <;>
      simp only [get?_set, get?_erase] <;> split <;> simp_all

theorem moveDictValue_get? (d : Dict Nat V) (h : src ≠ tgt) (htgt : d.get? tgt = none) (k : Nat) :
    (moveDictValue d src tgt).get? k =
      if k = tgt then d.get? src else if k = src then none else d.get? k := by
  unfold moveDictValue
  cases hs : d.get? src with
  | none =>
    split
    · simp_all
    · split <;> simp_all
  | some v =>
    rw [get?_set, get?_erase]

theorem pySwap_ok (h : pySwap xs i j = .ok ys) :
    ∃ x y, xs[i]? = some x ∧ xs[j]? = some y ∧ ys = (xs.set i y).set j x := by
  unfold pySwap at h
  simp only [bind_ok, pyGet_natCast_ok] at h
  obtain ⟨x, hx, y, hy, zs, hzs, hys⟩ := h
  have hi := (List.getElem?_eq_some_iff.mp hx).1
  have hj := (List.getElem?_eq_some_iff.mp hy).1
  simp only [pySet_ok, pyIndex_natCast hi, Option.some.injEq, exists_eq_left'] at hzs
  subst hzs
  simp only [pySet_ok, length_set, pyIndex_natCast hj, Option.some.injEq,
    exists_eq_left'] at hys
  exact ⟨x, y, hx, hy, hys⟩

theorem pySwap_getElem? (h : pySwap xs i j = .ok ys)
    (k : Nat) : ys[k]? = if k = j then xs[i]? else if k = i then xs[j]? else xs[k]? := by
  obtain ⟨x, y, hx, hy, rfl⟩ := pySwap_ok h
  have hi := (List.getElem?_eq_some_iff.mp hx).1
  have hj := (List.getElem?_eq_some_iff.mp hy).1
  rw [List.getElem?_set, List.getElem?_set, List.length_set, hx, hy]
  by_cases hkj : j = k
  · subst hkj
    simp [hj]
  · by_cases hki : i = k
    · subst hki
      simp [hkj, hi, Ne.symm hkj]
    · simp [hkj, hki, Ne.symm hkj, Ne.symm hki]

theorem pySet_natCast_ok {x : α} :
    pySet xs (i : Int) x = .ok ys ↔ i < xs.length ∧ ys = xs.set i x := by
  rw [pySet_ok]
  by_cases hi : i < xs.length
  · simp [pyIndex_natCast hi, hi]
  · simp [pyIndex, hi]

theorem tokens_congr {is is' : Nat → Bool} {ids ids' : Nat → Token}
    (his : ∀ p < n, is p = is' p) (hids : ∀ p < n, ids p = ids' p) :
    rowPrefix (fun p => if is p then some (ids p) else none) n =
      rowPrefix (fun p => if is' p then some (ids' p) else none) n := by
  apply rowPrefix_congr
  intro p hp
  simp only [his p hp, hids p hp]

theorem swapColumns_tokenColumns (b : InputBatch) {i₁ i₂ n : Nat}
    (h₁ : b.numTokensNoSpec i₁ ≤ n) (h₂ : b.numTokensNoSpec i₂ ≤ n) (k : Nat) :
    (b.swapColumns i₁ i₂ n).tokenColumns k =
      if k = i₂ then b.tokenColumns i₁ else if k = i₁ then b.tokenColumns i₂
      else b.tokenColumns k := by
  by_cases hk₂ : k = i₂
  · subst hk₂
    simp only [if_true, tokenColumns, swapColumns, swapEntries_apply,
      MultiGroupBlockTable.swapRow_row, TokenColumns.mk.injEq, and_true]
    exact tokens_congr (fun p hp => swapPrefixes_right _ _ _ (by omega))
      (fun p hp => swapPrefixes_right _ _ _ (by omega))
  · by_cases hk₁ : k = i₁
    · subst hk₁
      simp only [if_neg hk₂, if_true, tokenColumns, swapColumns, swapEntries_apply,
        MultiGroupBlockTable.swapRow_row, TokenColumns.mk.injEq, and_true]
      exact tokens_congr (fun p hp => swapPrefixes_left _ hk₂ (by omega))
        (fun p hp => swapPrefixes_left _ hk₂ (by omega))
    · simp only [tokenColumns, swapColumns, swapEntries_apply, if_neg hk₁, if_neg hk₂,
        MultiGroupBlockTable.swapRow_row, swapPrefixes_of_ne _ hk₁ hk₂]

theorem getActiveTokenCount_ok
    (h : b.getActiveTokenCount i = .ok n) : n = b.numTokensNoSpec i + (b.specAt i).length := by
  simp only [getActiveTokenCount, bind_ok, pyGet_natCast_ok, pure_ok] at h
  obtain ⟨spec, hspec, rfl⟩ := h
  rw [specAt, hspec]
  rfl

/-- What a successful `swap_states` read and wrote. -/
structure Swaps (b b' : InputBatch) (i₁ i₂ : Nat) (id₁ id₂ : ReqId) : Prop where
  at_left : b.reqIds[i₁]? = some (some id₁)
  at_right : b.reqIds[i₂]? = some (some id₂)
  reqIds : pySwap b.reqIds i₁ i₂ = .ok b'.reqIds
  outputs : pySwap b.reqOutputTokenIds i₁ i₂ = .ok b'.reqOutputTokenIds
  specs : pySwap b.specTokenIds i₁ i₂ = .ok b'.specTokenIds
  index : ∃ n₁ n₂, b.reqIdToIndex.get? id₁ = some n₁ ∧ b.reqIdToIndex.get? id₂ = some n₂ ∧
    b'.reqIdToIndex = (b.reqIdToIndex.set id₁ n₂).set id₂ n₁
  columns : ∃ n, b.numTokensNoSpec i₁ + (b.specAt i₁).length ≤ n ∧
    b.numTokensNoSpec i₂ + (b.specAt i₂).length ≤ n ∧
    (let base := { b.swapColumns i₁ i₂ n with
        reqIds := b'.reqIds
        reqOutputTokenIds := b'.reqOutputTokenIds
        specTokenIds := b'.specTokenIds
        reqIdToIndex := b'.reqIdToIndex }
     b' = if b.isPoolingModel then base else base.swapSamplingColumns i₁ i₂)

theorem swapStates_ok (h : b.swapStates i₁ i₂ = .ok b') : ∃ id₁ id₂, b.Swaps b' i₁ i₂ id₁ id₂ := by
  simp only [swapStates, bind_ok, pyGet_natCast_ok] at h
  obtain ⟨old₁, hold₁, old₂, hold₂, n₁, hn₁, n₂, hn₂, reqIds, hids, outputs, houts, specs,
    hspecs, h⟩ := h
  have ha₁ := getActiveTokenCount_ok hn₁
  have ha₂ := getActiveTokenCount_ok hn₂
  cases old₁ with
  | none => cases old₂ <;> cases h
  | some id₁ =>
    cases old₂ with
    | none => cases h
    | some id₂ =>
      simp only [bind_ok, get_ok] at h
      obtain ⟨x₁, hx₁, x₂, hx₂, h⟩ := h
      refine ⟨id₁, id₂, ?_⟩
      by_cases hpool : b.isPoolingModel = true
      · have hb' := h
        simp only [swapColumns, hpool, if_true, pure_ok] at hb'
        subst hb'
        exact ⟨hold₁, hold₂, hids, houts, hspecs, ⟨x₁, x₂, hx₁, hx₂, rfl⟩,
          max n₁ n₂, by omega, by omega, by simp [hpool, swapColumns]⟩
      · have hb' := h
        simp only [swapColumns, hpool, Bool.false_eq_true, if_false, pure_ok] at hb'
        subst hb'
        exact ⟨hold₁, hold₂, hids, houts, hspecs, ⟨x₁, x₂, hx₁, hx₂, rfl⟩,
          max n₁ n₂, by omega, by omega, by simp [hpool, swapColumns, swapSamplingColumns]⟩

section

variable (h : b.Swaps b' i₁ i₂ id₁ id₂)

include h

theorem Swaps.row (k : Nat) : b'.row k =
      if k = i₂ then b.row i₁ else if k = i₁ then b.row i₂ else b.row k := by
  obtain ⟨n, hn₁, hn₂, hb'⟩ := h.columns
  have htokens : b'.tokenColumns k = (b.swapColumns i₁ i₂ n).tokenColumns k := by
    rw [hb']
    split <;> rfl
  have hids : b'.tokenIdsCpu = swapPrefixes b.tokenIdsCpu i₁ i₂ n := by
    rw [hb']
    split <;> rfl
  have hlen : b'.numTokensNoSpec = swapEntries b.numTokensNoSpec i₁ i₂ := by
    rw [hb']
    split <;> rfl
  have hlora : b'.requestLoraMapping = swapEntries b.requestLoraMapping i₁ i₂ := by
    rw [hb']
    split <;> rfl
  have hpool : b'.isPoolingModel = b.isPoolingModel := by
    rw [hb']
    split <;> rfl
  have hsampling : b.isPoolingModel = false → b'.samplingColumns k =
      if k = i₂ then b.samplingColumns i₁ else if k = i₁ then b.samplingColumns i₂
      else b.samplingColumns k := by
    intro hnp
    rw [hb', if_neg (by simp [hnp])]
    simp only [samplingColumns, swapSamplingColumns, swapColumns, swapEntries_apply,
      swapDictValues_get?]
    split
    · rfl
    · split <;> rfl
  have hspec : b'.specAt k =
      if k = i₂ then b.specAt i₁ else if k = i₁ then b.specAt i₂ else b.specAt k := by
    simp only [specAt, pySwap_getElem? h.specs]
    split
    · rfl
    · split <;> rfl
  have hout : b'.outputAt k =
      if k = i₂ then b.outputAt i₁ else if k = i₁ then b.outputAt i₂ else b.outputAt k := by
    simp only [outputAt, pySwap_getElem? h.outputs]
    split
    · rfl
    · split <;> rfl
  have hdraft : b'.draftTokens k =
      if k = i₂ then b.draftTokens i₁ else if k = i₁ then b.draftTokens i₂
      else b.draftTokens k := by
    simp only [draftTokens, hspec, hids, hlen, swapEntries_apply]
    by_cases hk₂ : k = i₂
    · subst hk₂
      simp only [if_true]
      exact rowPrefix_congr fun p hp => swapPrefixes_right _ _ _ (by omega)
    · by_cases hk₁ : k = i₁
      · subst hk₁
        simp only [if_neg hk₂, if_true]
        exact rowPrefix_congr fun p hp => swapPrefixes_left _ hk₂ (by omega)
      · simp only [if_neg hk₁, if_neg hk₂, swapPrefixes_of_ne _ hk₁ hk₂]
  have hcols := @swapColumns_tokenColumns b i₁ i₂ n (by omega) (by omega) k
  simp only [InputBatch.row, htokens, hcols, hspec, hout, hdraft, hlora, hpool,
    swapEntries_apply]
  cases hp : b.isPoolingModel with
  | true =>
    split
    · rfl
    · split <;> rfl
  | false =>
    rw [hsampling hp]
    split
    · rfl
    · split <;> rfl

theorem Swaps.same :
    b'.config = b.config ∧ (∀ id, b'.idEntry id = b.idEntry id) ∧
      b'.batchUpdateBuilder.removedList = b.batchUpdateBuilder.removedList ∧
      b'.batchUpdateBuilder.isRemovedSorted = b.batchUpdateBuilder.isRemovedSorted := by
  obtain ⟨n, _, _, hb'⟩ := h.columns
  rw [hb']
  split
  · exact ⟨by simp [config, swapColumns], fun _ => rfl, rfl, rfl⟩
  · exact ⟨by simp [config, swapColumns, swapSamplingColumns], fun _ => rfl, rfl, rfl⟩

/-- The dictionaries that are kept by row: pooling models have no generators and no bad
words. -/
theorem Swaps.dicts :
    b'.reqPromptEmbeds = swapDictValues b.reqPromptEmbeds i₁ i₂ ∧
      if b.isPoolingModel then
        b'.generators = b.generators ∧ b'.badWordsTokenIds = b.badWordsTokenIds else
        b'.generators = swapDictValues b.generators i₁ i₂ ∧
          b'.badWordsTokenIds = swapDictValues b.badWordsTokenIds i₁ i₂ := by
  obtain ⟨n, _, _, hb'⟩ := h.columns
  rw [hb']
  split
  · exact ⟨rfl, rfl, rfl⟩
  · exact ⟨rfl, rfl, rfl⟩

end

/-! ## Moving a row -/

/-- What a successful move of `condense` read and wrote. -/
structure Moves (b b' : InputBatch) (src tgt : Nat) (id : ReqId) : Prop where
  at_src : b.reqIds[src]? = some (some id)
  tgt_lt : tgt < b.reqIds.length
  lt_outputs : src < b.reqOutputTokenIds.length ∧ tgt < b.reqOutputTokenIds.length
  reqIds : b'.reqIds = (b.reqIds.set tgt (some id)).set src none
  outputs : ∃ out, b.reqOutputTokenIds[src]? = some out ∧
    b'.reqOutputTokenIds = (b.reqOutputTokenIds.set tgt out).set src none
  specs : ∃ swapped, pySwap b.specTokenIds src tgt = .ok swapped ∧ src < swapped.length ∧
    b'.specTokenIds = swapped.set src []
  index : b'.reqIdToIndex = b.reqIdToIndex.set id tgt
  columns : let base := { b.moveColumns src tgt (b.numTokensNoSpec src + (b.specAt src).length)
        with
        reqIds := b'.reqIds
        reqOutputTokenIds := b'.reqOutputTokenIds
        reqIdToIndex := b'.reqIdToIndex
        specTokenIds := b'.specTokenIds }
     b' = if b.isPoolingModel then base else base.moveSamplingColumns src tgt

theorem moveRequest_ok (h : b.moveRequest src tgt = .ok b') : ∃ id, b.Moves b' src tgt id := by
  simp only [moveRequest, bind_ok, pyGet_natCast_ok] at h
  obtain ⟨reqId, hid, out, hout, h⟩ := h
  cases reqId with
  | none => cases h
  | some id =>
    simp only [bind_ok, pySet_natCast_ok] at h
    obtain ⟨ids₁, ⟨htgt, rfl⟩, ids₂, ⟨hsrc, rfl⟩, outs₁, ⟨htgt', rfl⟩, outs₂, ⟨hsrc', rfl⟩,
      n, hn, swapped, hswapped, specs, ⟨hlt, rfl⟩, h⟩ := h
    rw [length_set] at hsrc'
    have hactive := getActiveTokenCount_ok hn
    subst hactive
    refine ⟨id, ?_⟩
    by_cases hpool : b.isPoolingModel = true
    · have hb' := h
      simp only [moveColumns, hpool, if_true, pure_ok] at hb'
      subst hb'
      exact ⟨hid, htgt, ⟨hsrc', htgt'⟩, rfl, ⟨out, hout, rfl⟩, ⟨swapped, hswapped, hlt, rfl⟩,
        rfl, by simp [hpool, moveColumns]⟩
    · have hb' := h
      simp only [moveColumns, hpool, Bool.false_eq_true, if_false, pure_ok] at hb'
      subst hb'
      exact ⟨hid, htgt, ⟨hsrc', htgt'⟩, rfl, ⟨out, hout, rfl⟩, ⟨swapped, hswapped, hlt, rfl⟩,
        rfl, by simp [hpool, moveColumns, moveSamplingColumns]⟩

theorem moveColumns_tokenColumns (b : InputBatch) (h : b.numTokensNoSpec src ≤ n) (k : Nat) :
    (b.moveColumns src tgt n).tokenColumns k =
      if k = tgt then b.tokenColumns src else b.tokenColumns k := by
  by_cases hk : k = tgt
  · subst hk
    simp only [if_true, tokenColumns, moveColumns, update_self,
      MultiGroupBlockTable.moveRow_row, TokenColumns.mk.injEq, and_true]
    apply tokens_congr <;> intro p hp <;> rw [copyPrefix, if_pos (by omega)]
  · simp only [if_neg hk, tokenColumns, moveColumns, update_of_ne hk,
      MultiGroupBlockTable.moveRow_row]

theorem Moves.row (h : b.Moves b' src tgt id)
    (hne : src ≠ tgt) (hgen : b.generators.get? tgt = none)
    (hbad : b.badWordsTokenIds.get? tgt = none) {k : Nat} (hk : k ≠ src) :
    b'.row k = if k = tgt then b.row src else b.row k := by
  have hb' := h.columns
  have htokens : b'.tokenColumns k = if k = tgt then b.tokenColumns src else b.tokenColumns k := by
    rw [← moveColumns_tokenColumns b (n := b.numTokensNoSpec src + (b.specAt src).length)
      (by omega)]
    rw [hb']
    split <;> rfl
  have hids : b'.tokenIdsCpu = update b.tokenIdsCpu tgt
      (copyPrefix (b.tokenIdsCpu tgt) (b.tokenIdsCpu src)
        (b.numTokensNoSpec src + (b.specAt src).length)) := by
    rw [hb']
    split <;> rfl
  have hlen : b'.numTokensNoSpec =
      update b.numTokensNoSpec tgt (b.numTokensNoSpec src) := by
    rw [hb']
    split <;> rfl
  have hlora : b'.requestLoraMapping =
      update b.requestLoraMapping tgt (b.requestLoraMapping src) := by
    rw [hb']
    split <;> rfl
  have hpool : b'.isPoolingModel = b.isPoolingModel := by
    rw [hb']
    split <;> rfl
  have hsampling : b.isPoolingModel = false → b'.samplingColumns k =
      if k = tgt then b.samplingColumns src else b.samplingColumns k := by
    intro hnp
    rw [hb']
    rw [if_neg (by simp [hnp])]
    simp only [samplingColumns, moveSamplingColumns, moveColumns, update_apply,
      moveDictValue_get? _ hne hgen, moveDictValue_get? _ hne hbad, if_neg hk]
    split <;> rfl
  have hspec : b'.specAt k = if k = tgt then b.specAt src else b.specAt k := by
    obtain ⟨swapped, hswapped, _, hs⟩ := h.specs
    simp only [specAt, hs, getElem?_set_ne (Ne.symm hk), pySwap_getElem? hswapped,
      if_neg hk]
    split <;> rfl
  have hout : b'.outputAt k = if k = tgt then b.outputAt src else b.outputAt k := by
    obtain ⟨out, hsrc, hs⟩ := h.outputs
    simp only [outputAt, hs, getElem?_set_ne (Ne.symm hk)]
    by_cases hkt : k = tgt
    · subst hkt
      simp [hsrc, h.lt_outputs.2]
    · simp [hkt, Ne.symm hkt]
  have hdraft : b'.draftTokens k = if k = tgt then b.draftTokens src else b.draftTokens k := by
    simp only [draftTokens, hspec, hids, hlen, update_apply]
    by_cases hkt : k = tgt
    · subst hkt
      simp only [if_true]
      apply rowPrefix_congr
      intro p hp
      rw [copyPrefix, if_pos (by omega)]
    · simp only [if_neg hkt]
  simp only [InputBatch.row, htokens, hspec, hout, hdraft, hlora, hpool, update_apply]
  cases hp : b.isPoolingModel with
  | true => split <;> rfl
  | false =>
    rw [hsampling hp]
    split <;> rfl

theorem Moves.same (h : b.Moves b' src tgt id) :
    b'.config = b.config ∧ (∀ id, b'.idEntry id = b.idEntry id) ∧
      b'.batchUpdateBuilder.removedList = b.batchUpdateBuilder.removedList ∧
      b'.batchUpdateBuilder.isRemovedSorted = b.batchUpdateBuilder.isRemovedSorted := by
  rw [h.columns]
  split
  · exact ⟨by simp [config, moveColumns], fun _ => rfl, rfl, rfl⟩
  · exact ⟨by simp [config, moveColumns, moveSamplingColumns], fun _ => rfl, rfl, rfl⟩

theorem Moves.dicts (h : b.Moves b' src tgt id) :
    b'.reqPromptEmbeds = moveDictValue b.reqPromptEmbeds src tgt ∧
      if b.isPoolingModel then
        b'.generators = b.generators ∧ b'.badWordsTokenIds = b.badWordsTokenIds else
        b'.generators = moveDictValue b.generators src tgt ∧
          b'.badWordsTokenIds = moveDictValue b.badWordsTokenIds src tgt := by
  rw [h.columns]
  dsimp only
  split
  · exact ⟨rfl, rfl, rfl⟩
  · exact ⟨rfl, rfl, rfl⟩

/-- The flag that a pooling request needs its token ids stays behind: neither `swap_states`
nor `condense` moves it with the request. -/
theorem needsTokenIds_not_moved : (b.swapStates i₁ i₂ = .ok b' → b'.logitsProcessingNeedsTokenIds =
      b.logitsProcessingNeedsTokenIds) ∧
    (b.moveRequest i₁ i₂ = .ok b' → b'.logitsProcessingNeedsTokenIds =
      b.logitsProcessingNeedsTokenIds) := by
  constructor
  · intro h
    obtain ⟨_, _, hs⟩ := swapStates_ok h
    obtain ⟨n, _, _, hb'⟩ := hs.columns
    rw [hb']
    split <;> rfl
  · intro h
    obtain ⟨_, hm⟩ := moveRequest_ok h
    rw [hm.columns]
    split <;> rfl

end InputBatch

end VllmCore.Worker
