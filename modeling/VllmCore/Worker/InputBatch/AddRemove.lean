import VllmCore.Worker.InputBatch.Rows
/-!
# Adding and removing a request, by rows

`add_request` fills one row with what belongs to the request and changes nothing else,
whatever the row held before; `remove_request` empties one row.
-/

namespace VllmCore.Worker

open Function List Support Dict

theorem CachedRequestState.length_promptTokenIds {r : CachedRequestState} {ids : List Token}
    (h : r.promptTokenIds = some ids) : ids.length = r.numPromptTokens := by
  have hlen := r.promptLength
  rw [h] at hlen
  cases he : r.promptEmbeds with
  | none =>
    rw [he] at hlen
    simpa [Request.lengthFromPromptTokenIdsOrEmbeds, pure_ok] using hlen
  | some e =>
    rw [he] at hlen
    simp only [Request.lengthFromPromptTokenIdsOrEmbeds, bind_ok, pure_ok] at hlen
    obtain ⟨_, _, hlen⟩ := hlen
    exact hlen

namespace InputBatch

/-- The two batches hold the same for every other row and every other id. -/
structure OnlyAt (b b' : InputBatch) (i : Nat) (id : ReqId) : Prop where
  config : b'.config = b.config
  row : ∀ k ≠ i, b'.row k = b.row k
  idEntry : ∀ id' ≠ id, b'.idEntry id' = b.idEntry id'
  dicts : ∀ k ≠ i, b'.generators.get? k = b.generators.get? k ∧
    b'.badWordsTokenIds.get? k = b.badWordsTokenIds.get? k ∧
    b'.reqPromptEmbeds.get? k = b.reqPromptEmbeds.get? k

theorem OnlyAt.trans {a b c : InputBatch} {i : Nat} {id : ReqId} (hab : a.OnlyAt b i id)
    (hbc : b.OnlyAt c i id) : a.OnlyAt c i id where
  config := hbc.config.trans hab.config
  row k hk := (hbc.row k hk).trans (hab.row k hk)
  idEntry id' h := (hbc.idEntry id' h).trans (hab.idEntry id' h)
  dicts k hk := by
    obtain ⟨h₁, h₂, h₃⟩ := hab.dicts k hk
    obtain ⟨h₁', h₂', h₃'⟩ := hbc.dicts k hk
    exact ⟨h₁'.trans h₁, h₂'.trans h₂, h₃'.trans h₃⟩

/-- The lists, the index and the holes are the same. -/
structure SameLists (b b' : InputBatch) : Prop where
  reqIds : b'.reqIds = b.reqIds
  index : b'.reqIdToIndex = b.reqIdToIndex
  outputs : b'.reqOutputTokenIds = b.reqOutputTokenIds
  specs : b'.specTokenIds = b.specTokenIds
  builder : b'.batchUpdateBuilder = b.batchUpdateBuilder

variable {b b' : InputBatch} {i : Nat} {r : CachedRequestState} {id : ReqId} {p : SamplingParams}

theorem SameLists.trans {a c : InputBatch} (hab : a.SameLists b) (hbc : b.SameLists c) :
    a.SameLists c :=
  ⟨hbc.reqIds.trans hab.reqIds, hbc.index.trans hab.index, hbc.outputs.trans hab.outputs,
    hbc.specs.trans hab.specs, hbc.builder.trans hab.builder⟩

/-! ## The tokens -/

theorem tokens_written (is : Nat → Bool) (ids : Nat → Token) (r : CachedRequestState) :
    rowPrefix
      (fun p =>
        if writeSlice (writeSlice is 0
              (List.replicate r.numPromptTokens r.promptTokenIds.isSome)) r.numPromptTokens
            (List.replicate r.outputTokenIds.length true) p
        then some (writeSlice (match r.promptTokenIds with
            | some prompt => writeSlice ids 0 prompt
            | none => ids) r.numPromptTokens r.outputTokenIds p)
        else none) r.numTokens = LiveRequest.tokens ⟨r, []⟩ := by
  have hflag : ∀ p < r.numPromptTokens, writeSlice (writeSlice is 0
      (List.replicate r.numPromptTokens r.promptTokenIds.isSome)) r.numPromptTokens
      (List.replicate r.outputTokenIds.length true) p = r.promptTokenIds.isSome := by
    intro p hp
    rw [writeSlice_before _ _ hp]
    have hat := @writeSlice_at _ is 0
      (List.replicate r.numPromptTokens r.promptTokenIds.isSome) p (by simpa)
    simpa using hat
  rw [CachedRequestState.numTokens, rowPrefix_add, LiveRequest.tokens]
  congr 1
  · cases hp : r.promptTokenIds with
    | none =>
      apply rowPrefix_eq (by simp)
      intro p hlt
      have hf := hflag p (by simpa using hlt)
      rw [hp] at hf
      simp only [hf]
      simp
    | some prompt =>
      have hlen := CachedRequestState.length_promptTokenIds hp
      apply rowPrefix_eq (by simpa using hlen)
      intro p hlt
      have hlt' : p < prompt.length := by simpa using hlt
      have hf := hflag p (by omega)
      rw [hp] at hf
      have hat := writeSlice_at ids 0 hlt'
      simp only [Nat.zero_add] at hat
      simp only [hf, writeSlice_before _ _ (show p < r.numPromptTokens by omega), hat]
      simp
  · apply rowPrefix_eq (by simp)
    intro p hlt
    have hlt' : p < r.outputTokenIds.length := by simpa using hlt
    have hf := @writeSlice_at _ (writeSlice is 0
      (List.replicate r.numPromptTokens r.promptTokenIds.isSome)) r.numPromptTokens
      (List.replicate r.outputTokenIds.length true) p (by simpa using hlt')
    have hat := writeSlice_at (match r.promptTokenIds with
      | some prompt => writeSlice ids 0 prompt
      | none => ids) r.numPromptTokens hlt'
    simp only [hf, hat]
    simp

theorem copyTokens_spec (h : b.copyTokens r i = .ok b') :
    b.SameLists b' ∧ b.OnlyAt b' i r.reqId ∧
      b'.tokenColumns i = LiveRequest.tokenColumns b.config ⟨r, []⟩ ∧
      (∀ id, b'.idEntry id = b.idEntry id) ∧
      b'.generators = b.generators ∧ b'.badWordsTokenIds = b.badWordsTokenIds ∧
      ∀ e, r.promptEmbeds = some e → b'.reqPromptEmbeds.get? i = some e := by
  simp only [copyTokens, r.promptLength, ok_bind, bind_ok, require_ok, pure_ok] at h
  obtain ⟨_, _, table, htable, rfl⟩ := h
  obtain ⟨hself, hratios, hother⟩ := MultiGroupBlockTable.addRow_spec htable
  refine ⟨⟨rfl, rfl, rfl, rfl, rfl⟩, ⟨?_, ?_, fun _ _ => rfl, ?_⟩, ?_, fun _ => rfl, rfl, rfl, ?_⟩
  · simp [config, hratios]
  · intro k hk
    simp [row, tokenColumns, outputAt, specAt, draftTokens, samplingColumns,
      update_of_ne hk, hother k hk]
  · intro k hk
    refine ⟨rfl, rfl, ?_⟩
    cases r.promptEmbeds with
    | none => rfl
    | some e => exact get?_set_ne _ _ hk
  · simp only [tokenColumns, update_self, LiveRequest.tokenColumns, hself, config,
      TokenColumns.mk.injEq, and_true]
    exact tokens_written _ _ r
  · intro e he
    simp [he]

/-- A batch in which only the sampling, pooling and adapter columns differ. -/
structure SameTokens (b b' : InputBatch) : Prop where
  tokenColumns : b'.tokenColumns = b.tokenColumns
  tokenIdsCpu : b'.tokenIdsCpu = b.tokenIdsCpu
  embeds : b'.reqPromptEmbeds = b.reqPromptEmbeds

theorem addAllowedTokenIds_ok (h : b.addAllowedTokenIds p id i = .ok b') :
    b' = { b with
      hasAllowedTokenIds := addIf (p.allowedTokenIds ≠ []) b.hasAllowedTokenIds id
      allowedTokenIdsMaskCpu :=
        if p.allowedTokenIds = [] then b.allowedTokenIdsMaskCpu
        else some (update (b.allowedTokenIdsMaskCpu.getD fun _ _ => false) i
          (forbidAllBut p.allowedTokenIds)) } := by
  unfold addAllowedTokenIds at h
  split at h
  · rename_i hnil
    simp only [pure_ok] at h
    simp [addIf, hnil, h]
  · rename_i hnil
    simp only [bind_ok, pure_ok] at h
    obtain ⟨_, _, rfl⟩ := h
    simp [addIf, hnil]

theorem addSamplingParams_ok (h : b.addSamplingParams r p i = .ok b') :
    b' = { b.addSamplingColumns p r.reqId i with
      generators := match r.generator with
        | some g => b.generators.set i g
        | none => b.generators
      numLogprobs := match p.logprobs with
        | some n => b.numLogprobs.set r.reqId (effectiveLogprobs b.vocabSize n)
        | none => b.numLogprobs
      hasAllowedTokenIds := addIf (p.allowedTokenIds ≠ []) b.hasAllowedTokenIds r.reqId
      allowedTokenIdsMaskCpu :=
        if p.allowedTokenIds = [] then b.allowedTokenIdsMaskCpu
        else some (update (b.allowedTokenIdsMaskCpu.getD fun _ _ => false) i
          (forbidAllBut p.allowedTokenIds))
      badWordsTokenIds :=
        if p.badWordsTokenIds = [] then b.badWordsTokenIds
        else b.badWordsTokenIds.set i p.badWordsTokenIds } := by
  simp only [addSamplingParams, bind_ok, pure_ok] at h
  obtain ⟨b₁, hallowed, rfl⟩ := h
  have hb₁ := addAllowedTokenIds_ok hallowed
  subst hb₁
  rfl

@[simp] theorem mem_addIf {c : Prop} [Decidable c] {reqs : Finset ReqId} {id' : ReqId} :
    id' ∈ addIf c reqs id ↔ (c ∧ id' = id) ∨ id' ∈ reqs := by
  unfold addIf
  split <;> simp_all

theorem addSamplingParams_spec (hp : r.samplingParams = some p) (hgen : b.generators.get? i = none)
    (hbad : b.badWordsTokenIds.get? i = none) (habsent : b.idEntry r.reqId = .absent)
    (h : b.addSamplingParams r p i = .ok b') :
    b.SameLists b' ∧ b.OnlyAt b' i r.reqId ∧ b.SameTokens b' ∧
      b'.samplingColumns i =
        { LiveRequest.samplingColumns b.config ⟨r, []⟩ p with
          numAcceptedTokens := b.numAcceptedTokensCpu i } ∧
      b'.idEntry r.reqId = LiveRequest.idEntry b.config ⟨r, []⟩ := by
  have hb' := addSamplingParams_ok h
  subst hb'
  refine ⟨⟨rfl, rfl, rfl, rfl, rfl⟩, ⟨rfl, ?_, ?_, ?_⟩, ⟨rfl, rfl, rfl⟩, ?_, ?_⟩
  · intro k hk
    have hgenk : (match r.generator with
        | some g => b.generators.set i g
        | none => b.generators).get? k = b.generators.get? k := by
      cases r.generator with
      | none => rfl
      | some g => exact get?_set_ne _ _ hk
    have hbadk : (if p.badWordsTokenIds = [] then b.badWordsTokenIds
        else b.badWordsTokenIds.set i p.badWordsTokenIds).get? k =
          b.badWordsTokenIds.get? k := by
      split
      · rfl
      · exact get?_set_ne _ _ hk
    simp only [row, tokenColumns, outputAt, specAt, draftTokens, samplingColumns,
      addSamplingColumns, update_of_ne hk, hgenk, hbadk]
    rfl
  · intro id' hid
    have hlog : (match p.logprobs with
        | some n => b.numLogprobs.set r.reqId (effectiveLogprobs b.vocabSize n)
        | none => b.numLogprobs).get? id' = b.numLogprobs.get? id' := by
      cases p.logprobs with
      | none => rfl
      | some n => exact get?_set_ne _ _ hid
    simp only [idEntry, addSamplingColumns, mem_addIf, hid, and_false, false_or, hlog]
  · intro k hk
    refine ⟨?_, ?_, rfl⟩
    · cases r.generator with
      | none => rfl
      | some g => exact get?_set_ne _ _ hk
    · dsimp only
      split
      · rfl
      · exact get?_set_ne _ _ hk
  · have hgeni : (match r.generator with
        | some g => b.generators.set i g
        | none => b.generators).get? i = r.generator := by
      cases r.generator with
      | none => exact hgen
      | some g => exact get?_set_self _ _ _
    have hbadi : ((if p.badWordsTokenIds = [] then b.badWordsTokenIds
        else b.badWordsTokenIds.set i p.badWordsTokenIds).get? i).getD [] =
          p.badWordsTokenIds := by
      split
      · rename_i hnil
        rw [hbad, hnil]
        rfl
      · rw [get?_set_self]
        rfl
    simp only [samplingColumns, addSamplingColumns, update_self, hgeni, hbadi,
      LiveRequest.samplingColumns, config]
  · have hlog : (match p.logprobs with
        | some n => b.numLogprobs.set r.reqId (effectiveLogprobs b.vocabSize n)
        | none => b.numLogprobs).get? r.reqId =
          p.logprobs.map (effectiveLogprobs b.vocabSize) := by
      cases p.logprobs with
      | none => exact congrArg IdEntry.numLogprobs habsent
      | some n => exact get?_set_self _ _ _
    simp only [idEntry, IdEntry.absent, IdEntry.mk.injEq, decide_eq_false_iff_not] at habsent
    simp only [idEntry, addSamplingColumns, mem_addIf, habsent, hlog, or_false, and_true,
      LiveRequest.idEntry, hp, config, IdEntry.mk.injEq, true_and]
    exact decide_eq_decide.mpr Iff.rfl

theorem addPoolingParams_spec {p : PoolingParams} (hs : r.samplingParams = none)
    (hp : r.poolingParams = some p) (habsent : b.idEntry r.reqId = .absent)
    (h : b.addPoolingParams r p i = .ok b') :
    b.SameLists b' ∧ b.OnlyAt b' i r.reqId ∧ b.SameTokens b' ∧
      b'.idEntry r.reqId = LiveRequest.idEntry b.config ⟨r, []⟩ ∧
      b'.generators = b.generators ∧ b'.badWordsTokenIds = b.badWordsTokenIds := by
  unfold addPoolingParams at h
  cases hstates : r.poolingStates with
  | none =>
    rw [hstates] at h
    cases h
  | some states =>
    rw [hstates] at h
    cases h
    refine ⟨⟨rfl, rfl, rfl, rfl, rfl⟩, ⟨rfl, fun _ _ => rfl, ?_, fun _ _ => ⟨rfl, rfl, rfl⟩⟩,
      ⟨rfl, rfl, rfl⟩, ?_, rfl, rfl⟩
    · intro id' hid
      simp only [idEntry, get?_set_ne _ _ hid]
    · simp only [idEntry, IdEntry.absent, IdEntry.mk.injEq] at habsent
      simp only [idEntry, habsent, get?_set_self, LiveRequest.idEntry, hs, hp, hstates]

theorem addLora_spec (b : InputBatch) (r : CachedRequestState) (i : Nat) :
    b.SameLists (b.addLora r i) ∧ b.OnlyAt (b.addLora r i) i r.reqId ∧
      b.SameTokens (b.addLora r i) ∧
      (b.addLora r i).samplingColumns = b.samplingColumns ∧
      (∀ id, (b.addLora r i).idEntry id = b.idEntry id) ∧
      (b.addLora r i).requestLoraMapping i = LiveRequest.loraId ⟨r, []⟩ ∧
      (b.addLora r i).generators = b.generators ∧
      (b.addLora r i).badWordsTokenIds = b.badWordsTokenIds := by
  unfold addLora
  cases hl : r.loraRequest
  all_goals
    refine ⟨⟨rfl, rfl, rfl, rfl, rfl⟩, ⟨rfl, ?_, fun _ _ => rfl, fun _ _ => ⟨rfl, rfl, rfl⟩⟩,
      ⟨rfl, rfl, rfl⟩, rfl, fun _ => rfl, ?_, rfl, rfl⟩
    · intro k hk
      simp only [row, tokenColumns, outputAt, specAt, draftTokens, samplingColumns,
        update_of_ne hk]
    · simp [LiveRequest.loraId, hl]

/-- The row that `add_request` takes. -/
def nextIndex (b : InputBatch) : Nat :=
  b.batchUpdateBuilder.popRemoved.1.getD b.numReqs

/-- What `add_request` does to the lists: it appends to them, or fills a hole. -/
structure Places (b b' : InputBatch) (r : CachedRequestState) (i : Nat) : Prop where
  lists : (i = b.reqIds.length ∧ b'.reqIds = b.reqIds ++ [some r.reqId] ∧
      b'.reqOutputTokenIds = b.reqOutputTokenIds ++ [some r.outputTokenIds] ∧
      b'.specTokenIds = b.specTokenIds ++ [[]]) ∨
    (i < b.reqIds.length ∧ i < b.reqOutputTokenIds.length ∧ i < b.specTokenIds.length ∧
      b'.reqIds = b.reqIds.set i (some r.reqId) ∧
      b'.reqOutputTokenIds = b.reqOutputTokenIds.set i (some r.outputTokenIds) ∧
      b'.specTokenIds = b.specTokenIds.set i [])
  index : b'.reqIdToIndex = b.reqIdToIndex.set r.reqId i
  removed : b'.batchUpdateBuilder.removedList = b.batchUpdateBuilder.popRemoved.2.removedList
  sorted : b'.batchUpdateBuilder.isRemovedSorted =
    b.batchUpdateBuilder.popRemoved.2.isRemovedSorted
  added : b'.batchUpdateBuilder.added = b.batchUpdateBuilder.added ++
    (r.samplingParams.map (r.toAddedRequest i)).toList
  moved : b'.batchUpdateBuilder.moved = b.batchUpdateBuilder.moved

/-- A request that the callers add: it samples, or it pools, as the model does. -/
def Fits (b : InputBatch) (r : CachedRequestState) : Prop :=
  r.samplingParams.isSome = !b.isPoolingModel

theorem placeRequest_spec (h : b.placeRequest r i = .ok b') :
    ((i = b.reqIds.length ∧ b'.reqIds = b.reqIds ++ [some r.reqId] ∧
        b'.reqOutputTokenIds = b.reqOutputTokenIds ++ [some r.outputTokenIds] ∧
        b'.specTokenIds = b.specTokenIds ++ [[]]) ∨
      (i < b.reqIds.length ∧ i < b.reqOutputTokenIds.length ∧ i < b.specTokenIds.length ∧
        b'.reqIds = b.reqIds.set i (some r.reqId) ∧
        b'.reqOutputTokenIds = b.reqOutputTokenIds.set i (some r.outputTokenIds) ∧
        b'.specTokenIds = b.specTokenIds.set i [])) ∧
      b' = { b with
        reqIds := b'.reqIds
        reqOutputTokenIds := b'.reqOutputTokenIds
        specTokenIds := b'.specTokenIds
        reqIdToIndex := b.reqIdToIndex.set r.reqId i } := by
  unfold placeRequest at h
  split at h
  · rename_i hi
    simp only [pure_ok] at h
    subst h
    exact ⟨.inl ⟨hi, rfl, rfl, rfl⟩, rfl⟩
  · simp only [bind_ok, pySet_natCast_ok, pure_ok] at h
    obtain ⟨_, ⟨h₁, rfl⟩, _, ⟨h₂, rfl⟩, _, ⟨h₃, rfl⟩, rfl⟩ := h
    exact ⟨.inr ⟨h₁, h₂, h₃, rfl, rfl, rfl⟩, rfl⟩

theorem getD_append_nil (xss : List (List Token)) (k : Nat) :
    ((xss ++ [[]])[k]?).getD [] = (xss[k]?).getD [] := by
  rcases Nat.lt_trichotomy k xss.length with hk | hk | hk
  · rw [getElem?_append_left hk]
  · subst hk
    simp
  · rw [getElem?_append_right (by omega), getElem?_eq_none (by simp; omega),
      getElem?_eq_none (by omega)]

theorem placeRequest_at (hout : b.reqOutputTokenIds.length = b.reqIds.length)
    (hbeyond : ∀ k, b.reqIds.length ≤ k → b.specAt k = []) (h : b.placeRequest r i = .ok b') :
    b'.specAt i = [] ∧ b'.outputAt i = some r.outputTokenIds ∧
      ∀ k ≠ i, b'.specAt k = b.specAt k ∧ b'.outputAt k = b.outputAt k := by
  obtain ⟨⟨hi, _, hs₁, hs₂⟩ | ⟨_, hlt, hlt', _, hs₁, hs₂⟩, _⟩ := placeRequest_spec h
  · simp only [specAt, outputAt, hs₁, hs₂, getD_append_nil]
    refine ⟨hbeyond i (by omega), ?_, ?_⟩
    · rw [hi, ← hout]
      simp
    · intro k hk
      refine ⟨trivial, ?_⟩
      rcases Nat.lt_or_gt_of_ne hk with hlt | hgt
      · rw [getElem?_append_left (by omega)]
      · rw [getElem?_append_right (by omega), getElem?_eq_none (by simp; omega),
          getElem?_eq_none (by omega)]
  · simp only [specAt, outputAt, hs₁, hs₂]
    refine ⟨by simp [hlt'], by simp [hlt], ?_⟩
    intro k hk
    rw [getElem?_set_ne (Ne.symm hk), getElem?_set_ne (Ne.symm hk)]
    exact ⟨rfl, rfl⟩

theorem placeRequest_onlyAt (hout : b.reqOutputTokenIds.length = b.reqIds.length)
    (hbeyond : ∀ k, b.reqIds.length ≤ k → b.specAt k = []) (h : b.placeRequest r i = .ok b') :
    b.OnlyAt b' i r.reqId ∧ (∀ id, b'.idEntry id = b.idEntry id) ∧
      b'.samplingColumns = b.samplingColumns ∧ b'.generators = b.generators ∧
      b'.badWordsTokenIds = b.badWordsTokenIds ∧
      b'.batchUpdateBuilder = b.batchUpdateBuilder := by
  obtain ⟨_, _, hother⟩ := placeRequest_at hout hbeyond h
  have hb' := (placeRequest_spec h).2
  have hgen : b'.generators = b.generators := by
    rw [hb']
  have hids : b'.tokenIdsCpu = b.tokenIdsCpu := by
    rw [hb']
  have hlen : b'.numTokensNoSpec = b.numTokensNoSpec := by
    rw [hb']
  have hcols : b'.tokenColumns = b.tokenColumns := by
    rw [hb']
    rfl
  have hsampling : b'.samplingColumns = b.samplingColumns := by
    rw [hb']
    rfl
  have hlora : b'.requestLoraMapping = b.requestLoraMapping := by
    rw [hb']
  have hpool : b'.isPoolingModel = b.isPoolingModel := by
    rw [hb']
  have hentry : ∀ id, b'.idEntry id = b.idEntry id := by
    rw [hb']
    exact fun _ => rfl
  refine ⟨⟨?_, ?_, fun id _ => hentry id, ?_⟩, hentry, hsampling, hgen, ?_, ?_⟩
  · rw [hb']
    rfl
  · intro k hk
    obtain ⟨hs, ho⟩ := hother k hk
    simp only [row, draftTokens, hcols, hsampling, hs, ho, hids, hlen, hlora, hpool]
  · rw [hb']
    exact fun _ _ => ⟨rfl, rfl, rfl⟩
  · rw [hb']
  · rw [hb']

theorem popRemoved_records (u : BatchUpdateBuilder) :
    u.popRemoved.2.added = u.added ∧ u.popRemoved.2.moved = u.moved := by
  unfold BatchUpdateBuilder.popRemoved BatchUpdateBuilder.ensureRemovedSorted
  split
  · exact ⟨rfl, rfl⟩
  · split <;> exact ⟨rfl, rfl⟩

theorem registerAddRequest_ok (h : b.registerAddRequest r = .ok (i, b')) :
    i = b.nextIndex ∧ b' = { b with batchUpdateBuilder := b'.batchUpdateBuilder } ∧
      b'.batchUpdateBuilder.removedList = b.batchUpdateBuilder.popRemoved.2.removedList ∧
      b'.batchUpdateBuilder.isRemovedSorted =
        b.batchUpdateBuilder.popRemoved.2.isRemovedSorted ∧
      b'.batchUpdateBuilder.added = b.batchUpdateBuilder.added ++
        (r.samplingParams.map (r.toAddedRequest i)).toList ∧
      b'.batchUpdateBuilder.moved = b.batchUpdateBuilder.moved := by
  obtain ⟨hadded, hmoved⟩ := popRemoved_records b.batchUpdateBuilder
  simp only [registerAddRequest, bind_ok, pure_ok] at h
  obtain ⟨_, _, hres⟩ := h
  cases hres
  cases hparams : r.samplingParams with
  | some params =>
    refine ⟨rfl, rfl, rfl, rfl, ?_, hmoved⟩
    rw [hadded]
    rfl
  | none =>
    refine ⟨rfl, rfl, rfl, rfl, ?_, hmoved⟩
    rw [hadded]
    exact (append_nil _).symm

theorem addParams_spec (hfits : b.Fits r) (hgen : b.generators.get? i = none)
    (hbad : b.badWordsTokenIds.get? i = none) (habsent : b.idEntry r.reqId = .absent)
    (h : (match r.samplingParams, r.poolingParams with
      | some p, _ => b.addSamplingParams r p i
      | none, some p => b.addPoolingParams r p i
      | none, none => .error (.notImplementedError "Unrecognized request type")) = .ok b') :
    b.SameLists b' ∧ b.OnlyAt b' i r.reqId ∧ b.SameTokens b' ∧
      b'.idEntry r.reqId = LiveRequest.idEntry b.config ⟨r, []⟩ ∧
      (if b.isPoolingModel then none
        else some { b'.samplingColumns i with numAcceptedTokens := 1 }) =
        r.samplingParams.map (LiveRequest.samplingColumns b.config ⟨r, []⟩) ∧
      (b.isPoolingModel = true →
        b'.generators = b.generators ∧ b'.badWordsTokenIds = b.badWordsTokenIds) := by
  unfold Fits at hfits
  cases hs : r.samplingParams with
  | some p =>
    rw [hs] at h hfits
    have hpool : b.isPoolingModel = false := by simpa using hfits
    obtain ⟨hlists, honly, htokens, hcols, hentry⟩ :=
      addSamplingParams_spec hs hgen hbad habsent h
    refine ⟨hlists, honly, htokens, hentry, ?_, by simp [hpool]⟩
    simp only [hpool, Bool.false_eq_true, if_false, hcols, Option.map_some]
    rfl
  | none =>
    rw [hs] at h hfits
    have hpool : b.isPoolingModel = true := by simpa using hfits
    cases hp : r.poolingParams with
    | none =>
      rw [hp] at h
      cases h
    | some p =>
      rw [hp] at h
      obtain ⟨hlists, honly, htokens, hentry, hdicts⟩ :=
        addPoolingParams_spec hs hp habsent h
      exact ⟨hlists, honly, htokens, hentry, by simp [hpool], fun _ => hdicts⟩

/-- A request joined the batch in the row that was free. -/
abbrev Adds (b b' : InputBatch) (r : CachedRequestState) (i : Nat) : Prop :=
    i = b.nextIndex ∧ b.Places b' r i ∧ b.OnlyAt b' i r.reqId ∧
      b'.row i = LiveRequest.row b.config ⟨r, []⟩ ∧
      b'.idEntry r.reqId = LiveRequest.idEntry b.config ⟨r, []⟩ ∧
      (∀ e, r.promptEmbeds = some e → b'.reqPromptEmbeds.get? i = some e) ∧
      (b.isPoolingModel = true →
        b'.generators = b.generators ∧ b'.badWordsTokenIds = b.badWordsTokenIds)

theorem addRequest_spec (hfits : b.Fits r) (hout : b.reqOutputTokenIds.length = b.reqIds.length)
    (hbeyond : ∀ k, b.reqIds.length ≤ k → b.specAt k = [])
    (hgen : b.generators.get? b.nextIndex = none)
    (hbad : b.badWordsTokenIds.get? b.nextIndex = none) (habsent : b.idEntry r.reqId = .absent)
    (h : b.addRequest r = .ok (i, b')) :
    b.Adds b' r i := by
  simp only [addRequest, bind_ok, pure_ok] at h
  obtain ⟨⟨j, b₁⟩, hreg, b₂, hplace, b₃, hcopy, b₄, hparams, hres⟩ := h
  obtain ⟨b₅, hb₅⟩ : ∃ b₅ : InputBatch, b₅ = { b₄ with
      numAcceptedTokensCpu := update b₄.numAcceptedTokensCpu j 1 } := ⟨_, rfl⟩
  rw [← hb₅] at hres
  obtain ⟨rfl, rfl⟩ := Prod.mk.inj hres
  obtain ⟨hj, hb₁, hremoved, hsorted, hadded, hmoved⟩ := registerAddRequest_ok hreg
  -- nothing but the bookkeeping changes when the row is chosen
  have honly₁ : b.OnlyAt b₁ j r.reqId := by
    rw [hb₁]
    exact ⟨rfl, fun _ _ => rfl, fun _ _ => rfl, fun _ _ => ⟨rfl, rfl, rfl⟩⟩
  have hids₁ : b₁.reqIds = b.reqIds := by rw [hb₁]
  have hout₁ : b₁.reqOutputTokenIds = b.reqOutputTokenIds := by rw [hb₁]
  have hspec₁ : b₁.specTokenIds = b.specTokenIds := by rw [hb₁]
  have hindex₁ : b₁.reqIdToIndex = b.reqIdToIndex := by rw [hb₁]
  have hgen₁ : b₁.generators = b.generators := by rw [hb₁]
  have hbad₁ : b₁.badWordsTokenIds = b.badWordsTokenIds := by rw [hb₁]
  have hentry₁ : b₁.idEntry r.reqId = b.idEntry r.reqId := by
    rw [hb₁]
    rfl
  have hlen₁ : b₁.reqOutputTokenIds.length = b₁.reqIds.length := by rw [hids₁, hout₁, hout]
  have hbeyond₁ : ∀ k, b₁.reqIds.length ≤ k → b₁.specAt k = [] := by
    intro k hk
    rw [specAt, hspec₁]
    exact hbeyond k (by rwa [hids₁] at hk)
  obtain ⟨hspec₂, hout₂, _⟩ := placeRequest_at hlen₁ hbeyond₁ hplace
  obtain ⟨honly₂, hentry₂, hsampling₂, hgen₂, hbad₂, hbuilder₂⟩ :=
    placeRequest_onlyAt hlen₁ hbeyond₁ hplace
  obtain ⟨hlists₃, honly₃, htokens₃, hentry₃, hgen₃, hbad₃, hembeds₃⟩ := copyTokens_spec hcopy
  have honly₁₃ := honly₁.trans (honly₂.trans honly₃)
  have hfits₃ : b₃.Fits r := by
    unfold Fits at hfits ⊢
    rw [hfits]
    exact congrArg (fun c : BatchConfig => !c.isPoolingModel) honly₁₃.config.symm
  obtain ⟨hlists₄, honly₄, htokens₄, hentry₄, hsampling₄, hdicts₄⟩ := addParams_spec hfits₃
    (by rw [hgen₃, hgen₂, hgen₁, hj, hgen]) (by rw [hbad₃, hbad₂, hbad₁, hj, hbad])
    (by rw [hentry₃, hentry₂, hentry₁, habsent]) hparams
  have honly₅ : b₄.OnlyAt b₅ j r.reqId := by
    rw [hb₅]
    refine ⟨rfl, ?_, fun _ _ => rfl, fun _ _ => ⟨rfl, rfl, rfl⟩⟩
    intro k hk
    simp only [row, tokenColumns, outputAt, specAt, draftTokens, samplingColumns,
      update_of_ne hk]
  obtain ⟨hlists₆, honly₆, htokens₆, hsampling₆, hentry₆, hlora₆, hgen₆, hbad₆⟩ :=
    addLora_spec b₅ r j
  have honly := honly₁₃.trans (honly₄.trans (honly₅.trans honly₆))
  have hlists₅ : b₄.SameLists b₅ := by
    rw [hb₅]
    exact ⟨rfl, rfl, rfl, rfl, rfl⟩
  have htokens₅ : b₄.SameTokens b₅ := by
    rw [hb₅]
    exact ⟨rfl, rfl, rfl⟩
  have hlists := hlists₃.trans (hlists₄.trans (hlists₅.trans hlists₆))
  have hcols : (b₅.addLora r j).tokenColumns j = LiveRequest.tokenColumns b.config ⟨r, []⟩ := by
    rw [htokens₆.tokenColumns, htokens₅.tokenColumns, htokens₄.tokenColumns, htokens₃,
      honly₂.config, honly₁.config]
  have hspec : (b₅.addLora r j).specAt j = [] := by
    rw [specAt, hlists.specs]
    exact hspec₂
  refine ⟨hj, ?_, honly, ?_, ?_, ?_, ?_⟩
  · have hplaces := (placeRequest_spec hplace).1
    rw [hids₁, hout₁, hspec₁] at hplaces
    refine ⟨?_, ?_, ?_, ?_, ?_, ?_⟩
    · rw [hlists.reqIds, hlists.outputs, hlists.specs]
      exact hplaces
    · rw [hlists.index, (placeRequest_spec hplace).2, hindex₁]
    · rw [hlists.builder, hbuilder₂, hremoved]
    · rw [hlists.builder, hbuilder₂, hsorted]
    · rw [hlists.builder, hbuilder₂]
      exact hadded
    · rw [hlists.builder, hbuilder₂]
      exact hmoved
  · have hpool : (b₅.addLora r j).isPoolingModel = b₃.isPoolingModel :=
      congrArg BatchConfig.isPoolingModel (honly₄.trans (honly₅.trans honly₆)).config
    have hsampling : (b₅.addLora r j).samplingColumns j =
        { b₄.samplingColumns j with numAcceptedTokens := 1 } := by
      rw [hsampling₆, hb₅]
      simp [samplingColumns]
    have hdraft : (b₅.addLora r j).draftTokens j = [] := by
      rw [draftTokens, hspec]
      rfl
    have hout' : (b₅.addLora r j).outputAt j = some r.outputTokenIds := by
      rw [outputAt, hlists.outputs]
      exact hout₂
    simp only [row, LiveRequest.row, hcols, hspec, hout', hdraft, hlora₆, hpool, hsampling,
      hsampling₄, honly₁₃.config]
  · rw [hentry₆, hb₅]
    exact hentry₄.trans (by rw [honly₁₃.config])
  · intro e he
    rw [htokens₆.embeds, htokens₅.embeds, htokens₄.embeds]
    exact hembeds₃ e he

  · intro hpool
    have hpool₃ : b₃.isPoolingModel = true :=
      (congrArg BatchConfig.isPoolingModel honly₁₃.config).trans hpool
    obtain ⟨hgen₄, hbad₄⟩ := hdicts₄ hpool₃
    rw [hgen₆, hbad₆, hb₅]
    exact ⟨hgen₄.trans (hgen₃.trans (hgen₂.trans hgen₁)),
      hbad₄.trans (hbad₃.trans (hbad₂.trans hbad₁))⟩

theorem removeLora_ok (h : b.removeLora id i = .ok b') :
    b' = { b with
      loraIdToRequestIds := b'.loraIdToRequestIds
      loraIdToLoraRequest := b'.loraIdToLoraRequest
      requestLoraMapping := b'.requestLoraMapping } ∧
      ∀ k ≠ i, b'.requestLoraMapping k = b.requestLoraMapping k := by
  unfold removeLora at h
  dsimp only at h
  split at h
  · simp only [pure_ok] at h
    subst h
    exact ⟨rfl, fun _ _ => rfl⟩
  · simp only [bind_ok] at h
    obtain ⟨ids, _, h⟩ := h
    split at h
    · simp only [bind_ok, pure_ok] at h
      obtain ⟨_, _, rfl⟩ := h
      exact ⟨rfl, fun k hk => update_of_ne hk _ _⟩
    · simp only [pure_ok] at h
      subst h
      exact ⟨rfl, fun k hk => update_of_ne hk _ _⟩

/-- What a successful `remove_request` of a request in the batch wrote. -/
structure Removes (b b' : InputBatch) (i : Nat) (id : ReqId) : Prop where
  at_row : b.reqIdToIndex.get? id = some i
  lt : i < b.reqIds.length ∧ i < b.reqOutputTokenIds.length ∧ i < b.specTokenIds.length
  reqIds : b'.reqIds = b.reqIds.set i none
  outputs : b'.reqOutputTokenIds = b.reqOutputTokenIds.set i none
  specs : b'.specTokenIds = b.specTokenIds.set i []
  index : b'.reqIdToIndex = b.reqIdToIndex.erase id
  unsorted : b.batchUpdateBuilder.isRemovedSorted = false ∧
    b'.batchUpdateBuilder.isRemovedSorted = false
  removed : b'.batchUpdateBuilder.removedList = b.batchUpdateBuilder.removedList ++ [i]
  records : b'.batchUpdateBuilder.added = b.batchUpdateBuilder.added ∧
    b'.batchUpdateBuilder.moved = b.batchUpdateBuilder.moved
  only : b.OnlyAt b' i id
  dicts : if b.isPoolingModel then
      b'.generators = b.generators ∧ b'.badWordsTokenIds = b.badWordsTokenIds
    else b'.generators = b.generators.erase i ∧ b'.badWordsTokenIds = b.badWordsTokenIds.erase i
  entry : b'.idEntry id =
    if b.isPoolingModel then
      { b.idEntry id with poolingParams := none, poolingStates := none }
    else
      { IdEntry.absent with
        poolingParams := (b.idEntry id).poolingParams
        poolingStates := (b.idEntry id).poolingStates }

theorem removeRequest_ok {res : Option Nat} (h : b.removeRequest id = .ok (res, b')) :
    (b.reqIdToIndex.get? id = none ∧ b' = b) ∨ ∃ i, b.Removes b' i id := by
  unfold removeRequest at h
  cases hi : b.reqIdToIndex.get? id with
  | none =>
    rw [hi] at h
    cases h
    exact .inl ⟨rfl, rfl⟩
  | some i =>
    rw [hi] at h
    simp only [bind_ok, pySet_natCast_ok, BatchUpdateBuilder.removedAppend, require_ok,
      pure_ok] at h
    obtain ⟨_, ⟨_, hunsorted, rfl⟩, _, ⟨hlt₁, rfl⟩, _, ⟨hlt₂, rfl⟩, _, ⟨hlt₃, rfl⟩, b₁, hlora,
      h⟩ := h
    obtain ⟨hb₁, hmap⟩ := removeLora_ok hlora
    have hpool₁ : b₁.isPoolingModel = b.isPoolingModel := by rw [hb₁]
    have hrow : ∀ k ≠ i, b₁.row k = b.row k := by
      intro k hk
      have hmapk := hmap k hk
      rw [hb₁]
      simp only [row, tokenColumns, outputAt, specAt, draftTokens, samplingColumns,
        MultiGroupBlockTable.clearRow_row _ hk, getElem?_set_ne (Ne.symm hk), hmapk]
    have hconfig : b₁.config = b.config := by
      rw [hb₁]
      simp [config]
    refine .inr ⟨i, ?_⟩
    cases hpool : b.isPoolingModel with
    | true =>
      rw [if_pos (hpool₁.trans hpool), pure_ok, Prod.mk.injEq] at h
      obtain ⟨_, rfl⟩ := h
      refine ⟨hi, ⟨hlt₁, hlt₂, hlt₃⟩, by rw [hb₁], by rw [hb₁], by rw [hb₁], by rw [hb₁],
        ⟨hunsorted, by rw [hb₁]; exact hunsorted⟩, by rw [hb₁], by rw [hb₁]; exact ⟨rfl, rfl⟩,
        ⟨hconfig, hrow, ?_, ?_⟩, ?_, ?_⟩
      · intro id' hid
        rw [hb₁]
        simp only [idEntry, get?_erase_ne _ hid]
      · intro k _
        rw [hb₁]
        exact ⟨rfl, rfl, rfl⟩
      · rw [hpool, hb₁]
        exact ⟨rfl, rfl⟩
      · rw [hpool, hb₁]
        simp [idEntry]
    | false =>
      rw [if_neg (by rw [hpool₁, hpool]; exact Bool.false_ne_true), pure_ok,
        Prod.mk.injEq] at h
      obtain ⟨_, rfl⟩ := h
      refine ⟨hi, ⟨hlt₁, hlt₂, hlt₃⟩, by rw [hb₁]; rfl, by rw [hb₁]; rfl, by rw [hb₁]; rfl,
        by rw [hb₁]; rfl, ⟨hunsorted, by rw [hb₁]; exact hunsorted⟩, by rw [hb₁]; rfl,
        by rw [hb₁]; exact ⟨rfl, rfl⟩, ⟨?_, ?_, ?_, ?_⟩, ?_, ?_⟩
      · exact hconfig
      · intro k hk
        rw [← hrow k hk]
        simp only [row, tokenColumns, outputAt, specAt, draftTokens, samplingColumns,
          removeSamplingParams, get?_erase_ne _ hk]
        rfl
      · intro id' hid
        rw [hb₁]
        simp only [idEntry, removeSamplingParams, Finset.mem_erase, ne_eq, hid,
          not_false_eq_true, true_and, get?_erase_ne _ hid]
      · intro k hk
        rw [hb₁]
        exact ⟨get?_erase_ne _ hk, get?_erase_ne _ hk, rfl⟩
      · rw [hpool, hb₁]
        exact ⟨rfl, rfl⟩
      · rw [hpool, hb₁]
        simp [idEntry, removeSamplingParams, IdEntry.absent]

end InputBatch

end VllmCore.Worker
