import VllmCore.Worker.InputBatch.AllowedTokens
/-!
# The flags of the pooling requests

A pooling request tells whether it needs its token ids, and `add_request` notes that in the
row of the request.  For pooling models `swap_states` and `condense` return before they
reach the flags, which stay in their rows.  In runs whose moves join rows with equal flags,
every flag follows its request.
-/

namespace VllmCore.Worker

open Function List Support

namespace InputBatch

variable {b b' : InputBatch} {live : ReqId → Option LiveRequest} {i i₁ i₂ last fuel : Nat}
variable {r : CachedRequestState} {id id₁ id₂ : ReqId} {res : Option Nat}

/-! ## The prompt token ids of the metadata -/

def noPenalties (b : InputBatch) : Bool :=
  b.presencePenaltiesReqs = ∅ ∧ b.frequencyPenaltiesReqs = ∅ ∧ b.repetitionPenaltiesReqs = ∅

/-- `needs_prompt_token_ids` of `_make_sampling_metadata`. -/
def needsPromptTokenIds (b : InputBatch) : Bool :=
  !b.noPenalties || (List.range b.numReqs).any b.logitsProcessingNeedsTokenIds

/-- `_make_prompt_token_ids_cpu_tensor`: the prompts, padded with the size of the
vocabulary. -/
def makePromptTokenIdsCpuTensor (b : InputBatch) : List (List Token) :=
  let maxPromptLen := ((List.range b.numReqs).map b.numPromptTokens).foldl max 0
  (List.range b.numReqs).map fun i => (List.range maxPromptLen).map fun j =>
    if j < b.numPromptTokens i then b.tokenIdsCpu i j else b.vocabSize

/-- `prompt_token_ids` of `_make_sampling_metadata`. -/
def promptTokenIds (b : InputBatch) : Option (List (List Token)) :=
  if b.needsPromptTokenIds then some b.makePromptTokenIdsCpuTensor else none

/-- The rows that the loop of `condense` moves, each with the row that it goes to. -/
def condenseMoves : Nat → BatchUpdateBuilder → Nat → List (Nat × Nat)
  | 0, _, _ => []
  | fuel + 1, u, lastReqIndex =>
    if u.removedList = [] then []
    else
      let lastReqIndex := skipRemoved u.removedList lastReqIndex
      match u.peekRemoved with
      | (none, _) => []
      | (some emptyIndex, u) =>
        if emptyIndex ≥ lastReqIndex then []
        else
          (lastReqIndex, emptyIndex) :: condenseMoves fuel u.popRemoved.2 (lastReqIndex - 1)

/-- The moves of a call of `condense`. -/
def moves (b : InputBatch) : List (Nat × Nat) :=
  let u := b.batchUpdateBuilder.ensureRemovedSorted
  condenseMoves u.removedList.length u (b.numReqs + u.removedList.length - 1)

/-! ## The flags of each operation -/

/-- The flag of a row is the one of the request in it. -/
def FlagsFollow (b : InputBatch) (live : ReqId → Option LiveRequest) : Prop :=
  ∀ i id l, b.reqIds[i]? = some (some id) → live id = some l →
    ∃ p, l.request.poolingParams = some p ∧ b.logitsProcessingNeedsTokenIds i = p.requiresTokenIds

theorem addRequest_flags (hnone : r.samplingParams = none) (h : b.addRequest r = .ok (i, b')) :
    ∃ p, r.poolingParams = some p ∧ b'.logitsProcessingNeedsTokenIds =
      update b.logitsProcessingNeedsTokenIds i p.requiresTokenIds := by
  simp only [InputBatch.addRequest, bind_ok, pure_ok, hnone] at h
  obtain ⟨⟨j, b₁⟩, hreg, b₂, hplace, b₃, hcopy, b₄, hparams, hres⟩ := h
  obtain ⟨rfl, rfl⟩ := Prod.mk.inj hres
  have hb₁ := (registerAddRequest_ok hreg).2.1
  have hb₂ := (placeRequest_spec hplace).2
  simp only [copyTokens, r.promptLength, ok_bind, bind_ok, require_ok, pure_ok] at hcopy
  obtain ⟨_, _, _, _, hb₃⟩ := hcopy
  have hflags₃ : b₃.logitsProcessingNeedsTokenIds = b.logitsProcessingNeedsTokenIds := by
    rw [← hb₃]
    rw [hb₂, hb₁]
  have hlora : ∀ c : InputBatch, (c.addLora r j).logitsProcessingNeedsTokenIds =
      c.logitsProcessingNeedsTokenIds := by
    intro c
    unfold addLora
    split
    · rfl
    · rfl
  rw [hlora]
  cases hp : r.poolingParams with
  | none =>
    rw [hp] at hparams
    cases hparams
  | some p =>
    simp only [hp, addPoolingParams] at hparams
    split at hparams
    · cases hparams
    · cases hparams
      exact ⟨p, rfl, by rw [← hflags₃]⟩

theorem removeRequest_flags (hpool : b.isPoolingModel = true)
    (h : b.removeRequest id = .ok (res, b')) :
    b'.logitsProcessingNeedsTokenIds = b.logitsProcessingNeedsTokenIds := by
  unfold removeRequest at h
  cases hi : b.reqIdToIndex.get? id with
  | none =>
    rw [hi] at h
    cases h
    rfl
  | some i =>
    rw [hi] at h
    simp only [bind_ok] at h
    obtain ⟨_, _, _, _, _, _, _, _, b₁, hlora, h⟩ := h
    have hb₁ := (removeLora_ok hlora).1
    have hpool₁ : b₁.isPoolingModel = true := by rw [hb₁]; exact hpool
    rw [if_pos hpool₁, pure_ok, Prod.mk.injEq] at h
    obtain ⟨_, rfl⟩ := h
    rw [hb₁]

theorem FlagsFollow.addRequest (hs : b.Simulates live) (hh : b.HolesInv) (h : b.FlagsFollow live)
    (hpool : b.isPoolingModel = true) (hfits : b.Fits r)
    (hnew : b.reqIdToIndex.get? r.reqId = none) (hadd : b.addRequest r = .ok (i, b')) :
    b'.FlagsFollow (update live r.reqId (some ⟨r, []⟩)) := by
  have hnone : r.samplingParams = none := by
    unfold Fits at hfits
    rw [hpool] at hfits
    simpa using hfits
  obtain ⟨p, hp, hflags⟩ := addRequest_flags hnone hadd
  obtain ⟨_, hplaces, _⟩ := hs.adds hh hfits hnew hadd
  intro k id l hat hl
  rw [hplaces.reqIds_getElem?] at hat
  rw [hflags]
  by_cases hk : k = i
  · rw [if_pos hk] at hat
    cases hat
    rw [update_self] at hl
    cases hl
    exact ⟨p, hp, by rw [hk, update_self]⟩
  · rw [if_neg hk] at hat
    have hid : id ≠ r.reqId := by
      rintro rfl
      rw [(hs.index _ k).mpr hat] at hnew
      cases hnew
    rw [update_of_ne hid] at hl
    rw [update_of_ne hk]
    exact h k id l hat hl

theorem FlagsFollow.removeRequest (hs : b.Simulates live) (h : b.FlagsFollow live)
    (hpool : b.isPoolingModel = true) (hr : b.removeRequest id = .ok (res, b')) :
    b'.FlagsFollow (update live id none) := by
  have hflags := removeRequest_flags hpool hr
  intro k id' l hat hl
  rw [update_apply] at hl
  split at hl
  · cases hl
  · rw [hflags]
    refine h k id' l ?_ hl
    rcases removeRequest_ok hr with ⟨_, rfl⟩ | ⟨i, hrem⟩
    · exact hat
    · rw [hrem.reqIds, getElem?_set] at hat
      split at hat
      · split at hat <;> cases hat
      · exact hat

theorem FlagsFollow.swaps (h : b.FlagsFollow live)
    (hkeep : b.logitsProcessingNeedsTokenIds i₁ = b.logitsProcessingNeedsTokenIds i₂)
    (hsw : b.Swaps b' i₁ i₂ id₁ id₂)
    (hflags : b'.logitsProcessingNeedsTokenIds = b.logitsProcessingNeedsTokenIds) :
    b'.FlagsFollow live := by
  intro k id l hat hl
  rw [hsw.reqIds_getElem?] at hat
  rw [hflags]
  split at hat
  next hk =>
    cases hat
    rw [hk, ← hkeep]
    exact h i₁ _ l hsw.at_left hl
  · split at hat
    next hk =>
      cases hat
      rw [hk, hkeep]
      exact h i₂ _ l hsw.at_right hl
    · exact h k id l hat hl

theorem FlagsFollow.moves {src tgt : Nat} (h : b.FlagsFollow live)
    (hkeep : b.logitsProcessingNeedsTokenIds src = b.logitsProcessingNeedsTokenIds tgt)
    (hm : b.Moves b' src tgt id)
    (hflags : b'.logitsProcessingNeedsTokenIds = b.logitsProcessingNeedsTokenIds) :
    b'.FlagsFollow live := by
  intro k id' l hat hl
  rw [hm.reqIds_getElem?] at hat
  rw [hflags]
  split at hat
  · cases hat
  · split at hat
    next hk =>
      cases hat
      rw [hk, ← hkeep]
      exact h src _ l hm.at_src hl
    · exact h k id' l hat hl

/-- The loop keeps the flags if each move joins rows with equal flags. -/
theorem FlagsFollow.condenseLoop (h : b.FlagsFollow live) (hpool : b.isPoolingModel = true)
    (hkeep : ∀ m ∈ condenseMoves fuel b.batchUpdateBuilder last,
      b.logitsProcessingNeedsTokenIds m.1 = b.logitsProcessingNeedsTokenIds m.2)
    (hb' : condenseLoop fuel b last = .ok b') : b'.FlagsFollow live := by
  induction fuel generalizing b last with
  | zero =>
    cases hb'
    exact h
  | succ fuel ih =>
    unfold InputBatch.condenseLoop at hb'
    unfold condenseMoves at hkeep
    split at hb'
    · cases hb'
      exact h
    next hne =>
      rw [if_neg hne] at hkeep
      rcases hpeek : b.batchUpdateBuilder.peekRemoved with ⟨peeked, u⟩
      rw [hpeek] at hb' hkeep
      cases peeked with
      | none => cases hb'
      | some e =>
        dsimp only at hb' hkeep
        split at hb'
        · cases hb'
          exact h
        next hlt =>
          rw [if_neg hlt] at hkeep
          simp only [bind_ok] at hb'
          obtain ⟨b₁, hmove, hrest⟩ := hb'
          have hflags := needsTokenIds_not_moved.2 hmove
          obtain ⟨id, hm⟩ := moveRequest_ok hmove
          have hfollow : InputBatch.FlagsFollow
              { b with batchUpdateBuilder := u.popRemoved.2 } live := h
          have hb₁ := hm.columns
          dsimp only at hb₁
          rw [if_pos hpool] at hb₁
          refine ih (hfollow.moves (hkeep _ mem_cons_self) hm hflags) ?_ ?_ hrest
          · rw [hb₁]
            exact hpool
          · intro m hmem
            rw [hb₁] at hmem
            rw [hflags]
            exact hkeep m (mem_cons_of_mem _ hmem)

theorem FlagsFollow.condense (h : b.FlagsFollow live) (hpool : b.isPoolingModel = true)
    (hkeep : ∀ m ∈ b.moves,
      b.logitsProcessingNeedsTokenIds m.1 = b.logitsProcessingNeedsTokenIds m.2)
    (hc : b.condense = .ok b') : b'.FlagsFollow live := by
  unfold InputBatch.condense at hc
  dsimp only at hc
  split at hc
  · cases hc
    exact h
  · split at hc
    · cases hc
      exact fun k id l hat _ => by cases hat
    · simp only [bind_ok, pure_ok] at hc
      obtain ⟨b₁, hloop, rfl⟩ := hc
      have hsorted : InputBatch.FlagsFollow
          { b with batchUpdateBuilder := b.batchUpdateBuilder.ensureRemovedSorted } live := h
      have hfollow := hsorted.condenseLoop hpool hkeep hloop
      intro k id l hat
      rw [getElem?_take] at hat
      split at hat
      · exact hfollow k id l hat
      · cases hat

end InputBatch

/-! ## Runs -/

namespace BatchSystem

variable {s s' : BatchSystem} {op : BatchOp}

/-- The call moves no request into a row whose flag differs from its own. -/
def KeepsFlags (s : BatchSystem) : BatchOp → Prop
  | .swapStates i₁ i₂ =>
    s.batch.logitsProcessingNeedsTokenIds i₁ = s.batch.logitsProcessingNeedsTokenIds i₂
  | .condense =>
    ∀ m ∈ s.batch.moves,
      s.batch.logitsProcessingNeedsTokenIds m.1 = s.batch.logitsProcessingNeedsTokenIds m.2
  | _ => True

instance (s : BatchSystem) : ∀ op, Decidable (s.KeepsFlags op)
  | .swapStates i₁ i₂ =>
    inferInstanceAs (Decidable (s.batch.logitsProcessingNeedsTokenIds i₁ =
      s.batch.logitsProcessingNeedsTokenIds i₂))
  | .condense =>
    inferInstanceAs (Decidable (∀ m ∈ s.batch.moves,
      s.batch.logitsProcessingNeedsTokenIds m.1 = s.batch.logitsProcessingNeedsTokenIds m.2))
  | .addRequest _ | .removeRequest _ | .refreshMetadata | .updateReqSpecTokenIds _ _ =>
    inferInstanceAs (Decidable True)

abbrev FlagsReachable : BatchSystem → Prop :=
  Reachable Start (OpStep (fun s op => Issued s op ∧ KeepsFlags s op) runBatchOp)

/-- Every row has the flag of the request in it, and the metadata of a condensed batch
have the prompt token ids exactly when some request needs them, penalties aside. -/
structure FlagsMatch (s : BatchSystem) : Prop where
  rows : ∀ i id, s.batch.reqIds[i]? = some (some id) →
    ∃ p, s.batch.poolingParams.get? id = some p ∧
      s.batch.logitsProcessingNeedsTokenIds i = p.requiresTokenIds
  prompts : s.batch.Condensed → (s.batch.promptTokenIds.isSome ↔ s.batch.noPenalties = false ∨
    ∃ id p, s.batch.reqIdToIndex.get? id ≠ none ∧ s.batch.poolingParams.get? id = some p ∧
      p.requiresTokenIds = true)

structure FlagsInv (s : BatchSystem) : Prop extends s.Inv where
  flags : s.batch.isPoolingModel = true → s.batch.FlagsFollow s.live

theorem Inv.config_runBatchOp (h : s.Inv) (hop : s.Issued op)
    (hrun : s.runBatchOp op = .ok s') : s'.batch.config = s.batch.config := by
  cases BatchSystem.ran hrun with
  | addRequest hadd =>
    exact (h.simulates.adds h.holes hop.2 hop.1 hadd).2.2.1.config
  | removeRequest hremove =>
    rcases InputBatch.removeRequest_ok hremove with ⟨_, rfl⟩ | ⟨i, hrem⟩
    · rfl
    · exact hrem.only.config
  | condense hcond =>
    unfold InputBatch.condense at hcond
    dsimp only at hcond
    split at hcond
    · cases hcond
      rfl
    · split at hcond
      · cases hcond
        rfl
      · simp only [bind_ok, pure_ok] at hcond
        obtain ⟨b₁, hloop, rfl⟩ := hcond
        have hconfig := InputBatch.condenseLoop_config hloop
        exact hconfig
  | swapStates _ hs =>
    exact hs.same.1
  | updateReqSpecTokenIds hspec =>
    obtain ⟨i, _, _, rfl⟩ := InputBatch.updateReqSpecTokenIds_ok hspec
    rfl
  | refreshMetadata href =>
    obtain ⟨mask, rfl⟩ := InputBatch.refreshMetadata_ok href
    rfl

theorem FlagsInv.runBatchOp (h : s.FlagsInv) (hop : s.Issued op) (hkeep : s.KeepsFlags op)
    (hrun : s.runBatchOp op = .ok s') : s'.FlagsInv := by
  refine ⟨h.toInv.runBatchOp hop hrun, fun hpool' => ?_⟩
  have hpool : s.batch.isPoolingModel = true :=
    (congrArg BatchConfig.isPoolingModel (h.toInv.config_runBatchOp hop hrun)).symm.trans hpool'
  have hflags := h.flags hpool
  cases BatchSystem.ran hrun with
  | addRequest hadd =>
    exact hflags.addRequest h.simulates h.holes hpool hop.2 hop.1 hadd
  | removeRequest hremove =>
    exact hflags.removeRequest h.simulates hpool hremove
  | condense hcond =>
    exact hflags.condense hpool hkeep hcond
  | @swapStates _ _ id₁ id₂ _ hswap hs =>
    have hsame := InputBatch.needsTokenIds_not_moved.1 hswap
    obtain ⟨id₁, id₂, hs⟩ := InputBatch.swapStates_ok hswap
    exact hflags.swaps hkeep hs hsame
  | updateReqSpecTokenIds hspec =>
    obtain ⟨i, _, _, rfl⟩ := InputBatch.updateReqSpecTokenIds_ok hspec
    intro k id' l' hat hl'
    dsimp only at hl'
    rw [update_apply] at hl'
    split at hl'
    next hid =>
      obtain ⟨l, hl, rfl⟩ := Option.map_eq_some_iff.mp hl'
      exact hflags k id' l hat (hid ▸ hl)
    · exact hflags k id' l' hat hl'
  | refreshMetadata href =>
    obtain ⟨mask, rfl⟩ := InputBatch.refreshMetadata_ok href
    exact hflags

theorem FlagsReachable.flagsInv (h : FlagsReachable s) : s.FlagsInv := by
  refine h.invariant (fun s hstart => ⟨start_inv hstart, fun _ => ?_⟩) fun _ _ hs hstep => ?_
  · obtain ⟨pooling, maxNumReqs, maxModelLen, vocabSize, float32, tables, uninit, uninitInt,
      rfl⟩ := hstart
    exact fun _ _ _ hat _ => by cases hat
  · obtain ⟨op, ⟨hop, hkeep⟩, hrun⟩ := hstep
    exact hs.runBatchOp hop hkeep hrun

theorem FlagsInv.flagsMatch (h : s.FlagsInv) (hpool : s.batch.isPoolingModel = true) :
    s.FlagsMatch := by
  have hsim := h.simulates
  have hrows : ∀ i id, s.batch.reqIds[i]? = some (some id) →
      ∃ p, s.batch.poolingParams.get? id = some p ∧
        s.batch.logitsProcessingNeedsTokenIds i = p.requiresTokenIds := by
    intro i id hat
    obtain ⟨l, hl⟩ := Option.ne_none_iff_exists'.mp
      ((hsim.isLive id).mpr ⟨i, (hsim.index id i).mpr hat⟩)
    obtain ⟨p, hp, hflag⟩ := h.flags hpool i id l hat hl
    refine ⟨p, ?_, hflag⟩
    have hnone : l.request.samplingParams = none := by
      have hfits := hsim.fits id l hl
      unfold InputBatch.Fits at hfits
      rw [hpool] at hfits
      simpa using hfits
    have hentry := congrArg IdEntry.poolingParams (hsim.entry id)
    rw [hl] at hentry
    simpa [InputBatch.idEntry, LiveRequest.idEntry, hnone, hp] using hentry
  refine ⟨hrows, fun hc => ?_⟩
  have hnum := hsim.numReqs_of_condensed hc
  have hneeds : s.batch.promptTokenIds.isSome = s.batch.needsPromptTokenIds := by
    unfold InputBatch.promptTokenIds
    split <;> simp_all
  rw [hneeds, InputBatch.needsPromptTokenIds, Bool.or_eq_true, Bool.not_eq_true', any_eq_true]
  refine or_congr_right ⟨?_, ?_⟩
  · rintro ⟨i, hi, hflag⟩
    rw [mem_range] at hi
    obtain ⟨id, l, hat, _⟩ := (h.toInv.rowsMatch hc).rows i hi
    obtain ⟨p, hp, heq⟩ := hrows i id hat
    exact ⟨id, p, by simp [(hsim.index id i).mpr hat], hp, heq ▸ hflag⟩
  · rintro ⟨id, p, hin, hp, hneed⟩
    obtain ⟨i, hi⟩ := Option.ne_none_iff_exists'.mp hin
    have hat := (hsim.index id i).mp hi
    obtain ⟨p', hp', hflag⟩ := hrows i id hat
    rw [hp] at hp'
    cases hp'
    have hlt := (List.getElem?_eq_some_iff.mp hat).1
    exact ⟨i, mem_range.mpr (by omega), hflag.trans hneed⟩

/-- In every run whose calls move no request into a row with another flag, the flags follow
the requests and the metadata have the prompt token ids when a request needs them. -/
theorem flags_match (h : FlagsReachable s) (hpool : s.batch.isPoolingModel = true) :
    s.FlagsMatch :=
  h.flagsInv.flagsMatch hpool

/-- A pooling request that may need its token ids. -/
def poolingRequest (id : ReqId) (needs : Bool) : CachedRequestState where
  reqId := id
  promptTokenIds := some [3]
  poolingParams := some { requiresTokenIds := needs }
  poolingStates := some 0
  blockIds := [[id]]
  numComputedTokens := 0
  numPromptTokens := 1
  promptLength := rfl

def poolingStart : BatchSystem :=
  ⟨.create true 4 8 3 id [{ maxNumBlocksPerReq := 8 }] (fun _ => 0) (fun _ => 0),
    fun _ => none⟩

/-- Two requests come, and the second moves down into the row of the first. -/
def poolingOps (first second : Bool) : List BatchOp :=
  [.addRequest (poolingRequest 7 first), .addRequest (poolingRequest 8 second),
    .refreshMetadata, .removeRequest 7, .condense]

theorem flags_match_moved : ∃ s : BatchSystem, FlagsReachable s ∧
    s.batch.reqIds = [some 8] ∧ s.batch.promptTokenIds = some [[3]] ∧ s.FlagsMatch := by
  obtain ⟨s, hrun, hpool, hids, hprompt⟩ : ∃ s : BatchSystem,
      runOps (checked (fun s op => Issued s op ∧ KeepsFlags s op) runBatchOp) poolingStart
        (poolingOps true true) = .ok s ∧ s.batch.isPoolingModel = true ∧
        s.batch.reqIds = [some 8] ∧ s.batch.promptTokenIds = some [[3]] :=
    ⟨_, rfl, by decide, by decide, by decide⟩
  have hreach : FlagsReachable s :=
    Reachable.runOps (.start ⟨true, 4, 8, 3, id, _, _, _, rfl⟩) hrun
  exact ⟨s, hreach, hids, hprompt, flags_match hreach hpool⟩

/-- The request that needs its token ids takes a row whose flag says that it does not. -/
theorem flags_not_match : ¬∀ s : BatchSystem, BatchReachable s →
    s.batch.isPoolingModel = true → s.FlagsMatch := by
  intro hall
  obtain ⟨s, hrun, hpool, hids, hparams, hflag⟩ : ∃ s : BatchSystem,
      runOps (checked Issued runBatchOp) poolingStart (poolingOps false true) = .ok s ∧
        s.batch.isPoolingModel = true ∧ s.batch.reqIds[0]? = some (some 8) ∧
        s.batch.poolingParams.get? 8 = some { requiresTokenIds := true } ∧
        s.batch.logitsProcessingNeedsTokenIds 0 = false :=
    ⟨_, rfl, by decide, by decide, by decide, by decide⟩
  have hreach : BatchReachable s :=
    Reachable.runOps (.start ⟨true, 4, 8, 3, id, _, _, _, rfl⟩) hrun
  obtain ⟨p, hp, hrow⟩ := (hall s hreach hpool).rows 0 8 hids
  rw [hparams] at hp
  cases hp
  rw [hflag] at hrow
  cases hrow

end BatchSystem

end VllmCore.Worker
