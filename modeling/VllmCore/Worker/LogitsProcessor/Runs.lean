import VllmCore.Worker.LogitsProcessor.UpdateState
/-!
# Runs of the batch and its processors

The model runner changes the batch, the removals and additions of a step before its moves,
and then refreshes the metadata, which hands the changes to the processors.  After a
refresh the processors should hold for each row what belongs to its request.
-/

namespace VllmCore.Worker

open Function List Option Support

variable {β T : Type}

/-! ## One call -/

/-- What the requests have after a call, where a request has `valueOf` when it is added. -/
def BatchOp.owned (empty : β) (valueOf : CachedRequestState → β) (owned : ReqId → β) :
    BatchOp → ReqId → β
  | .addRequest r => update owned r.reqId (valueOf r)
  | .removeRequest id => update owned id empty
  | _ => owned

namespace BatchSystem

/-- When the model runner makes a call: the moves of a step come after its removals and
additions, and the refresh is a call of its own. -/
def InOrder (s : BatchSystem) : BatchOp → Prop
  | .addRequest _ | .removeRequest _ => s.batch.batchUpdateBuilder.moved = []
  | .refreshMetadata => False
  | _ => True

instance (s : BatchSystem) : ∀ op, Decidable (s.InOrder op)
  | .addRequest _ | .removeRequest _ =>
    inferInstanceAs (Decidable (s.batch.batchUpdateBuilder.moved = []))
  | .refreshMetadata => inferInstanceAs (Decidable False)
  | .condense | .swapStates _ _ | .updateReqSpecTokenIds _ _ => inferInstanceAs (Decidable True)

variable {s s' : BatchSystem} {empty : β} {value : AddedRequest → β}
  {valueOf : CachedRequestState → β} {rows : Nat → β} {owned : ReqId → β}
variable {op : BatchOp}

theorem Inv.tracks (h : s.Inv) (ht : s.batch.Tracks empty value rows owned)
    (hvalue : ∀ r i p, r.samplingParams = some p → value (r.toAddedRequest i p) = valueOf r)
    (hop : s.Issued op) (horder : s.InOrder op)
    (hrun : s.runBatchOp op = .ok s') :
    s'.batch.Tracks empty value rows (op.owned empty valueOf owned) := by
  have hsim := h.simulates
  cases BatchSystem.ran hrun with
  | @addRequest r _ _ hadd =>
    have hnew := hop.1
    obtain ⟨rfl, hplaces, honly, _⟩ := hsim.adds h.holes hop.2 hnew hadd
    have hfits := hop.2
    unfold InputBatch.Fits at hfits
    rw [ht.sampling] at hfits
    obtain ⟨p, hp⟩ := isSome_iff_exists.mp (by simpa using hfits)
    have hnowhere : ∀ k : Nat, s.batch.reqIds[k]? ≠ some (some r.reqId) := by
      intro k hk
      rw [(hsim.index r.reqId k).mpr hk] at hnew
      cases hnew
    have hplaced := ht.places h.holes horder hp hnowhere honly.config hplaces
    rw [hvalue r s.batch.nextIndex p hp] at hplaced
    exact hplaced
  | @removeRequest id _ _ hremove =>
    -- only the removed request loses what it has, and it is in no row any more
    have hother : ∀ {b' : InputBatch}, b'.Tracks empty value rows owned →
        (∀ k : Nat, b'.reqIds[k]? ≠ some (some id)) →
        b'.Tracks empty value rows (update owned id empty) := by
      intro b' ht' hgone
      refine ht'.congr rfl rfl rfl (.refl _) ?_ fun _ _ h => h
      intro k
      apply InputBatch.ownedRows_congr rfl
      intro id' hat
      apply update_of_ne
      rintro rfl
      exact hgone k hat
    rcases InputBatch.removeRequest_ok hremove with ⟨hnone, rfl⟩ | ⟨i, hr⟩
    · apply hother ht
      intro k hk
      rw [(hsim.index id k).mpr hk] at hnone
      cases hnone
    · have hat := (hsim.index id i).mp hr.at_row
      apply hother (ht.removes horder hat hr)
      intro k hk
      have hsim' := hsim.removes hr
      have hget := (hsim'.index id k).mpr hk
      exact absurd ((hsim'.isLive id).mpr ⟨k, hget⟩) (by simp)
  | condense hcond =>
    exact (hsim.condense_keeps InputBatch.Tracks.keptByCondense h.holes ht hcond).2.1
  | swapStates _ hs =>
    exact ht.swaps hs
  | updateReqSpecTokenIds hspec =>
    obtain ⟨i, _, _, rfl⟩ := InputBatch.updateReqSpecTokenIds_ok hspec
    exact ht.congr rfl rfl rfl (.refl _) (fun _ => rfl) fun _ _ h => h
  | refreshMetadata _ => exact horder.elim

theorem tracks_refreshMetadata (ht : s.batch.Tracks empty value rows owned)
    (hrun : s.runBatchOp .refreshMetadata = .ok s') (owned' : ReqId → β) :
    s'.batch.Tracks empty value (s'.batch.ownedRows empty owned') owned' := by
  simp only [BatchSystem.runBatchOp, bind_ok, pure_ok] at hrun
  obtain ⟨b, href, rfl⟩ := hrun
  obtain ⟨mask, rfl⟩ := InputBatch.refreshMetadata_ok href
  refine ⟨ht.sampling, ?_, nodup_nil, ?_, ?_, ?_⟩
  · exact clearEntries_nil empty _
  · exact fun i hi => absurd hi not_mem_nil
  · exact fun m hm => absurd hm not_mem_nil
  · exact fun m hm => absurd hm not_mem_nil

theorem refreshMetadata_rows (hrun : s.runBatchOp .refreshMetadata = .ok s') :
    s'.live = s.live ∧ s'.batch.reqIds = s.batch.reqIds := by
  simp only [BatchSystem.runBatchOp, bind_ok, pure_ok] at hrun
  obtain ⟨b, href, rfl⟩ := hrun
  obtain ⟨mask, rfl⟩ := InputBatch.refreshMetadata_ok href
  exact ⟨rfl, rfl⟩

/-- What the requests have, recomputed from the requests. -/
def recompute (s : BatchSystem) (empty : β) (valueOf : CachedRequestState → β) (id : ReqId) : β :=
  (s.live id).elim empty fun l => valueOf l.request

theorem recompute_runBatchOp (hrun : s.runBatchOp op = .ok s') :
    s'.recompute empty valueOf = op.owned empty valueOf (s.recompute empty valueOf) := by
  funext k
  unfold recompute
  cases BatchSystem.ran hrun with
  | addRequest _ =>
    simp only [BatchOp.owned, update_apply]
    split <;> rfl
  | removeRequest _ =>
    simp only [BatchOp.owned, update_apply]
    split <;> rfl
  | condense _ => rfl
  | swapStates _ _ => rfl
  | refreshMetadata _ => rfl
  | @updateReqSpecTokenIds id _ _ _ =>
    simp only [BatchOp.owned, update_apply]
    split
    next hk =>
      rw [hk]
      cases s.live id <;> rfl
    · rfl

end BatchSystem

/-! ## The system -/

/-- The batch with its logits processors: one that keeps its state by
`process_dict_updates`, min-p and the thinking budget.  `thinkStates` is what each request
should have from the thinking budget: its own state, brought up to date at each refresh. -/
structure LogitsSystem (T : Type) where
  rows : BatchSystem
  entries : Dict Nat T := .empty
  minP : MinPLogitsProcessor := {}
  thinking : ThinkingTokenBudgetLogitsProcessor
  thinkStates : ReqId → Option ThinkState := fun _ => none

/-- The calls of the model runner.  At a refresh `outputs` is what the output lists of the
requests hold. -/
inductive LogitsOp
  | change (op : BatchOp)
  | refreshMetadata (outputs : ReqId → List Token)

namespace LogitsSystem

def thinkOf (config : Option ReasoningConfig) (r : CachedRequestState) : Option ThinkState :=
  config.bind fun c => r.samplingParams.bind fun p => p.thinkingTokenBudget.map fun budget =>
    c.initStateEntry r.promptTokenIds budget r.reqId

/-- The state of a request after a refresh. -/
def refreshThink (config : Option ReasoningConfig) (outputs : ReqId → List Token)
    (state : Option ThinkState) : Option ThinkState :=
  config.elim state fun c => state.map (c.updateThinkState outputs)

/-- When the model runner makes a call.  A request has a thinking budget only where the
engine has a reasoning configuration: the engine rejects it otherwise. -/
def Issued (s : LogitsSystem T) : LogitsOp → Prop
  | .change op => s.rows.Issued op ∧ s.rows.InOrder op ∧
      match op with
      | .addRequest r => s.thinking.reasoningConfig = none →
          r.samplingParams.bind SamplingParams.thinkingTokenBudget = none
      | _ => True
  | .refreshMetadata _ => s.rows.Issued .refreshMetadata

instance (s : LogitsSystem T) : ∀ op, Decidable (s.Issued op)
  | .change (.addRequest r) =>
    inferInstanceAs (Decidable (s.rows.Issued (.addRequest r) ∧ s.rows.InOrder (.addRequest r) ∧
      (s.thinking.reasoningConfig = none →
        r.samplingParams.bind SamplingParams.thinkingTokenBudget = none)))
  | .change (.removeRequest id) =>
    inferInstanceAs (Decidable (s.rows.Issued (.removeRequest id) ∧
      s.rows.InOrder (.removeRequest id) ∧ True))
  | .change .condense =>
    inferInstanceAs (Decidable (s.rows.Issued .condense ∧ s.rows.InOrder .condense ∧ True))
  | .change (.swapStates i₁ i₂) =>
    inferInstanceAs (Decidable (s.rows.Issued (.swapStates i₁ i₂) ∧
      s.rows.InOrder (.swapStates i₁ i₂) ∧ True))
  | .change (.updateReqSpecTokenIds id toks) =>
    inferInstanceAs (Decidable (s.rows.Issued (.updateReqSpecTokenIds id toks) ∧
      s.rows.InOrder (.updateReqSpecTokenIds id toks) ∧ True))
  | .change .refreshMetadata =>
    inferInstanceAs (Decidable (s.rows.Issued .refreshMetadata ∧
      s.rows.InOrder .refreshMetadata ∧ True))
  | .refreshMetadata _ => inferInstanceAs (Decidable (s.rows.Issued .refreshMetadata))

variable (newState : SamplingParams → Option (List Token) → List Token → Option T)
  (truthy : T → Bool)

def runLogitsOp (s : LogitsSystem T) : LogitsOp → Py (LogitsSystem T)
  | .change op => do
    let rows ← s.rows.runBatchOp op
    return { s with
      rows := rows
      thinkStates := op.owned none (thinkOf s.thinking.reasoningConfig) s.thinkStates }
  | .refreshMetadata outputs => do
    let batch := s.rows.batch
    let (batchUpdate, _) := batch.batchUpdateBuilder.getAndReset batch.numReqs
    let rows ← s.rows.runBatchOp .refreshMetadata
    return {
      rows := rows
      entries := (processDictUpdates newState truthy s.entries batchUpdate).2
      minP := s.minP.updateState batchUpdate
      thinking := s.thinking.updateState batchUpdate outputs
      thinkStates := fun id =>
        refreshThink s.thinking.reasoningConfig outputs (s.thinkStates id) }

/-- The states in which a worker starts: a new batch of a model that samples, and new
processors.  Zero is a float32. -/
def Start (s : LogitsSystem T) : Prop :=
  ∃ maxNumReqs maxModelLen vocabSize float32 tables uninit uninitInt config,
    float32 0 = 0 ∧
    s = { rows := ⟨.create false maxNumReqs maxModelLen vocabSize float32 tables uninit uninitInt,
            fun _ => none⟩
          minP := { float32 := float32 }
          thinking := { reasoningConfig := config } }

/-- What a request has in a processor that keeps its state by `process_dict_updates`. -/
def sparseOf (r : CachedRequestState) : Option T :=
  r.samplingParams.bind fun p => newState p r.promptTokenIds r.outputTokenIds

/-- What a request has in the array of min-p. -/
def minPOf (float32 : ℚ → ℚ) (r : CachedRequestState) : ℚ :=
  r.samplingParams.elim 0 fun p => float32 p.minP

/-- What is in a row, recomputed from the request that is in it now. -/
def recomputed {β : Type} (s : LogitsSystem T) (empty : β) (valueOf : CachedRequestState → β) :
    Nat → β :=
  s.rows.batch.ownedRows empty (s.rows.recompute empty valueOf)

def Refreshed (s : LogitsSystem T) : Prop :=
  s.rows.batch.batchUpdateBuilder.removedList = [] ∧ s.rows.batch.batchUpdateBuilder.moved = [] ∧
    s.rows.batch.batchUpdateBuilder.added = []

instance (s : LogitsSystem T) : Decidable s.Refreshed := inferInstanceAs (Decidable (_ ∧ _ ∧ _))

variable {newState truthy} {s s' : LogitsSystem T}

/-! ## What an update holds -/

theorem getAndReset_cases (u : BatchUpdateBuilder) (batchSize : Nat) :
    (u.removedList = [] ∧ u.moved = [] ∧ u.added = [] ∧ u.getAndReset batchSize = (none, {})) ∨
      u.getAndReset batchSize = (some
        { batchSize := batchSize
          removed := u.removedList
          added := u.added
          moved := u.moved }, {}) := by
  unfold BatchUpdateBuilder.getAndReset
  split
  next h => exact .inl ⟨h.1, h.2.1, h.2.2, rfl⟩
  · exact .inr rfl

theorem replay_nil (empty : β) (value : AddedRequest → β) (rows : Nat → β) :
    replay empty value [] [] [] rows = rows :=
  clearEntries_nil empty rows

variable {rows' : BatchSystem} {empty : β} {value : AddedRequest → β} {col : Nat → β}
  {u : BatchUpdateBuilder}

theorem ownedRows_refreshMetadata {rows : BatchSystem}
    (hrun : rows.runBatchOp .refreshMetadata = .ok rows') (empty : β) (owned : ReqId → β) :
    rows'.batch.ownedRows empty owned = rows.batch.ownedRows empty owned := by
  funext k
  exact InputBatch.ownedRows_congr
    (congrArg (·[k]?) (BatchSystem.refreshMetadata_rows hrun).2) fun _ _ => rfl

theorem tracks_of_replay {rows : BatchSystem} {col' : Nat → β} {owned : ReqId → β}
    (ht : rows.batch.Tracks empty value col owned)
    (hrun : rows.runBatchOp .refreshMetadata = .ok rows')
    (hcol : col' = replay empty value rows.batch.batchUpdateBuilder.added
      rows.batch.batchUpdateBuilder.removedList rows.batch.batchUpdateBuilder.moved col) :
    rows'.batch.Tracks empty value col' owned := by
  have hrows : col' = rows'.batch.ownedRows empty owned := by
    rw [ownedRows_refreshMetadata hrun, ← ht.rows, hcol]
  rw [hrows]
  exact BatchSystem.tracks_refreshMetadata ht hrun owned

theorem get?_processDictUpdates_getAndReset (h : MovesApart u.moved)
    (batchSize : Nat) (reqEntries : Dict Nat T) :
    (processDictUpdates newState truthy reqEntries (u.getAndReset batchSize).1).2.get? =
      replay none (sparseRow newState) u.added u.removedList u.moved reqEntries.get? := by
  rcases getAndReset_cases u batchSize with ⟨hremoved, hmoved, hadded, hnone⟩ | hsome
  · rw [hnone, hremoved, hmoved, hadded, replay_nil]
    rfl
  · rw [hsome]
    exact get?_processDictUpdates h reqEntries

theorem minP_updateState_getAndReset {st : MinPLogitsProcessor}
    (hc : st.Counted) (h : MovesApart u.moved) (batchSize : Nat)
    (hkeep : MinPLogitsProcessor.KeepsMinP st.float32 st.minPCpu u.added) :
    (st.updateState (u.getAndReset batchSize).1).Counted ∧
      (st.updateState (u.getAndReset batchSize).1).float32 = st.float32 ∧
      (st.updateState (u.getAndReset batchSize).1).minPCpu =
        replay 0 (MinPLogitsProcessor.minPRow st.float32) u.added u.removedList u.moved
          st.minPCpu := by
  rcases getAndReset_cases u batchSize with ⟨hremoved, hmoved, hadded, hnone⟩ | hsome
  · rw [hnone, hremoved, hmoved, hadded, replay_nil]
    exact ⟨hc, rfl, rfl⟩
  · rw [hsome]
    obtain ⟨hcounted, hcpu⟩ := hc.updateState (u := ⟨batchSize, u.removedList, u.added, u.moved⟩) h
      hkeep
    exact ⟨hcounted, MinPLogitsProcessor.updateState_float32 st _, hcpu⟩

/-! ## Sparse state and min-p -/

/-- No refresh of the run hands min-p an added value that rounds to zero for a row that has
a value. -/
def KeepsMinP (s : LogitsSystem T) : LogitsOp → Prop
  | .change _ => True
  | .refreshMetadata _ => MinPLogitsProcessor.KeepsMinP s.minP.float32 s.minP.minPCpu
      s.rows.batch.batchUpdateBuilder.added

instance (s : LogitsSystem T) : ∀ op, Decidable (s.KeepsMinP op)
  | .change _ => inferInstanceAs (Decidable True)
  | .refreshMetadata _ => inferInstanceAs (Decidable (MinPLogitsProcessor.KeepsMinP s.minP.float32
      s.minP.minPCpu s.rows.batch.batchUpdateBuilder.added))

abbrev LogitsReachable
    (newState : SamplingParams → Option (List Token) → List Token → Option T)
    (truthy : T → Bool) : LogitsSystem T → Prop :=
  Reachable Start (OpStep Issued (runLogitsOp newState truthy))

/-- The runs where no added value of min-p rounds to zero for a row that has a value. -/
abbrev MinPReachable
    (newState : SamplingParams → Option (List Token) → List Token → Option T)
    (truthy : T → Bool) : LogitsSystem T → Prop :=
  Reachable Start (OpStep (fun s op => Issued s op ∧ KeepsMinP s op) (runLogitsOp newState truthy))

structure ReplayInv (newState : SamplingParams → Option (List Token) → List Token → Option T)
    (s : LogitsSystem T) : Prop where
  rows : s.rows.Inv
  entries : s.rows.batch.Tracks none (sparseRow newState) s.entries.get?
    (s.rows.recompute none (sparseOf newState))
  minP : s.rows.batch.Tracks 0 (MinPLogitsProcessor.minPRow s.minP.float32) s.minP.minPCpu
    (s.rows.recompute 0 (minPOf s.minP.float32))
  counted : s.minP.Counted

theorem sparseRow_toAddedRequest (r : CachedRequestState) (i : Nat) (p : SamplingParams)
    (hp : r.samplingParams = some p) :
    sparseRow newState (r.toAddedRequest i p) = sparseOf newState r := by
  unfold sparseOf
  rw [hp]
  rfl

theorem minPRow_toAddedRequest (float32 : ℚ → ℚ) (r : CachedRequestState) (i : Nat)
    (p : SamplingParams) (hp : r.samplingParams = some p) :
    MinPLogitsProcessor.minPRow float32 (r.toAddedRequest i p) = minPOf float32 r := by
  unfold minPOf
  rw [hp]
  rfl

theorem start_tracks
    {maxNumReqs maxModelLen vocabSize : Nat} {float32 : ℚ → ℚ} {tables : List BlockTable}
    {uninit : Nat → ℚ} {uninitInt : Nat → Int} {owned : ReqId → β} :
    (InputBatch.create false maxNumReqs maxModelLen vocabSize float32 tables uninit
      uninitInt).Tracks empty value (fun _ => empty) owned := by
  refine ⟨rfl, ?_, nodup_nil, ?_, ?_, ?_⟩
  · exact clearEntries_nil empty _
  · exact fun i hi => absurd hi not_mem_nil
  · exact fun m hm => absurd hm not_mem_nil
  · exact fun m hm => absurd hm not_mem_nil

theorem start_rows (h : s.Start) : s.rows.Inv := by
  obtain ⟨maxNumReqs, maxModelLen, vocabSize, float32, tables, uninit, uninitInt, config, _,
    rfl⟩ := h
  exact BatchSystem.start_inv
    ⟨false, maxNumReqs, maxModelLen, vocabSize, float32, tables, uninit, uninitInt, rfl⟩

theorem start_replayInv (h : s.Start) : s.ReplayInv newState := by
  refine ⟨start_rows h, ?_, ?_, ?_⟩
  · obtain ⟨_, _, _, _, _, _, _, _, _, rfl⟩ := h
    exact start_tracks
  · obtain ⟨_, _, _, _, _, _, _, _, _, rfl⟩ := h
    exact start_tracks
  · obtain ⟨_, _, _, float32, _, _, _, _, hzero, rfl⟩ := h
    exact ⟨hzero, ∅, by simp, rfl⟩

theorem ReplayInv.runLogitsOp (h : s.ReplayInv newState) {op : LogitsOp} (hop : s.Issued op)
    (hkeep : s.KeepsMinP op) (hrun : s.runLogitsOp newState truthy op = .ok s') :
    s'.ReplayInv newState := by
  cases op with
  | change op =>
    simp only [LogitsSystem.runLogitsOp, bind_ok, pure_ok] at hrun
    obtain ⟨rows, hrows, rfl⟩ := hrun
    have hentries := h.rows.tracks h.entries sparseRow_toAddedRequest hop.1 hop.2.1 hrows
    have hminP := h.rows.tracks h.minP (minPRow_toAddedRequest s.minP.float32) hop.1 hop.2.1
      hrows
    rw [← BatchSystem.recompute_runBatchOp hrows] at hentries hminP
    exact ⟨h.rows.runBatchOp hop.1 hrows, hentries, hminP, h.counted⟩
  | refreshMetadata outputs =>
    simp only [LogitsSystem.runLogitsOp, bind_ok, pure_ok] at hrun
    obtain ⟨rows, hrows, rfl⟩ := hrun
    have hapart : MovesApart s.rows.batch.batchUpdateBuilder.moved := h.entries.oneWay
    have hlive := (BatchSystem.refreshMetadata_rows hrows).1
    have hrecompute : ∀ {β : Type} (empty : β) (valueOf : CachedRequestState → β),
        rows.recompute empty valueOf = s.rows.recompute empty valueOf := by
      intro β empty valueOf
      unfold BatchSystem.recompute
      rw [hlive]
    have hentries : (processDictUpdates newState truthy s.entries
        (s.rows.batch.batchUpdateBuilder.getAndReset s.rows.batch.numReqs).1).2.get? = _ :=
      get?_processDictUpdates_getAndReset hapart s.rows.batch.numReqs s.entries
    obtain ⟨hcounted, hfloat, hminP⟩ :=
      minP_updateState_getAndReset h.counted hapart s.rows.batch.numReqs hkeep
    have hissued : s.rows.Issued .refreshMetadata := hop
    refine ⟨h.rows.runBatchOp hissued hrows, ?_, ?_, hcounted⟩
    · dsimp only
      rw [hrecompute]
      exact tracks_of_replay h.entries hrows hentries
    · dsimp only
      rw [hrecompute, hfloat]
      exact tracks_of_replay h.minP hrows hminP

theorem MinPReachable.replayInv (h : MinPReachable newState truthy s) :
    s.ReplayInv newState :=
  h.invariant (fun _ => start_replayInv) fun _ _ hs hstep => by
    obtain ⟨op, ⟨hop, hkeep⟩, hrun⟩ := hstep
    exact hs.runLogitsOp hop hkeep hrun

/-- The states of the processors are those recomputed from the requests that are in the rows
now, and the count of min-p is the number of the rows with a value. -/
structure Faithful (newState : SamplingParams → Option (List Token) → List Token → Option T)
    (s : LogitsSystem T) : Prop where
  entries : ∀ i, s.entries.get? i = s.recomputed none (sparseOf newState) i
  minP : ∀ i, s.minP.minPCpu i = s.recomputed 0 (minPOf s.minP.float32) i
  count : s.minP.minPCount = ((List.range s.rows.batch.reqIds.length).filter fun i =>
    s.recomputed 0 (minPOf s.minP.float32) i ≠ 0).length

theorem Refreshed.rows {owned : ReqId → β} (h : s.Refreshed)
    (ht : s.rows.batch.Tracks empty value col owned) :
    col = s.rows.batch.ownedRows empty owned := by
  obtain ⟨hremoved, hmoved, hadded⟩ := h
  have hrows := ht.rows
  rw [hremoved, hmoved, hadded, replay_nil] at hrows
  exact hrows

theorem recomputed_beyond (empty : β) (valueOf : CachedRequestState → β) {k : Nat}
    (h : s.rows.batch.reqIds.length ≤ k) : s.recomputed empty valueOf k = empty := by
  apply InputBatch.ownedRows_empty
  intro id
  rw [getElem?_eq_none h]
  exact some_ne_none _ |>.symm

/-- In every run where no added value of min-p rounds to zero for a row that has a value, the
processors hold after a refresh what belongs to the requests in the rows. -/
theorem replay_faithful (h : MinPReachable newState truthy s) (hr : s.Refreshed) :
    s.Faithful newState := by
  have hinv := MinPReachable.replayInv h
  have hminP := hr.rows hinv.minP
  refine ⟨?_, ?_, ?_⟩
  · intro i
    rw [hr.rows hinv.entries]
    rfl
  · intro i
    rw [hminP]
    rfl
  · have hcount := hinv.counted.count
    rw [hminP] at hcount
    exact hcount.eq_card fun k hk => recomputed_beyond 0 _ hk

def logitsRequest (id : ReqId) (minP : ℚ) (budget : Option Int) (allowed : List Nat) :
    CachedRequestState where
  reqId := id
  promptTokenIds := some [1, 2]
  samplingParams := some { minP := minP, thinkingTokenBudget := budget, allowedTokenIds := allowed }
  blockIds := [[id]]
  numComputedTokens := 0
  numPromptTokens := 2
  promptLength := rfl

/-- Rounds as float32 does to zero: what is smaller than half of the least positive value. -/
def underflow (q : ℚ) : ℚ := if q.num.natAbs * 2 ^ 150 ≤ q.den then 0 else q

/-- A new batch, with the token `50` to start and `51` to end the reasoning. -/
def logitsStart : LogitsSystem (List Nat) where
  rows := ⟨.create false 4 8 3 underflow [{ maxNumBlocksPerReq := 8 }] (fun _ => 0) (fun _ => 0),
    fun _ => none⟩
  minP := { float32 := underflow }
  thinking := { reasoningConfig := some ⟨[50], [51]⟩ }

theorem logitsStart_start : Start logitsStart :=
  ⟨4, 8, 3, underflow, _, _, _, _, by decide +kernel, rfl⟩

def allowedState (p : SamplingParams) (_ : Option (List Token)) (_ : List Token) :
    Option (List Nat) :=
  if p.allowedTokenIds = [] then none else some p.allowedTokenIds

def listTruthy (xs : List Nat) : Bool := !xs.isEmpty

/-- The first of three requests leaves, the last one takes its row, and two are exchanged. -/
def replayOps : List LogitsOp :=
  [.change (.addRequest (logitsRequest 7 (1 / 2) none [])),
    .change (.addRequest (logitsRequest 8 0 (some 4) [2])),
    .change (.addRequest (logitsRequest 9 (1 / 4) none [1])), .refreshMetadata fun _ => [],
    .change (.removeRequest 7), .change .condense, .change (.swapStates 0 1),
    .refreshMetadata fun _ => []]

theorem replay_faithful_condensed : ∃ s : LogitsSystem (List Nat),
    MinPReachable allowedState listTruthy s ∧ s.rows.batch.reqIds = [some 8, some 9] ∧
      s.minP.minPCount = 1 ∧ s.entries.get? 0 = some [2] ∧ s.Faithful allowedState := by
  have hcheck : okWith (runOps (checked (fun s op => Issued s op ∧ KeepsMinP s op)
      (runLogitsOp allowedState listTruthy)) logitsStart replayOps) (fun s =>
        s.rows.batch.reqIds = [some 8, some 9] ∧ s.minP.minPCount = 1 ∧
          s.entries.get? 0 = some [2] ∧ s.Refreshed) = true := by decide +kernel
  obtain ⟨s, hrun, hs⟩ := okWith_iff.mp hcheck
  obtain ⟨hids, hcount, hentry, hrefreshed⟩ := of_decide_eq_true hs
  have hreach : MinPReachable allowedState listTruthy s :=
    Reachable.runOps (.start logitsStart_start) hrun
  exact ⟨s, hreach, hids, hcount, hentry, replay_faithful hreach hrefreshed⟩

/-- The row of a request that left is taken by one whose value rounds to zero. -/
def underflowOps : List LogitsOp :=
  [.change (.addRequest (logitsRequest 7 (1 / 2) none [])), .refreshMetadata fun _ => [],
    .change (.removeRequest 7), .change (.addRequest (logitsRequest 8 (mkRat 1 (10 ^ 50)) none [])),
    .refreshMetadata fun _ => []]

/-- The count is one, and no row has a value. -/
theorem replay_not_faithful : ¬∀ s : LogitsSystem (List Nat),
    LogitsReachable allowedState listTruthy s → s.Refreshed → s.Faithful allowedState := by
  intro hall
  have hcheck : okWith (runOps (checked Issued (runLogitsOp allowedState listTruthy))
      logitsStart underflowOps) (fun s => s.Refreshed ∧ s.rows.batch.reqIds.length = 1 ∧
        s.minP.minPCount = 1 ∧ s.recomputed 0 (minPOf s.minP.float32) 0 = 0) = true := by
    decide +kernel
  obtain ⟨s, hrun, hs⟩ := okWith_iff.mp hcheck
  obtain ⟨hrefreshed, hlength, hcount, hrow⟩ := of_decide_eq_true hs
  have hreach : LogitsReachable allowedState listTruthy s :=
    Reachable.runOps (.start logitsStart_start) hrun
  have hfaithful := (hall s hreach hrefreshed).count
  rw [hlength, hcount] at hfaithful
  simp [hrow] at hfaithful

/-! ## The thinking budget -/

def budgetOf (r : CachedRequestState) : Option Int :=
  r.samplingParams.bind SamplingParams.thinkingTokenBudget

def thinkingRows (s : LogitsSystem T) : Nat → Option ThinkState :=
  let u := s.rows.batch.batchUpdateBuilder
  s.thinking.reasoningConfig.elim s.thinking.state.get? fun c =>
    clearEntries none (u.added.foldl
      (addRow (ThinkingTokenBudgetLogitsProcessor.thinkRow c)) s.thinking.state.get?) u.removedList

/-- No refresh of the run hands the thinking budget a one-way move of a row without a state
onto a row with one. -/
def KeepsThinking (s : LogitsSystem T) : LogitsOp → Prop
  | .change _ => True
  | .refreshMetadata _ =>
    ThinkingTokenBudgetLogitsProcessor.KeepsThinking s.thinkingRows
      s.rows.batch.batchUpdateBuilder.moved

instance (s : LogitsSystem T) : ∀ op, Decidable (s.KeepsThinking op)
  | .change _ => inferInstanceAs (Decidable True)
  | .refreshMetadata _ =>
    inferInstanceAs (Decidable (ThinkingTokenBudgetLogitsProcessor.KeepsThinking s.thinkingRows
      s.rows.batch.batchUpdateBuilder.moved))

/-- The runs where no one-way move takes a row without a state onto a row with one. -/
abbrev ThinkingReachable
    (newState : SamplingParams → Option (List Token) → List Token → Option T)
    (truthy : T → Bool) : LogitsSystem T → Prop :=
  Reachable Start
    (OpStep (fun s op => Issued s op ∧ KeepsThinking s op) (runLogitsOp newState truthy))

/-- Whose state it is, and with which budget. -/
def ownerOf (state : ThinkState) : ReqId × Int := (state.outputTokIds, state.thinkingTokenBudget)

theorem ownerOf_updateThinkState (c : ReasoningConfig) (outputs : ReqId → List Token)
    (state : ThinkState) : ownerOf (c.updateThinkState outputs state) = ownerOf state := by
  have hscan : ∀ (state : ThinkState) (output : List Token) (prevLength : Nat),
      ownerOf (c.scanThinkState state output prevLength) = ownerOf state := by
    intro state output prevLength
    unfold ReasoningConfig.scanThinkState
    dsimp only
    split
    · rfl
    · split
      · rfl
      · split <;> rfl
  have hcount : ∀ state : ThinkState,
      ownerOf (ReasoningConfig.countDownThinkState state) = ownerOf state := by
    intro state
    unfold ReasoningConfig.countDownThinkState
    dsimp only
    split <;> rfl
  unfold ReasoningConfig.updateThinkState
  dsimp only
  split
  · rfl
  · split
    · rfl
    · split
      · rw [hcount, hscan]
        rfl
      · split <;> rfl

/-- The processor follows the rows, and the states are those of their requests. -/
structure ThinkingInv (s : LogitsSystem T) : Prop where
  rows : s.rows.Inv
  states : ∀ c, s.thinking.reasoningConfig = some c →
    s.rows.batch.Tracks none (ThinkingTokenBudgetLogitsProcessor.thinkRow c)
      s.thinking.state.get? s.thinkStates
  disabled : s.thinking.reasoningConfig = none →
    (∀ k, s.thinking.state.get? k = none) ∧ ∀ id, s.thinkStates id = none
  owner : ∀ id, (s.thinkStates id).map ownerOf = (s.rows.recompute none budgetOf id).map (id, ·)

theorem start_thinkingInv (h : s.Start) : s.ThinkingInv := by
  refine ⟨start_rows h, ?_, ?_, ?_⟩
  · obtain ⟨_, _, _, _, _, _, _, _, _, rfl⟩ := h
    exact fun _ _ => start_tracks
  · obtain ⟨_, _, _, _, _, _, _, _, _, rfl⟩ := h
    exact fun _ => ⟨fun _ => rfl, fun _ => rfl⟩
  · obtain ⟨_, _, _, _, _, _, _, _, _, rfl⟩ := h
    exact fun _ => rfl

theorem thinkRow_toAddedRequest (c : ReasoningConfig) (r : CachedRequestState) (i : Nat)
    (p : SamplingParams) (hp : r.samplingParams = some p) :
    ThinkingTokenBudgetLogitsProcessor.thinkRow c (r.toAddedRequest i p) =
      thinkOf (some c) r := by
  unfold thinkOf
  rw [hp]
  rfl

theorem ownerOf_thinkOf {config : Option ReasoningConfig} {r : CachedRequestState}
    (h : config = none → budgetOf r = none) :
    (thinkOf config r).map ownerOf = (budgetOf r).map (r.reqId, ·) := by
  unfold thinkOf
  cases config with
  | none =>
    rw [h rfl]
    rfl
  | some c =>
    unfold budgetOf
    cases r.samplingParams with
    | none => rfl
    | some p =>
      show (p.thinkingTokenBudget.map _).map ownerOf = p.thinkingTokenBudget.map _
      rw [Option.map_map]
      rfl

theorem ThinkingInv.change (h : s.ThinkingInv) {op : BatchOp} (hop : s.Issued (.change op))
    (hrun : s.runLogitsOp newState truthy (.change op) = .ok s') : s'.ThinkingInv := by
  simp only [LogitsSystem.runLogitsOp, bind_ok, pure_ok] at hrun
  obtain ⟨rows, hrows, rfl⟩ := hrun
  refine ⟨h.rows.runBatchOp hop.1 hrows, ?_, ?_, ?_⟩
  · intro c hc
    have ht := h.rows.tracks (h.states c hc) (thinkRow_toAddedRequest c) hop.1 hop.2.1 hrows
    rw [hc]
    exact ht
  · intro hc
    obtain ⟨hstate, hnone⟩ := h.disabled hc
    refine ⟨hstate, fun id => ?_⟩
    rw [hc]
    cases op with
    | addRequest r =>
      show update s.thinkStates r.reqId none id = none
      rw [update_apply, hnone, ite_self]
    | removeRequest id' =>
      show update s.thinkStates id' none id = none
      rw [update_apply, hnone, ite_self]
    | condense | swapStates _ _ | updateReqSpecTokenIds _ _ | refreshMetadata => exact hnone id
  · intro id
    have howner := h.owner id
    rw [BatchSystem.recompute_runBatchOp hrows]
    cases op with
    | addRequest r =>
      simp only [BatchOp.owned, update_apply]
      split
      next hid =>
        rw [hid]
        exact ownerOf_thinkOf hop.2.2
      · exact howner
    | removeRequest id' =>
      simp only [BatchOp.owned, update_apply]
      split
      · rfl
      · exact howner
    | condense | swapStates _ _ | updateReqSpecTokenIds _ _ | refreshMetadata => exact howner

theorem thinking_updateState_getAndReset {p : ThinkingTokenBudgetLogitsProcessor}
    {c : ReasoningConfig} (hc : p.reasoningConfig = some c)
    (h : MovesApart u.moved)
    (hkeep : ThinkingTokenBudgetLogitsProcessor.KeepsThinking
      (clearEntries none (u.added.foldl
        (addRow (ThinkingTokenBudgetLogitsProcessor.thinkRow c)) p.state.get?) u.removedList)
      u.moved) (batchSize : Nat) (outputs : ReqId → List Token) (k : Nat) :
    (p.updateState (u.getAndReset batchSize).1 outputs).state.get? k =
      (replay none (ThinkingTokenBudgetLogitsProcessor.thinkRow c) u.added u.removedList u.moved
        p.state.get? k).map (c.updateThinkState outputs) := by
  rcases getAndReset_cases u batchSize with ⟨hremoved, hmoved, hadded, hnone⟩ | hsome
  · rw [hnone, hremoved, hmoved, hadded, replay_nil]
    unfold ThinkingTokenBudgetLogitsProcessor.updateState
    rw [hc]
    exact Dict.get?_mapValues _ _ k
  · rw [hsome]
    exact ThinkingTokenBudgetLogitsProcessor.get?_updateState hc
      (u := ⟨batchSize, u.removedList, u.added, u.moved⟩) h hkeep outputs k

theorem thinking_updateState_config (p : ThinkingTokenBudgetLogitsProcessor)
    (batchUpdate : Option BatchUpdate) (outputs : ReqId → List Token) :
    (p.updateState batchUpdate outputs).reasoningConfig = p.reasoningConfig ∧
      (p.reasoningConfig = none → p.updateState batchUpdate outputs = p) := by
  unfold ThinkingTokenBudgetLogitsProcessor.updateState
  cases hc : p.reasoningConfig with
  | none => exact ⟨hc, fun _ => rfl⟩
  | some c => exact ⟨rfl, fun h => nomatch h⟩

theorem ThinkingInv.refreshMetadata (h : s.ThinkingInv) {outputs : ReqId → List Token}
    (hop : s.Issued (.refreshMetadata outputs)) (hkeep : s.KeepsThinking (.refreshMetadata outputs))
    (hrun : s.runLogitsOp newState truthy (.refreshMetadata outputs) = .ok s') :
    s'.ThinkingInv := by
  simp only [LogitsSystem.runLogitsOp, bind_ok, pure_ok] at hrun
  obtain ⟨rows, hrows, rfl⟩ := hrun
  obtain ⟨hconfig, hsame⟩ := thinking_updateState_config s.thinking
    (s.rows.batch.batchUpdateBuilder.getAndReset s.rows.batch.numReqs).1 outputs
  have hissued : s.rows.Issued .refreshMetadata := hop
  refine ⟨h.rows.runBatchOp hissued hrows, ?_, ?_, ?_⟩
  · intro c hc
    rw [hconfig] at hc
    have ht := h.states c hc
    unfold KeepsThinking thinkingRows at hkeep
    rw [hc] at hkeep
    have hrow := thinking_updateState_getAndReset hc ht.oneWay hkeep s.rows.batch.numReqs outputs
    have hstates : (s.thinking.updateState
        (s.rows.batch.batchUpdateBuilder.getAndReset s.rows.batch.numReqs).1 outputs).state.get? =
          rows.batch.ownedRows none fun id =>
            refreshThink s.thinking.reasoningConfig outputs (s.thinkStates id) := by
      funext k
      rw [hrow, ht.rows, ownedRows_refreshMetadata hrows, hc]
      unfold InputBatch.ownedRows
      split <;> rfl
    rw [hstates]
    exact BatchSystem.tracks_refreshMetadata ht hrows _
  · intro hc
    rw [hconfig] at hc
    obtain ⟨hstate, hnone⟩ := h.disabled hc
    rw [hsame hc, hc]
    exact ⟨hstate, hnone⟩
  · intro id
    have howner := h.owner id
    have hlive : rows.recompute none budgetOf id = s.rows.recompute none budgetOf id := by
      unfold BatchSystem.recompute
      rw [(BatchSystem.refreshMetadata_rows hrows).1]
    rw [hlive, ← howner]
    cases s.thinking.reasoningConfig with
    | none => rfl
    | some c =>
      show ((s.thinkStates id).map _).map ownerOf = _
      rw [Option.map_map]
      exact congrArg (fun f => (s.thinkStates id).map f)
        (funext fun state => ownerOf_updateThinkState c outputs state)

theorem ThinkingReachable.thinkingInv (h : ThinkingReachable newState truthy s) :
    s.ThinkingInv :=
  h.invariant (fun _ => start_thinkingInv) fun _ _ hs hstep => by
    obtain ⟨op, ⟨hop, hkeep⟩, hrun⟩ := hstep
    cases op with
    | change op => exact hs.change hop hrun
    | refreshMetadata outputs => exact hs.refreshMetadata hop hkeep hrun

/-- The state of a row is the one of the request that is in it now, there is one exactly
where this request has a budget, and it names this request and its budget. -/
structure ThinkingFollows (s : LogitsSystem T) : Prop where
  own : ∀ (i : Nat) (id : ReqId), s.rows.batch.reqIds[i]? = some (some id) →
    s.thinking.state.get? i = s.thinkStates id
  free : ∀ i : Nat, (∀ id, s.rows.batch.reqIds[i]? ≠ some (some id)) →
    s.thinking.state.get? i = none
  budget : ∀ (i : Nat) (id : ReqId) (l : LiveRequest),
    s.rows.batch.reqIds[i]? = some (some id) → s.rows.live id = some l →
      (s.thinking.state.get? i).map ownerOf = (budgetOf l.request).map (id, ·)

/-- In every run where no one-way move takes a row without a state onto a row with one, the
states of the thinking budget follow their requests. -/
theorem thinking_follows (h : ThinkingReachable newState truthy s) (hr : s.Refreshed) :
    s.ThinkingFollows := by
  have hinv := ThinkingReachable.thinkingInv h
  have hstate : s.thinking.state.get? = s.rows.batch.ownedRows none s.thinkStates := by
    cases hc : s.thinking.reasoningConfig with
    | none =>
      obtain ⟨hstate, hnone⟩ := hinv.disabled hc
      funext k
      rw [hstate]
      unfold InputBatch.ownedRows
      split
      · exact (hnone _).symm
      · rfl
    | some c => exact hr.rows (hinv.states c hc)
  have hown : ∀ (i : Nat) (id : ReqId), s.rows.batch.reqIds[i]? = some (some id) →
      s.thinking.state.get? i = s.thinkStates id := by
    intro i id hat
    rw [hstate]
    exact InputBatch.ownedRows_some hat
  refine ⟨hown, ?_, ?_⟩
  · intro i hfree
    rw [hstate]
    exact InputBatch.ownedRows_empty hfree
  · intro i id l hat hl
    rw [hown i id hat, hinv.owner id]
    unfold BatchSystem.recompute
    rw [hl]
    rfl

/-- A request with a budget is moved onto the row of one that left, and another one comes. -/
def thinkingOps : List LogitsOp :=
  [.change (.addRequest (logitsRequest 7 0 (some 3) [])),
    .change (.addRequest (logitsRequest 8 0 none [])),
    .change (.addRequest (logitsRequest 9 0 (some 4) [])), .refreshMetadata fun _ => [],
    .change (.removeRequest 7), .change .condense, .refreshMetadata fun _ => [60]]

theorem thinking_follows_condensed : ∃ s : LogitsSystem (List Nat),
    ThinkingReachable allowedState listTruthy s ∧ s.rows.batch.reqIds = [some 9, some 8] ∧
      s.ThinkingFollows := by
  have hcheck : okWith (runOps (checked (fun s op => Issued s op ∧ KeepsThinking s op)
      (runLogitsOp allowedState listTruthy)) logitsStart thinkingOps) (fun s =>
        s.rows.batch.reqIds = [some 9, some 8] ∧ s.Refreshed) = true := by decide +kernel
  obtain ⟨s, hrun, hs⟩ := okWith_iff.mp hcheck
  obtain ⟨hids, hrefreshed⟩ := of_decide_eq_true hs
  have hreach : ThinkingReachable allowedState listTruthy s :=
    Reachable.runOps (.start logitsStart_start) hrun
  exact ⟨s, hreach, hids, thinking_follows hreach hrefreshed⟩

/-- A request without a budget is moved onto the row of one with a budget that left. -/
def inheritOps : List LogitsOp :=
  [.change (.addRequest (logitsRequest 7 0 (some 3) [])),
    .change (.addRequest (logitsRequest 8 0 none [])), .refreshMetadata fun _ => [],
    .change (.removeRequest 7), .change .condense, .refreshMetadata fun _ => []]

/-- The request without a budget has the state of the one that left. -/
theorem thinking_not_follows : ¬∀ s : LogitsSystem (List Nat),
    LogitsReachable allowedState listTruthy s → s.Refreshed → s.ThinkingFollows := by
  intro hall
  have hcheck : okWith (runOps (checked Issued (runLogitsOp allowedState listTruthy))
      logitsStart inheritOps) (fun s => s.Refreshed ∧
        s.rows.batch.reqIds[0]? = some (some 8) ∧
        (s.rows.live 8).map (fun l => budgetOf l.request) = some none ∧
        (s.thinking.state.get? 0).map ownerOf = some (7, 3)) = true := by decide +kernel
  obtain ⟨s, hrun, hs⟩ := okWith_iff.mp hcheck
  obtain ⟨hrefreshed, hids, hlive, hstate⟩ := of_decide_eq_true hs
  obtain ⟨l, hl, hnone⟩ := map_eq_some_iff.mp hlive
  have hreach : LogitsReachable allowedState listTruthy s :=
    Reachable.runOps (.start logitsStart_start) hrun
  have hbudget := (hall s hreach hrefreshed).budget 0 8 l hids hl
  rw [hstate, hnone] at hbudget
  cases hbudget

end LogitsSystem

end VllmCore.Worker
