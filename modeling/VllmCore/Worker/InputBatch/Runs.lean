import VllmCore.Support.Transition
import VllmCore.Worker.InputBatch.Condense
/-!
# Runs of the batch

The calls of the model runner, with the requests that the batch should hold after each
of them.  In every run each row of a condensed batch holds the state of its request.
-/

namespace VllmCore.Worker

open Function Support

namespace InputBatch

variable {b b' : InputBatch} {live : ReqId → Option LiveRequest}

theorem getAndReset_builder (u : BatchUpdateBuilder) (batchSize : Nat) :
    (u.getAndReset batchSize).2 = {} := by
  unfold BatchUpdateBuilder.getAndReset
  split <;> rfl

theorem refreshMetadata_ok (h : b.refreshMetadata = .ok b') :
    ∃ mask, b' = { b with batchUpdateBuilder := {}, samplingAllowedMask := mask } := by
  have hreset : (if b.isPoolingModel then b.batchUpdateBuilder.reset
      else ((b.batchUpdateBuilder.getAndReset b.numReqs).1.isSome,
        (b.batchUpdateBuilder.getAndReset b.numReqs).2)).2 = {} := by
    split
    · rfl
    · exact getAndReset_builder _ _
  unfold refreshMetadata at h
  dsimp only at h
  generalize (if b.isPoolingModel then b.batchUpdateBuilder.reset
      else ((b.batchUpdateBuilder.getAndReset b.numReqs).1.isSome,
        (b.batchUpdateBuilder.getAndReset b.numReqs).2)) = res at hreset h
  rw [hreset] at h
  split at h
  · simp only [bind_ok, pure_ok] at h
    obtain ⟨mask, _, rfl⟩ := h
    exact ⟨mask, rfl⟩
  · rw [pure_ok] at h
    exact ⟨_, h.symm⟩

theorem Simulates.refreshMetadata (h : b.Simulates live) (hc : b.Condensed)
    (hr : b.refreshMetadata = .ok b') : b'.Simulates live ∧ b'.HolesInv := by
  obtain ⟨mask, rfl⟩ := refreshMetadata_ok hr
  refine ⟨⟨h.index, h.isLive, h.named, h.row, h.entry, h.embeds, h.fits, h.outputs_length,
    h.specs_length, h.beyond, h.clear, h.pooling⟩,
    ⟨List.nodup_nil, by simp, ?_, .inl (by simp)⟩⟩
  intro k hk
  have := condensed_iff.mp hc k hk
  simp [this]

end InputBatch

/-! ## Runs -/

/-- The batch, with the requests it should hold. -/
structure BatchSystem where
  batch : InputBatch
  live : ReqId → Option LiveRequest := fun _ => none

inductive BatchOp
  | addRequest (request : CachedRequestState)
  | removeRequest (reqId : ReqId)
  | condense
  | swapStates (i₁ i₂ : Nat)
  | updateReqSpecTokenIds (reqId : ReqId) (specTokenIds : List Token)
  | refreshMetadata

namespace BatchSystem

/-- When the model runner makes a call: it adds requests that are not in the batch, of the
kind that the model serves, and refreshes the metadata of a condensed batch. -/
def Issued (s : BatchSystem) : BatchOp → Prop
  | .addRequest r => s.batch.reqIdToIndex.get? r.reqId = none ∧ s.batch.Fits r
  | .refreshMetadata => s.batch.Condensed
  | _ => True

instance (s : BatchSystem) : ∀ op, Decidable (s.Issued op)
  | .addRequest r =>
    inferInstanceAs (Decidable (s.batch.reqIdToIndex.get? r.reqId = none ∧
      r.samplingParams.isSome = !s.batch.isPoolingModel))
  | .refreshMetadata => inferInstanceAs (Decidable s.batch.Condensed)
  | .removeRequest _ | .condense | .swapStates _ _ | .updateReqSpecTokenIds _ _ =>
    inferInstanceAs (Decidable True)

/-- One call, with its effect on the requests that the batch should hold. -/
def runBatchOp (s : BatchSystem) : BatchOp → Py BatchSystem
  | .addRequest r => do
    let (_, b) ← s.batch.addRequest r
    return ⟨b, update s.live r.reqId (some ⟨r, []⟩)⟩
  | .removeRequest id => do
    let (_, b) ← s.batch.removeRequest id
    return ⟨b, update s.live id none⟩
  | .condense => do
    let b ← s.batch.condense
    return ⟨b, s.live⟩
  | .swapStates i₁ i₂ => do
    let b ← s.batch.swapStates i₁ i₂
    return ⟨b, s.live⟩
  | .updateReqSpecTokenIds id toks => do
    let b ← s.batch.updateReqSpecTokenIds id toks
    return ⟨b, update s.live id
      ((s.live id).map fun l => { l with specTokenIds := toks })⟩
  | .refreshMetadata => do
    let b ← s.batch.refreshMetadata
    return ⟨b, s.live⟩

/-- What a call that succeeds leaves. -/
inductive Ran (s : BatchSystem) : BatchOp → BatchSystem → Prop
  | addRequest {r : CachedRequestState} {i : Nat} {b : InputBatch}
      (hadd : s.batch.addRequest r = .ok (i, b)) :
      Ran s (.addRequest r) ⟨b, update s.live r.reqId (some ⟨r, []⟩)⟩
  | removeRequest {id : ReqId} {res : Option Nat} {b : InputBatch}
      (hremove : s.batch.removeRequest id = .ok (res, b)) :
      Ran s (.removeRequest id) ⟨b, update s.live id none⟩
  | condense {b : InputBatch} (hcond : s.batch.condense = .ok b) : Ran s .condense ⟨b, s.live⟩
  | swapStates {i₁ i₂ : Nat} {id₁ id₂ : ReqId} {b : InputBatch}
      (hswap : s.batch.swapStates i₁ i₂ = .ok b) (hs : s.batch.Swaps b i₁ i₂ id₁ id₂) :
      Ran s (.swapStates i₁ i₂) ⟨b, s.live⟩
  | updateReqSpecTokenIds {id : ReqId} {toks : List Token} {b : InputBatch}
      (hspec : s.batch.updateReqSpecTokenIds id toks = .ok b) :
      Ran s (.updateReqSpecTokenIds id toks)
        ⟨b, update s.live id ((s.live id).map fun l => { l with specTokenIds := toks })⟩
  | refreshMetadata {b : InputBatch} (href : s.batch.refreshMetadata = .ok b) :
      Ran s .refreshMetadata ⟨b, s.live⟩

theorem ran {s s' : BatchSystem} {op : BatchOp} (hrun : s.runBatchOp op = .ok s') :
    s.Ran op s' := by
  cases op <;> simp only [runBatchOp, bind_ok, pure_ok] at hrun
  case addRequest | removeRequest =>
    obtain ⟨_, h, rfl⟩ := hrun
    constructor
    exact h
  case swapStates =>
    obtain ⟨_, hswap, rfl⟩ := hrun
    obtain ⟨_, _, hs⟩ := InputBatch.swapStates_ok hswap
    exact .swapStates hswap hs
  all_goals
    obtain ⟨_, h, rfl⟩ := hrun
    constructor
    exact h

def Start (s : BatchSystem) : Prop :=
  ∃ pooling maxNumReqs maxModelLen vocabSize float32 tables uninit uninitInt,
    s = ⟨.create pooling maxNumReqs maxModelLen vocabSize float32 tables uninit uninitInt,
      fun _ => none⟩

abbrev BatchReachable : BatchSystem → Prop :=
  Reachable Start (OpStep Issued runBatchOp)

/-- The batch holds what belongs to its requests, and knows its holes. -/
structure Inv (s : BatchSystem) : Prop where
  simulates : s.batch.Simulates s.live
  holes : s.batch.HolesInv

theorem start_inv {s : BatchSystem} (h : Start s) : s.Inv := by
  obtain ⟨pooling, maxNumReqs, maxModelLen, vocabSize, float32, tables, uninit, uninitInt,
    rfl⟩ := h
  constructor
  · refine ⟨by simp [InputBatch.create], by simp [InputBatch.create], by simp, by simp, ?_,
      by simp, by simp, rfl, by simp [InputBatch.create], ?_, fun _ _ => ⟨rfl, rfl⟩,
      fun _ _ => ⟨rfl, rfl⟩⟩
    · intro id
      simp [InputBatch.idEntry, InputBatch.create, IdEntry.absent]
    · intro k _
      simp only [InputBatch.specAt, InputBatch.create, List.getElem?_replicate]
      split <;> rfl
  · exact ⟨List.nodup_nil, by simp [InputBatch.create], by simp [InputBatch.create],
      .inl (by simp [InputBatch.create])⟩

theorem Inv.runBatchOp {s s' : BatchSystem} (h : s.Inv) {op : BatchOp} (hop : s.Issued op)
    (hrun : s.runBatchOp op = .ok s') : s'.Inv := by
  cases BatchSystem.ran hrun with
  | addRequest hadd =>
    obtain ⟨hs, hh⟩ := h.simulates.addRequest h.holes hop.2 hop.1 hadd
    exact ⟨hs, hh⟩
  | @removeRequest id _ _ hremove =>
    rcases InputBatch.removeRequest_ok hremove with ⟨hnone, rfl⟩ | ⟨i, hr⟩
    · have hlive : update s.live id none = s.live := by
        rw [← h.simulates.live_none hnone, update_eq_self]
      rw [hlive]
      exact h
    · exact ⟨h.simulates.removes hr, h.holes.removes h.simulates hr⟩
  | condense hcond =>
    obtain ⟨hs, hh, _⟩ := h.simulates.condense h.holes hcond
    exact ⟨hs, hh⟩
  | swapStates _ hs =>
    exact ⟨h.simulates.swaps hs, h.holes.swaps hs⟩
  | updateReqSpecTokenIds hspec =>
    obtain ⟨hs, hh⟩ := h.simulates.updateReqSpecTokenIds h.holes hspec
    exact ⟨hs, hh⟩
  | refreshMetadata href =>
    obtain ⟨hs, hh⟩ := h.simulates.refreshMetadata hop href
    exact ⟨hs, hh⟩

theorem BatchReachable.inv {s : BatchSystem} (h : BatchReachable s) : s.Inv :=
  h.invariant (fun _ => start_inv) fun _ _ hs hstep => by
    obtain ⟨op, hop, hrun⟩ := hstep
    exact hs.runBatchOp hop hrun

/-! ## The result -/

/-- The rows of a condensed batch are those of its requests: the ids and the index are
inverse to each other, and every column of a row holds the value of its request. -/
structure RowsMatch (s : BatchSystem) : Prop where
  length : s.batch.reqIds.length = s.batch.numReqs
  inverse : ∀ id i, s.batch.reqIdToIndex.get? id = some i ↔ s.batch.reqIds[i]? = some (some id)
  rows : ∀ i < s.batch.numReqs, ∃ id l, s.batch.reqIds[i]? = some (some id) ∧
    s.live id = some l ∧ l.request.reqId = id ∧
    s.batch.row i = l.row s.batch.config ∧
    s.batch.idEntry id = l.idEntry s.batch.config ∧
    ∀ e, l.request.promptEmbeds = some e → s.batch.reqPromptEmbeds.get? i = some e
  complete : ∀ id, s.live id ≠ none → ∃ i < s.batch.numReqs, s.batch.reqIds[i]? = some (some id)

theorem Inv.rowsMatch {s : BatchSystem} (h : s.Inv) (hc : s.batch.Condensed) : s.RowsMatch := by
  have hsim := h.simulates
  have hnum := hsim.numReqs_of_condensed hc
  refine ⟨hnum.symm, hsim.index, ?_, ?_⟩
  · intro i hi
    rw [hnum] at hi
    obtain ⟨x, hx⟩ : ∃ x, s.batch.reqIds[i]? = some x := ⟨_, List.getElem?_eq_getElem hi⟩
    cases x with
    | none => exact absurd hx (InputBatch.condensed_iff.mp hc i hi)
    | some id =>
      have hget := (hsim.index id i).mpr hx
      obtain ⟨l, hl⟩ := Option.ne_none_iff_exists'.mp ((hsim.isLive id).mpr ⟨i, hget⟩)
      refine ⟨id, l, hx, hl, hsim.named id l hl, hsim.row id l i hl hget, ?_, ?_⟩
      · rw [hsim.entry, hl]
        rfl
      · exact fun e he => hsim.embeds id l i e hl hget he
  · intro id hid
    obtain ⟨i, hi⟩ := (hsim.isLive id).mp hid
    have hat := (hsim.index id i).mp hi
    exact ⟨i, by rw [hnum]; exact (List.getElem?_eq_some_iff.mp hat).1, hat⟩

/-- In every run, each row of a condensed batch holds the state of its request. -/
theorem rows_match {s : BatchSystem} (h : BatchReachable s) (hc : s.batch.Condensed) :
    s.RowsMatch :=
  (BatchReachable.inv h).rowsMatch hc

def exampleRequest (id : ReqId) (prompt : List Token) (temperature : ℚ) :
    CachedRequestState where
  reqId := id
  promptTokenIds := some prompt
  samplingParams := some { samplingType := .random, temperature := temperature }
  generator := some id
  blockIds := [[id]]
  numComputedTokens := 0
  numPromptTokens := prompt.length
  promptLength := rfl

def exampleStart : BatchSystem :=
  ⟨.create false 4 8 100 id [{ maxNumBlocksPerReq := 8 }] (fun _ => 0) (fun _ => 0),
    fun _ => none⟩

/-- Three requests come, the first one leaves, and two rows are exchanged. -/
def exampleOps : List BatchOp :=
  [.addRequest (exampleRequest 7 [10, 11] 1), .addRequest (exampleRequest 8 [20] 2),
    .addRequest (exampleRequest 9 [30, 31, 32] 3), .updateReqSpecTokenIds 9 [40, 41],
    .refreshMetadata, .removeRequest 7, .condense, .swapStates 0 1, .refreshMetadata]

theorem rows_match_swapped : ∃ s : BatchSystem, BatchReachable s ∧
    s.batch.reqIds = [some 8, some 9] ∧ s.batch.temperatureCpu 1 = 3 ∧ s.RowsMatch := by
  obtain ⟨s, hrun, hids, htemp, hc⟩ : ∃ s : BatchSystem,
      runOps (checked Issued runBatchOp) exampleStart exampleOps = .ok s ∧
        s.batch.reqIds = [some 8, some 9] ∧ s.batch.temperatureCpu 1 = 3 ∧
        s.batch.Condensed :=
    ⟨_, rfl, by decide, by decide, by decide⟩
  have hreach : BatchReachable s :=
    Reachable.runOps (.start ⟨false, 4, 8, 100, id, _, _, _, rfl⟩) hrun
  exact ⟨s, hreach, hids, htemp, rows_match hreach hc⟩

end BatchSystem

end VllmCore.Worker
