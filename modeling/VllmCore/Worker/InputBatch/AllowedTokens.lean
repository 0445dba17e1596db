import VllmCore.Worker.InputBatch.Runs
/-!
# The mask of the allowed tokens

The mask is a tensor that is allocated when the first request restricts its tokens.  Two
operations leave a row that does not belong to its request.  `swap_states` assigns
row views to each other, so both rows end with the mask of the second; and
`condense` does not clear the row it moves away from, which an unrestricted request may
take later.  In runs that do neither, every row of the mask follows its request.
-/

namespace VllmCore.Worker

open Function Option Support Dict

/-- The tokens that a request forbids: none, if it has no list of allowed tokens. -/
def LiveRequest.forbids (l : LiveRequest) (t : Nat) : Bool :=
  match l.request.samplingParams with
  | some p => p.allowedTokenIds ≠ [] ∧ t ∉ p.allowedTokenIds
  | none => false

def LiveRequest.restricts (l : LiveRequest) : Bool :=
  match l.request.samplingParams with
  | some p => p.allowedTokenIds ≠ []
  | none => false

theorem LiveRequest.forbids_of_not_restricts {l : LiveRequest} (h : l.restricts = false)
    (t : Nat) : l.forbids t = false := by
  unfold restricts at h
  unfold forbids
  cases hs : l.request.samplingParams with
  | none => rfl
  | some p =>
    rw [hs] at h
    simp [h]

namespace BatchSystem

/-- The call leaves a mask row with its request: rows that are exchanged have the same mask,
and a request without allowed tokens takes a row that forbids nothing. -/
def KeepsMask (s : BatchSystem) : BatchOp → Prop
  | .addRequest r =>
    LiveRequest.restricts ⟨r, []⟩ = true ∨
      ∀ m ∈ s.batch.allowedTokenIdsMaskCpu, ∀ t < s.batch.vocabSize,
        m s.batch.nextIndex t = false
  | .swapStates i₁ i₂ =>
    ∀ m ∈ s.batch.allowedTokenIdsMaskCpu, ∀ t < s.batch.vocabSize, m i₁ t = m i₂ t
  | _ => True

instance (s : BatchSystem) : ∀ op, Decidable (s.KeepsMask op)
  | .addRequest r =>
    inferInstanceAs (Decidable (LiveRequest.restricts ⟨r, []⟩ = true ∨
      ∀ m ∈ s.batch.allowedTokenIdsMaskCpu, ∀ t < s.batch.vocabSize,
        m s.batch.nextIndex t = false))
  | .swapStates i₁ i₂ =>
    inferInstanceAs (Decidable (∀ m ∈ s.batch.allowedTokenIdsMaskCpu,
      ∀ t < s.batch.vocabSize, m i₁ t = m i₂ t))
  | .removeRequest _ | .condense | .refreshMetadata | .updateReqSpecTokenIds _ _ =>
    inferInstanceAs (Decidable True)

abbrev MaskReachable : BatchSystem → Prop :=
  Reachable Start (OpStep (fun s op => Issued s op ∧ KeepsMask s op) runBatchOp)

/-- The mask that sampling uses forbids, in each row, what the request of the row
forbids. -/
def MaskMatches (s : BatchSystem) : Prop :=
  (∃ id l, s.live id = some l ∧ l.restricts = true) →
    ∃ rows, s.batch.samplingAllowedMask = some rows ∧ rows.length = s.batch.numReqs ∧
      ∀ i < s.batch.numReqs, ∃ id l row, s.batch.reqIds[i]? = some (some id) ∧
        s.live id = some l ∧ rows[i]? = some row ∧
        ∀ t < s.batch.vocabSize, row t = l.forbids t

end BatchSystem

namespace InputBatch

variable {b b' : InputBatch} {live : ReqId → Option LiveRequest}

/-- The mask tensor follows the requests, and is there when one of them needs it. -/
structure MaskFollows (b : InputBatch) (live : ReqId → Option LiveRequest) : Prop where
  follows : ∀ m, b.allowedTokenIdsMaskCpu = some m → ∀ id l i, live id = some l →
    b.reqIdToIndex.get? id = some i → ∀ t < b.vocabSize, m i t = l.forbids t
  absent : b.allowedTokenIdsMaskCpu = none → ∀ id l, live id = some l → l.restricts = false
  pooling : b.isPoolingModel = true → b.allowedTokenIdsMaskCpu = none

/-! ## The mask column of each operation -/

variable {i i₁ i₂ : Nat} {r : CachedRequestState} {id id₁ id₂ : ReqId} {res : Option Nat}

theorem addRequest_mask (h : b.addRequest r = .ok (i, b')) :
    b'.vocabSize = b.vocabSize ∧ b'.allowedTokenIdsMaskCpu = if LiveRequest.restricts ⟨r, []⟩ then
        some (update (b.allowedTokenIdsMaskCpu.getD fun _ _ => false) b.nextIndex
          (LiveRequest.forbids ⟨r, []⟩)) else b.allowedTokenIdsMaskCpu := by
  simp only [InputBatch.addRequest, bind_ok, pure_ok] at h
  obtain ⟨⟨j, b₁⟩, hreg, b₂, hplace, b₃, hcopy, b₄, hparams, hres⟩ := h
  obtain ⟨rfl, rfl⟩ := Prod.mk.inj hres
  obtain ⟨rfl, hb₁, _⟩ := registerAddRequest_ok hreg
  have hb₂ := (InputBatch.placeRequest_spec hplace).2
  simp only [InputBatch.copyTokens, r.promptLength, ok_bind, bind_ok, require_ok,
    pure_ok] at hcopy
  obtain ⟨_, _, _, _, hb₃⟩ := hcopy
  have hmask₃ : b₃.vocabSize = b.vocabSize ∧
      b₃.allowedTokenIdsMaskCpu = b.allowedTokenIdsMaskCpu := by
    rw [← hb₃]
    rw [hb₂, hb₁]
    exact ⟨rfl, rfl⟩
  have hlora : ∀ (c : InputBatch) (j : Nat), (c.addLora r j).vocabSize = c.vocabSize ∧
      (c.addLora r j).allowedTokenIdsMaskCpu = c.allowedTokenIdsMaskCpu := by
    intro c j
    unfold InputBatch.addLora
    split <;> exact ⟨rfl, rfl⟩
  rw [(hlora _ _).1, (hlora _ _).2]
  unfold LiveRequest.restricts LiveRequest.forbids
  cases hs : r.samplingParams with
  | some p =>
    rw [hs] at hparams
    have hb₄ := InputBatch.addSamplingParams_ok hparams
    rw [hb₄]
    refine ⟨hmask₃.1, ?_⟩
    rw [hmask₃.2]
    by_cases hnil : p.allowedTokenIds = []
    · simp [hnil]
    · simp only [hnil, if_false, ne_eq, not_false_eq_true, decide_true, if_true, true_and,
        Option.some.injEq]
      rfl
  | none =>
    rw [hs] at hparams
    cases hp : r.poolingParams with
    | none =>
      rw [hp] at hparams
      cases hparams
    | some p =>
      rw [hp] at hparams
      simp only [InputBatch.addPoolingParams] at hparams
      cases hst : r.poolingStates with
      | none =>
        rw [hst] at hparams
        cases hparams
      | some st =>
        rw [hst] at hparams
        cases hparams
        exact hmask₃

theorem removeRequest_mask (h : b.removeRequest id = .ok (res, b')) :
    b'.allowedTokenIdsMaskCpu = b.allowedTokenIdsMaskCpu ∨
      ∃ i, b.reqIdToIndex.get? id = some i ∧ b'.allowedTokenIdsMaskCpu =
        b.allowedTokenIdsMaskCpu.map fun m => update m i fun _ => false := by
  unfold removeRequest at h
  cases hi : b.reqIdToIndex.get? id with
  | none =>
    rw [hi] at h
    cases h
    exact .inl rfl
  | some i =>
    rw [hi] at h
    simp only [bind_ok, pySet_natCast_ok, BatchUpdateBuilder.removedAppend, require_ok,
      pure_ok] at h
    obtain ⟨_, ⟨_, _, rfl⟩, _, ⟨_, rfl⟩, _, ⟨_, rfl⟩, _, ⟨_, rfl⟩, b₁, hlora, h⟩ := h
    have hb₁ := (removeLora_ok hlora).1
    have hmask : b₁.allowedTokenIdsMaskCpu = b.allowedTokenIdsMaskCpu := by rw [hb₁]
    by_cases hpool : b₁.isPoolingModel = true
    · rw [if_pos hpool, pure_ok, Prod.mk.injEq] at h
      obtain ⟨_, rfl⟩ := h
      exact .inl hmask
    · rw [if_neg hpool, pure_ok, Prod.mk.injEq] at h
      obtain ⟨_, rfl⟩ := h
      refine .inr ⟨i, rfl, ?_⟩
      simp only [removeSamplingParams, hmask]

theorem Swaps.mask (h : b.Swaps b' i₁ i₂ id₁ id₂) :
    b'.allowedTokenIdsMaskCpu = if b.isPoolingModel then b.allowedTokenIdsMaskCpu
      else b.allowedTokenIdsMaskCpu.map fun m => swapMaskRows m i₁ i₂ := by
  obtain ⟨n, _, _, hb'⟩ := h.columns
  rw [hb']
  split <;> rfl

theorem Moves.mask {src tgt : Nat} (h : b.Moves b' src tgt id) :
    b'.allowedTokenIdsMaskCpu = if b.isPoolingModel then b.allowedTokenIdsMaskCpu
      else b.allowedTokenIdsMaskCpu.map fun m => update m tgt (m src) := by
  rw [h.columns]
  split <;> rfl

theorem swapMaskRows_apply (m : Nat → Nat → Bool) (i₁ i₂ k : Nat) :
    swapMaskRows m i₁ i₂ k = if k = i₁ ∨ k = i₂ then m i₂ else m k := by
  unfold swapMaskRows
  by_cases h₂ : k = i₂
  · subst h₂
    simp
  · by_cases h₁ : k = i₁
    · subst h₁
      simp [update_of_ne h₂]
    · simp [h₁, h₂]

/-! ## What keeps the mask -/

theorem MaskFollows.keptByCondense : KeptByCondense live fun b => b.MaskFollows live where
  sorted h := ⟨h.follows, h.absent, h.pooling⟩
  trimmed _ _ h := ⟨h.follows, h.absent, h.pooling⟩
  moves {b b' src tgt id} hs hempty _ hm h := by
    obtain ⟨hconfig, _⟩ := hm.same
    have hpool : b'.isPoolingModel = b.isPoolingModel :=
      congrArg BatchConfig.isPoolingModel hconfig
    have hvocab : b'.vocabSize = b.vocabSize := congrArg BatchConfig.vocabSize hconfig
    have hmask := hm.mask
    have hget := (hs.index id src).mpr hm.at_src
    dsimp only at hmask
    refine ⟨?_, ?_, ?_⟩
    · intro m hm' id' l i hl hi t ht
      rw [hvocab] at ht
      cases hp : b.isPoolingModel with
      | true =>
        rw [hp, if_pos rfl, h.pooling hp] at hmask
        rw [hmask] at hm'
        cases hm'
      | false =>
        rw [hp, if_neg Bool.false_ne_true] at hmask
        rw [hmask] at hm'
        obtain ⟨m₀, hm₀, rfl⟩ := map_eq_some_iff.mp hm'
        rw [hm.index, get?_set] at hi
        split at hi
        · rename_i hid
          cases hi
          rw [update_self]
          exact h.follows m₀ hm₀ id' l src hl (hid ▸ hget) t ht
        · rw [update_of_ne]
          · exact h.follows m₀ hm₀ id' l i hl hi t ht
          · rintro rfl
            have hat := (hs.index id' i).mp hi
            rw [hempty] at hat
            simp at hat
    · intro hnone
      apply h.absent
      rw [hmask] at hnone
      split at hnone
      · exact hnone
      · simpa using hnone
    · intro hp
      rw [hpool] at hp
      rw [hmask, hp, if_pos rfl]
      exact h.pooling hp

theorem MaskFollows.addRequest (hs : b.Simulates live) (hh : b.HolesInv) (h : b.MaskFollows live)
    (hfits : b.Fits r) (hnew : b.reqIdToIndex.get? r.reqId = none)
    (hkeep : LiveRequest.restricts ⟨r, []⟩ = true ∨
      ∀ m ∈ b.allowedTokenIdsMaskCpu, ∀ t < b.vocabSize, m b.nextIndex t = false)
    (hadd : b.addRequest r = .ok (i, b')) :
    b'.MaskFollows (update live r.reqId (some ⟨r, []⟩)) := by
  obtain ⟨rfl, hplaces, honly, _⟩ := hs.adds hh hfits hnew hadd
  obtain ⟨hvocab, hmask⟩ := addRequest_mask hadd
  have hpool : b'.isPoolingModel = b.isPoolingModel :=
    congrArg BatchConfig.isPoolingModel honly.config
  have hindex : ∀ id i, b'.reqIdToIndex.get? id = some i → id ≠ r.reqId →
      b.reqIdToIndex.get? id = some i ∧ i ≠ b.nextIndex := by
    intro id i hi hid
    rw [hplaces.index, get?_set_ne _ _ hid] at hi
    refine ⟨hi, ?_⟩
    rintro rfl
    exact hs.nextIndex_free hh id ((hs.index id _).mp hi)
  refine ⟨?_, ?_, ?_⟩
  · intro m hm id l i hl hi t ht
    rw [hvocab] at ht
    rw [update_apply] at hl
    split at hl
    · rename_i hid
      cases hl
      rw [hplaces.index, hid, get?_set_self] at hi
      cases hi
      rw [hmask] at hm
      split at hm
      · cases hm
        rw [update_self]
      · rename_i hno
        have hno' : LiveRequest.restricts ⟨r, []⟩ = false := by simpa using hno
        rw [LiveRequest.forbids_of_not_restricts hno']
        exact (hkeep.resolve_left hno) m hm t ht
    · rename_i hid
      obtain ⟨hi, hne⟩ := hindex id i hi hid
      rw [hmask] at hm
      split at hm
      · cases hm
        rw [update_of_ne hne]
        cases hold : b.allowedTokenIdsMaskCpu with
        | some m₀ => exact h.follows m₀ hold id l i hl hi t ht
        | none =>
          rw [LiveRequest.forbids_of_not_restricts (h.absent hold id l hl)]
          rfl
      · exact h.follows m hm id l i hl hi t ht
  · intro hnone id l hl
    rw [hmask] at hnone
    split at hnone
    · cases hnone
    · rename_i hno
      rw [update_apply] at hl
      split at hl
      · cases hl
        simpa using hno
      · exact h.absent hnone id l hl
  · intro hp
    rw [hpool] at hp
    unfold Fits at hfits
    rw [hp] at hfits
    have hsampling : r.samplingParams = none := by simpa using hfits
    have hno : LiveRequest.restricts ⟨r, []⟩ = false := by
      simp [LiveRequest.restricts, hsampling]
    rw [hmask, hno]
    exact h.pooling hp

theorem MaskFollows.removeRequest (hs : b.Simulates live) (h : b.MaskFollows live)
    (hr : b.removeRequest id = .ok (res, b')) : b'.MaskFollows (update live id none) := by
  rcases removeRequest_ok hr with ⟨hnone, rfl⟩ | ⟨i, hrem⟩
  · rw [← hs.live_none hnone, update_eq_self]
    exact h
  · have hconfig := hrem.only.config
    have hpool : b'.isPoolingModel = b.isPoolingModel :=
      congrArg BatchConfig.isPoolingModel hconfig
    have hvocab : b'.vocabSize = b.vocabSize := congrArg BatchConfig.vocabSize hconfig
    have hmask := removeRequest_mask hr
    have hlive : ∀ id' l, update live id none id' = some l →
        id' ≠ id ∧ live id' = some l := by
      intro id' l hl
      rw [update_apply] at hl
      split at hl
      · cases hl
      · rename_i hid
        exact ⟨hid, hl⟩
    refine ⟨?_, ?_, ?_⟩
    · intro m hm id' l j hl hj t ht
      rw [hvocab] at ht
      obtain ⟨hid, hl⟩ := hlive id' l hl
      rw [hrem.index, get?_erase_ne _ hid] at hj
      rcases hmask with hsame | ⟨i', hi', hmap⟩
      · rw [hsame] at hm
        exact h.follows m hm id' l j hl hj t ht
      · rw [hmap] at hm
        obtain ⟨m₀, hm₀, rfl⟩ := map_eq_some_iff.mp hm
        rw [update_of_ne]
        · exact h.follows m₀ hm₀ id' l j hl hj t ht
        · rintro rfl
          have hat := (hs.index id' j).mp hj
          have hat' := (hs.index id j).mp hi'
          rw [hat] at hat'
          simp only [Option.some.injEq] at hat'
          exact hid hat'
    · intro hnone id' l hl
      apply h.absent _ id' l (hlive id' l hl).2
      rcases hmask with hsame | ⟨_, _, hmap⟩
      · rw [← hsame]
        exact hnone
      · rw [hmap] at hnone
        simpa using hnone
    · intro hp
      rw [hpool] at hp
      have hold := h.pooling hp
      rcases hmask with hsame | ⟨_, _, hmap⟩
      · rw [hsame, hold]
      · rw [hmap, hold]
        rfl

theorem MaskFollows.swaps (hs : b.Simulates live) (h : b.MaskFollows live)
    (hkeep : ∀ m ∈ b.allowedTokenIdsMaskCpu, ∀ t < b.vocabSize, m i₁ t = m i₂ t)
    (hsw : b.Swaps b' i₁ i₂ id₁ id₂) : b'.MaskFollows live := by
  obtain ⟨hconfig, _⟩ := hsw.same
  have hpool : b'.isPoolingModel = b.isPoolingModel :=
    congrArg BatchConfig.isPoolingModel hconfig
  have hvocab : b'.vocabSize = b.vocabSize := congrArg BatchConfig.vocabSize hconfig
  have hmask := hsw.mask
  refine ⟨?_, ?_, ?_⟩
  · intro m hm id l i hl hi t ht
    rw [hvocab] at ht
    cases hp : b.isPoolingModel with
    | true =>
      rw [hp, if_pos rfl, h.pooling hp] at hmask
      rw [hmask] at hm
      cases hm
    | false =>
      rw [hp, if_neg Bool.false_ne_true] at hmask
      rw [hmask] at hm
      obtain ⟨m₀, hm₀, rfl⟩ := map_eq_some_iff.mp hm
      have hrow := h.follows m₀ hm₀ id l _ hl ((hs.swaps_index hsw id i).mp hi) t ht
      have hsame := hkeep m₀ hm₀ t ht
      rw [← hrow, swapMaskRows_apply]
      by_cases h₂ : i = i₂
      · subst h₂
        rw [if_pos (.inr rfl), Equiv.swap_apply_right, hsame]
      · by_cases h₁ : i = i₁
        · subst h₁
          rw [if_pos (.inl rfl), Equiv.swap_apply_left]
        · rw [if_neg (by simp [h₁, h₂]), Equiv.swap_apply_of_ne_of_ne h₁ h₂]
  · intro hnone
    apply h.absent
    rw [hmask] at hnone
    split at hnone
    · exact hnone
    · simpa using hnone
  · intro hp
    rw [hpool] at hp
    rw [hmask, hp, if_pos rfl]
    exact h.pooling hp

theorem MaskFollows.updateReqSpecTokenIds (h : b.MaskFollows live) {toks : List Token}
    (hu : b.updateReqSpecTokenIds id toks = .ok b') :
    b'.MaskFollows (update live id
      ((live id).map fun l => { l with specTokenIds := toks })) := by
  obtain ⟨i, _, _, rfl⟩ := updateReqSpecTokenIds_ok hu
  have hlive : ∀ id' l', update live id
      ((live id).map fun l => { l with specTokenIds := toks }) id' = some l' →
      ∃ l, live id' = some l ∧ l'.request = l.request := by
    intro id' l' hl'
    rw [update_apply] at hl'
    split at hl'
    · rename_i hid
      obtain ⟨l, hl, rfl⟩ := map_eq_some_iff.mp hl'
      exact ⟨l, hid ▸ hl, rfl⟩
    · exact ⟨l', hl', rfl⟩
  refine ⟨?_, ?_, h.pooling⟩
  · intro m hm id' l' j hl' hj t ht
    obtain ⟨l, hl, hreq⟩ := hlive id' l' hl'
    rw [h.follows m hm id' l j hl hj t ht]
    unfold LiveRequest.forbids
    rw [hreq]
  · intro hnone id' l' hl'
    obtain ⟨l, hl, hreq⟩ := hlive id' l' hl'
    rw [← h.absent hnone id' l hl]
    unfold LiveRequest.restricts
    rw [hreq]

/-! ## The mask of the sampling metadata -/

/-- The metadata are up to date where no change is pending. -/
def Fresh (b : InputBatch) : Prop :=
  b.isPoolingModel = false → b.batchUpdateBuilder.removedList = [] →
    b.batchUpdateBuilder.moved = [] → b.batchUpdateBuilder.added = [] →
    b.makeSamplingAllowedMask = .ok b.samplingAllowedMask

theorem getAndReset_none {u : BatchUpdateBuilder} {batchSize : Nat}
    (h : (u.getAndReset batchSize).1 = none) :
    u.removedList = [] ∧ u.moved = [] ∧ u.added = [] := by
  unfold BatchUpdateBuilder.getAndReset at h
  split at h
  next hempty => exact hempty
  · cases h

theorem Fresh.refreshMetadata (h : b.Fresh) (hpool : b.isPoolingModel = false)
    (hr : b.refreshMetadata = .ok b') :
    b.makeSamplingAllowedMask = .ok b'.samplingAllowedMask ∧ b'.Fresh := by
  have hmask : b.makeSamplingAllowedMask = .ok b'.samplingAllowedMask := by
    unfold InputBatch.refreshMetadata at hr
    rw [hpool] at hr
    simp only [Bool.false_eq_true, if_false] at hr
    split at hr
    · simp only [bind_ok, pure_ok] at hr
      obtain ⟨mask, hmask, rfl⟩ := hr
      exact hmask
    · rename_i hunchanged
      rw [pure_ok] at hr
      subst hr
      obtain ⟨h₁, h₂, h₃⟩ := getAndReset_none (by simpa using hunchanged)
      exact h hpool h₁ h₂ h₃
  obtain ⟨mask, rfl⟩ := refreshMetadata_ok hr
  exact ⟨hmask, fun _ _ _ _ => hmask⟩

/-- A change of the rows is pending. -/
def Pending (b : InputBatch) : Prop :=
  b.batchUpdateBuilder.removedList ≠ [] ∨ b.batchUpdateBuilder.moved ≠ [] ∨
    b.batchUpdateBuilder.added ≠ []

theorem Pending.fresh (h : b.Pending) : b.Fresh := by
  intro _ h₁ h₂ h₃
  rcases h with h | h | h
  · exact absurd h₁ h
  · exact absurd h₂ h
  · exact absurd h₃ h

theorem ensureRemovedSorted_moved (u : BatchUpdateBuilder) :
    u.ensureRemovedSorted.moved = u.moved ∧ u.ensureRemovedSorted.added = u.added := by
  unfold BatchUpdateBuilder.ensureRemovedSorted
  split <;> exact ⟨rfl, rfl⟩

theorem peekRemoved_spec (u : BatchUpdateBuilder) :
    u.peekRemoved.2.moved = u.moved ∧
      (u.removedList ≠ [] → u.peekRemoved.2.removedList ≠ []) := by
  unfold BatchUpdateBuilder.peekRemoved
  split
  · exact ⟨rfl, id⟩
  · refine ⟨(ensureRemovedSorted_moved u).1, ?_⟩
    intro hne hnil
    unfold BatchUpdateBuilder.ensureRemovedSorted at hnil
    split at hnil
    · exact hne hnil
    · have hperm := List.perm_insertionSort (· ≥ ·) u.removedList
      dsimp only at hnil
      rw [hnil] at hperm
      exact hne hperm.symm.eq_nil

theorem condenseLoop_pending {fuel : Nat} : ∀ {b b' : InputBatch} {last : Nat},
    b.isPoolingModel = false →
    b.batchUpdateBuilder.removedList ≠ [] ∨ b.batchUpdateBuilder.moved ≠ [] →
    condenseLoop fuel b last = .ok b' →
    b'.batchUpdateBuilder.removedList ≠ [] ∨ b'.batchUpdateBuilder.moved ≠ [] := by
  induction fuel with
  | zero =>
    intro b b' last _ h hb'
    cases hb'
    exact h
  | succ fuel ih =>
    intro b b' last hpool h hb'
    unfold condenseLoop at hb'
    split at hb'
    · cases hb'
      exact h
    · rename_i hne
      obtain ⟨hmoved, hremoved⟩ := peekRemoved_spec b.batchUpdateBuilder
      dsimp only at hb'
      split at hb'
      · cases hb'
      · split at hb'
        · cases hb'
          exact .inl (hremoved hne)
        · simp only [bind_ok] at hb'
          obtain ⟨b₁, hmove, hrest⟩ := hb'
          obtain ⟨id, hm⟩ := moveRequest_ok hmove
          have hpool₁ : b₁.isPoolingModel = false := by
            rw [← hpool]
            exact congrArg BatchConfig.isPoolingModel hm.same.1
          refine ih hpool₁ (.inr ?_) hrest
          have hb₁ := hm.columns
          dsimp only at hb₁
          rw [if_neg (by simp [hpool])] at hb₁
          rw [hb₁]
          simp [moveSamplingColumns]

theorem condenseLoop_config {fuel : Nat} : ∀ {b b' : InputBatch} {last : Nat},
    condenseLoop fuel b last = .ok b' → b'.config = b.config := by
  induction fuel with
  | zero =>
    intro b b' last hb'
    cases hb'
    rfl
  | succ fuel ih =>
    intro b b' last hb'
    unfold condenseLoop at hb'
    split at hb'
    · cases hb'
      rfl
    · dsimp only at hb'
      split at hb'
      · cases hb'
      · split at hb'
        · cases hb'
          rfl
        · simp only [bind_ok] at hb'
          obtain ⟨b₁, hmove, hrest⟩ := hb'
          obtain ⟨id, hm⟩ := moveRequest_ok hmove
          exact (ih hrest).trans hm.same.1

theorem Fresh.condense (h : b.Fresh) (hc : b.condense = .ok b') : b'.Fresh := by
  unfold InputBatch.condense at hc
  dsimp only at hc
  obtain ⟨hmoved, hadded⟩ := ensureRemovedSorted_moved b.batchUpdateBuilder
  have hnil : b.batchUpdateBuilder.ensureRemovedSorted.removedList = [] →
      b.batchUpdateBuilder.removedList = [] := by
    unfold BatchUpdateBuilder.ensureRemovedSorted
    split
    · exact id
    · intro hnil
      have hperm := List.perm_insertionSort (· ≥ ·) b.batchUpdateBuilder.removedList
      dsimp only at hnil
      rw [hnil] at hperm
      exact hperm.symm.eq_nil
  split at hc
  · rename_i hempty
    simp only [pure_ok] at hc
    subst hc
    intro hpool _ h₂ h₃
    exact h hpool (hnil hempty) (hmoved ▸ h₂) (hadded ▸ h₃)
  · rename_i hne
    split at hc
    · simp only [pure_ok] at hc
      subst hc
      exact Pending.fresh (.inl hne)
    · simp only [bind_ok, pure_ok] at hc
      obtain ⟨b₁, hloop, rfl⟩ := hc
      intro hpool h₁ h₂ _
      exfalso
      have hpool₀ : b.isPoolingModel = false := by
        by_contra hp
        exact hp (by
          have := condenseLoop_config hloop
          exact (congrArg BatchConfig.isPoolingModel this).symm.trans hpool)
      have hp := condenseLoop_pending (b := { b with
        batchUpdateBuilder := b.batchUpdateBuilder.ensureRemovedSorted }) hpool₀ (.inl hne) hloop
      rcases hp with hp | hp
      · exact hp h₁
      · exact hp h₂

theorem Swaps.fresh (h : b.Swaps b' i₁ i₂ id₁ id₂) : b'.Fresh := by
  intro hpool _ h₂ _
  have hpool₀ : b.isPoolingModel = false := by
    rw [← hpool]
    exact (congrArg BatchConfig.isPoolingModel h.same.1).symm
  obtain ⟨n, _, _, hb'⟩ := h.columns
  dsimp only at hb'
  rw [if_neg (by simp [hpool₀])] at hb'
  rw [hb'] at h₂
  simp [swapSamplingColumns] at h₂

theorem addRequest_fresh (hs : b.Simulates live) (hh : b.HolesInv) (hfits : b.Fits r)
    (hnew : b.reqIdToIndex.get? r.reqId = none) (hadd : b.addRequest r = .ok (i, b')) :
    b'.Fresh := by
  obtain ⟨rfl, hplaces, honly, _⟩ := hs.adds hh hfits hnew hadd
  intro hpool _ _ h₃
  have hpool₀ : b.isPoolingModel = false := by
    rw [← hpool]
    exact (congrArg BatchConfig.isPoolingModel honly.config).symm
  unfold Fits at hfits
  rw [hpool₀] at hfits
  obtain ⟨p, hp⟩ := isSome_iff_exists.mp (by simpa using hfits)
  rw [hplaces.added, hp] at h₃
  simp at h₃

theorem Fresh.removeRequest (h : b.Fresh) (hr : b.removeRequest id = .ok (res, b')) : b'.Fresh := by
  rcases removeRequest_ok hr with ⟨_, rfl⟩ | ⟨i, hrem⟩
  · exact h
  · refine Pending.fresh (.inl ?_)
    rw [hrem.removed]
    simp

theorem Fresh.updateReqSpecTokenIds (h : b.Fresh) {toks : List Token}
    (hu : b.updateReqSpecTokenIds id toks = .ok b') : b'.Fresh := by
  obtain ⟨i, _, _, rfl⟩ := updateReqSpecTokenIds_ok hu
  exact h

end InputBatch

namespace BatchSystem

structure MaskInv (s : BatchSystem) : Prop extends s.Inv where
  mask : s.batch.MaskFollows s.live
  fresh : s.batch.Fresh

variable {s : BatchSystem}

theorem start_maskInv (h : Start s) : s.MaskInv := by
  have hinv := start_inv h
  obtain ⟨pooling, maxNumReqs, maxModelLen, vocabSize, float32, tables, uninit, uninitInt,
    rfl⟩ := h
  exact ⟨hinv, ⟨by simp, by simp, fun _ => rfl⟩, fun _ _ _ _ => rfl⟩

theorem MaskInv.runBatchOp {s' : BatchSystem} (h : s.MaskInv) {op : BatchOp} (hop : s.Issued op)
    (hkeep : s.KeepsMask op) (hrun : s.runBatchOp op = .ok s') : s'.MaskInv := by
  refine ⟨h.toInv.runBatchOp hop hrun, ?_, ?_⟩
  · cases BatchSystem.ran hrun with
    | addRequest hadd =>
      exact h.mask.addRequest h.simulates h.holes hop.2 hop.1 hkeep hadd
    | removeRequest hremove =>
      exact h.mask.removeRequest h.simulates hremove
    | condense hcond =>
      exact (h.simulates.condense_keeps InputBatch.MaskFollows.keptByCondense h.holes h.mask
        hcond).2.1
    | swapStates _ hs =>
      exact h.mask.swaps h.simulates hkeep hs
    | updateReqSpecTokenIds hspec =>
      exact h.mask.updateReqSpecTokenIds hspec
    | refreshMetadata href =>
      obtain ⟨mask, rfl⟩ := InputBatch.refreshMetadata_ok href
      exact ⟨h.mask.follows, h.mask.absent, h.mask.pooling⟩
  · cases BatchSystem.ran hrun with
    | addRequest hadd =>
      exact InputBatch.addRequest_fresh h.simulates h.holes hop.2 hop.1 hadd
    | removeRequest hremove =>
      exact h.fresh.removeRequest hremove
    | condense hcond =>
      exact h.fresh.condense hcond
    | swapStates _ hs =>
      exact hs.fresh
    | updateReqSpecTokenIds hspec =>
      exact h.fresh.updateReqSpecTokenIds hspec
    | refreshMetadata href =>
      intro hpool
      have hpool₀ : s.batch.isPoolingModel = false := by
        obtain ⟨mask, rfl⟩ := InputBatch.refreshMetadata_ok href
        exact hpool
      exact (h.fresh.refreshMetadata hpool₀ href).2 hpool

theorem MaskReachable.maskInv (h : MaskReachable s) : s.MaskInv :=
  h.invariant (fun _ => start_maskInv) fun _ _ hs hstep => by
    obtain ⟨op, ⟨hop, hkeep⟩, hrun⟩ := hstep
    exact hs.runBatchOp hop hkeep hrun

theorem MaskInv.maskMatches {s' : BatchSystem} (h : s.MaskInv) (hc : s.batch.Condensed)
    (hrun : s.runBatchOp .refreshMetadata = .ok s') : s'.MaskMatches := by
  simp only [BatchSystem.runBatchOp, bind_ok, pure_ok] at hrun
  obtain ⟨b, href, rfl⟩ := hrun
  rintro ⟨id₀, l₀, hl₀, hrestricts⟩
  obtain ⟨p, hp, hallowed⟩ : ∃ p, l₀.request.samplingParams = some p ∧
      p.allowedTokenIds ≠ [] := by
    unfold LiveRequest.restricts at hrestricts
    split at hrestricts
    · rename_i p hp
      exact ⟨p, hp, by simpa using hrestricts⟩
    · cases hrestricts
  have hpool : s.batch.isPoolingModel = false := by
    have hfits := h.simulates.fits id₀ l₀ hl₀
    unfold InputBatch.Fits at hfits
    rw [hp] at hfits
    simpa using hfits
  obtain ⟨hmask, _⟩ := h.fresh.refreshMetadata hpool href
  have hmem : id₀ ∈ s.batch.hasAllowedTokenIds := by
    have hentry := congrArg IdEntry.allowedTokenIds (h.simulates.entry id₀)
    rw [hl₀] at hentry
    simpa [InputBatch.idEntry, LiveRequest.idEntry, hp, hallowed] using hentry
  obtain ⟨m, hm⟩ : ∃ m, s.batch.allowedTokenIdsMaskCpu = some m := by
    rw [← ne_none_iff_exists']
    intro hnone
    have := h.mask.absent hnone id₀ l₀ hl₀
    rw [hrestricts] at this
    cases this
  unfold InputBatch.makeSamplingAllowedMask at hmask
  rw [if_neg (Finset.ne_empty_of_mem hmem), hm] at hmask
  have hrows : b.samplingAllowedMask = some (rowPrefix m s.batch.numReqs) :=
    (Except.ok.inj hmask).symm
  obtain ⟨mask, rfl⟩ := InputBatch.refreshMetadata_ok href
  refine ⟨_, hrows, length_rowPrefix _ _, ?_⟩
  intro i hi
  obtain ⟨id, l, hat, hl, _⟩ := (h.toInv.rowsMatch hc).rows i hi
  have hget := (h.simulates.index id i).mpr hat
  refine ⟨id, l, m i, hat, hl, ?_, h.mask.follows m hm id l i hl hget⟩
  have hi' : i < s.batch.numReqs := hi
  simp [rowPrefix, hi']

/-- In every run whose calls keep the mask rows with their requests, the mask that sampling
uses forbids in each row what the request of the row forbids. -/
theorem mask_matches {s s' : BatchSystem} (h : MaskReachable s) (hc : s.batch.Condensed)
    (hrun : s.runBatchOp .refreshMetadata = .ok s') : s'.MaskMatches :=
  (MaskReachable.maskInv h).maskMatches hc hrun

/-- A request that may sample the given tokens, or all where the list is empty. -/
def maskRequest (id : ReqId) (allowed : List Nat) : CachedRequestState where
  reqId := id
  promptTokenIds := some [1]
  samplingParams := some { allowedTokenIds := allowed }
  blockIds := [[id]]
  numComputedTokens := 0
  numPromptTokens := 1
  promptLength := rfl

def maskStart : BatchSystem :=
  ⟨.create false 4 8 3 id [{ maxNumBlocksPerReq := 8 }] (fun _ => 0) (fun _ => 0),
    fun _ => none⟩

def maskOps : List BatchOp :=
  [.addRequest (maskRequest 7 []), .addRequest (maskRequest 8 [2]), .refreshMetadata,
    .removeRequest 7, .condense]

theorem mask_matches_condensed : ∃ s s' : BatchSystem, MaskReachable s ∧
    s.runBatchOp .refreshMetadata = .ok s' ∧
    s'.batch.samplingAllowedMask.map (·.map fun row => (List.range 3).map row) =
      some [[true, true, false]] ∧ s'.MaskMatches := by
  obtain ⟨s, hrun, hc⟩ : ∃ s : BatchSystem,
      runOps (checked (fun s op => Issued s op ∧ KeepsMask s op) runBatchOp) maskStart maskOps =
        .ok s ∧ s.batch.Condensed ∧ ∃ s', s.runBatchOp .refreshMetadata = .ok s' ∧
          s'.batch.samplingAllowedMask.map (·.map fun row => (List.range 3).map row) =
            some [[true, true, false]] :=
    ⟨_, rfl, by decide, _, rfl, by decide⟩
  obtain ⟨hcond, s', hrefresh, hrows⟩ := hc
  have hreach : MaskReachable s :=
    Reachable.runOps (.start ⟨false, 4, 8, 3, id, _, _, _, rfl⟩) hrun
  exact ⟨s, s', hreach, hrefresh, hrows, mask_matches hreach hcond hrefresh⟩

def swapOps : List BatchOp :=
  [.addRequest (maskRequest 7 [0]), .addRequest (maskRequest 8 [2]), .swapStates 0 1]

/-- After a swap both rows forbid what the second request forbade. -/
theorem mask_not_matches : ¬∀ s s' : BatchSystem, BatchReachable s → s.batch.Condensed →
    s.runBatchOp .refreshMetadata = .ok s' → s'.MaskMatches := by
  intro hall
  obtain ⟨s, hrun, hcond, s', hrefresh, hlive, hids, hnum, hvocab, hrow⟩ : ∃ s : BatchSystem,
      runOps (checked Issued runBatchOp) maskStart swapOps = .ok s ∧ s.batch.Condensed ∧
        ∃ s', s.runBatchOp .refreshMetadata = .ok s' ∧
          s'.live 7 = some ⟨maskRequest 7 [0], []⟩ ∧
          s'.batch.reqIds[1]? = some (some 7) ∧ s'.batch.numReqs = 2 ∧
          s'.batch.vocabSize = 3 ∧ (s'.batch.samplingAllowedMask.bind (·[1]?)).map (fun row => row 0) = some true :=
    ⟨_, rfl, by decide, _, rfl, rfl, by decide, by decide, rfl, by decide⟩
  have hreach : BatchReachable s :=
    Reachable.runOps (.start ⟨false, 4, 8, 3, id, _, _, _, rfl⟩) hrun
  obtain ⟨rows, hrows, _, hmatch⟩ := hall s s' hreach hcond hrefresh ⟨7, _, hlive, by decide⟩
  obtain ⟨id, l, row, hat, hl, hget, hforbid⟩ := hmatch 1 (by omega)
  rw [hids] at hat
  cases hat
  rw [hlive] at hl
  cases hl
  have hzero := hforbid 0 (by omega)
  rw [hrows] at hrow
  simp only [bind_some, hget, map_some, Option.some.injEq] at hrow
  rw [hrow] at hzero
  exact absurd hzero (by decide)

end BatchSystem

end VllmCore.Worker
