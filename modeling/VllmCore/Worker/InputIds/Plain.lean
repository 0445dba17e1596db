import VllmCore.Worker.InputIds.Writes
/-!
# What the input ids are

After `_prepare_input_ids` every request has the tokens of the CPU at its positions, except
that a request of the previous step has the token that was sampled for it, followed by the
drafts that were proposed for it.  The two shortcuts give the same tokens.
-/

namespace VllmCore.Worker.InputIds

open List Support

variable {E : Type}

namespace ModelRunner

def prevRow (r : ModelRunner E) (reqId : ReqId) : Option Nat :=
  r.prevReqIdToIndex.bind (·.get? reqId)

/-- The token that was sampled at a row of the previous step. -/
def sampledAt (r : ModelRunner E) (p : Nat) : Option Token :=
  (r.prevSampledTokenIds.bind (·[p]?)).bind (·[0]?)

/-- The drafts that were proposed at a row of the previous step. -/
def proposedAt (r : ModelRunner E) (p : Nat) : List Token :=
  match r.draftTokenIds with
  | some (.tensor rows) => rows[p]?.getD []
  | _ => []

/-- The input ids of a request whose `n` tokens are scheduled from `pos` on. -/
def requestIds (r : ModelRunner E) (scheduledSpecTokens : Dict ReqId (List Token))
    (reqId : ReqId) (pos n : Nat) : List Token :=
  let plain := (r.inputIds.cpu.drop pos).take n
  match r.prevRow reqId with
  | none => plain
  | some p =>
    plain.take (n - 1 - draftLen scheduledSpecTokens reqId) ++ (r.sampledAt p).toList ++
      (r.proposedAt p).take (draftLen scheduledSpecTokens reqId)

/-- What the scheduler and the previous step give: every request has a token that is not a
draft, the buffers have room, and a request of the previous step has a token and, when
drafts are scheduled for it, a row of drafts. -/
structure Ready (r : ModelRunner E) (scheduledSpecTokens : Dict ReqId (List Token))
    (numScheduledTokens : List Nat) : Prop where
  numReqs : numScheduledTokens.length = r.reqIds.length
  positions : r.reqIds.length ≤ r.prevPositions.length
  scheduled : ∀ n ∈ numScheduledTokens, 0 < n
  room : numScheduledTokens.sum ≤ r.inputIds.cpu.length
  drafts : ∀ (i : Nat) reqId n, r.reqIds[i]? = some reqId → numScheduledTokens[i]? = some n →
    (r.prevRow reqId).isSome → draftLen scheduledSpecTokens reqId < n
  spec : ∀ reqId ∈ r.reqIds, (r.prevRow reqId).isSome →
    draftLen scheduledSpecTokens reqId ≤ r.numSpecTokens
  sampled : ∀ reqId ∈ r.reqIds, ∀ p, r.prevRow reqId = some p → (r.sampledAt p).isSome
  proposed : ∀ reqId ∈ r.reqIds, ∀ p, r.prevRow reqId = some p →
    0 < draftLen scheduledSpecTokens reqId → ∃ rows, r.draftTokenIds = some (.tensor rows) ∧
      p < rows.length ∧ ∀ row ∈ rows, row.length = r.numSpecTokens ∧
        ∀ x ∈ row, -2 ^ 31 ≤ x ∧ x < 2 ^ 31

theorem setPositions (value : ReqId → Int) {reqIds : List ReqId} {positions : List Int}
    (h : reqIds.length ≤ positions.length) :
    ∃ ps, reqIds.zipIdx.foldlM (fun ps e => pySet ps (e.2 : Int) (value e.1)) positions =
        .ok ps ∧ ∀ (i : Nat) reqId, reqIds[i]? = some reqId → ps[i]? = some (value reqId) := by
  have hmem : ∀ w ∈ reqIds.zipIdx.map fun e => (e.2, value e.1), w.1 < positions.length := by
    intro w hw
    obtain ⟨e, he, rfl⟩ := mem_map.mp hw
    have hlt := (List.getElem?_eq_some_iff.mp (List.mem_zipIdx_iff_getElem?.mp he)).1
    omega
  have hnodup : ((reqIds.zipIdx.map fun e => (e.2, value e.1)).map Prod.fst).Nodup := by
    rw [map_map]
    show (reqIds.zipIdx.map Prod.snd).Nodup
    rw [zipIdx_map_snd]
    exact nodup_range'
  have hfold := foldlM_pySet hmem
  rw [foldlM_map] at hfold
  refine ⟨_, hfold, ?_⟩
  intro i reqId hi
  have hlt := (List.getElem?_eq_some_iff.mp hi).1
  apply getElem?_scatter_of_mem hnodup _ (by omega)
  exact mem_map.mpr ⟨(reqId, i), mem_zipIdx_iff_getElem?.mpr hi, rfl⟩

theorem computePrevPositions_spec (r : ModelRunner E)
    (h : r.reqIds.length ≤ r.prevPositions.length) :
    ∃ positions, r.computePrevPositions r.reqIds.length =
        .ok { r with prevPositions := positions } ∧
      ∀ (i : Nat) reqId, r.reqIds[i]? = some reqId →
        positions[i]? = some ((r.prevRow reqId).elim (-1) fun p : Nat => (p : Int)) := by
  have hfill : (∀ reqId, r.prevRow reqId = none) → ∀ (i : Nat) reqId, r.reqIds[i]? = some reqId →
      (List.replicate (min r.reqIds.length r.prevPositions.length) (-1) ++
        r.prevPositions.drop r.reqIds.length)[i]? =
          some ((r.prevRow reqId).elim (-1) fun p : Nat => (p : Int)) := by
    intro hnone i reqId hi
    have hlt := (List.getElem?_eq_some_iff.mp hi).1
    rw [hnone, getElem?_append_left (by rw [length_replicate]; omega),
      getElem?_replicate, if_pos (by omega)]
    rfl
  unfold computePrevPositions
  cases hd : r.prevReqIdToIndex with
  | none =>
    refine ⟨_, rfl, hfill fun reqId => ?_⟩
    unfold prevRow
    rw [hd]
    rfl
  | some d =>
    dsimp only
    split
    next hempty =>
      refine ⟨_, rfl, hfill fun reqId => ?_⟩
      unfold prevRow
      rw [hd]
      show d.entries.lookup reqId = none
      rw [isEmpty_iff.mp hempty]
      rfl
    · obtain ⟨positions, hfold, hvalues⟩ := setPositions (prevIndexOf d) h
      refine ⟨positions, ?_, ?_⟩
      · rw [take_length]
        exact bind_ok.mpr ⟨_, hfold, rfl⟩
      · intro i reqId hi
        rw [hvalues i reqId hi]
        unfold prevIndexOf prevRow
        rw [hd, Option.bind_some]
        cases d.get? reqId <;> rfl

/-! ## The two scatters -/

theorem scatterGpu_ok {α : Type} {b : CpuGpuBuffer α} {writes : List (Nat × α)}
    (h : ∀ w ∈ writes, w.1 < b.gpu.length) :
    ∃ b', b.scatterGpu (writes.map fun w => (w.1 : Int)) (writes.map Prod.snd) = .ok b' ∧
      b'.gpu = scatter b.gpu writes := by
  have hscatter := torchScatter_ok h
  unfold CpuGpuBuffer.scatterGpu
  split
  next gpu hgpu =>
    rw [hscatter] at hgpu
    exact ⟨_, rfl, (Except.ok.inj hgpu).symm⟩
  next e he =>
    rw [hscatter] at he
    cases he

theorem toInt32_of_range {x : Int} (hlo : -2 ^ 31 ≤ x) (hhi : x < 2 ^ 31) : toInt32 x = x := by
  unfold toInt32
  omega

variable {n d : Nat → Nat} {prev : Nat → Option Nat} {numReqs : Nat}

variable {rows : List (List Token)} {token : Nat → Token} {draft : Nat → Nat → Token}
  {cpu : List Token}
/-- The last step proposed the drafts of the requests that continue it. -/
abbrev HasDrafts (r : ModelRunner E) (d : Nat → Nat) (prev : Nat → Option Nat) (numReqs : Nat)
    (draft : Nat → Nat → Token) : Prop :=
  ∀ i p, i < numReqs → prev i = some p → 0 < d i →
    ∃ rows, r.draftTokenIds = some (.tensor rows) ∧
      (∀ row ∈ rows, row.length = r.numSpecTokens) ∧
      ∀ t < d i, t < r.numSpecTokens ∧
        (rows[p]?.bind (·[t]?)).map toInt32 = some (draft i t)

variable {r : ModelRunner E}

theorem scatterSampled_spec {numSpecTokens : Nat}
    (hdrafts : ∀ i < numReqs, (prev i).isSome → d i < n i)
    (htoken : ∀ i p, i < numReqs → prev i = some p →
      (rows[p]?.bind (·[0]?)) = some (token i)) (hroom : start n numReqs ≤ r.inputIds.gpu.length) :
    ∃ inputIds, r.scatterSampled rows (flattened n d prev numSpecTokens numReqs) =
        .ok { r with inputIds := inputIds } ∧
      inputIds.gpu = scatter r.inputIds.gpu (sampleWrites n d prev token numReqs) := by
  have hwrites : ∀ w ∈ sampleWrites n d prev token numReqs, w.1 < r.inputIds.gpu.length :=
    sampleWrites_room hdrafts hroom
  obtain ⟨inputIds, hscatter, hgpu⟩ := scatterGpu_ok hwrites
  refine ⟨inputIds, ?_, hgpu⟩
  have hsrc : (flattened n d prev numSpecTokens numReqs).prevIndices.mapM (fun i : Int => do
      let row ← pyGet rows i
      pyGet row 0) = .ok ((sampleWrites n d prev token numReqs).map Prod.snd) := by
    unfold flattened sampleWrites
    rw [mapM_ok_iff, forall₂_map_left_iff, map_map, forall₂_map_right_iff,
      forall₂_same]
    intro i hi
    obtain ⟨hlt, p, hp⟩ := (mem_common prev).mp hi
    obtain ⟨row, hrow, hfirst⟩ := Option.bind_eq_some_iff.mp (htoken i p hlt hp)
    rw [hp, Option.getD_some]
    exact bind_ok.mpr ⟨row, pyGet_natCast_ok.mpr hrow, pyGet_natCast_ok.mpr hfirst⟩
  have hindex : (flattened n d prev numSpecTokens numReqs).sampleFlattenedIndices =
      (sampleWrites n d prev token numReqs).map fun w => (w.1 : Int) := by
    unfold flattened sampleWrites
    rw [map_map]
    rfl
  refine bind_ok.mpr ⟨_, hsrc, bind_ok.mpr ⟨inputIds, ?_, rfl⟩⟩
  rw [hindex]
  exact hscatter

theorem scatterDrafts_spec (hdrafts : ∀ i < numReqs, (prev i).isSome → d i < n i)
    (hproposed : r.HasDrafts d prev numReqs draft)
    (hroom : start n numReqs ≤ r.inputIds.gpu.length) :
    ∃ inputIds, r.scatterDrafts (flattened n d prev r.numSpecTokens numReqs) =
        .ok { r with inputIds := inputIds } ∧
      inputIds.gpu = scatter r.inputIds.gpu (draftWrites n d prev draft numReqs) := by
  have hindex : (flattened n d prev r.numSpecTokens numReqs).specFlattenedIndices =
      (draftWrites n d prev draft numReqs).map fun w => (w.1 : Int) := by
    unfold flattened draftWrites
    rw [map_flatMap]
    simp only [map_map]
    rfl
  by_cases hempty : draftWrites n d prev draft numReqs = []
  · refine ⟨r.inputIds, ?_, by rw [hempty]; rfl⟩
    unfold scatterDrafts
    rw [hindex, hempty]
    split
    · rfl
    · rfl
  · obtain ⟨w, hw⟩ := exists_mem_of_ne_nil _ hempty
    obtain ⟨i, hi, hmem⟩ := mem_flatMap.mp hw
    obtain ⟨t, ht, _⟩ := mem_map.mp hmem
    obtain ⟨hlt, p, hp⟩ := (mem_common prev).mp hi
    rw [mem_range] at ht
    obtain ⟨rows, hrows, hwidth, _⟩ := hproposed i p hlt hp (by omega)
    have hwrites : ∀ w ∈ draftWrites n d prev draft numReqs, w.1 < r.inputIds.gpu.length :=
      draftWrites_room hdrafts hroom
    obtain ⟨inputIds, hscatter, hgpu⟩ := scatterGpu_ok hwrites
    refine ⟨inputIds, ?_, hgpu⟩
    have hsrc : (flattened n d prev r.numSpecTokens numReqs).prevDraftTokenIndices.mapM
        (fun i => pyGet ((rows.map (·.map toInt32)).flatten) i) =
          .ok ((draftWrites n d prev draft numReqs).map Prod.snd) := by
      unfold flattened draftWrites
      rw [mapM_ok_iff, map_flatMap]
      apply rel_flatMap (R := fun i k => i = k ∧ i ∈ common prev numReqs)
      · exact forall₂_same.mpr fun i hi => ⟨rfl, hi⟩
      · rintro i _ ⟨rfl, hi⟩
        dsimp only
        rw [map_map, forall₂_map_left_iff, forall₂_map_right_iff,
          forall₂_same]
        intro t ht
        rw [mem_range] at ht
        obtain ⟨hlt, p, hp⟩ := (mem_common prev).mp hi
        obtain ⟨rows', hrows', _, hvalue⟩ := hproposed i p hlt hp (by omega)
        obtain rfl : rows = rows' := by
          rw [hrows] at hrows'
          cases hrows'
          rfl
        obtain ⟨hspec, hvalue⟩ := hvalue t ht
        rw [hp, Option.getD_some]
        apply pyGet_natCast_ok.mpr
        rw [getElem?_flatten_rows _ hspec, getElem?_map]
        · show _ = some (draft i t)
          rw [← hvalue]
          cases rows[p]? with
          | none => rfl
          | some row => exact getElem?_map
        · intro row hrow
          obtain ⟨row, hmem, rfl⟩ := mem_map.mp hrow
          rw [length_map]
          exact hwidth row hmem
    unfold scatterDrafts
    rw [hrows]
    dsimp only
    rw [if_neg (by rw [hindex]; simpa using hempty)]
    refine bind_ok.mpr ⟨_, hsrc, bind_ok.mpr ⟨inputIds, ?_, rfl⟩⟩
    rw [hindex]
    exact hscatter

/-! ## The three ways -/

/-- Every position has its token: what holds the tokens of the CPU is written over with the
sampled tokens and the drafts. -/
def HasIds (n d : Nat → Nat) (prev : Nat → Option Nat) (numReqs : Nat) (cpu : List Token)
    (token : Nat → Token) (draft : Nat → Nat → Token) (gpu : List Token) : Prop :=
  ∀ i < numReqs, ∀ j < n i, gpu[start n i + j]? = idAt n d prev cpu token draft i j

theorem copyInputsToGpu_gpu (r : ModelRunner E) {total p : Nat} (hp : p < total)
    (hroom : total ≤ r.inputIds.cpu.length) :
    (r.copyInputsToGpu total).inputIds.gpu[p]? = r.inputIds.cpu[p]? := by
  show (r.inputIds.cpu.take total ++ r.inputIds.gpu.drop total)[p]? = _
  rw [getElem?_append_left (by rw [length_take]; omega), getElem?_take,
    if_pos hp]

theorem pos_lt {i j : Nat} (hi : i < numReqs) (hj : j < n i) :
    start n i + j < start n numReqs := by
  have hle := start_mono n (Nat.succ_le_of_lt hi)
  rw [start_succ] at hle
  omega

theorem scatters_spec (hdrafts : ∀ i < numReqs, (prev i).isSome → d i < n i)
    (htoken : ∀ i p, i < numReqs → prev i = some p →
      (rows[p]?.bind (·[0]?)) = some (token i))
    (hproposed : r.HasDrafts d prev numReqs draft)
    (hroom : start n numReqs ≤ r.inputIds.gpu.length)
    (hbase : ∀ i < numReqs, ∀ j < n i, IsPlain n d prev i j →
      r.inputIds.gpu[start n i + j]? = cpu[start n i + j]?) :
    ∃ r', (do
        let r' ← r.scatterSampled rows (flattened n d prev r.numSpecTokens numReqs)
        r'.scatterDrafts (flattened n d prev r.numSpecTokens numReqs)) = .ok r' ∧
      HasIds n d prev numReqs cpu token draft r'.inputIds.gpu := by
  obtain ⟨inputIds, hsampled, hgpu⟩ : ∃ inputIds,
      r.scatterSampled rows (flattened n d prev r.numSpecTokens numReqs) =
        .ok { r with inputIds := inputIds } ∧
      inputIds.gpu = scatter r.inputIds.gpu (sampleWrites n d prev token numReqs) :=
    scatterSampled_spec hdrafts htoken hroom
  obtain ⟨inputIds', hdraft, hgpu'⟩ := scatterDrafts_spec (r := { r with inputIds := inputIds })
    hdrafts hproposed (by
      rw [hgpu, length_scatter]
      exact hroom)
  refine ⟨_, bind_ok.mpr ⟨_, hsampled, hdraft⟩, ?_⟩
  intro i hi j hj
  rw [hgpu']
  rw [hgpu]
  apply getElem?_writes hdrafts hi hj (hbase i hi j hj)
  have hlt := pos_lt hi hj
  omega

theorem copySampledSlice_spec (hdrafts : ∀ i < numReqs, (prev i).isSome → d i < n i)
    (htoken : ∀ i p, i < numReqs → prev i = some p →
      (rows[p]?.bind (·[0]?)) = some (token i))
    (hmatch : ∀ i ∈ common prev numReqs, (prev i).getD 0 = lastPos n i)
    (hmax : ∀ i ∈ common prev numReqs, lastPos n i < (common prev numReqs).length)
    (hroom : start n numReqs ≤ r.inputIds.gpu.length)
    (hbase : ∀ i < numReqs, ∀ j < n i, (common prev numReqs).length ≤ start n i + j →
      r.inputIds.gpu[start n i + j]? = cpu[start n i + j]?) :
    ∃ r', r.copySampledSlice rows (common prev numReqs).length = .ok r' ∧
      HasIds n d prev numReqs cpu token draft r'.inputIds.gpu := by
  have hfirst : ∀ q < (common prev numReqs).length, ∃ row x, rows[q]? = some row ∧
      row[0]? = some x ∧ q < start n numReqs := by
    intro q hq
    obtain ⟨k, hk, hlast, hnk⟩ := exists_lastPos hdrafts hmax hq
    obtain ⟨hlt, p, hp⟩ := (mem_common prev).mp hk
    have hprev := hmatch k hk
    rw [hp, Option.getD_some, hlast] at hprev
    obtain ⟨row, hrow, hx⟩ := Option.bind_eq_some_iff.mp (htoken k p hlt hp)
    rw [hprev] at hrow
    refine ⟨row, token k, hrow, hx, ?_⟩
    rw [← hlast, lastPos]
    exact pos_lt hlt (by omega)
  have hlength : (common prev numReqs).length ≤ rows.length ∧
      (common prev numReqs).length ≤ r.inputIds.gpu.length := by
    by_cases hzero : (common prev numReqs).length = 0
    · omega
    · obtain ⟨row, x, hrow, _, hlt⟩ := hfirst ((common prev numReqs).length - 1) (by omega)
      have hrows := (List.getElem?_eq_some_iff.mp hrow).1
      omega
  have hsrc : (rows.take (common prev numReqs).length).mapM (fun row => pyGet row 0) =
      .ok ((rows.take (common prev numReqs).length).map (·.headD 0)) := by
    rw [mapM_ok_iff, forall₂_map_right_iff, forall₂_same]
    intro row hrow
    obtain ⟨q, hq⟩ := mem_iff_getElem?.mp hrow
    have hlt := (List.getElem?_eq_some_iff.mp hq).1
    rw [length_take] at hlt
    rw [getElem?_take, if_pos (by omega)] at hq
    obtain ⟨row', x, hrow', hx, _⟩ := hfirst q (by omega)
    obtain rfl : row = row' := Option.some.inj (hq.symm.trans hrow')
    cases row with
    | nil => cases hx
    | cons y ys => exact pyGet_first y ys
  have hcopy : r.inputIds.copySlice (common prev numReqs).length
      ((rows.take (common prev numReqs).length).map (·.headD 0)) = .ok _ :=
    dif_pos (by rw [length_map, length_take]; omega)
  refine ⟨_, bind_ok.mpr ⟨_, hsrc, bind_ok.mpr ⟨_, hcopy, rfl⟩⟩, ?_⟩
  intro i hi j hj
  obtain ⟨hslice, hrest⟩ := row_of_slice hdrafts hmatch hmax hi hj
  show ((rows.take (common prev numReqs).length).map (·.headD 0) ++
    r.inputIds.gpu.drop (common prev numReqs).length)[start n i + j]? = _
  unfold idAt
  by_cases hin : start n i + j < (common prev numReqs).length
  · obtain ⟨hprev, rfl, hone⟩ := hslice hin
    obtain ⟨row, hrow, hx⟩ := Option.bind_eq_some_iff.mp (htoken i _ hi hprev)
    rw [hprev, Option.isSome_some, if_pos rfl, if_neg (by omega), if_pos (by omega),
      getElem?_append_left (by rw [length_map, length_take]; omega),
      getElem?_map, getElem?_take, if_pos hin, hrow]
    cases row with
    | nil => cases hx
    | cons y ys => exact hx
  · rw [hrest (by omega), Option.isSome_none, if_neg Bool.false_ne_true,
      ← hbase i hi j hj (by omega),
      getElem?_append_right (by rw [length_map, length_take]; omega),
      getElem?_drop, length_map, length_take]
    congr 1
    omega

theorem le_foldl_max (f : Nat → Int) (xs : List Nat) (m : Int) :
    m ≤ xs.foldl (fun m i => max m (f i)) m ∧
      ∀ i ∈ xs, f i ≤ xs.foldl (fun m i => max m (f i)) m := by
  induction xs generalizing m with
  | nil => exact ⟨le_rfl, nofun⟩
  | cons x xs ih =>
    obtain ⟨hstart, hall⟩ := ih (max m (f x))
    refine ⟨(le_max_left _ _).trans hstart, ?_⟩
    intro i hi
    rcases mem_cons.mp hi with rfl | hi
    · exact (le_max_right _ _).trans hstart
    · exact hall i hi

/-- Where the tokens of the CPU are in place, the rest of `_prepare_input_ids` puts the others
in theirs. -/
theorem placeTokens_spec (hdrafts : ∀ i < numReqs, (prev i).isSome → d i < n i)
    (htoken : ∀ i p, i < numReqs → prev i = some p →
      (rows[p]?.bind (·[0]?)) = some (token i))
    (hproposed : r.HasDrafts d prev numReqs draft)
    (hroom : start n numReqs ≤ r.inputIds.gpu.length)
    (hbase : ∀ i < numReqs, ∀ j < n i, IsPlain n d prev i j →
      r.inputIds.gpu[start n i + j]? = cpu[start n i + j]?) {f : Flattened}
    (hf : f = flattened n d prev r.numSpecTokens numReqs) {numCommonTokens : Nat}
    (hcommon : numCommonTokens = (common prev numReqs).length) :
    ∃ r', (if numCommonTokens = 0 then pure r
        else if f.commonIndicesMatch = true ∧ f.maxFlattenedIndex = (numCommonTokens : Int) - 1 then
          r.copySampledSlice rows numCommonTokens
        else do
          let r ← r.scatterSampled rows f
          r.scatterDrafts f) = .ok r' ∧
      HasIds n d prev numReqs cpu token draft r'.inputIds.gpu := by
  rw [hf, hcommon]
  split
  next hzero =>
    refine ⟨r, rfl, ?_⟩
    intro i hi j hj
    have hnone : prev i = none := by
      cases hprev : prev i with
      | none => rfl
      | some p =>
        have hmem := (mem_common prev).mpr ⟨hi, p, hprev⟩
        rw [length_eq_zero_iff.mp hzero] at hmem
        cases hmem
    unfold idAt
    rw [hnone]
    exact hbase i hi j hj (.inl hnone)
  · split
    next hfast =>
      obtain ⟨hmatch, hmax⟩ := hfast
      have hmatch' : ∀ i ∈ common prev numReqs, (prev i).getD 0 = lastPos n i := by
        intro i hi
        exact of_decide_eq_true (all_eq_true.mp hmatch i hi)
      have hmax' : ∀ i ∈ common prev numReqs,
          lastPos n i < (common prev numReqs).length := by
        intro i hi
        have hle :=
          (le_foldl_max (fun i => (lastPos n i : Int)) (common prev numReqs) (-1)).2 i hi
        have hlast : (common prev numReqs).foldl (fun m i => max m (lastPos n i : Int)) (-1) =
          ((common prev numReqs).length : Int) - 1 := hmax
        omega
      apply copySampledSlice_spec hdrafts htoken hmatch' hmax' hroom
      intro i hi j hj hle
      exact hbase i hi j hj (.inl ((row_of_slice hdrafts hmatch' hmax' hi hj).2 hle))
    · exact scatters_spec hdrafts htoken hproposed hroom hbase

theorem prepareInputIds_hasIds {scheduledSpecTokens : Dict ReqId (List Token)}
    {cuNumTokens : List Nat} (hrows : r.prevSampledTokenIds = some rows)
    (hloop : ∀ i < numReqs, LoopRow r scheduledSpecTokens cuNumTokens n d prev i)
    (htoken : ∀ i p, i < numReqs → prev i = some p →
      (rows[p]?.bind (·[0]?)) = some (token i))
    (hproposed : r.HasDrafts d prev numReqs draft)
    (hroom : start n numReqs ≤ r.inputIds.cpu.length) :
    ∃ r', r.prepareInputIds scheduledSpecTokens numReqs (start n numReqs) cuNumTokens = .ok r' ∧
      HasIds n d prev numReqs r.inputIds.cpu token draft r'.inputIds.gpu := by
  have hscheduled : ∀ i < numReqs, 0 < n i := fun i hi => (hloop i hi).scheduled
  have hdrafts : ∀ i < numReqs, (prev i).isSome → d i < n i := fun i hi => (hloop i hi).drafts
  have hsize := r.inputIds.sameSize
  have hcount : (flattened n d prev r.numSpecTokens numReqs).sampleFlattenedIndices.length =
      (common prev numReqs).length := length_map _
  unfold prepareInputIds
  rw [hrows]
  have hspec : (flattened n d prev r.numSpecTokens numReqs).totalNumSpecTokens =
      ((common prev numReqs).map d).sum := rfl
  by_cases hcopy :
      ((flattened n d prev r.numSpecTokens numReqs).sampleFlattenedIndices.length : Int) <
        (start n numReqs : Int) - (flattened n d prev r.numSpecTokens numReqs).totalNumSpecTokens
  · have hbase : ∀ i < numReqs, ∀ j < n i, IsPlain n d prev i j →
        (r.copyInputsToGpu (start n numReqs)).inputIds.gpu[start n i + j]? =
          r.inputIds.cpu[start n i + j]? :=
      fun i hi j hj _ => copyInputsToGpu_gpu r (pos_lt hi hj) hroom
    obtain ⟨r', hplace, hids⟩ := placeTokens_spec (r := r.copyInputsToGpu (start n numReqs))
      hdrafts htoken hproposed
      (((r.copyInputsToGpu (start n numReqs)).inputIds.sameSize).symm ▸ hroom) hbase rfl hcount
    refine ⟨r', bind_ok.mpr ⟨_, foldlM_flattenRow hloop, ?_⟩, hids⟩
    dsimp only
    rw [if_pos hcopy]
    exact hplace
  · have hplain : ∀ i < numReqs, ∀ j < n i, ¬ IsPlain n d prev i j := by
      intro i hi j _
      apply not_isPlain_of_skip hscheduled hdrafts _ hi
      omega
    have hbase : ∀ i < numReqs, ∀ j < n i, IsPlain n d prev i j →
        r.inputIds.gpu[start n i + j]? = r.inputIds.cpu[start n i + j]? :=
      fun i hi j hj h => absurd h (hplain i hi j hj)
    obtain ⟨r', hplace, hids⟩ := placeTokens_spec hdrafts htoken hproposed (by omega) hbase rfl
      hcount
    refine ⟨r', bind_ok.mpr ⟨_, foldlM_flattenRow hloop, ?_⟩, hids⟩
    dsimp only
    rw [if_neg hcopy]
    exact hplace

/-! ## The batch by rows -/

section Batch

variable (r : ModelRunner E) (scheduledSpecTokens : Dict ReqId (List Token)) (ns : List Nat)

def rowLength (i : Nat) : Nat := ns.getD i 0

def rowDrafts (i : Nat) : Nat := r.reqIds[i]?.elim 0 (draftLen scheduledSpecTokens)

def rowPrev (i : Nat) : Option Nat := r.reqIds[i]?.bind r.prevRow

/-- The token that was sampled for a row. -/
def rowToken (i : Nat) : Token := ((r.rowPrev i).bind r.sampledAt).getD 0

/-- The drafts that were proposed for a row. -/
def rowDraft (i t : Nat) : Token := ((r.rowPrev i).elim [] r.proposedAt).getD t 0

theorem start_rowLength (i : Nat) : start (rowLength ns) i = (ns.take i).sum := by
  induction i with
  | zero => rfl
  | succ i ih =>
    rw [start_succ, ih, take_add_one, sum_append]
    congr 1
    unfold rowLength
    rw [getD_eq_getElem?_getD]
    cases ns[i]? <;> simp

variable {r scheduledSpecTokens ns}

variable {i : Nat} {reqId : ReqId}

section

variable (h : r.Ready scheduledSpecTokens ns)

include h

theorem Ready.draftRow (hmem : reqId ∈ r.reqIds) {p : Nat}
    (hrow : r.prevRow reqId = some p) (hpos : 0 < draftLen scheduledSpecTokens reqId) :
    ∃ rows, r.draftTokenIds = some (.tensor rows) ∧
      (∀ row ∈ rows, row.length = r.numSpecTokens) ∧
      ∀ t < r.numSpecTokens, (r.proposedAt p)[t]? = some ((r.proposedAt p).getD t 0) ∧
        (rows[p]?.bind (·[t]?)).map toInt32 = some ((r.proposedAt p).getD t 0) := by
  obtain ⟨rows, hrows, hp, hwidth⟩ := h.proposed reqId hmem p hrow hpos
  refine ⟨rows, hrows, fun row hrow => (hwidth row hrow).1, ?_⟩
  intro t ht
  have hproposed : r.proposedAt p = rows[p] := by
    unfold proposedAt
    rw [hrows]
    show rows[p]?.getD [] = rows[p]
    rw [getElem?_eq_getElem hp]
    rfl
  obtain ⟨hlength, hrange⟩ := hwidth rows[p] (getElem_mem hp)
  have htoken : (rows[p])[t]? = some ((rows[p]).getD t 0) := by
    rw [getD_eq_getElem?_getD, getElem?_eq_getElem (by omega)]
    rfl
  rw [hproposed]
  refine ⟨htoken, ?_⟩
  obtain ⟨hlo, hhi⟩ := hrange _ (mem_of_getElem? htoken)
  rw [getElem?_eq_getElem hp, Option.bind_some, htoken, Option.map_some,
    toInt32_of_range hlo hhi]

theorem getElem?_requestIds {n : Nat}
    (hreqId : r.reqIds[i]? = some reqId) (hn : ns[i]? = some n) {j : Nat} (hj : j < n) :
    (r.requestIds scheduledSpecTokens reqId (ns.take i).sum n)[j]? =
      idAt (rowLength ns) (r.rowDrafts scheduledSpecTokens) r.rowPrev r.inputIds.cpu r.rowToken
        r.rowDraft i j := by
  have hlength : rowLength ns i = n := by
    unfold rowLength
    rw [getD_eq_getElem?_getD, hn]
    rfl
  have hdraft : r.rowDrafts scheduledSpecTokens i = draftLen scheduledSpecTokens reqId := by
    unfold rowDrafts
    rw [hreqId]
    rfl
  have hprev : r.rowPrev i = r.prevRow reqId := by
    unfold rowPrev
    rw [hreqId]
    rfl
  have hplain : ∀ j < n, ((r.inputIds.cpu.drop (ns.take i).sum).take n)[j]? =
      r.inputIds.cpu[(ns.take i).sum + j]? := by
    intro j hj
    rw [getElem?_take, if_pos hj, getElem?_drop]
  unfold requestIds idAt
  rw [start_rowLength, hlength, hdraft, hprev]
  cases hrow : r.prevRow reqId with
  | none => exact hplain j hj
  | some p =>
    have hmem := mem_of_getElem? hreqId
    have hlt := h.drafts i reqId n hreqId hn (by rw [hrow]; rfl)
    obtain ⟨x, hx⟩ := Option.isSome_iff_exists.mp (h.sampled reqId hmem p hrow)
    have htoken : r.rowToken i = x := by
      unfold rowToken
      rw [hprev, hrow, Option.bind_some, hx]
      rfl
    have hroom : (ns.take i).sum + n ≤ r.inputIds.cpu.length :=
      (sum_take_add_le hn).trans h.room
    have hfront : (((r.inputIds.cpu.drop (ns.take i).sum).take n).take
        (n - 1 - draftLen scheduledSpecTokens reqId)).length =
          n - 1 - draftLen scheduledSpecTokens reqId := by
      rw [length_take, length_take, length_drop]
      omega
    dsimp only
    rw [if_pos (Option.isSome_some), hx, htoken, Option.toList_some, append_assoc]
    by_cases hfirst : j < n - 1 - draftLen scheduledSpecTokens reqId
    · rw [if_pos hfirst, getElem?_append_left (by omega), getElem?_take,
        if_pos hfirst]
      exact hplain j hj
    · rw [if_neg hfirst, getElem?_append_right (by omega), hfront]
      by_cases hsample : j = n - 1 - draftLen scheduledSpecTokens reqId
      · rw [if_pos hsample, hsample, Nat.sub_self]
        rfl
      · rw [if_neg hsample, getElem?_append_right (by rw [length_singleton]; omega),
          length_singleton, getElem?_take, if_pos (by omega)]
        obtain ⟨rows, _, _, hdrafts⟩ := h.draftRow hmem hrow (by omega)
        have hspec := h.spec reqId hmem (by rw [hrow]; rfl)
        have htoken := (hdrafts (j - (n - draftLen scheduledSpecTokens reqId)) (by omega)).1
        unfold rowDraft
        rw [hprev, hrow, Option.elim_some, ← htoken]
        congr 1
        omega

theorem length_requestIds_le {n : Nat}
    (hreqId : r.reqIds[i]? = some reqId) (hn : ns[i]? = some n) :
    (r.requestIds scheduledSpecTokens reqId (ns.take i).sum n).length ≤ n := by
  unfold requestIds
  cases hrow : r.prevRow reqId with
  | none => exact length_take_le _ _
  | some p =>
    have hlt := h.drafts i reqId n hreqId hn (by rw [hrow]; rfl)
    have htoken : (r.sampledAt p).toList.length ≤ 1 := by
      cases r.sampledAt p <;> simp
    simp only [length_append, length_take]
    omega

theorem Ready.loopRow {positions : List Int}
    (hpositions : ∀ (i : Nat) reqId, r.reqIds[i]? = some reqId →
      positions[i]? = some ((r.prevRow reqId).elim (-1) fun p : Nat => (p : Int)))
    (hi : i < r.reqIds.length) :
    LoopRow { r with prevPositions := positions } scheduledSpecTokens (cumsum ns)
      (rowLength ns) (r.rowDrafts scheduledSpecTokens) r.rowPrev i := by
  have hlt : i < ns.length := by
    rw [h.numReqs]
    exact hi
  have hreqId := getElem?_eq_getElem hi
  have hn := getElem?_eq_getElem hlt
  have hlength : rowLength ns i = ns[i] := by
    unfold rowLength
    rw [getD_eq_getElem?_getD, hn]
    rfl
  constructor
  · refine ⟨_, hreqId, ?_⟩
    unfold rowDrafts
    rw [hreqId]
    rfl
  · unfold rowPrev
    rw [hreqId]
    exact hpositions i _ hreqId
  · rw [start_rowLength]
    exact (getElem?_cumsumFrom 0 ns hlt).trans (by rw [Nat.zero_add])
  · rw [hlength]
    exact h.scheduled _ (getElem_mem hlt)
  · unfold rowPrev rowDrafts
    rw [hreqId, hlength]
    exact h.drafts i _ _ hreqId hn

/-- After `_prepare_input_ids` the input ids on the GPU are those of the requests. -/
theorem prepareInputIds_ids :
    ∃ r₁ r₂, r.computePrevPositions r.reqIds.length = .ok r₁ ∧
      r₁.prepareInputIds scheduledSpecTokens r.reqIds.length ns.sum (cumsum ns) = .ok r₂ ∧
      ∀ (i : Nat) reqId n, r.reqIds[i]? = some reqId → ns[i]? = some n →
        (r₂.inputIds.gpu.drop (ns.take i).sum).take n =
          r.requestIds scheduledSpecTokens reqId (ns.take i).sum n := by
  obtain ⟨positions, hcompute, hpositions⟩ := computePrevPositions_spec r h.positions
  have hsum : start (rowLength ns) r.reqIds.length = ns.sum := by
    rw [start_rowLength, ← h.numReqs, take_length]
  have hids : ∃ r₂, ({ r with prevPositions := positions } : ModelRunner E).prepareInputIds
      scheduledSpecTokens r.reqIds.length ns.sum (cumsum ns) = .ok r₂ ∧
      HasIds (rowLength ns) (r.rowDrafts scheduledSpecTokens) r.rowPrev r.reqIds.length
        r.inputIds.cpu r.rowToken r.rowDraft r₂.inputIds.gpu := by
    have hprev : ∀ {i p : Nat}, r.rowPrev i = some p → ∃ reqId ∈ r.reqIds,
        r.reqIds[i]? = some reqId ∧ r.prevRow reqId = some p := by
      intro i p hp
      obtain ⟨reqId, hreqId, hrow⟩ := Option.bind_eq_some_iff.mp hp
      exact ⟨reqId, mem_of_getElem? hreqId, hreqId, hrow⟩
    rcases Option.eq_none_or_eq_some r.prevSampledTokenIds with hrows | ⟨rows, hrows⟩
    · refine ⟨ModelRunner.copyInputsToGpu { r with prevPositions := positions } ns.sum, ?_, ?_⟩
      · unfold prepareInputIds
        rw [hrows]
        rfl
      · intro i hi j hj
        have hnone : r.rowPrev i = none := by
          cases hp : r.rowPrev i with
          | none => rfl
          | some p =>
            obtain ⟨reqId, hmem, _, hrow⟩ := hprev hp
            have hsampled := h.sampled reqId hmem p hrow
            unfold sampledAt at hsampled
            rw [hrows] at hsampled
            cases hsampled
        have hlt := pos_lt hi hj
        rw [hsum] at hlt
        unfold idAt
        rw [hnone]
        exact copyInputsToGpu_gpu { r with prevPositions := positions } hlt h.room
    · rw [← hsum]
      apply prepareInputIds_hasIds (r := { r with prevPositions := positions }) hrows
      · intro i hi
        exact h.loopRow hpositions hi
      · intro i p _ hp
        obtain ⟨reqId, hmem, _, hrow⟩ := hprev hp
        obtain ⟨x, hx⟩ := Option.isSome_iff_exists.mp (h.sampled reqId hmem p hrow)
        unfold rowToken
        rw [hp, Option.bind_some, hx, Option.getD_some, ← hx]
        unfold sampledAt
        rw [hrows]
        rfl
      · intro i p _ hp hpos
        obtain ⟨reqId, hmem, hreqId, hrow⟩ := hprev hp
        have hdraft : r.rowDrafts scheduledSpecTokens i = draftLen scheduledSpecTokens reqId := by
          unfold rowDrafts
          rw [hreqId]
          rfl
        rw [hdraft] at hpos
        obtain ⟨drafts, hdrafts, hwidth, hvalues⟩ := h.draftRow hmem hrow hpos
        refine ⟨drafts, hdrafts, hwidth, ?_⟩
        intro t ht
        have hspec := h.spec reqId hmem (by rw [hrow]; rfl)
        have hlt : t < r.numSpecTokens := by omega
        refine ⟨hlt, ?_⟩
        unfold rowDraft
        rw [hp]
        exact (hvalues t hlt).2
      · show start (rowLength ns) r.reqIds.length ≤ r.inputIds.cpu.length
        rw [hsum]
        exact h.room
  obtain ⟨r₂, hprepare, hids⟩ := hids
  refine ⟨_, r₂, hcompute, hprepare, ?_⟩
  intro i reqId n hreqId hn
  have hi := (List.getElem?_eq_some_iff.mp hreqId).1
  have hlength : rowLength ns i = n := by
    unfold rowLength
    rw [getD_eq_getElem?_getD, hn]
    rfl
  apply ext_getElem?
  intro j
  by_cases hj : j < n
  · rw [getElem?_take, if_pos hj, getElem?_drop, getElem?_requestIds h hreqId hn hj,
      ← hids i hi j (by omega), start_rowLength]
  · have hle := length_requestIds_le h hreqId hn
    rw [getElem?_take, if_neg hj, getElem?_eq_none (by omega)]

end

/-- Two requests of which the second was in the previous step, with a draft. -/
def oneOfTwo : ModelRunner Unit where
  reqIds := [7, 8]
  prevReqIdToIndex := some ⟨[(8, 0)], nodup_singleton _⟩
  prevSampledTokenIds := some [[5]]
  draftTokenIds := some (.tensor [[6]])
  numSpecTokens := 1
  enablePromptEmbeds := false
  useAsyncScheduling := true
  prevPositions := [0, 0]
  inputIds := ⟨[10, 11, 0, 0], [1, 2, 3, 4], rfl⟩
  inputsEmbeds := ⟨[], [], rfl⟩
  isTokenIds := ⟨[], [], rfl⟩

theorem prepareInputIds_ids_oneOfTwo :
    ∃ r₁ r₂, oneOfTwo.computePrevPositions 2 = .ok r₁ ∧
      r₁.prepareInputIds ⟨[(8, [0])], nodup_singleton _⟩ 2 4 [2, 4] = .ok r₂ ∧
      r₂.inputIds.gpu.take 2 = [10, 11] ∧ (r₂.inputIds.gpu.drop 2).take 2 = [5, 6] := by
  have hready : oneOfTwo.Ready ⟨[(8, [0])], nodup_singleton _⟩ [2, 2] := by
    refine ⟨rfl, by decide, by decide, by decide, ?_, by decide, ?_, ?_⟩
    · intro i reqId n hreqId hn _
      rcases i with _ | _ | i
      · cases hreqId
        cases hn
        decide
      · cases hreqId
        cases hn
        decide
      · cases hreqId
    · intro reqId hmem p hp
      rcases mem_pair.mp hmem with rfl | rfl
      · cases hp
      · cases hp
        rfl
    · intro reqId hmem p hp _
      rcases mem_pair.mp hmem with rfl | rfl
      · cases hp
      · cases hp
        exact ⟨[[6]], rfl, by decide, by decide⟩
  obtain ⟨r₁, r₂, hcompute, hprepare, hids⟩ := prepareInputIds_ids hready
  exact ⟨r₁, r₂, hcompute, hprepare, hids 0 7 2 rfl rfl, hids 1 8 2 rfl rfl⟩

end Batch

end ModelRunner

end VllmCore.Worker.InputIds
