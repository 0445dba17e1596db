import VllmCore.KVOffload.CPUOffloadingManager
import VllmCore.Request
import VllmCore.Support.Slices
import Mathlib.Data.Finset.Basic
/-!
# Offload transfers

An offloaded block is `blockSizeFactor` consecutive GPU blocks of a request.  The scheduler
names the blocks of a load or a store, a load possibly starting inside an offloaded block,
and the worker expands both lists to sub-blocks.  The two columns of a transfer have one
length, and a row copies between a GPU block and the sub-block of the same logical index.
-/

namespace VllmCore

open List Option Support Dict

/-- `itertools.islice` of a list. -/
def islice {α : Type} (xs : List α) (start : Nat) (stop : Option Nat) (step : Nat) : List α :=
  let stop := min (stop.getD xs.length) xs.length
  (List.range ((stop - start + step - 1) / step)).filterMap fun i => xs[start + i * step]?

/-- Source and destination blocks.  The group sizes and first block indices, which the worker
does not read, are left out. -/
abbrev TransferSpec := List Nat × List Nat

/-! ## The worker -/

/-- `output[start:start + len(values)] = values`, which broadcasts a single value. -/
def assignSlice (output : List (Option Nat)) (start : Nat) (values : List Nat) :
    Py (List (Option Nat)) := do
  let n := min values.length (output.length - start)
  require (values.length = n ∨ values.length = 1) (.valueError "could not broadcast input array")
  pure (output.take start ++ (values.take n).map some ++ output.drop (start + n))

/-- One iteration of `expand_block_ids`; the block comes with its position. -/
def expandBlockId (blockSizeFactor skipCount : Nat) (st : List (Option Nat) × Nat)
    (e : Nat × Nat) : Py (List (Option Nat) × Nat) := do
  let baseBlockId := e.1 * blockSizeFactor
  let indices := if e.2 = 0 then List.range' skipCount (blockSizeFactor - skipCount)
    else List.range blockSizeFactor
  let output ← assignSlice st.1 st.2 (indices.map (baseBlockId + ·))
  pure (output, st.2 + indices.length)

def expandBlockIds (blockIds : List Nat) (blockSizeFactor : Nat) (output : List (Option Nat))
    (skipCount : Nat := 0) : Py (List (Option Nat)) := do
  pyAssert (skipCount < blockSizeFactor) "skip_count < block_size_factor"
  Prod.fst <$> blockIds.zipIdx.foldlM (expandBlockId blockSizeFactor skipCount) (output, 0)

/-- `transfer_async`: the two columns of `src_to_dst`.  Entries that are not written are
`none`. -/
def transferAsync (gpuToCpu : Bool) (blockSizeFactor : Nat) (spec : TransferSpec) :
    Py (List (Option Nat) × List (Option Nat)) := do
  let srcBlockSizeFactor := if gpuToCpu then 1 else blockSizeFactor
  let dstBlockSizeFactor := if gpuToCpu then blockSizeFactor else 1
  let srcSubBlockCount := spec.1.length * srcBlockSizeFactor
  let dstSubBlockCount := spec.2.length * dstBlockSizeFactor
  require (srcBlockSizeFactor ≠ 0) (.zeroDivisionError "integer modulo by zero")
  let srcSubBlocksToSkip := (-(spec.2.length : Int)) % srcBlockSizeFactor
  pyAssert ((dstSubBlockCount : Int) = srcSubBlockCount - srcSubBlocksToSkip)
    "dst_sub_block_count == src_sub_block_count - src_sub_blocks_to_skip"
  let column := List.replicate dstSubBlockCount none
  let src ← expandBlockIds spec.1 srcBlockSizeFactor column srcSubBlocksToSkip.toNat
  let dst ← expandBlockIds spec.2 dstBlockSizeFactor column
  pure (src, dst)

/-! ## Sub-blocks -/

def subBlocks (factor : Nat) (blockIds : List Nat) : List Nat :=
  blockIds.flatMap fun b => (List.range factor).map (b * factor + ·)

variable {factor skip n : Nat} {ids w values : List Nat} {rest : List (Option Nat)}

@[simp] theorem length_subBlocks (factor : Nat) (ids : List Nat) :
    (subBlocks factor ids).length = ids.length * factor := by
  simp [subBlocks, length_flatMap]

theorem getElem?_subBlocks (hf : 0 < factor) (ids : List Nat) (p : Nat) :
    (subBlocks factor ids)[p]? = ids[p / factor]?.map (· * factor + p % factor) := by
  have hrows : ∀ row ∈ ids.map fun b => (List.range factor).map (b * factor + ·),
      row.length = factor := by
    intro row hrow
    obtain ⟨b, _, rfl⟩ := mem_map.mp hrow
    rw [length_map, length_range]
  have hget := getElem?_flatten_rows hrows (p := p / factor) (Nat.mod_lt p hf)
  rw [Nat.div_add_mod', ← flatMap_def, getElem?_map] at hget
  rw [subBlocks, hget]
  cases ids[p / factor]? <;> simp [Nat.mod_lt p hf]

theorem assignSlice_append (h : values.length ≤ rest.length) :
    assignSlice (w.map some ++ rest) w.length values =
      .ok ((w ++ values).map some ++ rest.drop values.length) := by
  have hn : min values.length ((w.map some ++ rest).length - w.length) = values.length := by
    rw [length_append, length_map]
    omega
  have hdrop : (w.map some ++ rest).drop (w.length + values.length) = rest.drop values.length := by
    rw [← drop_drop, drop_left' (by simp)]
  unfold assignSlice
  simp only [hn, hdrop, true_or, require_pos, ok_bind]
  rw [take_left' (by simp), take_length, map_append]
  rfl

def writtenFor (factor skip : Nat) (e : Nat × Nat) : List Nat :=
  (if e.2 = 0 then List.range' skip (factor - skip) else List.range factor).map
    (e.1 * factor + ·)

theorem expandBlockId_append (w : List Nat) {e : Nat × Nat}
    (h : (writtenFor factor skip e).length ≤ rest.length) :
    expandBlockId factor skip (w.map some ++ rest, w.length) e =
      .ok ((w ++ writtenFor factor skip e).map some ++ rest.drop (writtenFor factor skip e).length,
        (w ++ writtenFor factor skip e).length) := by
  have hwrite := assignSlice_append (w := w) h
  unfold writtenFor at hwrite ⊢
  unfold expandBlockId
  simp only [hwrite, ok_bind, length_append, length_map]
  rfl

variable {k : Nat}

theorem writtenFor_later (factor skip b : Nat) (hk : 0 < k) :
    writtenFor factor skip (b, k) = (List.range factor).map (b * factor + ·) := by
  unfold writtenFor
  rw [if_neg (Nat.ne_of_gt hk)]

theorem writtenFor_first (factor skip b : Nat) :
    writtenFor factor skip (b, 0) = ((List.range factor).map (b * factor + ·)).drop skip := by
  unfold writtenFor
  rw [if_pos rfl, ← map_drop, range_eq_range', drop_range']
  simp

theorem foldlM_expandBlockId (ids w : List Nat) (rest : List (Option Nat)) (hk : 0 < k)
    (h : ids.length * factor ≤ rest.length) :
    ∃ n, (ids.zipIdx k).foldlM (expandBlockId factor skip) (w.map some ++ rest, w.length) =
      .ok ((w ++ subBlocks factor ids).map some ++ rest.drop (ids.length * factor), n) := by
  induction ids generalizing w rest k with
  | nil => exact ⟨w.length, by simp [subBlocks, pure, Except.pure]⟩
  | cons b ids ih =>
    rw [length_cons, Nat.add_mul, Nat.one_mul] at h
    have hb : (writtenFor factor skip (b, k)).length = factor := by
      simp [writtenFor_later factor skip b hk]
    obtain ⟨n, hrest⟩ := ih (w ++ writtenFor factor skip (b, k)) (rest.drop factor)
      (Nat.succ_pos k) (by rw [length_drop]; omega)
    refine ⟨n, ?_⟩
    rw [zipIdx_cons, foldlM_cons, expandBlockId_append _ (by omega), ok_bind, hb, hrest,
      drop_drop, writtenFor_later factor skip b hk]
    simp [subBlocks, Nat.add_mul, Nat.add_comm factor]

theorem expandBlockIds_ok (hskip : skip < factor) (hn : ids.length * factor - skip = n) :
    expandBlockIds ids factor (List.replicate n none) skip =
      .ok (((subBlocks factor ids).drop skip).map some) := by
  unfold expandBlockIds
  rw [pyAssert_pos hskip, ok_bind]
  cases ids with
  | nil =>
    obtain rfl : n = 0 := by simpa using hn.symm
    simp [subBlocks, pure, Except.pure, Functor.map, Except.map]
  | cons b ids =>
    have hb : (writtenFor factor skip (b, 0)).length = factor - skip := by
      simp [writtenFor_first]
    rw [length_cons, Nat.add_mul, Nat.one_mul] at hn
    have hfit : (writtenFor factor skip (b, 0)).length ≤
        (List.replicate n (none : Option Nat)).length := by
      rw [hb, length_replicate]
      omega
    have hfirst := expandBlockId_append [] hfit
    have hroom : ids.length * factor ≤ ((List.replicate n (none : Option Nat)).drop
        (writtenFor factor skip (b, 0)).length).length := by
      rw [hb, length_drop, length_replicate]
      omega
    obtain ⟨m, hrest⟩ := foldlM_expandBlockId ids (writtenFor factor skip (b, 0)) _
      Nat.one_pos hroom
    have hend : (List.replicate n (none : Option Nat)).drop
        ((writtenFor factor skip (b, 0)).length + ids.length * factor) = [] := by
      rw [hb, drop_eq_nil_iff, length_replicate]
      omega
    have hskip' : (subBlocks factor (b :: ids)).drop skip =
        writtenFor factor skip (b, 0) ++ subBlocks factor ids := by
      rw [writtenFor_first]
      exact drop_append_of_le_length (by simpa using hskip.le)
    simp only [map_nil, nil_append, length_nil] at hfirst
    rw [zipIdx_cons, foldlM_cons, hfirst, ok_bind, hrest, drop_drop, hend,
      append_nil, hskip']
    rfl

@[simp] theorem subBlocks_one (ids : List Nat) : subBlocks 1 ids = ids := by
  induction ids with
  | nil => rfl
  | cons b ids ih =>
    change [b * 1 + 0] ++ subBlocks 1 ids = b :: ids
    rw [ih, Nat.mul_one]
    rfl

theorem transferAsync_load (cpuIds gpuIds : List Nat) (hskip : skip < factor)
    (hlen : gpuIds.length + skip = cpuIds.length * factor) :
    transferAsync false factor (cpuIds, gpuIds) =
      .ok (((subBlocks factor cpuIds).drop skip).map some, gpuIds.map some) := by
  have hmod : (-(gpuIds.length : Int)) % factor = skip := by
    have hneg : -(gpuIds.length : Int) = skip + factor * (-cpuIds.length) := by
      rw [mul_neg, mul_comm]
      omega
    rw [hneg, Int.add_mul_emod_self_left]
    exact Int.emod_eq_of_lt (by omega) (by omega)
  unfold transferAsync
  simp only [Bool.false_eq_true, if_false, Nat.mul_one, hmod, Int.toNat_natCast]
  rw [require_pos (by omega), ok_bind, pyAssert_pos (by omega), ok_bind,
    expandBlockIds_ok hskip (by omega), ok_bind, expandBlockIds_ok Nat.one_pos (by omega), ok_bind]
  simp [pure, Except.pure]

theorem transferAsync_store {cpuIds gpuIds : List Nat} (hf : 0 < factor)
    (hlen : gpuIds.length = cpuIds.length * factor) :
    transferAsync true factor (gpuIds, cpuIds) =
      .ok (gpuIds.map some, (subBlocks factor cpuIds).map some) := by
  unfold transferAsync
  simp only [if_true, Nat.mul_one, Int.emod_one, Int.toNat_zero, Nat.cast_one]
  rw [require_pos (by omega), ok_bind, pyAssert_pos (by omega), ok_bind,
    expandBlockIds_ok Nat.one_pos (by omega), ok_bind, expandBlockIds_ok hf (by omega), ok_bind]
  simp [pure, Except.pure]

theorem filterMap_range {α : Type} {g : Nat → Option α} (h : ∀ i < n, (g i).isSome) :
    ((List.range n).filterMap g).length = n ∧
      ∀ i < n, ((List.range n).filterMap g)[i]? = g i := by
  induction n with
  | zero => exact ⟨rfl, fun i hi => absurd hi (Nat.not_lt_zero i)⟩
  | succ n ih =>
    obtain ⟨hlen, hget⟩ := ih fun i hi => h i (by omega)
    obtain ⟨x, hx⟩ := isSome_iff_exists.mp (h n (by omega))
    rw [range_succ, filterMap_append, filterMap_cons_some hx, filterMap_nil]
    refine ⟨by rw [length_append, hlen, length_singleton], ?_⟩
    intro i hi
    rcases Nat.lt_succ_iff_lt_or_eq.mp hi with hlt | rfl
    · rw [getElem?_append_left (by omega), hget i hlt]
    · rw [getElem?_append_right (by omega), hlen, Nat.sub_self, hx]
      rfl

/-! ## The blocks of the manager -/

namespace CPUOffloadingManager

variable {D : Type} [DecidableEq D] {m m' : CPUOffloadingManager D} {ks : List D}

def cpuBlock (m : CPUOffloadingManager D) (k : D) : Option Nat :=
  (m.policy.get? k).map (·.blockId)

variable {p : CachePolicy D} {b : BlockStatus}

theorem cpuBlock_update {k : D} (hk : p.get? k = some b)
    (b' : BlockStatus) (hid : b'.blockId = b.blockId) (j : D) :
    ((p.update k b').get? j).map (·.blockId) = (p.get? j).map (·.blockId) := by
  cases p with
  | lru p =>
    change (((p.blocks.set k b').get? j)).map _ = _
    rw [get?_set]
    split
    next hj => rw [hj, hk, map_some, map_some, hid]
    · rfl
  | arc p =>
    change ((p.update k b').get? j).map _ = (p.get? j).map _
    change p.get? k = some b at hk
    unfold ARCCachePolicy.update
    by_cases hj : j = k
    · subst hj
      rw [hk, map_some, ← hid]
      split
      · simp [ARCCachePolicy.get?]
      next hnone =>
        have ht1 : p.t1.get? j = none := by simpa [get?_eq_none_iff] using hnone
        simp [ARCCachePolicy.get?, ht1]
    · split <;> simp [ARCCachePolicy.get?, get?_set_ne _ _ hj]

theorem foldlM_prepareLoadOne {acc : List Nat}
    (h : ks.foldlM prepareLoadOne (acc, m) = .ok (ids, m')) :
    ∃ new, ids = acc ++ new ∧ ks.map m.cpuBlock = new.map some := by
  induction ks generalizing acc m with
  | nil =>
    cases h
    exact ⟨[], (append_nil _).symm, rfl⟩
  | cons k ks ih =>
    rw [foldlM_cons, bind_ok] at h
    obtain ⟨⟨acc', m₁⟩, hone, hrest⟩ := h
    unfold prepareLoadOne at hone
    split at hone
    · cases hone
    next b hb =>
      simp only [bind_ok, pyAssert_ok, pure_ok] at hone
      obtain ⟨_, _, hone⟩ := hone
      cases hone
      obtain ⟨new, rfl, hnew⟩ := ih hrest
      refine ⟨b.blockId :: new, by simp, ?_⟩
      have hsame : cpuBlock { m with
          policy := m.policy.update k (b.withRefCnt (b.refCnt + 1)) } = m.cpuBlock :=
        funext fun j => cpuBlock_update hb (b.withRefCnt (b.refCnt + 1)) rfl j
      rw [map_cons, map_cons, ← hnew, hsame]
      exact congrArg (· :: _) (congrArg (Option.map _) hb)

theorem prepareLoad_ids (h : m.prepareLoad ks = .ok (ids, m')) :
    ks.map m.cpuBlock = ids.map some := by
  obtain ⟨new, rfl, hnew⟩ := foldlM_prepareLoadOne h
  exact hnew

theorem get?_insert {k : D} (j : D) :
    (p.insert k b).get? j = if j = k then some b else p.get? j := by
  cases p with
  | lru p => exact get?_set p.blocks k b j
  | arc p =>
    change (p.insert k b).get? j = _
    unfold ARCCachePolicy.insert ARCCachePolicy.get?
    rw [get?_set]
    by_cases hj : j = k
    · rw [if_pos hj, if_pos hj]
    · rw [if_neg hj, if_neg hj]
      rfl

theorem get?_foldl_insert {es : List (D × BlockStatus)} {k : D}
    (hnd : (es.map Prod.fst).Nodup) (h : (k, b) ∈ es ∨ k ∉ es.map Prod.fst ∧ p.get? k = some b) :
    (es.foldl (fun p e => p.insert e.1 e.2) p).get? k = some b := by
  induction es generalizing p with
  | nil => simpa using h
  | cons e es ih =>
    rw [map_cons, nodup_cons] at hnd
    simp only [mem_cons, map_cons, not_or] at h
    refine ih hnd.2 ?_
    rw [get?_insert]
    rcases h with (⟨rfl, rfl⟩ | hin) | ⟨⟨hk, hnot⟩, hget⟩
    · exact .inr ⟨hnd.1, if_pos rfl⟩
    · exact .inl hin
    · exact .inr ⟨hnot, by rw [if_neg hk, hget]⟩

theorem prepareStore_out {out : PrepareStoreOutput D} (h : m.prepareStore ks = .ok (some out, m')) :
    out.blockHashesToStore = m.blockHashesToStore ks ∧
      out.storeSpec.length = out.blockHashesToStore.length ∧
      (out.blockHashesToStore.Nodup → ∀ e ∈ out.blockHashesToStore.zip out.storeSpec,
        m'.cpuBlock e.1 = some e.2) := by
  obtain ⟨rfl, hnone, rfl⟩ | ⟨_, policy, _, blocks, m₁, _, halloc, rfl, rfl⟩ := prepareStore_some h
  · exact ⟨hnone.symm, rfl, fun _ e he => absurd he (by simp)⟩
  · have hlen := (allocateBlocks_spec halloc).2.2.1
    refine ⟨rfl, by rw [length_map, hlen], ?_⟩
    intro hnd e he
    rw [zip_map_right] at he
    obtain ⟨⟨k, b⟩, hmem, rfl⟩ := mem_map.mp he
    have hkeys : ((m.blockHashesToStore ks).zip blocks).map Prod.fst =
        m.blockHashesToStore ks := map_fst_zip hlen.ge
    have hget := get?_foldl_insert (p := policy) (hkeys.symm ▸ hnd) (.inl hmem)
    exact congrArg (Option.map _) hget

end CPUOffloadingManager

/-! ## The scheduler -/

/-- `OffloadingConnectorScheduler`, less `_requests`: the requests are passed. -/
structure OffloadingConnectorScheduler (D : Type) where
  gpuBlockSize : Nat
  blockSizeFactor : Nat
  manager : CPUOffloadingManager D
  requestBlockIds : Dict ReqId (List Nat) := .empty
  reqsToLoad : Dict ReqId TransferSpec := .empty
  nextStoredBlockIdx : Dict ReqId Nat := .empty
  blocksBeingLoaded : Option (Finset D) := none
  reqsBeingStored : Dict ReqId (Finset D) := .empty
  reqsBeingLoaded : Dict ReqId (Finset D) := .empty

namespace OffloadingConnectorScheduler

variable {D : Type} [DecidableEq D]

def offloadedBlockSize (c : OffloadingConnectorScheduler D) : Nat :=
  c.gpuBlockSize * c.blockSizeFactor

def getBlockHashes (c : OffloadingConnectorScheduler D) (req : Request D) (startIdx : Nat)
    (endIdx : Option Nat) : List D :=
  islice req.blockHashes (c.blockSizeFactor * startIdx + c.blockSizeFactor - 1)
    (endIdx.bind fun e => if e = 0 then none else some (c.blockSizeFactor * e)) c.blockSizeFactor

/-- The hash of an offloaded block of a request, which is that of its last GPU block. -/
def offloadedHash (c : OffloadingConnectorScheduler D) (req : Request D) (n : Nat) : Option D :=
  req.blockHashes[c.blockSizeFactor * n + c.blockSizeFactor - 1]?

omit [DecidableEq D] in
theorem getBlockHashes_spec {c : OffloadingConnectorScheduler D} (hf : 0 < c.blockSizeFactor)
    {req : Request D} (startIdx : Nat) {e : Nat} (he : 0 < e)
    (hlen : e * c.blockSizeFactor ≤ req.blockHashes.length) :
    (c.getBlockHashes req startIdx (some e)).length = e - startIdx ∧
      ∀ i < e - startIdx,
        (c.getBlockHashes req startIdx (some e))[i]? = c.offloadedHash req (startIdx + i) := by
  have hstop : min (c.blockSizeFactor * e) req.blockHashes.length = c.blockSizeFactor * e := by
    rw [Nat.mul_comm]
    exact Nat.min_eq_left hlen
  have hcount : (c.blockSizeFactor * e - (c.blockSizeFactor * startIdx + c.blockSizeFactor - 1) +
      c.blockSizeFactor - 1) / c.blockSizeFactor = e - startIdx := by
    rcases Nat.lt_or_ge startIdx e with hlt | hge
    · have hsplit : c.blockSizeFactor * e =
          c.blockSizeFactor * startIdx + c.blockSizeFactor * (e - startIdx) := by
        rw [← Nat.mul_add, Nat.add_sub_cancel' hlt.le]
      have hone : c.blockSizeFactor ≤ c.blockSizeFactor * (e - startIdx) :=
        Nat.le_mul_of_pos_right _ (Nat.sub_pos_of_lt hlt)
      have hnum : c.blockSizeFactor * e -
          (c.blockSizeFactor * startIdx + c.blockSizeFactor - 1) + c.blockSizeFactor - 1 =
            c.blockSizeFactor * (e - startIdx) := by
        omega
      rw [hnum, Nat.mul_div_cancel_left _ hf]
    · have hle := Nat.mul_le_mul_left c.blockSizeFactor hge
      rw [Nat.div_eq_of_lt (by omega), Nat.sub_eq_zero_of_le hge]
  have hpos : ∀ i, c.blockSizeFactor * startIdx + c.blockSizeFactor - 1 + i * c.blockSizeFactor =
      c.blockSizeFactor * (startIdx + i) + c.blockSizeFactor - 1 := by
    intro i
    rw [Nat.mul_add, Nat.mul_comm i]
    omega
  unfold getBlockHashes islice offloadedHash
  simp only [bind_some, if_neg (Nat.ne_of_gt he), getD_some, hstop, hcount, hpos]
  refine filterMap_range fun i hi => ?_
  have hle := Nat.mul_le_mul_left c.blockSizeFactor (show startIdx + i + 1 ≤ e by omega)
  rw [Nat.mul_succ, Nat.mul_comm _ e] at hle
  rw [getElem?_eq_getElem (by omega)]
  rfl

/-- `update_state_after_alloc`; the blocks of the request come with their hashes. -/
def updateStateAfterAlloc (c : OffloadingConnectorScheduler D) (request : Request D)
    (blocks : List (Nat × Option D)) (numExternalTokens : Nat) :
    Py (OffloadingConnectorScheduler D) := do
  let c := { c with requestBlockIds := c.requestBlockIds.set request.requestId [] }
  if numExternalTokens = 0 then
    return c
  let blockIds := blocks.map Prod.fst
  let numComputedGpuBlocks := blocks.countP (·.2.isSome)
  let numComputedTokens := numComputedGpuBlocks * c.gpuBlockSize
  let fullBlockTokens := numComputedTokens + numExternalTokens
  require (c.offloadedBlockSize ≠ 0) (.zeroDivisionError "integer modulo by zero")
  pyAssert (fullBlockTokens % c.offloadedBlockSize = 0)
    "full_block_tokens % self.offloaded_block_size == 0"
  let numPendingGpuBlocks := blockIds.length - numComputedGpuBlocks
  pyAssert (numExternalTokens = numPendingGpuBlocks * c.gpuBlockSize)
    "num_external_tokens == num_pending_gpu_blocks * self.gpu_block_size"
  let startBlockIdx := numComputedTokens / c.offloadedBlockSize
  let numBlocks := fullBlockTokens / c.offloadedBlockSize
  pyAssert (numBlocks ≤ request.blockHashes.length / c.blockSizeFactor)
    "len(request.block_hashes) // self.block_size_factor >= num_blocks"
  let blockHashes := c.getBlockHashes request startBlockIdx (some numBlocks)
  let (srcSpec, manager) ← c.manager.prepareLoad blockHashes
  let dstSpec := blockIds.drop numComputedGpuBlocks
  let reqBlocksBeingLoaded :=
    (c.reqsBeingLoaded.get? request.requestId).getD ∅ ∪ blockHashes.toFinset
  pure { c with
    manager := manager
    reqsToLoad := c.reqsToLoad.set request.requestId (srcSpec, dstSpec)
    reqsBeingLoaded := c.reqsBeingLoaded.set request.requestId reqBlocksBeingLoaded
    nextStoredBlockIdx := c.nextStoredBlockIdx.set request.requestId numBlocks
    blocksBeingLoaded := c.blocksBeingLoaded.map (· ∪ reqBlocksBeingLoaded) }

def srcBlockIds (blockIds : List Nat) (factor startBlockIdx : Nat) (newBlockHashes : List D)
    (blockHashesToStore : List D) : Py (List Nat) :=
  List.flatten <$>
    (newBlockHashes.zipIdx.filter fun e => e.1 ∈ blockHashesToStore).mapM fun e =>
      (List.range factor).mapM fun i : Nat =>
        pyGet blockIds (((startBlockIdx + e.2) * factor + i : Nat) : Int)

/-- One iteration of `_get_reqs_to_store`: the transfer, if there is one. -/
def getReqToStore (c : OffloadingConnectorScheduler D) (req : Request D)
    (newBlockIds : List Nat) (preempted : Bool) (newTokens : Nat) :
    Py (Option TransferSpec × OffloadingConnectorScheduler D) := do
  let oldBlockIds ←
    (if preempted then pure [] else c.requestBlockIds.get req.requestId : Py (List Nat))
  let blockIds := oldBlockIds ++ newBlockIds
  let c := { c with requestBlockIds := c.requestBlockIds.set req.requestId blockIds }
  let totalTokens := min (req.numComputedTokens + newTokens) req.numTokens
  require (c.offloadedBlockSize ≠ 0) (.zeroDivisionError "integer division by zero")
  let numBlocks := totalTokens / (c.offloadedBlockSize : Int)
  let startBlockIdx : Nat := (c.nextStoredBlockIdx.get? req.requestId).getD 0
  if numBlocks - startBlockIdx ≤ 0 then
    return (none, c)
  let numBlocks := numBlocks.toNat
  pyAssert (numBlocks * c.blockSizeFactor ≤ req.blockHashes.length)
    "len(req.block_hashes) >= num_gpu_blocks"
  let newBlockHashes := c.getBlockHashes req startBlockIdx (some numBlocks)
  match ← c.manager.prepareStore newBlockHashes with
  | (none, manager) => return (none, { c with manager := manager })
  | (some storeOutput, manager) =>
    let c := { c with
      manager := manager
      nextStoredBlockIdx := c.nextStoredBlockIdx.set req.requestId numBlocks }
    if storeOutput.blockHashesToStore = [] then
      return (none, c)
    let manager := c.manager.touch (c.getBlockHashes req 0 (some numBlocks))
    let src ← srcBlockIds blockIds c.blockSizeFactor startBlockIdx newBlockHashes
      storeOutput.blockHashesToStore
    pure (some (src, storeOutput.storeSpec), { c with
      manager := manager
      reqsBeingStored := c.reqsBeingStored.set req.requestId
        ((c.reqsBeingStored.get? req.requestId).getD ∅ ∪
          storeOutput.blockHashesToStore.toFinset) })

/-! ## The transfers -/

variable {c c' : OffloadingConnectorScheduler D} {req : Request D}
variable {blocks : List (Nat × Option D)} {newBlockIds : List Nat} {preempted : Bool}
  {newTokens : Nat} {spec : TransferSpec}

/-- What a load names: the offloaded blocks from the one that the first block not computed
lies in, up to the end of the blocks of the request. -/
theorem updateStateAfterAlloc_ok (h : c.updateStateAfterAlloc req blocks n = .ok c') (hn : n ≠ 0) :
    ∃ e cpuIds, 0 < c.blockSizeFactor ∧ 0 < e ∧ e * c.blockSizeFactor = blocks.length ∧
      e * c.blockSizeFactor ≤ req.blockHashes.length ∧
      (c.getBlockHashes req (blocks.countP (·.2.isSome) / c.blockSizeFactor) (some e)).map
        c.manager.cpuBlock = cpuIds.map some ∧
      c'.reqsToLoad.get? req.requestId =
        some (cpuIds, (blocks.map Prod.fst).drop (blocks.countP (·.2.isSome))) := by
  unfold updateStateAfterAlloc at h
  simp only [if_neg hn, bind_ok, pyAssert_ok, require_ok, pure_ok] at h
  obtain ⟨_, hsize, _, haligned, _, hpending, _, hhashes, ⟨cpuIds, manager⟩, hload, rfl⟩ := h
  have hf : 0 < c.blockSizeFactor := by
    refine Nat.pos_of_ne_zero fun h0 => hsize ?_
    simp [offloadedBlockSize, h0]
  have hg : 0 < c.gpuBlockSize := by
    refine Nat.pos_of_ne_zero fun h0 => hsize ?_
    simp [offloadedBlockSize, h0]
  rw [length_map] at hpending
  have hle : blocks.countP (·.2.isSome) ≤ blocks.length := countP_le_length
  have hfull : blocks.countP (·.2.isSome) * c.gpuBlockSize + n =
      c.gpuBlockSize * blocks.length := by
    rw [hpending, ← Nat.add_mul, Nat.add_sub_cancel' hle, Nat.mul_comm]
  simp only [offloadedBlockSize, hfull, Nat.mul_mod_mul_left, Nat.mul_div_mul_left _ _ hg] at *
  have hdvd : c.blockSizeFactor ∣ blocks.length :=
    Nat.dvd_of_mod_eq_zero ((Nat.mul_eq_zero.mp haligned).resolve_left hg.ne')
  have hend : blocks.length / c.blockSizeFactor * c.blockSizeFactor = blocks.length :=
    Nat.div_mul_cancel hdvd
  have hpos : 0 < blocks.length := by
    refine Nat.pos_of_ne_zero fun h0 => hn ?_
    rw [hpending, h0, Nat.zero_sub, Nat.zero_mul]
  have hstart : blocks.countP (·.2.isSome) * c.gpuBlockSize /
      (c.gpuBlockSize * c.blockSizeFactor) = blocks.countP (·.2.isSome) / c.blockSizeFactor := by
    rw [Nat.mul_comm, Nat.mul_div_mul_left _ _ hg]
  rw [hstart] at hload
  refine ⟨blocks.length / c.blockSizeFactor, cpuIds, hf,
    Nat.div_pos (Nat.le_of_dvd hpos hdvd) hf, hend, ?_, CPUOffloadingManager.prepareLoad_ids hload,
    get?_set_self _ _ _⟩
  exact (Nat.mul_le_mul_right _ hhashes).trans (Nat.div_mul_le_self _ _)

/-- The load that the scheduler left in `c'` copies, for each block that is not computed, the
sub-block of the same logical index. -/
def LoadMaps (c c' : OffloadingConnectorScheduler D) (req : Request D)
    (blocks : List (Nat × Option D)) : Prop :=
  ∃ spec src dst, c'.reqsToLoad.get? req.requestId = some spec ∧
    transferAsync false c.blockSizeFactor spec = .ok (src, dst) ∧ src.length = dst.length ∧
    dst.length = blocks.length - blocks.countP (·.2.isSome) ∧
    ∀ j < dst.length, ∀ i, i = blocks.countP (·.2.isSome) + j → ∃ g k b,
      (blocks.map Prod.fst)[i]? = some g ∧
      c.offloadedHash req (i / c.blockSizeFactor) = some k ∧ c.manager.cpuBlock k = some b ∧
      i % c.blockSizeFactor < c.blockSizeFactor ∧
      src[j]? = some (some (b * c.blockSizeFactor + i % c.blockSizeFactor)) ∧
      dst[j]? = some (some g)

theorem load_maps (h : c.updateStateAfterAlloc req blocks n = .ok c') (hn : n ≠ 0) :
    LoadMaps c c' req blocks := by
  unfold LoadMaps
  obtain ⟨e, cpuIds, hf, he, hend, hlen, hids, hspec⟩ := updateStateAfterAlloc_ok h hn
  have hle : blocks.countP (·.2.isSome) ≤ blocks.length := countP_le_length
  generalize blocks.countP (·.2.isSome) = first at *
  obtain ⟨hcount, hhash⟩ := getBlockHashes_spec hf (first / c.blockSizeFactor) he hlen
  have hcpu : cpuIds.length = e - first / c.blockSizeFactor := by
    rw [← hcount, ← length_map (f := some), ← hids, length_map]
  have hfirst := Nat.div_add_mod' first c.blockSizeFactor
  have hmod := Nat.mod_lt first hf
  have hgpu : ((blocks.map Prod.fst).drop first).length = blocks.length - first := by
    rw [length_drop, length_map]
  have htransfer := transferAsync_load cpuIds ((blocks.map Prod.fst).drop first) hmod (by
    rw [hgpu, hcpu, Nat.sub_mul, hend]
    omega)
  have hsrc : (((subBlocks c.blockSizeFactor cpuIds).drop (first % c.blockSizeFactor)).map
      some).length = blocks.length - first := by
    rw [length_map, length_drop, length_subBlocks, hcpu, Nat.sub_mul, hend]
    omega
  refine ⟨_, _, _, hspec, htransfer, by rw [hsrc, length_map, hgpu],
    by rw [length_map, hgpu], ?_⟩
  rintro j hj i rfl
  rw [length_map, hgpu] at hj
  -- The position counted from the start of the first offloaded block that is read.
  have hpos : first + j = first % c.blockSizeFactor + j +
      c.blockSizeFactor * (first / c.blockSizeFactor) := by
    rw [Nat.mul_comm]
    omega
  have hdiv : (first + j) / c.blockSizeFactor =
      first / c.blockSizeFactor + (first % c.blockSizeFactor + j) / c.blockSizeFactor := by
    rw [hpos, Nat.add_mul_div_left _ _ hf, Nat.add_comm]
  have hrow : (first % c.blockSizeFactor + j) / c.blockSizeFactor <
      e - first / c.blockSizeFactor := by
    rw [Nat.div_lt_iff_lt_mul hf, Nat.sub_mul, hend]
    omega
  have hcell := congrArg (·[(first % c.blockSizeFactor + j) / c.blockSizeFactor]?) hids
  simp only [getElem?_map] at hcell
  rw [hhash _ hrow, ← hdiv, getElem?_eq_getElem (hcpu ▸ hrow), map_some,
    map_eq_some_iff] at hcell
  obtain ⟨k, hk, hb⟩ := hcell
  have hin : first + j < (blocks.map Prod.fst).length := by
    rw [length_map]
    omega
  refine ⟨_, k, _, getElem?_eq_getElem hin, hk, hb, Nat.mod_lt _ hf, ?_, ?_⟩
  · rw [getElem?_map, getElem?_drop, getElem?_subBlocks hf,
      getElem?_eq_getElem (hcpu ▸ hrow), hpos, Nat.add_mul_mod_self_left]
    rfl
  · rw [getElem?_map, getElem?_drop, getElem?_eq_getElem hin]
    rfl

theorem srcBlockIds_ok {src : List Nat} {f start : Nat} {hashes toStore : List D} (hf : 0 < f)
    (h : srcBlockIds ids f start hashes toStore = .ok src) :
    src.length = (hashes.zipIdx.filter fun e => e.1 ∈ toStore).length * f ∧
      ∀ p < src.length, ∃ e g,
        (hashes.zipIdx.filter fun e => e.1 ∈ toStore)[p / f]? = some e ∧
        ids[(start + e.2) * f + p % f]? = some g ∧ src[p]? = some g := by
  unfold srcBlockIds at h
  cases hrows : (hashes.zipIdx.filter fun e => e.1 ∈ toStore).mapM fun e =>
      (List.range f).mapM fun i : Nat => pyGet ids (((start + e.2) * f + i : Nat) : Int) with
  | error e =>
    rw [hrows] at h
    cases h
  | ok rows =>
    rw [hrows] at h
    obtain rfl : rows.flatten = src := Except.ok.inj h
    have hwidth : ∀ row ∈ rows, row.length = f := by
      intro row hrow
      obtain ⟨e, _, he⟩ := exists_of_mem_mapM hrows hrow
      rw [← (mapM_ok_iff.mp he).length_eq, length_range]
    have hlen : rows.flatten.length =
        (hashes.zipIdx.filter fun e => e.1 ∈ toStore).length * f := by
      rw [(mapM_ok_iff.mp hrows).length_eq, length_flatten, map_congr_left hwidth,
        map_const', sum_replicate_nat]
    refine ⟨hlen, ?_⟩
    intro p hp
    have hget := getElem?_flatten_rows hwidth (p := p / f) (Nat.mod_lt p hf)
    rw [Nat.div_add_mod', getElem?_eq_getElem hp, eq_comm, bind_eq_some_iff] at hget
    obtain ⟨row, hrow, hg⟩ := hget
    obtain ⟨e, he, hrowOf⟩ := getElem?_of_mapM hrows hrow
    obtain ⟨i, hi, hread⟩ := getElem?_of_mapM hrowOf hg
    rw [getElem?_range (Nat.mod_lt p hf)] at hi
    cases hi
    exact ⟨e, _, he, pyGet_natCast_ok.mp hread, getElem?_eq_getElem hp⟩

theorem getReqToStore_ok
    (h : c.getReqToStore req newBlockIds preempted newTokens = .ok (some spec, c')) :
    ∃ ids e out m src, 0 < c.blockSizeFactor ∧
      (c.nextStoredBlockIdx.get? req.requestId).getD 0 < e ∧
      e * c.blockSizeFactor ≤ req.blockHashes.length ∧
      c'.requestBlockIds.get? req.requestId = some ids ∧
      c'.nextStoredBlockIdx.get? req.requestId = some e ∧
      c.manager.prepareStore (c.getBlockHashes req
        ((c.nextStoredBlockIdx.get? req.requestId).getD 0) (some e)) = .ok (some out, m) ∧
      srcBlockIds ids c.blockSizeFactor ((c.nextStoredBlockIdx.get? req.requestId).getD 0)
        (c.getBlockHashes req ((c.nextStoredBlockIdx.get? req.requestId).getD 0) (some e))
        out.blockHashesToStore = .ok src ∧ spec = (src, out.storeSpec) := by
  unfold getReqToStore at h
  simp only [bind_ok, require_ok] at h
  obtain ⟨old, _, _, hsize, h⟩ := h
  split at h
  · cases h
  next hnew =>
    simp only [bind_ok, pyAssert_ok] at h
    obtain ⟨_, hlen, ⟨res, m⟩, hstore, h⟩ := h
    have hf : 0 < c.blockSizeFactor := by
      refine Nat.pos_of_ne_zero fun h0 => hsize ?_
      simp [offloadedBlockSize, h0]
    cases res with
    | none => cases h
    | some out =>
      dsimp only at h
      split at h
      · cases h
      · simp only [bind_ok, pure_ok] at h
        obtain ⟨src, hsrc, h⟩ := h
        cases h
        refine ⟨_, _, out, m, src, hf, ?_, hlen, get?_set_self _ _ _,
          get?_set_self _ _ _, hstore, hsrc, rfl⟩
        omega

theorem map_fst_kept (hashes : List D) (m : CPUOffloadingManager D) :
    (hashes.zipIdx.filter fun e => e.1 ∈ m.blockHashesToStore hashes).map Prod.fst =
      m.blockHashesToStore hashes := by
  have hmem : ∀ k ∈ hashes, decide (k ∈ m.blockHashesToStore hashes) =
      (m.policy.get? k).isNone := by
    intro k hk
    cases hget : m.policy.get? k <;> simp [CPUOffloadingManager.blockHashesToStore, hk, hget]
  have hfst := filter_map (f := Prod.fst) (p := (· ∈ m.blockHashesToStore hashes))
    (l := hashes.zipIdx)
  rw [zipIdx_map_fst] at hfst
  exact hfst.symm.trans (filter_congr hmem)

/-- A store copies each block of the stored offloaded blocks to the sub-block of the same
logical index, in the CPU block that the manager gave to the hash. -/
def StoreMaps (c c' : OffloadingConnectorScheduler D) (req : Request D) (spec : TransferSpec) :
    Prop :=
  ∃ ids start e out m src dst, start = (c.nextStoredBlockIdx.get? req.requestId).getD 0 ∧
    c'.requestBlockIds.get? req.requestId = some ids ∧
    c'.nextStoredBlockIdx.get? req.requestId = some e ∧
    c.manager.prepareStore (c.getBlockHashes req start (some e)) = .ok (some out, m) ∧
    transferAsync true c.blockSizeFactor spec = .ok (src, dst) ∧ src.length = dst.length ∧
    (∀ j < dst.length, ∃ n r g k b, start ≤ n ∧ n < e ∧ r < c.blockSizeFactor ∧
      ids[n * c.blockSizeFactor + r]? = some g ∧ c.offloadedHash req n = some k ∧
      (k, b) ∈ out.blockHashesToStore.zip out.storeSpec ∧
      (out.blockHashesToStore.Nodup → m.cpuBlock k = some b) ∧
      src[j]? = some (some g) ∧ dst[j]? = some (some (b * c.blockSizeFactor + r))) ∧
    ∀ n k, start ≤ n → n < e → c.offloadedHash req n = some k → k ∈ out.blockHashesToStore →
      ∀ r < c.blockSizeFactor, ∃ j < dst.length,
        src[j]? = some ids[n * c.blockSizeFactor + r]?

theorem store_maps (h : c.getReqToStore req newBlockIds preempted newTokens = .ok (some spec, c')) :
    StoreMaps c c' req spec := by
  unfold StoreMaps
  obtain ⟨ids, e, out, m, gpu, hf, hstart, hlen, hids, hnext, hstore, hsrc, rfl⟩ :=
    getReqToStore_ok h
  generalize (c.nextStoredBlockIdx.get? req.requestId).getD 0 = start at *
  obtain ⟨hcount, hhash⟩ := getBlockHashes_spec hf start (Nat.zero_lt_of_lt hstart) hlen
  generalize hhashes : c.getBlockHashes req start (some e) = hashes at *
  obtain ⟨hout, hspec, hheld⟩ := CPUOffloadingManager.prepareStore_out hstore
  have hkeys := map_fst_kept hashes c.manager
  rw [← hout] at hkeys
  obtain ⟨hgpu, hrows⟩ := srcBlockIds_ok hf hsrc
  have hkept := congrArg List.length hkeys
  rw [length_map] at hkept
  rw [hkept, ← hspec] at hgpu
  have hdst : ((subBlocks c.blockSizeFactor out.storeSpec).map some).length = gpu.length := by
    rw [length_map, length_subBlocks, hgpu]
  have hentry : ∀ k i, (k, i) ∈ (hashes.zipIdx.filter fun e => e.1 ∈ out.blockHashesToStore) ↔
      c.offloadedHash req (start + i) = some k ∧ i < e - start ∧ k ∈ out.blockHashesToStore := by
    intro k i
    rw [mem_filter, mem_zipIdx_iff_getElem?, decide_eq_true_eq]
    by_cases hi : i < e - start
    · rw [← hhash i hi]
      tauto
    · rw [getElem?_eq_none (by omega)]
      simp [hi]
  refine ⟨ids, start, e, out, m, _, _, rfl, hids, hnext, by rw [hhashes, hstore],
    transferAsync_store hf hgpu, by rw [hdst, length_map], ?_, ?_⟩
  · intro j hj
    rw [hdst] at hj
    obtain ⟨⟨k, i⟩, g, hcell, hg, hj'⟩ := hrows j hj
    obtain ⟨hk, hi, _⟩ := (hentry k i).mp (mem_of_getElem? hcell)
    have hq : j / c.blockSizeFactor < out.storeSpec.length := by
      rw [Nat.div_lt_iff_lt_mul hf, ← hgpu]
      exact hj
    have hfst : out.blockHashesToStore[j / c.blockSizeFactor]? = some k := by
      rw [← hkeys, getElem?_map, hcell]
      rfl
    have hzip : (k, out.storeSpec[j / c.blockSizeFactor]) ∈
        out.blockHashesToStore.zip out.storeSpec := by
      refine mem_of_getElem? (i := j / c.blockSizeFactor) ?_
      rw [getElem?_zip_eq_some]
      exact ⟨hfst, getElem?_eq_getElem hq⟩
    refine ⟨start + i, j % c.blockSizeFactor, g, k, _, by omega, by omega, Nat.mod_lt _ hf, hg, hk,
      hzip, fun hnd => hheld hnd _ hzip, ?_, ?_⟩
    · rw [getElem?_map, hj']
      rfl
    · rw [getElem?_map, getElem?_subBlocks hf, getElem?_eq_getElem hq]
      rfl
  · intro n k hn hne hk hmem r hr
    obtain ⟨q, hq⟩ := mem_iff_getElem?.mp
      ((hentry k (n - start)).mpr ⟨by rwa [Nat.add_sub_cancel' hn], by omega, hmem⟩)
    have hdiv : (q * c.blockSizeFactor + r) / c.blockSizeFactor = q := by
      rw [Nat.mul_comm, Nat.mul_add_div hf, Nat.div_eq_of_lt hr, Nat.add_zero]
    have hmod : (q * c.blockSizeFactor + r) % c.blockSizeFactor = r := by
      rw [Nat.mul_comm, Nat.mul_add_mod, Nat.mod_eq_of_lt hr]
    have hlt : q * c.blockSizeFactor + r < gpu.length := by
      have hqlt := (List.getElem?_eq_some_iff.mp hq).1
      rw [hkept, ← hspec] at hqlt
      have hnext := Nat.mul_le_mul_right c.blockSizeFactor (Nat.succ_le_of_lt hqlt)
      rw [Nat.succ_mul] at hnext
      omega
    obtain ⟨entry, g, hcell, hg, hj⟩ := hrows _ hlt
    rw [hdiv, hq] at hcell
    cases hcell
    rw [hmod, Nat.add_sub_cancel' hn] at hg
    refine ⟨q * c.blockSizeFactor + r, by rw [hdst]; exact hlt, ?_⟩
    rw [getElem?_map, hj, hg]
    rfl

theorem transfers_keep_index (c : OffloadingConnectorScheduler D) (req : Request D) :
    (∀ (blocks : List (Nat × Option D)) (numExternalTokens : Nat) (c'),
      c.updateStateAfterAlloc req blocks numExternalTokens = .ok c' → numExternalTokens ≠ 0 →
        LoadMaps c c' req blocks) ∧
    ∀ (newBlockIds : List Nat) (preempted : Bool) (newTokens : Nat) (spec : TransferSpec) (c'),
      c.getReqToStore req newBlockIds preempted newTokens = .ok (some spec, c') →
        StoreMaps c c' req spec :=
  ⟨fun _ _ _ h hn => load_maps h hn, fun _ _ _ _ _ h => store_maps h⟩

def twoOffloaded : OffloadingConnectorScheduler Nat where
  gpuBlockSize := 4
  blockSizeFactor := 2
  manager := { CPUOffloadingManager.create 8 5 .lru false with
    numAllocatedBlocks := 4
    freeList := [0, 2]
    policy := .lru ⟨(Dict.empty.set 11 ⟨0, 3⟩).set 13 ⟨0, 1⟩⟩ }

def sixteenTokens (blockHashes : List Nat) : Request Nat where
  requestId := 7
  allTokenIds := List.replicate 16 0
  blockHashes := blockHashes

theorem transfers_keep_index_unaligned :
    (∃ c', twoOffloaded.updateStateAfterAlloc (sixteenTokens [10, 11, 12, 13])
        [(5, some 10), (6, none), (7, none), (8, none)] 12 = .ok c' ∧
      LoadMaps twoOffloaded c' (sixteenTokens [10, 11, 12, 13])
        [(5, some 10), (6, none), (7, none), (8, none)]) ∧
    ∃ spec c', twoOffloaded.getReqToStore (sixteenTokens [10, 11, 12, 23]) [5, 6, 7, 8] true 16 =
        .ok (some spec, c') ∧
      StoreMaps twoOffloaded c' (sixteenTokens [10, 11, 12, 23]) spec :=
  ⟨⟨_, rfl, (transfers_keep_index _ _).1 _ 12 _ rfl (by decide)⟩,
    _, _, rfl, (transfers_keep_index _ _).2 [5, 6, 7, 8] true 16 _ _ rfl⟩

end OffloadingConnectorScheduler

end VllmCore
