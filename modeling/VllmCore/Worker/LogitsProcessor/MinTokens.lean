import VllmCore.Support.Dict
import VllmCore.Support.Ragged
import VllmCore.Request
/-!
# The minimal number of tokens, with drafts

The logits of the drafts of all requests stand in one array, a row for each draft.  The
stop tokens of a request are masked in the rows of its drafts that come before its minimal
number of tokens.
-/

namespace VllmCore.Worker

open List Support

/-! ## The processor -/

/-- A request, and the entry of `min_toks` for it. -/
structure MinTokensRequest where
  minTokens : Nat
  outputTokIds : List Token
  stopTokIds : List Token
  deriving DecidableEq

namespace MinTokensRequest

/-- `MinTokensLogitsProcessor.add_request`. -/
def addRequest (r : MinTokensRequest) : Option MinTokensRequest :=
  if r.minTokens = 0 ∨ r.minTokens ≤ r.outputTokIds.length then none else some r

/-- The rows and the tokens that `apply_with_spec_decode` masks for a request. -/
def draftSlice (cumsum numDraftTokens : List Nat) (reqIdx : Nat) (r : MinTokensRequest) :
    Py (List Nat × List Token) := do
  let remaining : Int := r.minTokens - r.outputTokIds.length
  let numDraft ← pyGet numDraftTokens reqIdx
  let nMask := (min (max remaining 0) numDraft).toNat
  if nMask > 0 then
    let offset ← pyGet cumsum reqIdx
    return ((List.range' offset nMask).flatMap (List.replicate r.stopTokIds.length),
      (List.replicate nMask r.stopTokIds).flatten)
  else return ([], [])

end MinTokensRequest

variable {L : Type}

/-- `logits.index_put_` with one value.  A row has a logit for every token. -/
def indexPut (logits : List (Token → L)) (slice : List (Nat × Token)) (value : L) :
    Py (List (Token → L)) :=
  slice.foldlM (fun logits e => do
    let row ← pyGet logits e.1
    pySet logits e.1 (Function.update row e.2 value)) logits

def applyWithSpecDecode (minToks : Dict Nat MinTokensRequest) (negInf : L)
    (logits : List (Token → L)) (numDraftTokens : List Nat) : Py (List (Token → L)) := do
  if minToks.entries = [] then return logits
  let entries := minToks.entries.filter fun e => e.2.stopTokIds ≠ []
  if entries = [] then return logits
  let slices ← entries.mapM fun e =>
    e.2.draftSlice (0 :: cumsum numDraftTokens) numDraftTokens e.1
  indexPut logits ((slices.flatMap Prod.fst).zip (slices.flatMap Prod.snd)) negInf

variable {logits : List (Token → L)} {slice : List (Nat × Token)} {value negInf : L}
variable {numDraftTokens : List Nat} {minToks : Dict Nat MinTokensRequest} {r : MinTokensRequest}
variable {batch : List MinTokensRequest} {i j k n : Nat} {t : Token} {f : Token → L}

theorem indexPut_spec (value : L) (h : ∀ e ∈ slice, e.1 < logits.length) :
    ∃ logits', indexPut logits slice value = .ok logits' ∧ logits'.length = logits.length ∧
      ∀ k f, logits[k]? = some f →
        logits'[k]? = some fun t => if (k, t) ∈ slice then value else f t := by
  induction slice generalizing logits with
  | nil => exact ⟨logits, rfl, rfl, fun k f hf => by simpa using hf⟩
  | cons e slice ih =>
    have hlt := h e mem_cons_self
    obtain ⟨logits', hrest, hlen, hrow⟩ := @ih
      (logits.set e.1 (Function.update logits[e.1] e.2 value))
      (fun x hx => by rw [length_set]; exact h x (mem_cons_of_mem _ hx))
    refine ⟨logits', ?_, by rw [hlen, length_set], fun k f hf => ?_⟩
    · rw [indexPut, foldlM_cons, pyGet_natCast _ _ hlt, ok_bind,
        show pySet logits e.1 _ = .ok _ from pySet_ok.mpr ⟨e.1, pyIndex_natCast hlt, rfl⟩, ok_bind]
      exact hrest
    · by_cases hk : e.1 = k
      · subst hk
        rw [getElem?_eq_getElem hlt] at hf
        cases hf
        rw [hrow e.1 _ (getElem?_set_self hlt)]
        congr 1
        funext t
        by_cases ht : t = e.2
        · simp [ht]
        · simp [mem_cons, Prod.ext_iff, ht]
      · rw [hrow k f (by rwa [getElem?_set_ne hk])]
        simp [mem_cons, Prod.ext_iff, Ne.symm hk]

theorem zip_repeat_tile (rows : List Nat) (toks : List Token) :
    (rows.flatMap (List.replicate toks.length)).zip (List.replicate rows.length toks).flatten =
      rows.flatMap fun row => toks.map (row, ·) := by
  have hrow : ∀ (row : Nat) (toks : List Token),
      (List.replicate toks.length row).zip toks = toks.map (row, ·) := by
    intro row toks
    induction toks with
    | nil => rfl
    | cons t toks ih => simp [replicate_succ, ih]
  induction rows with
  | nil => rfl
  | cons row rows ih =>
    rw [flatMap_cons, length_cons, replicate_succ, flatten_cons,
      zip_append (by simp), ih, flatMap_cons, hrow]

theorem MinTokensRequest.draftSlice_spec (r : MinTokensRequest) (hn : numDraftTokens[i]? = some n) :
    ∃ slice, r.draftSlice (0 :: cumsum numDraftTokens) numDraftTokens i = .ok slice ∧
      slice.1.length = slice.2.length ∧ ∀ k t, (k, t) ∈ slice.1.zip slice.2 ↔
        ∃ j < n, k = (numDraftTokens.take i).sum + j ∧
          r.outputTokIds.length + j < r.minTokens ∧ t ∈ r.stopTokIds := by
  have hlt := (List.getElem?_eq_some_iff.mp hn).1
  have hoffset := pyGet_natCast_ok.mpr (getElem?_cumsum numDraftTokens (Nat.le_of_lt hlt))
  simp only [draftSlice, pyGet_natCast_ok.mpr hn, hoffset, ok_bind]
  generalize hmask : (min (max ((r.minTokens : Int) - r.outputTokIds.length) 0) n).toNat = nMask
  have hbefore : ∀ j, j < nMask ↔ j < n ∧ r.outputTokIds.length + j < r.minTokens := by omega
  split
  · refine ⟨_, rfl, by simp, fun k t => ?_⟩
    have hzip := zip_repeat_tile (List.range' (numDraftTokens.take i).sum nMask) r.stopTokIds
    rw [length_range'] at hzip
    rw [hzip]
    simp only [mem_flatMap, mem_map, mem_range'_1, Prod.mk.injEq]
    constructor
    · rintro ⟨row, ⟨hle, hrow⟩, tok, htok, rfl, rfl⟩
      obtain ⟨hj, hmin⟩ := (hbefore (row - (numDraftTokens.take i).sum)).mp (by omega)
      exact ⟨_, hj, by omega, hmin, htok⟩
    · rintro ⟨j, hj, rfl, hmin, htok⟩
      have := (hbefore j).mpr ⟨hj, hmin⟩
      exact ⟨_, ⟨by omega, by omega⟩, t, htok, rfl, rfl⟩
  next hnone =>
    refine ⟨_, rfl, rfl, fun k t => ⟨nofun, ?_⟩⟩
    rintro ⟨j, hj, rfl, hmin, _⟩
    have := (hbefore j).mpr ⟨hj, hmin⟩
    omega

/-! ## What is masked -/

/-- The entries are those of the requests in the batch, and a request without one has
reached its minimum. -/
structure TracksMinTokens (minToks : Dict Nat MinTokensRequest) (batch : List MinTokensRequest) :
    Prop where
  entry : ∀ i r, minToks.get? i = some r → batch[i]? = some r
  reached : ∀ i r, batch[i]? = some r → minToks.get? i = none →
    r.minTokens ≤ r.outputTokIds.length

theorem tracksMinTokens_of_added
    (h : ∀ i, minToks.get? i = batch[i]?.bind MinTokensRequest.addRequest) :
    TracksMinTokens minToks batch where
  entry i r hr := by
    obtain ⟨r', hr', hadd⟩ := Option.bind_eq_some_iff.mp ((h i).symm.trans hr)
    unfold MinTokensRequest.addRequest at hadd
    split at hadd
    · cases hadd
    · cases hadd
      exact hr'
  reached i r hr hnone := by
    rw [h, hr, Option.bind_some, MinTokensRequest.addRequest] at hnone
    split at hnone
    · omega
    · cases hnone

theorem mapM_draftSlice (entries : List (Nat × MinTokensRequest))
    (h : ∀ e ∈ entries, ∃ n, numDraftTokens[e.1]? = some n) :
    ∃ slices, entries.mapM (fun e => e.2.draftSlice (0 :: cumsum numDraftTokens) numDraftTokens
        e.1) = .ok slices ∧
      ∀ k t, (k, t) ∈ (slices.flatMap Prod.fst).zip (slices.flatMap Prod.snd) ↔
        ∃ e ∈ entries, ∃ n j, numDraftTokens[e.1]? = some n ∧ j < n ∧
          k = (numDraftTokens.take e.1).sum + j ∧
          e.2.outputTokIds.length + j < e.2.minTokens ∧ t ∈ e.2.stopTokIds := by
  induction entries with
  | nil => exact ⟨[], rfl, by simp⟩
  | cons e entries ih =>
    obtain ⟨n, hn⟩ := h e mem_cons_self
    obtain ⟨slice, hslice, hlen, hmem⟩ := e.2.draftSlice_spec hn
    obtain ⟨slices, hslices, hmems⟩ := ih fun x hx => h x (mem_cons_of_mem _ hx)
    refine ⟨slice :: slices, ?_, fun k t => ?_⟩
    · rw [mapM_cons, hslice, ok_bind, hslices]
      rfl
    · rw [flatMap_cons, flatMap_cons, zip_append hlen, mem_append, hmem, hmems]
      simp only [mem_cons, exists_eq_or_imp, hn, Option.some.injEq, exists_eq_left',
        exists_and_left]

/-- In the row of draft `j` of a request the stop tokens are masked exactly when the outputs
and the drafts before it are fewer than the minimum, and nothing else changes. -/
structure MasksDrafts (batch : List MinTokensRequest) (numDraftTokens : List Nat) (negInf : L)
    (logits logits' : List (Token → L)) : Prop where
  length : logits'.length = logits.length
  row : ∀ i r n, batch[i]? = some r → numDraftTokens[i]? = some n → ∀ j < n, ∀ f,
    logits[(numDraftTokens.take i).sum + j]? = some f →
    logits'[(numDraftTokens.take i).sum + j]? = some fun t =>
      if r.outputTokIds.length + j < r.minTokens ∧ t ∈ r.stopTokIds then negInf else f t

theorem applyWithSpecDecode_masks (h : TracksMinTokens minToks batch)
    (hlen : numDraftTokens.length = batch.length)
    (hlogits : logits.length = numDraftTokens.sum) :
    ∃ logits', applyWithSpecDecode minToks negInf logits numDraftTokens = .ok logits' ∧
      MasksDrafts batch numDraftTokens negInf logits logits' := by
  have happly : applyWithSpecDecode minToks negInf logits numDraftTokens = (do
      let slices ← (minToks.entries.filter fun e => e.2.stopTokIds ≠ []).mapM fun e =>
        e.2.draftSlice (0 :: cumsum numDraftTokens) numDraftTokens e.1
      indexPut logits ((slices.flatMap Prod.fst).zip (slices.flatMap Prod.snd)) negInf) := by
    simp only [applyWithSpecDecode]
    split
    next hnil => rw [hnil]; rfl
    · split
      next hnil => rw [hnil]; rfl
      · rfl
  have hentries : ∀ e, e ∈ minToks.entries.filter (fun e => e.2.stopTokIds ≠ []) ↔
      minToks.get? e.1 = some e.2 ∧ e.2.stopTokIds ≠ [] := by
    intro e
    rw [mem_filter, decide_eq_true_eq, Dict.get?_eq_some_iff]
  have hdrafts : ∀ e ∈ minToks.entries.filter (fun e => e.2.stopTokIds ≠ []),
      ∃ n, numDraftTokens[e.1]? = some n := by
    intro e he
    have hlt := (List.getElem?_eq_some_iff.mp (h.entry _ _ ((hentries e).mp he).1)).1
    exact ⟨_, getElem?_eq_getElem (hlen ▸ hlt)⟩
  obtain ⟨slices, hslices, hmem⟩ := mapM_draftSlice _ hdrafts
  have hbound : ∀ e ∈ (slices.flatMap Prod.fst).zip (slices.flatMap Prod.snd),
      e.1 < logits.length := by
    rintro ⟨k, t⟩ hkt
    obtain ⟨e, _, n, j, hn, hj, rfl, _⟩ := (hmem k t).mp hkt
    have := sum_take_add_le hn
    omega
  obtain ⟨logits', hput, hlength, hrow⟩ := indexPut_spec negInf hbound
  refine ⟨logits', by rw [happly, hslices]; exact hput, hlength, ?_⟩
  intro i r n hr hn j hj f hf
  rw [hrow _ f hf]
  congr 1
  funext t
  refine if_congr ?_ rfl rfl
  rw [hmem]
  constructor
  · rintro ⟨e, he, m, j', hm, hj', heq, hmin, ht⟩
    obtain ⟨rfl, rfl⟩ := sum_take_add_inj hn hm hj hj' heq
    have hreq := h.entry _ _ ((hentries e).mp he).1
    rw [hr] at hreq
    cases hreq
    exact ⟨hmin, ht⟩
  · rintro ⟨hmin, ht⟩
    have hget : minToks.get? i = some r := by
      cases hget : minToks.get? i with
      | none =>
        have := h.reached i r hr hget
        omega
      | some r' => exact (h.entry i r' hget).symm.trans hr
    exact ⟨(i, r), (hentries _).mpr ⟨hget, ne_nil_of_mem ht⟩, n, j, hn, hj, rfl, hmin, ht⟩

def twoMinTokens : List MinTokensRequest := [⟨0, [], [7]⟩, ⟨2, [5], [7]⟩]

theorem applyWithSpecDecode_masks_second : ∃ logits',
    applyWithSpecDecode (Dict.empty.set 1 ⟨2, [5], [7]⟩) 0 (List.replicate 3 fun _ => 1) [1, 2] =
      .ok logits' ∧ MasksDrafts twoMinTokens [1, 2] 0 (List.replicate 3 fun _ => 1) logits' := by
  refine applyWithSpecDecode_masks (tracksMinTokens_of_added fun i => ?_) rfl rfl
  match i with
  | 0 | 1 => rfl
  | i + 2 => rfl

end VllmCore.Worker
