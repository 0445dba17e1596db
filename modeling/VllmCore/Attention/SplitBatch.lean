import VllmCore.Attention.ReorderBatch
/-!
# Splitting the batch into decodes and prefills

`split_decodes_and_prefills` of `attention/backends/utils.py`, on the metadata that
`_build_attention_metadata` makes of the batch: the requests before the first prefill
are decodes.
-/

namespace VllmCore.Attention

open List Support

/-- The fields of `CommonAttentionMetadata` that the split reads. -/
structure CommonAttentionMetadata where
  queryStartLocCpu : List Int
  numReqs : Nat
  numActualTokens : Int
  maxQueryLen : Int
  isPrefilling : Option (List Bool)

/-- `query_start_loc[1:] - query_start_loc[:-1]`. -/
def CommonAttentionMetadata.queryLens (m : CommonAttentionMetadata) : List Int :=
  List.zipWith (· - ·) m.queryStartLocCpu.tail m.queryStartLocCpu.dropLast

/-- `num_decodes, num_prefills, num_decode_tokens, num_prefill_tokens`. -/
structure SplitCounts where
  numDecodes : Int
  numPrefills : Int
  numDecodeTokens : Int
  numPrefillTokens : Int
  deriving DecidableEq

def SplitCounts.allDecodes (m : CommonAttentionMetadata) : SplitCounts :=
  ⟨m.numReqs, 0, m.numActualTokens, 0⟩

/-- The batch is uniform up to requests of length 0, which pad it. -/
def CommonAttentionMetadata.isPaddedUniform (m : CommonAttentionMetadata) (first : Int) : Bool :=
  m.queryLens.all fun q => q = first || q = 0

/-- `is_prefill`, before the requests that are still prefilling are added. -/
def CommonAttentionMetadata.isLong (m : CommonAttentionMetadata) (decodeThreshold first : Int)
    (requireUniform : Bool) : List Bool :=
  m.queryLens.map fun q => if requireUniform then q ≠ first else decodeThreshold < q

def CommonAttentionMetadata.isPrefill (m : CommonAttentionMetadata) (decodeThreshold first : Int)
    (requireUniform treatShortExtendsAsDecodes : Bool) : Py (List Bool) :=
  if treatShortExtendsAsDecodes then .ok (m.isLong decodeThreshold first requireUniform)
  else
    match m.isPrefilling with
    | none => .error (.assertionError "common_attn_metadata.is_prefilling is not None")
    | some p => .ok (List.zipWith or (m.isLong decodeThreshold first requireUniform) p)

/-- The counts for the first entry of `is_prefill` that is set. -/
def CommonAttentionMetadata.splitAtFirst (m : CommonAttentionMetadata) (isPrefill : List Bool) :
    Py SplitCounts :=
  if isPrefill.any id = false then .ok (SplitCounts.allDecodes m)
  else do
    let firstPrefill := isPrefill.findIdx id
    let numDecodeTokens ← pyGet m.queryStartLocCpu firstPrefill
    return ⟨firstPrefill, m.numReqs - firstPrefill, numDecodeTokens,
      m.numActualTokens - numDecodeTokens⟩

def splitDecodesAndPrefills (m : CommonAttentionMetadata) (decodeThreshold : Int)
    (requireUniform treatShortExtendsAsDecodes : Bool) : Py SplitCounts :=
  if m.maxQueryLen ≤ decodeThreshold ∧ (requireUniform = false ∨ decodeThreshold ≤ 1) ∧
      treatShortExtendsAsDecodes = true then
    .ok (SplitCounts.allDecodes m)
  else do
    let first ← pyGet m.queryLens 0
    if decodeThreshold < first then return ⟨0, m.numReqs, 0, m.numActualTokens⟩
    else if requireUniform = true ∧ m.isPaddedUniform first = true then
      return SplitCounts.allDecodes m
    else do
      let isPrefill ← m.isPrefill decodeThreshold first requireUniform treatShortExtendsAsDecodes
      m.splitAtFirst isPrefill

/-- `query_start_loc`: the cumulative lengths behind `off`, filled up for `pad` empty queries so
that it does not decrease. -/
def paddedStarts (off : Nat) (ns : List Nat) (pad : Nat) : List Int :=
  (off :: cumsumFrom off ns).map Nat.cast ++ List.replicate pad ((off + ns.sum : Nat) : Int)

/-- What `_build_attention_metadata` makes of the rows of the batch: the padding requests are
empty, their entries of `is_prefilling` are what earlier requests left, and the longest query is
the maximum over the rows, which an empty batch does not have. -/
def buildAttentionMetadata (rows : List BatchRow) (paddingPrefilling : List Bool)
    (numTokensPadded : Int) : Py CommonAttentionMetadata :=
  match (rows.map BatchRow.numScheduledTokens).max? with
  | none => .error (.valueError
      "zero-size array to reduction operation maximum which has no identity")
  | some maxNumScheduledTokens =>
    .ok {
      queryStartLocCpu :=
        paddedStarts 0 (rows.map BatchRow.numScheduledTokens) paddingPrefilling.length
      numReqs := rows.length + paddingPrefilling.length
      numActualTokens := numTokensPadded
      maxQueryLen := maxNumScheduledTokens
      isPrefilling := some (rows.map (fun r => !r.donePrefilling) ++ paddingPrefilling) }

structure SplitsDecodes (m : CommonAttentionMetadata) (rows : List BatchRow)
    (decodeThreshold : Int) (requireUniform treatShortExtendsAsDecodes : Bool)
    (counts : SplitCounts) : Prop where
  numDecodes_nonneg : 0 ≤ counts.numDecodes
  numPrefills_nonneg : 0 ≤ counts.numPrefills
  requests : counts.numDecodes + counts.numPrefills = m.numReqs
  tokens : counts.numDecodeTokens + counts.numPrefillTokens = m.numActualTokens
  short : ∀ (i : Nat) q, (i : Int) < counts.numDecodes → m.queryLens[i]? = some q →
    q ≤ decodeThreshold
  uniform : requireUniform = true → ∃ len, ∀ (i : Nat) q, (i : Int) < counts.numDecodes →
    m.queryLens[i]? = some q → q = len ∨ q = 0
  prefilled : treatShortExtendsAsDecodes = false → ∀ (i : Nat) r,
    (i : Int) < counts.numDecodes → rows[i]? = some r → r.donePrefilling = true

/-! ## The lengths of the queries -/

theorem paddedStarts_cons (off n : Nat) (ns : List Nat) (pad : Nat) :
    paddedStarts off (n :: ns) pad = (off : Int) :: paddedStarts (off + n) ns pad := by
  unfold paddedStarts
  rw [cumsumFrom, sum_cons, Nat.add_assoc]
  rfl

theorem paddedStarts_ne_nil (off : Nat) (ns : List Nat) (pad : Nat) :
    paddedStarts off ns pad ≠ [] := by
  unfold paddedStarts
  simp

theorem diff_paddedStarts (off : Nat) (ns : List Nat) (pad : Nat) :
    List.zipWith (· - ·) (paddedStarts off ns pad).tail (paddedStarts off ns pad).dropLast =
      ns.map Nat.cast ++ List.replicate pad 0 := by
  induction ns generalizing off with
  | nil =>
    have hrep : paddedStarts off [] pad = List.replicate (pad + 1) (off : Int) := by
      unfold paddedStarts
      simp [cumsumFrom, replicate_succ]
    rw [hrep, dropLast_replicate, tail_replicate]
    simp
  | cons n ns ih =>
    have hhead : (paddedStarts (off + n) ns pad).head? = some ((off + n : Nat) : Int) := rfl
    rw [paddedStarts_cons, tail_cons, dropLast_cons_of_ne_nil
      (paddedStarts_ne_nil _ _ _)]
    generalize hstarts : paddedStarts (off + n) ns pad = starts at *
    cases starts with
    | nil => exact absurd hstarts (paddedStarts_ne_nil _ _ _)
    | cons x xs =>
      have hih := ih (off + n)
      rw [hstarts, tail_cons] at hih
      rw [head?_cons, Option.some.injEq] at hhead
      rw [zipWith_cons_cons, hih, hhead]
      simp

section Metadata

variable {rows : List BatchRow} {padding : List Bool} {numTokens : Int}
  {m : CommonAttentionMetadata}

/-- What is known of the metadata of a batch. -/
structure MetadataOf (rows : List BatchRow) (padding : List Bool) (m : CommonAttentionMetadata) :
    Prop where
  nonempty : rows ≠ []
  numReqs : m.numReqs = rows.length + padding.length
  starts : m.queryStartLocCpu.length = m.numReqs + 1
  queryLens : m.queryLens =
    (rows.map BatchRow.numScheduledTokens).map Nat.cast ++ List.replicate padding.length 0
  longest : ∀ q ∈ m.queryLens, q ≤ m.maxQueryLen
  isPrefilling : m.isPrefilling = some (rows.map (fun r => !r.donePrefilling) ++ padding)

theorem metadataOf_build (h : buildAttentionMetadata rows padding numTokens = .ok m) :
    MetadataOf rows padding m ∧ m.numActualTokens = numTokens := by
  unfold buildAttentionMetadata at h
  split at h
  · cases h
  next longest hmax =>
    cases h
    have hlens := diff_paddedStarts 0 (rows.map BatchRow.numScheduledTokens) padding.length
    refine ⟨⟨?_, rfl, ?_, hlens, ?_, rfl⟩, rfl⟩
    · intro hnil
      rw [hnil] at hmax
      cases hmax
    · show (paddedStarts 0 _ padding.length).length = rows.length + padding.length + 1
      unfold paddedStarts
      rw [length_append, length_map, length_cons, length_cumsumFrom,
        length_map, length_replicate]
      omega
    · intro q hq
      unfold CommonAttentionMetadata.queryLens at hq
      rw [hlens] at hq
      show q ≤ (longest : Int)
      rcases mem_append.mp hq with hq | hq
      · rcases mem_map.mp hq with ⟨n, hn, hnq⟩
        have := (max?_eq_some_iff.mp hmax).2 n hn
        omega
      · have := eq_of_mem_replicate hq
        omega

variable {decodeThreshold : Int} {requireUniform treatShort : Bool}

theorem SplitsDecodes.all (hshort : ∀ q ∈ m.queryLens, q ≤ decodeThreshold)
    (huniform : requireUniform = true → ∃ len, ∀ q ∈ m.queryLens, q = len ∨ q = 0)
    (hdone : treatShort = false → ∀ r ∈ rows, r.donePrefilling = true) :
    SplitsDecodes m rows decodeThreshold requireUniform treatShort (SplitCounts.allDecodes m) where
  numDecodes_nonneg := Int.natCast_nonneg _
  numPrefills_nonneg := le_refl _
  requests := Int.add_zero _
  tokens := Int.add_zero _
  short := fun _ q _ hq => hshort q (mem_of_getElem? hq)
  uniform := by
    intro hu
    rcases huniform hu with ⟨len, hlen⟩
    exact ⟨len, fun _ q _ hq => hlen q (mem_of_getElem? hq)⟩
  prefilled := fun hts _ r _ hr => hdone hts r (mem_of_getElem? hr)

theorem SplitsDecodes.none : SplitsDecodes m rows decodeThreshold requireUniform treatShort
      ⟨0, m.numReqs, 0, m.numActualTokens⟩ where
  numDecodes_nonneg := le_refl _
  numPrefills_nonneg := Int.natCast_nonneg _
  requests := Int.zero_add _
  tokens := Int.zero_add _
  short := by
    intro i q hi _
    have : (i : Int) < 0 := hi
    omega
  uniform := by
    intro _
    refine ⟨0, ?_⟩
    intro i q hi _
    have : (i : Int) < 0 := hi
    omega
  prefilled := by
    intro _ i r hi _
    have : (i : Int) < 0 := hi
    omega

theorem splitAtFirst_ok {isPrefill : List Bool} (hlen : isPrefill.length = m.numReqs)
    (hstarts : m.queryStartLocCpu.length = m.numReqs + 1) :
    ∃ counts, m.splitAtFirst isPrefill = .ok counts ∧
      0 ≤ counts.numDecodes ∧ 0 ≤ counts.numPrefills ∧
      counts.numDecodes + counts.numPrefills = m.numReqs ∧
      counts.numDecodeTokens + counts.numPrefillTokens = m.numActualTokens ∧
      ∀ i : Nat, (i : Int) < counts.numDecodes → isPrefill[i]? = some false := by
  unfold CommonAttentionMetadata.splitAtFirst
  split
  next hnone =>
    refine ⟨SplitCounts.allDecodes m, rfl, Int.natCast_nonneg _, le_refl _, Int.add_zero _,
      Int.add_zero _, ?_⟩
    intro i hi
    have hi' : (i : Int) < m.numReqs := hi
    have hlt : i < isPrefill.length := by omega
    rw [getElem?_eq_getElem hlt]
    have := any_eq_false.mp hnone _ (getElem_mem hlt)
    simpa using this
  next hany =>
    have hlt : isPrefill.findIdx id < isPrefill.length := by
      apply findIdx_lt_length.mpr
      simpa using hany
    have hlt' : isPrefill.findIdx id < m.queryStartLocCpu.length := by omega
    have hget : pyGet m.queryStartLocCpu (isPrefill.findIdx id : Nat) =
        .ok m.queryStartLocCpu[isPrefill.findIdx id] := by
      rw [pyGet_natCast_ok]
      exact getElem?_eq_getElem hlt'
    dsimp only
    rw [hget]
    refine ⟨_, rfl, Int.natCast_nonneg _, ?_, ?_, ?_, ?_⟩
    · show 0 ≤ (m.numReqs : Int) - (isPrefill.findIdx id : Nat)
      omega
    · show ((isPrefill.findIdx id : Nat) : Int) + (m.numReqs - (isPrefill.findIdx id : Nat)) = _
      omega
    · exact add_sub_cancel _ _
    · intro i hi
      have hi' : (i : Int) < (isPrefill.findIdx id : Nat) := hi
      have hit : i < isPrefill.length := by omega
      rw [getElem?_eq_getElem hit]
      have := @not_of_lt_findIdx _ id isPrefill i (by omega)
      simpa using this

theorem isPrefill_ok (h : MetadataOf rows padding m) (decodeThreshold first : Int)
    (requireUniform treatShort : Bool) :
    ∃ p, m.isPrefill decodeThreshold first requireUniform treatShort = .ok p ∧
      p.length = m.numReqs ∧ ∀ i : Nat, p[i]? = some false →
        (∀ q, m.queryLens[i]? = some q →
          if requireUniform then q = first else q ≤ decodeThreshold) ∧
        (treatShort = false → ∀ r, rows[i]? = some r → r.donePrefilling = true) := by
  have hlen : (m.isLong decodeThreshold first requireUniform).length = m.numReqs := by
    unfold CommonAttentionMetadata.isLong
    rw [length_map, h.queryLens, h.numReqs, length_append, length_map,
      length_map, length_replicate]
  have hlong : ∀ i : Nat, (m.isLong decodeThreshold first requireUniform)[i]? = some false →
      ∀ q, m.queryLens[i]? = some q →
        if requireUniform then q = first else q ≤ decodeThreshold := by
    intro i hi q hq
    unfold CommonAttentionMetadata.isLong at hi
    rw [getElem?_map, hq, Option.map_some, Option.some.injEq] at hi
    cases requireUniform <;> simpa using hi
  unfold CommonAttentionMetadata.isPrefill
  cases treatShort with
  | true => exact ⟨_, if_pos rfl, hlen, fun i hi => ⟨hlong i hi, nofun⟩⟩
  | false =>
    rw [if_neg Bool.false_ne_true, h.isPrefilling]
    refine ⟨_, rfl, ?_, ?_⟩
    · rw [length_zipWith, hlen, length_append, length_map, h.numReqs]
      omega
    · intro i hi
      rw [getElem?_zipWith_eq_some] at hi
      rcases hi with ⟨a, b, ha, hb, hab⟩
      rw [Bool.or_eq_false_iff] at hab
      refine ⟨hlong i (hab.1 ▸ ha), ?_⟩
      intro _ r hr
      have hlt := (List.getElem?_eq_some_iff.mp hr).1
      rw [getElem?_append_left (by rwa [length_map]), getElem?_map, hr,
        Option.map_some, Option.some.injEq, hab.2] at hb
      simpa using hb

/-- A request that is still prefilling in a batch that is uniform up to padding, where uniform
decodes are asked for and requests that are still prefilling shall not be decodes. -/
def PrefillInUniformBatch (rows : List BatchRow) (decodeThreshold : Int)
    (requireUniform treatShortExtendsAsDecodes : Bool) : Prop :=
  requireUniform = true ∧ treatShortExtendsAsDecodes = false ∧
    (∃ r, rows.head? = some r ∧ (r.numScheduledTokens : Int) ≤ decodeThreshold ∧
      ∀ s ∈ rows, s.numScheduledTokens = r.numScheduledTokens ∨ s.numScheduledTokens = 0) ∧
    ∃ r ∈ rows, r.donePrefilling = false

theorem isPaddedUniform_iff (h : MetadataOf rows padding m) (first : Nat) :
    m.isPaddedUniform first = true ↔
      ∀ s ∈ rows, s.numScheduledTokens = first ∨ s.numScheduledTokens = 0 := by
  unfold CommonAttentionMetadata.isPaddedUniform
  rw [all_eq_true, h.queryLens]
  constructor
  · intro hall s hs
    have := hall s.numScheduledTokens
      (mem_append_left _ (mem_map_of_mem (mem_map_of_mem hs)))
    simp only [Bool.or_eq_true, decide_eq_true_iff] at this
    omega
  · intro hall q hq
    simp only [Bool.or_eq_true, decide_eq_true_iff]
    rcases mem_append.mp hq with hq | hq
    · rcases mem_map.mp hq with ⟨n, hn, hnq⟩
      rcases mem_map.mp hn with ⟨s, hs, hsn⟩
      have := hall s hs
      omega
    · exact Or.inr (eq_of_mem_replicate hq)

/-- The split keeps its promises except for a request that is still prefilling in a uniform
batch. -/
theorem splitDecodes_iff (h : MetadataOf rows padding m) (decodeThreshold : Int)
    (requireUniform treatShort : Bool) :
    (∃ counts, splitDecodesAndPrefills m decodeThreshold requireUniform treatShort = .ok counts ∧
      SplitsDecodes m rows decodeThreshold requireUniform treatShort counts) ↔
    ¬ PrefillInUniformBatch rows decodeThreshold requireUniform treatShort := by
  rcases exists_cons_of_ne_nil h.nonempty with ⟨r, rest, hrows⟩
  have hhead : m.queryLens[0]? = some (r.numScheduledTokens : Int) := by
    rw [h.queryLens, hrows]
    rfl
  have hget : pyGet m.queryLens (0 : Nat) = .ok (r.numScheduledTokens : Int) :=
    pyGet_natCast_ok.mpr hhead
  unfold splitDecodesAndPrefills
  split
  next hshort =>
    refine ⟨fun _ hbad => ?_, fun _ => ⟨_, rfl, SplitsDecodes.all ?_ ?_ ?_⟩⟩
    · rw [hbad.2.1] at hshort
      exact Bool.false_ne_true hshort.2.2
    · intro q hq
      have := h.longest q hq
      omega
    · intro hu
      refine ⟨1, ?_⟩
      intro q hq
      have hle := h.longest q hq
      have hnonneg : 0 ≤ q := by
        rw [h.queryLens] at hq
        rcases mem_append.mp hq with hq | hq
        · rcases mem_map.mp hq with ⟨n, _, hnq⟩
          omega
        · rw [eq_of_mem_replicate hq]
      rcases hshort.2.1 with hu' | hone
      · rw [hu] at hu'
        cases hu'
      · omega
    · intro hts
      rw [hts] at hshort
      exact absurd hshort.2.2 Bool.false_ne_true
  · rw [show ((0 : Int)) = ((0 : Nat) : Int) from rfl, hget, ok_bind]
    split
    next hfirst =>
      refine ⟨fun _ hbad => ?_, fun _ => ⟨_, rfl, SplitsDecodes.none⟩⟩
      rcases hbad.2.2.1 with ⟨r', hr', hle, _⟩
      rw [hrows, head?_cons, Option.some.injEq] at hr'
      rw [← hr'] at hle
      omega
    next hfirst =>
      split
      next huniform =>
        have hall := (isPaddedUniform_iff h _).mp huniform.2
        constructor
        · intro hok hbad
          rcases hok with ⟨counts, hcounts, hsplit⟩
          rw [← Except.ok.inj hcounts] at hsplit
          rcases hbad.2.2.2 with ⟨s, hs, hnot⟩
          rcases mem_iff_getElem?.mp hs with ⟨i, hi⟩
          have hlt := (List.getElem?_eq_some_iff.mp hi).1
          have hdone := hsplit.prefilled hbad.2.1 i s (by
            show (i : Int) < m.numReqs
            rw [h.numReqs]
            omega) hi
          rw [hnot] at hdone
          cases hdone
        · intro hgood
          have hlens : ∀ q ∈ m.queryLens, q = (r.numScheduledTokens : Int) ∨ q = 0 := by
            intro q hq
            have := all_eq_true.mp huniform.2 q hq
            simpa using this
          refine ⟨_, rfl, SplitsDecodes.all ?_ (fun _ => ⟨_, hlens⟩) ?_⟩
          · intro q hq
            have := hlens q hq
            omega
          · intro hts s hs
            by_contra hnot
            exact hgood ⟨huniform.1, hts, ⟨r, by rw [hrows]; rfl, by omega, hall⟩,
              s, hs, by simpa using hnot⟩
      next huniform =>
        have hgood : ¬ PrefillInUniformBatch rows decodeThreshold requireUniform treatShort := by
          intro hbad
          rcases hbad.2.2.1 with ⟨r', hr', _, hall⟩
          rw [hrows, head?_cons, Option.some.injEq] at hr'
          rw [← hr'] at hall
          exact huniform ⟨hbad.1, (isPaddedUniform_iff h _).mpr hall⟩
        refine ⟨fun _ => hgood, fun _ => ?_⟩
        rcases isPrefill_ok h decodeThreshold r.numScheduledTokens requireUniform treatShort
          with ⟨p, hp, hplen, hentry⟩
        rcases splitAtFirst_ok hplen h.starts with ⟨counts, hcounts, hnd, hnp, hreqs, htoks, hfalse⟩
        rw [hp, ok_bind]
        refine ⟨counts, hcounts, hnd, hnp, hreqs, htoks, ?_, ?_, ?_⟩
        · intro i q hi hq
          have := (hentry i (hfalse i hi)).1 q hq
          split at this
          · omega
          · exact this
        · intro hu
          refine ⟨r.numScheduledTokens, ?_⟩
          intro i q hi hq
          have := (hentry i (hfalse i hi)).1 q hq
          rw [if_pos hu] at this
          exact Or.inl this
        · intro hts i s hi hs
          exact (hentry i (hfalse i hi)).2 hts s hs

end Metadata

def RegionsInOrder (threshold : Int) (rows : List BatchRow) : Prop :=
  (rows.map (BatchRow.region threshold)).Pairwise (· ≤ ·)

instance (threshold : Int) (rows : List BatchRow) : Decidable (RegionsInOrder threshold rows) :=
  inferInstanceAs (Decidable ((rows.map (BatchRow.region threshold)).Pairwise (· ≤ ·)))

/-- The reordering ends, permutes the rows by exchanges into the order of the regions, and returns
`False` only when it moves nothing; and the split of a batch, with the flags it is given, keeps
its promises exactly when no request is still prefilling in a uniform batch that asks for uniform
decodes without short extends. -/
theorem reorder_and_split (threshold : Int) :
    (∀ (row : Nat → BatchRow) (numReqs : Nat), ∃ modified swaps,
      reorderBatchToSplitDecodesAndPrefills threshold (rowPrefix row numReqs) =
        some (modified, swaps) ∧
      (∀ p ∈ swaps, p.1 < numReqs ∧ p.2 < numReqs) ∧
      (modified = false → swaps = []) ∧
      (rowPrefix (applySwaps row swaps) numReqs).Perm (rowPrefix row numReqs) ∧
      RegionsInOrder threshold (rowPrefix (applySwaps row swaps) numReqs)) ∧
    ∀ (rows : List BatchRow) (padding : List Bool) (numTokens : Int)
      (m : CommonAttentionMetadata) (requireUniform treatShort : Bool),
      RegionsInOrder threshold rows →
      buildAttentionMetadata rows padding numTokens = .ok m →
      ((∃ counts, splitDecodesAndPrefills m threshold requireUniform treatShort = .ok counts ∧
        SplitsDecodes m rows threshold requireUniform treatShort counts) ↔
      ¬ PrefillInUniformBatch rows threshold requireUniform treatShort) := by
  constructor
  · intro row numReqs
    rcases reorderBatch_run threshold row numReqs with
      ⟨modified, swaps, hrun, hrange, hfalse, htarget⟩
    refine ⟨modified, swaps, hrun, hrange, hfalse, rowPrefix_applySwaps_perm hrange row, ?_⟩
    unfold RegionsInOrder
    rw [htarget]
    exact targetRegions_pairwise threshold _
  · intro rows padding numTokens m requireUniform treatShort _ hbuild
    exact splitDecodes_iff (metadataOf_build hbuild).1 threshold requireUniform treatShort

/-- Two queries of two tokens: a decode, and a request that has 6 of its 10 prompt tokens. -/
def uniformRows : List BatchRow := [⟨1, 2, 12, 10⟩, ⟨2, 2, 4, 10⟩]

/-- The request that is still prefilling counts as a decode of the uniform batch. -/
theorem uniformRows_prefill_as_decode :
    RegionsInOrder 2 uniformRows ∧
      ∃ m, buildAttentionMetadata uniformRows [] 4 = .ok m ∧
        splitDecodesAndPrefills m 2 true false = .ok ⟨2, 0, 4, 0⟩ ∧
        ¬ ∃ counts, splitDecodesAndPrefills m 2 true false = .ok counts ∧
          SplitsDecodes m uniformRows 2 true false counts := by
  have hbuild : ∃ m, buildAttentionMetadata uniformRows [] 4 = .ok m ∧
      splitDecodesAndPrefills m 2 true false = .ok ⟨2, 0, 4, 0⟩ := ⟨_, rfl, by decide +kernel⟩
  rcases hbuild with ⟨m, hm, hsplit⟩
  refine ⟨by decide +kernel, m, hm, hsplit, ?_⟩
  intro hok
  rcases hok with ⟨counts, hcounts, hgood⟩
  rw [hsplit] at hcounts
  rw [← Except.ok.inj hcounts] at hgood
  have hdone := hgood.prefilled rfl 1 ⟨2, 2, 4, 10⟩ (by decide) rfl
  revert hdone
  decide

/-- With short extends as decodes the same batch is split as promised. -/
theorem reorder_and_split_uniformRows :
    ∃ m, buildAttentionMetadata uniformRows [] 4 = .ok m ∧ RegionsInOrder 2 uniformRows ∧
      ∃ counts, splitDecodesAndPrefills m 2 true true = .ok counts ∧
        SplitsDecodes m uniformRows 2 true true counts := by
  have hbuild : ∃ m, buildAttentionMetadata uniformRows [] 4 = .ok m := ⟨_, rfl⟩
  rcases hbuild with ⟨m, hm⟩
  have horder : RegionsInOrder 2 uniformRows := by decide +kernel
  refine ⟨m, hm, horder, ((reorder_and_split 2).2 uniformRows [] 4 m true true horder hm).mpr ?_⟩
  intro hbad
  exact Bool.false_ne_true hbad.2.1.symm

end VllmCore.Attention
