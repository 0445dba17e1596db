import VllmCore.Worker.UBatch
/-!
# Micro-batches keep the attention metadata

The requests of a batch start at the sums of the query lengths before them.  A micro-batch
from token `s` to token `e` has the requests that overlap this interval, and the sliced
query starts are the starts of these requests, moved into the interval and counted from
`s`.  The count of computed tokens is sliced and not moved, so it is right only where `s`
is the start of a request.
-/

namespace VllmCore.Worker.UBatch

open List Support

structure Query where
  numTokens : Nat
  numComputedTokens : Nat
  pos : 0 < numTokens

def numScheduledTokens (rows : List Query) : List Nat := rows.map Query.numTokens

/-- Where request `r` starts in the batch; the number of tokens for the number of requests. -/
def start (rows : List Query) (r : Nat) : Int := ((numScheduledTokens rows).take r).sum

def total (rows : List Query) : Int := start rows rows.length

/-- The metadata of a batch that is not split. -/
structure IsMetadata (rows : List Query) (m : CommonAttentionMetadata) : Prop where
  queryStartLoc : m.queryStartLoc = cuNumTokens (numScheduledTokens rows)
  queryStartLocCpu : m.queryStartLocCpu = cuNumTokens (numScheduledTokens rows)
  seqLens : m.seqLens = rows.map fun r => ((r.numComputedTokens + r.numTokens : Nat) : Int)
  seqLensCpu : m.seqLensCpu = rows.map fun r => ((r.numComputedTokens + r.numTokens : Nat) : Int)
  numComputedTokensCpu : m.numComputedTokensCpu = rows.map fun r => (r.numComputedTokens : Int)

/-! ## What is to be kept -/

namespace CommonAttentionMetadata

/-- `query_start_loc[r]`. -/
def queryStart (m : CommonAttentionMetadata) (r : Nat) : Int := m.queryStartLoc.getD r 0

/-- `seq_lens[r]`. -/
def seqLen (m : CommonAttentionMetadata) (r : Nat) : Int := m.seqLens.getD r 0

/-- `num_computed_tokens_cpu[r]`. -/
def numComputed (m : CommonAttentionMetadata) (r : Nat) : Int := m.numComputedTokensCpu.getD r 0

/-- The length of the query of request `r`. -/
def queryLen (m : CommonAttentionMetadata) (r : Nat) : Int := m.queryStart (r + 1) - m.queryStart r

/-- Token `t` of the batch belongs to request `r`. -/
def Owns (m : CommonAttentionMetadata) (r : Nat) (t : Int) : Prop :=
  m.queryStart r ≤ t ∧ t < m.queryStart (r + 1)

/-- The number of keys that token `t`, of request `r`, attends to: the query ends where the
sequence ends, and attention is causal. -/
def keysSeen (m : CommonAttentionMetadata) (r : Nat) (t : Int) : Int :=
  m.seqLen r - (m.queryStart (r + 1) - 1 - t)

end CommonAttentionMetadata

/-- The tokens from `s` on are cut in order. -/
def Partitions : Int → List UBatchSlice → Int → Prop
  | s, [], e => s = e
  | s, u :: us, e =>
    u.tokenSlice.start = s ∧ s ≤ u.tokenSlice.stop ∧ Partitions u.tokenSlice.stop us e

/-- Request `r` of the batch has a token in the slice. -/
def Overlaps (rows : List Query) (tokenSlice : Slice) (r : Nat) : Prop :=
  r < rows.length ∧
    max (start rows r) tokenSlice.start < min (start rows (r + 1)) tokenSlice.stop

/-- The requests of the slice are those that have tokens in it. -/
def CoversRequests (rows : List Query) (u : UBatchSlice) : Prop :=
  ∀ r : Nat, u.requestSlice.start ≤ r ∧ (r : Int) < u.requestSlice.stop ↔
    Overlaps rows u.tokenSlice r

/-- Every token of the micro-batch belongs to one of its requests, and to the same request of the
whole batch, where it sees as many keys. -/
structure KeepsKeys (m : CommonAttentionMetadata) (u : UBatchSlice) (md : CommonAttentionMetadata) :
    Prop where
  owned : ∀ t : Int, 0 ≤ t → t < u.numTokens → ∃ i : Nat, (i : Int) < md.numReqs ∧ md.Owns i t
  keys : ∀ (i : Nat) (t : Int), (i : Int) < md.numReqs → md.Owns i t →
    m.Owns (u.requestSlice.start.toNat + i) (t + u.tokenSlice.start) ∧
      md.keysSeen i t = m.keysSeen (u.requestSlice.start.toNat + i) (t + u.tokenSlice.start)

def AddsUp (md : CommonAttentionMetadata) : Prop :=
  ∀ i : Nat, (i : Int) < md.numReqs → md.numComputed i + md.queryLen i = md.seqLen i

structure Preserves (rows : List Query) (m : CommonAttentionMetadata) (us : List UBatchSlice) :
    Prop where
  partition : Partitions 0 us (total rows)
  requests : ∀ u ∈ us, CoversRequests rows u
  metadata : ∀ u ∈ us, 0 < u.numTokens →
    ∃ md, makeMetadataWithSlice u m = .ok md ∧ AddsUp md ∧ KeepsKeys m u md

/-! ## The starts of the requests -/

variable {r a b numUbatches : Nat} {rows : List Query} {e s p : Int}
  {m md : CommonAttentionMetadata}

@[simp] theorem start_zero (rows : List Query) : start rows 0 = 0 := by
  unfold start
  rfl

theorem start_succ (rows : List Query) (h : r < rows.length) :
    start rows (r + 1) = start rows r + rows[r].numTokens := by
  unfold start numScheduledTokens
  rw [take_succ_eq_append_getElem (by rwa [length_map]), sum_append,
    sum_singleton, getElem_map]
  omega
variable {rows : List Query}

theorem start_lt {r q : Nat} (hrq : r < q) (hq : q ≤ rows.length) :
    start rows r < start rows q := by
  induction q with
  | zero => omega
  | succ q ih =>
    have hlt : q < rows.length := by omega
    have hsucc := start_succ rows hlt
    have hpos := rows[q].pos
    by_cases heq : r = q
    · rw [heq]
      omega
    · have hle := ih (by omega) (by omega)
      omega

theorem start_le {r q : Nat} (hrq : r ≤ q) (hq : q ≤ rows.length) :
    start rows r ≤ start rows q := by
  rcases Nat.eq_or_lt_of_le hrq with rfl | hlt
  · exact Int.le_refl _
  · exact Int.le_of_lt (start_lt hlt hq)

theorem lt_of_start_lt {q : Nat} (hr : r ≤ rows.length) (h : start rows r < start rows q) :
    r < q := by
  by_contra hle
  have hrev := @start_le rows _ _ (show q ≤ r by omega) hr
  omega

theorem cuNumTokens_eq (rows : List Query) :
    cuNumTokens (numScheduledTokens rows) = (List.range (rows.length + 1)).map (start rows) := by
  apply ext_getElem?
  intro j
  unfold cuNumTokens cumsum
  rw [getElem?_map, getElem?_map]
  cases j with
  | zero => simp
  | succ j =>
    rw [getElem?_cons_succ]
    by_cases hj : j < rows.length
    · rw [getElem?_cumsumFrom 0 _ (by unfold numScheduledTokens; rwa [length_map]),
        getElem?_range (by omega)]
      unfold start
      simp
    · rw [getElem?_eq_none, getElem?_eq_none]
      · rfl
      · rw [length_range]
        omega
      · rw [length_cumsumFrom]
        unfold numScheduledTokens
        rw [length_map]
        omega

theorem getElem?_starts (rows : List Query) (j : Nat) :
    ((List.range (rows.length + 1)).map (start rows))[j]? =
      if j ≤ rows.length then some (start rows j) else none := by
  rw [getElem?_map]
  split
  · rw [getElem?_range (by omega)]
    rfl
  · rw [getElem?_eq_none (by rw [length_range]; omega)]
    rfl

theorem pairwise_starts (rows : List Query) :
    ((List.range (rows.length + 1)).map (start rows)).Pairwise (· ≤ ·) := by
  rw [pairwise_map]
  apply pairwise_lt_range.imp_of_mem
  intro i j _ hj hij
  rw [mem_range] at hj
  exact start_le (by omega) (by omega)

theorem exists_request {t : Int} (h0 : 0 ≤ t) (ht : t < total rows) :
    ∃ r < rows.length, start rows r ≤ t ∧ t < start rows (r + 1) := by
  have hfind : ∀ n ≤ rows.length, t < start rows n →
      ∃ r < rows.length, start rows r ≤ t ∧ t < start rows (r + 1) := by
    intro n
    induction n with
    | zero =>
      intro _ hlt
      rw [start_zero] at hlt
      omega
    | succ n ih =>
      intro hn hlt
      by_cases hin : t < start rows n
      · exact ih (by omega) hin
      · exact ⟨n, by omega, by omega, hlt⟩
  exact hfind rows.length (Nat.le_refl _) ht

/-! ## The requests of a slice -/

theorem sliceAt_spec (hs : 0 ≤ s) (hse : s < e) (he : e ≤ total rows) :
    ∃ a b : Nat, a < b ∧ b ≤ rows.length ∧
      sliceAt (cuNumTokens (numScheduledTokens rows)) s e = ⟨⟨a, b⟩, ⟨s, e⟩⟩ ∧
      start rows a ≤ s ∧ s < start rows (a + 1) ∧ start rows (b - 1) < e ∧ e ≤ start rows b := by
  obtain ⟨a, ha, has, hsa⟩ := exists_request hs (show s < total rows by omega)
  obtain ⟨c, hc, hce, hec⟩ := exists_request (show 0 ≤ e - 1 by omega)
    (show e - 1 < total rows by omega)
  have hac : a < c + 1 :=
    lt_of_start_lt (by omega) (show start rows a < start rows (c + 1) by omega)
  refine ⟨a, c + 1, hac, by omega, ?_, has, hsa, by simpa using by omega, by omega⟩
  have hright : searchsortedRight (cuNumTokens (numScheduledTokens rows)) s = a + 1 := by
    rw [cuNumTokens_eq]
    refine searchsortedRight_eq (pairwise_starts rows) ?_ has ?_
    · rw [getElem?_starts, if_pos (by omega)]
    · intro y hy
      rw [getElem?_starts, if_pos (by omega)] at hy
      cases hy
      exact hsa
  have hleft : searchsortedLeft (cuNumTokens (numScheduledTokens rows)) e = c + 1 := by
    rw [cuNumTokens_eq]
    refine searchsortedLeft_eq (pairwise_starts rows) ?_ (show e ≤ start rows (c + 1) by omega) ?_
    · rw [getElem?_starts, if_pos (by omega)]
    · intro j y hj hy
      rw [getElem?_starts, if_pos (by omega)] at hy
      cases hy
      have hle := @start_le rows _ _ (show j ≤ c by omega) (by omega)
      omega
  unfold sliceAt
  rw [hright, hleft]
  simp

theorem sliceAt_starts (ha : a ≤ rows.length) (hb : b ≤ rows.length) :
    sliceAt (cuNumTokens (numScheduledTokens rows)) (start rows a) (start rows b) =
      ⟨⟨a, b⟩, ⟨start rows a, start rows b⟩⟩ := by
  have hright :
      searchsortedRight (cuNumTokens (numScheduledTokens rows)) (start rows a) = a + 1 := by
    rw [cuNumTokens_eq]
    refine searchsortedRight_eq (pairwise_starts rows) ?_ (Int.le_refl _) ?_
    · rw [getElem?_starts, if_pos ha]
    · intro y hy
      rw [getElem?_starts] at hy
      split at hy
      · cases hy
        exact start_lt (Nat.lt_succ_self a) (by assumption)
      · cases hy
  have hleft : searchsortedLeft (cuNumTokens (numScheduledTokens rows)) (start rows b) = b := by
    rw [cuNumTokens_eq]
    refine searchsortedLeft_eq (pairwise_starts rows) ?_ (Int.le_refl _) ?_
    · rw [getElem?_starts, if_pos hb]
    · intro j y hj hy
      rw [getElem?_starts, if_pos (by omega)] at hy
      cases hy
      exact start_lt hj hb
  unfold sliceAt
  rw [hright, hleft]
  simp

theorem coversRequests (hse : s < e) (ha : a ≤ rows.length) (hb : b ≤ rows.length)
    (has : start rows a ≤ s) (hsa : s < start rows (a + 1)) (hbe : start rows (b - 1) < e)
    (heb : e ≤ start rows b) : CoversRequests rows ⟨⟨a, b⟩, ⟨s, e⟩⟩ := by
  intro r
  show (a : Int) ≤ r ∧ (r : Int) < b ↔ r < rows.length ∧
    max (start rows r) s < min (start rows (r + 1)) e
  rw [max_lt_iff, lt_min_iff, lt_min_iff]
  constructor
  · rintro ⟨har, hrb⟩
    have hown := @start_lt rows _ _ (Nat.lt_succ_self r) (by omega)
    have hlow := @start_le rows _ _ (show a + 1 ≤ r + 1 by omega) (by omega)
    have hhigh := @start_le rows _ _ (show r ≤ b - 1 by omega) (by omega)
    exact ⟨by omega, ⟨hown, by omega⟩, ⟨by omega, hse⟩⟩
  · rintro ⟨hr, ⟨-, hre⟩, ⟨hsr, -⟩⟩
    have har : a < r + 1 := lt_of_start_lt ha (show start rows a < start rows (r + 1) by omega)
    have hrb : r < b := lt_of_start_lt (by omega) (show start rows r < start rows b by omega)
    exact ⟨by omega, by omega⟩

theorem coversRequests_empty (rows : List Query) (a : Nat) (s : Int) :
    CoversRequests rows ⟨⟨a, a⟩, ⟨s, s⟩⟩ := by
  intro r
  show (a : Int) ≤ r ∧ (r : Int) < a ↔ r < rows.length ∧
    max (start rows r) s < min (start rows (r + 1)) s
  omega

/-! ## The sliced metadata -/

theorem getElem?_subTail (k : Int) (xs : List Int) (j : Nat) :
    (subTail k xs)[j]? = xs[j]?.map fun x => x - if j = 0 then 0 else k := by
  cases xs with
  | nil => rfl
  | cons x xs =>
    cases j with
    | zero => simp [subTail]
    | succ j => simp [subTail]

theorem getElem?_subLast (k : Int) (xs : List Int) (j : Nat) :
    (subLast k xs)[j]? = xs[j]?.map fun x => x - if j + 1 = xs.length then k else 0 := by
  unfold subLast
  rw [getElem?_modify]
  cases hx : xs[j]? with
  | none => rfl
  | some x =>
    have hj := (List.getElem?_eq_some_iff.mp hx).1
    simp only [Option.map_eq_map, Option.map_some]
    by_cases hlast : j + 1 = xs.length
    · rw [if_pos (show xs.length - 1 = j by omega), if_pos hlast]
    · rw [if_neg (show ¬ xs.length - 1 = j by omega), if_neg hlast, Int.sub_zero]

@[simp] theorem length_subTail (k : Int) (xs : List Int) : (subTail k xs).length = xs.length := by
  cases xs with
  | nil => rfl
  | cons x xs => simp [subTail]

variable {k : Skipped} {i : Nat}

theorem getElem?_queryStarts (hfirst : 0 ≤ k.first) (hlast : 0 ≤ k.last) (xs : List Int) (j : Nat) :
    (k.queryStarts xs)[j]? = xs[j]?.map fun x =>
      x - (if j = 0 then 0 else k.first) - if j + 1 = xs.length then k.last else 0 := by
  have hin : (if 0 < k.first then subTail k.first xs else xs)[j]? =
      xs[j]?.map fun x => x - if j = 0 then 0 else k.first := by
    split
    · exact getElem?_subTail _ _ _
    · rw [show k.first = 0 by omega]
      simp
  have hlen : (if 0 < k.first then subTail k.first xs else xs).length = xs.length := by
    split
    · exact length_subTail _ _
    · rfl
  show (if 0 < k.last then subLast k.last (if 0 < k.first then subTail k.first xs else xs)
    else if 0 < k.first then subTail k.first xs else xs)[j]? = _
  by_cases hk : 0 < k.last
  · rw [if_pos hk, getElem?_subLast, hin, hlen, Option.map_map]
    rfl
  · rw [if_neg hk, hin, show k.last = 0 by omega]
    simp

@[simp] theorem length_subLast (k : Int) (xs : List Int) : (subLast k xs).length = xs.length := by
  unfold subLast
  rw [length_modify]

@[simp] theorem length_queryStarts (k : Skipped) (xs : List Int) :
    (k.queryStarts xs).length = xs.length := by
  have hlen : (if 0 < k.first then subTail k.first xs else xs).length = xs.length := by
    split
    · exact length_subTail _ _
    · rfl
  show (if 0 < k.last then subLast k.last (if 0 < k.first then subTail k.first xs else xs)
    else if 0 < k.first then subTail k.first xs else xs).length = _
  split
  · rw [length_subLast, hlen]
  · exact hlen

@[simp] theorem length_seqLens (k : Skipped) (xs : List Int) :
    (k.seqLens xs).length = xs.length := by
  unfold Skipped.seqLens
  split
  · exact length_subLast _ _
  · rfl

theorem getElem?_seqLens (hlast : 0 ≤ k.last) (xs : List Int) (j : Nat) :
    (k.seqLens xs)[j]? = xs[j]?.map fun x => x - if j + 1 = xs.length then k.last else 0 := by
  unfold Skipped.seqLens
  split
  · exact getElem?_subLast _ _ _
  · rw [show k.last = 0 by omega]
    simp

theorem tensorMax_ok {xs : List Int} (h : xs ≠ []) : ∃ v, tensorMax xs = .ok v := by
  unfold tensorMax
  cases hmax : xs.max? with
  | none => exact absurd (max?_eq_none_iff.mp hmax) h
  | some v => exact ⟨v, rfl⟩

def seqLenOf (rows : List Query) (r : Nat) : Int :=
  (rows.map fun q => ((q.numComputedTokens + q.numTokens : Nat) : Int)).getD r 0

def numComputedOf (rows : List Query) (r : Nat) : Int :=
  (rows.map fun q => (q.numComputedTokens : Int)).getD r 0

theorem numComputedOf_add {r : Nat} (h : r < rows.length) :
    numComputedOf rows r + (start rows (r + 1) - start rows r) = seqLenOf rows r := by
  unfold numComputedOf seqLenOf
  rw [start_succ rows h, getD_eq_getElem?_getD, getD_eq_getElem?_getD,
    getElem?_map, getElem?_map, getElem?_eq_getElem h]
  show (rows[r].numComputedTokens : Int) + _ =
    ((rows[r].numComputedTokens + rows[r].numTokens : Nat) : Int)
  omega

structure Sliced (rows : List Query) (s e : Int) (a b : Nat) (md : CommonAttentionMetadata) :
    Prop where
  numReqs : md.numReqs = ((b - a : Nat) : Int)
  queryStart : ∀ i ≤ b - a, md.queryStart i =
    start rows (a + i) - (if i = 0 then start rows a else s) -
      if i = b - a then start rows b - e else 0
  seqLen : ∀ i < b - a, md.seqLen i =
    seqLenOf rows (a + i) - if i + 1 = b - a then start rows b - e else 0
  numComputed : ∀ i < b - a, md.numComputed i = numComputedOf rows (a + i)

theorem makeMetadataWithSlice_spec (hm : IsMetadata rows m) (hse : s < e) (hab : a < b)
    (hb : b ≤ rows.length) (has : start rows a ≤ s) (hsa : s < start rows (a + 1))
    (heb : e ≤ start rows b) :
    ∃ md, makeMetadataWithSlice ⟨⟨a, b⟩, ⟨s, e⟩⟩ m = .ok md ∧ Sliced rows s e a b md := by
  have hget : ∀ j ≤ rows.length, pyGet (cuNumTokens (numScheduledTokens rows)) (j : Int) =
      .ok (start rows j) := by
    intro j hj
    rw [pyGet_natCast_ok, cuNumTokens_eq, getElem?_starts, if_pos hj]
  have hlenCu : (cuNumTokens (numScheduledTokens rows)).length = rows.length + 1 := by
    rw [cuNumTokens_eq, length_map, length_range]
  have hskip : skipped ⟨⟨a, b⟩, ⟨s, e⟩⟩ (cuNumTokens (numScheduledTokens rows)) =
      .ok ⟨s - start rows a, start rows b - e⟩ := by
    unfold skipped
    have hnext := hget (a + 1) (by omega)
    rw [Nat.cast_add, Nat.cast_one] at hnext
    rw [hget a (by omega), hget b hb, hnext]
    simp only [ok_bind]
    rw [pyAssert_pos ⟨has, hsa⟩]
    rfl
  have hlocs : sliceQueryStartLocs (cuNumTokens (numScheduledTokens rows)) ⟨a, b⟩ =
      .ok ((pySlice (cuNumTokens (numScheduledTokens rows)) (a : Int) ((b + 1 : Nat) : Int)).map
        (· - start rows a)) := by
    unfold sliceQueryStartLocs
    rw [hget a (by omega)]
    rfl
  generalize hq : (pySlice (cuNumTokens (numScheduledTokens rows)) (a : Int)
    ((b + 1 : Nat) : Int)).map (· - start rows a) = locs at hlocs
  have hlenLocs : locs.length = b - a + 1 := by
    rw [← hq, length_map, length_pySlice (by omega)]
    omega
  have hlenSeq : (pySlice m.seqLensCpu (a : Int) (b : Int)).length = b - a := by
    apply length_pySlice
    rw [hm.seqLensCpu, length_map]
    exact hb
  have hskipped : (0 : Int) ≤ start rows b - e := by omega
  obtain ⟨maxSeq, hmaxSeq⟩ := tensorMax_ok (show Skipped.seqLens
      ⟨s - start rows a, start rows b - e⟩ (pySlice m.seqLensCpu (a : Int) (b : Int)) ≠ [] by
    rw [← length_pos_iff, length_seqLens]
    omega)
  obtain ⟨maxQuery, hmaxQuery⟩ := tensorMax_ok (show ((queryLens (Skipped.queryStarts
      ⟨s - start rows a, start rows b - e⟩ locs)).map fun q => (q.natAbs : Int)) ≠ [] by
    rw [← length_pos_iff, length_map]
    unfold queryLens
    rw [length_zipWith, length_tail, length_dropLast, length_queryStarts]
    omega)
  apply Exists.intro
  constructor
  · unfold makeMetadataWithSlice
    rw [pyAssert_pos (by
      unfold UBatchSlice.isEmpty
      have hne : ((a : Nat) : Int) ≠ b := by omega
      have hne' : s ≠ e := by omega
      simp [hne, hne']), ok_bind, hm.queryStartLocCpu, hm.queryStartLoc, hskip, ok_bind, hlocs,
      ok_bind, ok_bind, pyAssert_pos (by omega), ok_bind]
    simp only [hmaxSeq, ok_bind, hmaxQuery]
    rfl
  · constructor
    · show ((b : Int) - a) = ((b - a : Nat) : Int)
      omega
    · intro i hi
      have hcell : locs[i]? = some (start rows (a + i) - start rows a) := by
        rw [← hq, getElem?_map, getElem?_pySlice, if_pos (show a + i < b + 1 by omega),
          cuNumTokens_eq, getElem?_starts, if_pos (show a + i ≤ rows.length by omega)]
        rfl
      have hfirst : 0 ≤ s - start rows a := by omega
      show (Skipped.queryStarts ⟨s - start rows a, start rows b - e⟩ locs).getD i 0 = _
      rw [getD_eq_getElem?_getD, getElem?_queryStarts hfirst hskipped, hcell, hlenLocs]
      show start rows (a + i) - start rows a - (if i = 0 then 0 else s - start rows a) -
        (if i + 1 = b - a + 1 then start rows b - e else 0) = _
      by_cases hlast : i = b - a
      · rw [if_pos hlast, if_pos (show i + 1 = b - a + 1 by omega)]
        split <;> omega
      · rw [if_neg hlast, if_neg (show ¬ i + 1 = b - a + 1 by omega)]
        split <;> omega
    · intro i hi
      have hlen : (pySlice m.seqLens (a : Int) (b : Int)).length = b - a := by
        apply length_pySlice
        rw [hm.seqLens, length_map]
        exact hb
      have hcell : (pySlice m.seqLens (a : Int) (b : Int))[i]? = some (seqLenOf rows (a + i)) := by
        rw [getElem?_pySlice, if_pos (show a + i < b by omega), hm.seqLens]
        unfold seqLenOf
        rw [getD_eq_getElem?_getD, getElem?_eq_getElem (by rw [length_map]; omega)]
        rfl
      show (Skipped.seqLens ⟨s - start rows a, start rows b - e⟩
        (pySlice m.seqLens (a : Int) (b : Int))).getD i 0 = _
      rw [getD_eq_getElem?_getD, getElem?_seqLens hskipped, hcell, hlen]
      rfl
    · intro i hi
      show (pySlice m.numComputedTokensCpu (a : Int) (b : Int)).getD i 0 = _
      rw [getD_eq_getElem?_getD, getElem?_pySlice, if_pos (show a + i < b by omega),
        hm.numComputedTokensCpu, ← getD_eq_getElem?_getD]
      rfl

/-! ## Tokens and keys -/

theorem Sliced.queryStart_zero (h : Sliced rows s e a b md) (hab : a < b) :
    md.queryStart 0 = 0 := by
  have hstart := h.queryStart 0 (by omega)
  rw [if_pos rfl, if_neg (by omega), Nat.add_zero] at hstart
  omega

theorem Sliced.queryStart_succ (h : Sliced rows s e a b md) (hi : i < b - a) :
    md.queryStart (i + 1) = (if i + 1 = b - a then e else start rows (a + i + 1)) - s := by
  have hstart := h.queryStart (i + 1) (by omega)
  rw [if_neg (by omega), ← Nat.add_assoc] at hstart
  rw [hstart]
  split
  · rw [show a + i + 1 = b by omega]
    omega
  · omega

theorem IsMetadata.queryStart (hm : IsMetadata rows m) (h : r ≤ rows.length) :
    m.queryStart r = start rows r := by
  unfold CommonAttentionMetadata.queryStart
  rw [hm.queryStartLoc, cuNumTokens_eq, getD_eq_getElem?_getD, getElem?_starts, if_pos h]
  rfl

theorem IsMetadata.seqLen (hm : IsMetadata rows m) (r : Nat) : m.seqLen r = seqLenOf rows r := by
  unfold CommonAttentionMetadata.seqLen seqLenOf
  rw [hm.seqLens]

theorem Sliced.keepsKeys (hm : IsMetadata rows m)
    (h : Sliced rows s e a b md) (hab : a < b) (hb : b ≤ rows.length)
    (has : start rows a ≤ s) (heb : e ≤ start rows b) : KeepsKeys m ⟨⟨a, b⟩, ⟨s, e⟩⟩ md where
  owned := by
    intro t ht hte
    change t < e - s at hte
    have htotal := @start_le rows _ _ hb (Nat.le_refl _)
    obtain ⟨r, hr, hlow, hhigh⟩ := @exists_request rows _
      (show 0 ≤ t + s by
        have hzero := @start_le rows _ _ (Nat.zero_le a) (by omega)
        rw [start_zero] at hzero
        omega)
      (show t + s < total rows by
        unfold total
        omega)
    have har : a < r + 1 :=
      lt_of_start_lt (by omega) (show start rows a < start rows (r + 1) by omega)
    have hrb : r < b := lt_of_start_lt (by omega) (show start rows r < start rows b by omega)
    obtain ⟨i, rfl⟩ : ∃ i, r = a + i := ⟨r - a, by omega⟩
    refine ⟨i, ?_, ?_, ?_⟩
    · rw [h.numReqs]
      omega
    · cases i with
      | zero =>
        rw [h.queryStart_zero hab]
        exact ht
      | succ i =>
        rw [h.queryStart_succ (by omega), if_neg (by omega), Nat.add_assoc]
        omega
    · rw [h.queryStart_succ (by omega)]
      split <;> omega
  keys := by
    intro i t hi hown
    obtain ⟨hlow, hhigh⟩ := hown
    rw [h.numReqs] at hi
    have hnext := h.queryStart_succ (show i < b - a by omega)
    rw [hnext] at hhigh
    have hend : e ≤ start rows (a + i + 1) ∨ i + 1 ≠ b - a := by
      by_cases hlast : i + 1 = b - a
      · rw [show a + i + 1 = b by omega]
        exact Or.inl heb
      · exact Or.inr hlast
    have hstart : start rows (a + i) ≤ t + s := by
      cases i with
      | zero =>
        rw [h.queryStart_zero hab] at hlow
        rw [Nat.add_zero]
        omega
      | succ i =>
        rw [h.queryStart_succ (by omega), if_neg (by omega), Nat.add_assoc] at hlow
        omega
    constructor
    · unfold CommonAttentionMetadata.Owns
      show m.queryStart (a + i) ≤ t + s ∧ t + s < m.queryStart (a + i + 1)
      rw [hm.queryStart (by omega), hm.queryStart (by omega)]
      split at hhigh <;> omega
    · unfold CommonAttentionMetadata.keysSeen
      show md.seqLen i - (md.queryStart (i + 1) - 1 - t) =
        m.seqLen (a + i) - (m.queryStart (a + i + 1) - 1 - (t + s))
      rw [hnext, hm.queryStart (by omega), hm.seqLen, h.seqLen i (by omega)]
      by_cases hlast : i + 1 = b - a
      · rw [if_pos hlast, if_pos hlast, show a + i + 1 = b by omega]
        omega
      · rw [if_neg hlast, if_neg hlast]
        omega

/-- The computed tokens and the queries add up exactly when the slice does not start inside a
request. -/
theorem Sliced.addsUp_iff (h : Sliced rows s e a b md) (hab : a < b) (hb : b ≤ rows.length) :
    AddsUp md ↔ s = start rows a := by
  have hsum : ∀ i < b - a, md.numComputed i + md.queryLen i = md.seqLen i ↔
      i = 0 → s = start rows a := by
    intro i hi
    have hrow := @numComputedOf_add rows _ (show a + i < rows.length by omega)
    unfold CommonAttentionMetadata.queryLen
    rw [h.numComputed i hi, h.seqLen i hi, h.queryStart_succ hi, ← hrow]
    have hlast : i + 1 = b - a → start rows (a + i + 1) = start rows b := by
      intro hlast
      rw [show a + i + 1 = b by omega]
    cases i with
    | zero =>
      rw [h.queryStart_zero hab]
      simp only [Nat.add_zero, forall_const] at hlast ⊢
      split
      · rw [hlast (by assumption)]
        omega
      · omega
    | succ i =>
      refine iff_of_true ?_ (fun h0 => absurd h0 (Nat.succ_ne_zero i))
      rw [h.queryStart_succ (show i < b - a by omega),
        if_neg (show ¬ i + 1 = b - a by omega), Nat.add_assoc a i 1]
      split
      · rw [hlast (by assumption)]
        omega
      · omega
  unfold AddsUp
  rw [h.numReqs]
  constructor
  · intro hall
    exact (hsum 0 (by omega)).mp (hall 0 (by omega)) rfl
  · intro heq i hi
    exact (hsum i (by omega)).mpr fun _ => heq

/-! ## All micro-batches -/

theorem partitions_slicesFrom (cu : List Int) (points : List Int) (s e : Int) :
    Partitions s (slicesFrom cu s (points ++ [e])) e ↔ (s :: (points ++ [e])).Pairwise (· ≤ ·) := by
  rw [← isChain_iff_pairwise]
  induction points generalizing s with
  | nil => simp [slicesFrom, Partitions, sliceAt]
  | cons p points ih =>
    rw [cons_append, isChain_cons_cons, ← ih p]
    show s = s ∧ s ≤ p ∧ _ ↔ _
    rw [and_iff_right rfl]
    rfl

theorem mem_slicesFrom {cu : List Int} {u : UBatchSlice} {points : List Int}
    (hsorted : (s :: points).Pairwise (· ≤ ·)) (hu : u ∈ slicesFrom cu s points) :
    ∃ x ∈ s :: points, ∃ y ∈ points, x ≤ y ∧ u = sliceAt cu x y := by
  induction points generalizing s with
  | nil => cases hu
  | cons p points ih =>
    obtain ⟨hs, hrest⟩ := pairwise_cons.mp hsorted
    rcases mem_cons.mp hu with rfl | hu
    · exact ⟨s, by simp, p, by simp, hs p (by simp), rfl⟩
    · obtain ⟨x, hx, y, hy, hle, heq⟩ := ih hrest hu
      exact ⟨x, mem_cons_of_mem _ hx, y, mem_cons_of_mem _ hy, hle, heq⟩

theorem sliceAt_mem_slicesFrom {cu : List Int} {points : List Int} {s x y : Int} {k : Nat}
    (hx : points[k]? = some x) (hy : points[k + 1]? = some y) :
    sliceAt cu x y ∈ slicesFrom cu s points := by
  induction points generalizing s k with
  | nil => cases hx
  | cons p points ih =>
    cases k with
    | zero =>
      cases hx
      cases points with
      | nil => cases hy
      | cons q points =>
        cases hy
        exact mem_cons_of_mem _ mem_cons_self
    | succ k =>
      exact mem_cons_of_mem _ (ih hx hy)

theorem slicesFrom_append (cu : List Int) (points : List Int) (s e : Int) :
    slicesFrom cu s (points ++ [e]) =
      slicesFrom cu s points ++ [sliceAt cu ((s :: points).getLast (by simp)) e] := by
  induction points generalizing s with
  | nil => rfl
  | cons p points ih =>
    rw [cons_append, slicesFrom, ih p, slicesFrom, cons_append]
    rfl

theorem sum_numTokens_slicesFrom (cu : List Int) (points : List Int) (s : Int) :
    ((slicesFrom cu s points).map UBatchSlice.numTokens).sum =
      (s :: points).getLast (by simp) - s := by
  induction points generalizing s with
  | nil => simp [slicesFrom]
  | cons p points ih =>
    rw [slicesFrom, map_cons, sum_cons, ih p]
    show p - s + _ = (p :: points).getLast _ - s
    omega

theorem padOutUbatchSlices_append (us : List UBatchSlice) (u : UBatchSlice)
    (numTotalTokens numReqsPadded : Int) :
    padOutUbatchSlices (us ++ [u]) numTotalTokens numReqsPadded = .ok (us ++
        [⟨⟨u.requestSlice.start, numReqsPadded⟩, ⟨u.tokenSlice.start, numTotalTokens⟩⟩]) := by
  unfold padOutUbatchSlices
  rw [pyGet_last _ (by simp), getLast_append_singleton, dropLast_concat]
  rfl

theorem maybeCreateUbatchSlices_ok (rows : List Query)
    {numTokensPadded numReqsPadded numUbatches : Nat} {splitPoint : Option Int} {p : Int}
    (hp : splitPointOf splitPoint numTokensPadded numUbatches = .ok p) :
    ∃ padded, maybeCreateUbatchSlices true (numScheduledTokens rows) numTokensPadded numReqsPadded
      numUbatches splitPoint = .ok (some (slicesFrom (cuNumTokens (numScheduledTokens rows)) 0
        ((List.range' 1 (numUbatches - 1)).map (fun i : Nat => p * i) ++ [total rows]),
        padded)) := by
  have hlast : pyGet (cuNumTokens (numScheduledTokens rows)) (-1) = .ok (total rows) := by
    have hne : cuNumTokens (numScheduledTokens rows) ≠ [] := cons_ne_nil _ _
    rw [pyGet_last _ hne, getLast_eq_getElem]
    have hget := getElem?_starts rows rows.length
    rw [if_pos (Nat.le_refl _), ← cuNumTokens_eq] at hget
    have hlen : (cuNumTokens (numScheduledTokens rows)).length - 1 = rows.length := by
      rw [cuNumTokens_eq, length_map, length_range]
      omega
    have hcell := (List.getElem?_eq_some_iff.mp hget).2
    simp only [hlen, hcell]
    rfl
  have hpoints : allPoints p numUbatches (cuNumTokens (numScheduledTokens rows)) =
      .ok ((List.range' 1 (numUbatches - 1)).map (fun i : Nat => p * i) ++ [total rows]) := by
    unfold allPoints
    rw [hlast]
    rfl
  unfold maybeCreateUbatchSlices
  rw [if_neg (by decide), hp, ok_bind]
  simp only [hpoints, ok_bind]
  rw [slicesFrom_append, padOutUbatchSlices_append, ok_bind]
  apply Exists.intro
  rw [pyAssert_pos]
  · rfl
  · rw [map_append, sum_append, sum_numTokens_slicesFrom]
    simp [UBatchSlice.numTokens, sliceAt]

/-- Every cut is at the start of a request. -/
def CutsBetweenRequests (rows : List Query) (splitPoint : Int) (numUbatches : Nat) : Prop :=
  ∀ i : Nat, 1 ≤ i → i < numUbatches → ∃ r ≤ rows.length, splitPoint * i = start rows r

theorem getElem?_cuts (p t : Int) (numUbatches : Nat) (h1 : 1 ≤ i) (hi : i ≤ numUbatches) :
    ((List.range' 1 (numUbatches - 1)).map (fun i : Nat => p * i) ++ [t])[i - 1]? =
      some (if i < numUbatches then p * i else t) := by
  by_cases hlt : i < numUbatches
  · rw [if_pos hlt, getElem?_append_left (by simp; omega), getElem?_map,
      getElem?_range' (by omega)]
    show some (p * ((1 + 1 * (i - 1) : Nat) : Int)) = _
    rw [show 1 + 1 * (i - 1) = i by omega]
  · rw [if_neg hlt, getElem?_append_right (by simp; omega)]
    rw [length_map, length_range', show i - 1 - (numUbatches - 1) = 0 by omega]
    rfl

theorem CutsBetweenRequests.sorted (h : CutsBetweenRequests rows p numUbatches) :
    (0 :: ((List.range' 1 (numUbatches - 1)).map (fun i : Nat => p * i) ++ [total rows])).Pairwise
      (· ≤ ·) := by
  have hcut : ∀ i : Nat, 1 ≤ i → i < numUbatches → 0 ≤ p * i ∧ p * i ≤ total rows := by
    intro i h1 hi
    obtain ⟨r, hr, heq⟩ := h i h1 hi
    have hlow := @start_le rows _ _ (Nat.zero_le r) hr
    have hhigh := @start_le rows _ _ hr (Nat.le_refl _)
    rw [heq]
    exact ⟨hlow, hhigh⟩
  have htotal : 0 ≤ total rows := by
    have hlow := @start_le rows _ _ (Nat.zero_le rows.length) (Nat.le_refl _)
    rwa [start_zero] at hlow
  have hmem : ∀ x ∈ (List.range' 1 (numUbatches - 1)).map (fun i : Nat => p * i),
      0 ≤ x ∧ x ≤ total rows := by
    intro x hx
    obtain ⟨i, hi, rfl⟩ := mem_map.mp hx
    rw [mem_range'_1] at hi
    exact hcut i hi.1 (by omega)
  rw [pairwise_cons, pairwise_append]
  refine ⟨?_, ?_, pairwise_singleton _ _, ?_⟩
  · intro x hx
    rcases mem_append.mp hx with hx | hx
    · exact (hmem x hx).1
    · rw [mem_singleton] at hx
      rw [hx]
      exact htotal
  · rw [pairwise_map]
    refine List.Pairwise.imp_of_mem ?_ pairwise_lt_range'
    intro i j hi hj hij
    rw [mem_range'_1] at hi hj
    have hp : 0 ≤ p := by
      have hone := (hcut 1 (Nat.le_refl 1) (by omega)).1
      simpa using hone
    exact Int.mul_le_mul_of_nonneg_left (by omega) hp
  · intro x hx y hy
    rw [mem_singleton] at hy
    rw [hy]
    exact (hmem x hx).2

theorem CutsBetweenRequests.preserves (hm : IsMetadata rows m)
    (h : CutsBetweenRequests rows p numUbatches) :
    Preserves rows m (slicesFrom (cuNumTokens (numScheduledTokens rows)) 0
      ((List.range' 1 (numUbatches - 1)).map (fun i : Nat => p * i) ++ [total rows])) := by
  have hstart : ∀ x ∈ 0 :: ((List.range' 1 (numUbatches - 1)).map (fun i : Nat => p * i) ++
      [total rows]), ∃ r ≤ rows.length, x = start rows r := by
    intro x hx
    rcases mem_cons.mp hx with rfl | hx
    · exact ⟨0, Nat.zero_le _, (start_zero rows).symm⟩
    · rcases mem_append.mp hx with hx | hx
      · obtain ⟨i, hi, rfl⟩ := mem_map.mp hx
        rw [mem_range'_1] at hi
        exact h i hi.1 (by omega)
      · rw [mem_singleton] at hx
        exact ⟨rows.length, Nat.le_refl _, hx⟩
  have hslice : ∀ u ∈ slicesFrom (cuNumTokens (numScheduledTokens rows)) 0
      ((List.range' 1 (numUbatches - 1)).map (fun i : Nat => p * i) ++ [total rows]),
      ∃ a b : Nat, a ≤ b ∧ b ≤ rows.length ∧ u = ⟨⟨a, b⟩, ⟨start rows a, start rows b⟩⟩ := by
    intro u hu
    obtain ⟨x, hx, y, hy, hle, rfl⟩ := mem_slicesFrom h.sorted hu
    obtain ⟨a, ha, rfl⟩ := hstart x hx
    obtain ⟨b, hb, rfl⟩ := hstart y (mem_cons_of_mem _ hy)
    refine ⟨a, b, ?_, hb, sliceAt_starts ha hb⟩
    by_contra hba
    have hlt := @start_lt rows _ _ (show b < a by omega) ha
    omega
  constructor
  · exact (partitions_slicesFrom _ _ _ _).mpr h.sorted
  · intro u hu
    obtain ⟨a, b, hab, hb, rfl⟩ := hslice u hu
    rcases Nat.eq_or_lt_of_le hab with rfl | hlt
    · exact coversRequests_empty rows a _
    · exact coversRequests (start_lt hlt hb) (by omega) hb (Int.le_refl _)
        (start_lt (Nat.lt_succ_self a) (by omega)) (start_lt (by omega) hb) (Int.le_refl _)
  · intro u hu hpos
    obtain ⟨a, b, hab, hb, rfl⟩ := hslice u hu
    change 0 < start rows b - start rows a at hpos
    have hlt : a < b := lt_of_start_lt (by omega) (show start rows a < start rows b by omega)
    obtain ⟨md, hmd, hsliced⟩ := makeMetadataWithSlice_spec hm (start_lt hlt hb) hlt hb
      (Int.le_refl _) (start_lt (Nat.lt_succ_self a) (by omega)) (Int.le_refl _)
    exact ⟨md, hmd, (hsliced.addsUp_iff hlt hb).mpr rfl,
      hsliced.keepsKeys hm hlt hb (Int.le_refl _) (Int.le_refl _)⟩

/-- A cut inside a request leaves the micro-batch behind it with a wrong count of computed
tokens. -/
theorem Preserves.cutsBetweenRequests (hm : IsMetadata rows m)
    (h : Preserves rows m (slicesFrom (cuNumTokens (numScheduledTokens rows)) 0
      ((List.range' 1 (numUbatches - 1)).map (fun i : Nat => p * i) ++ [total rows]))) :
    CutsBetweenRequests rows p numUbatches := by
  intro i h1 hi
  have hsorted := (partitions_slicesFrom _ _ _ _).mp h.partition
  have hcut := getElem?_cuts p (total rows) numUbatches h1 (Nat.le_of_lt hi)
  have hnext := getElem?_cuts p (total rows) numUbatches (show 1 ≤ i + 1 by omega) hi
  rw [if_pos hi] at hcut
  have hbounds : ∀ x ∈ (List.range' 1 (numUbatches - 1)).map (fun i : Nat => p * i) ++ [total rows],
      0 ≤ x ∧ x ≤ total rows := by
    intro x hx
    refine ⟨(pairwise_cons.mp hsorted).1 x hx, ?_⟩
    have hpoints := (pairwise_append.mp (pairwise_cons.mp hsorted).2).2.2
    rcases mem_append.mp hx with hx | hx
    · exact hpoints x hx (total rows) (by simp)
    · rw [mem_singleton] at hx
      exact Int.le_of_eq hx
  have hlow := hbounds _ (mem_of_getElem? hcut)
  by_contra hnot
  have hne : ∀ r ≤ rows.length, p * i ≠ start rows r := fun r hr heq => hnot ⟨r, hr, heq⟩
  have hzero := hne 0 (Nat.zero_le _)
  have htotal : p * i ≠ total rows := hne rows.length (Nat.le_refl _)
  rw [start_zero] at hzero
  have hlt : p * i < if i + 1 < numUbatches then p * ((i + 1 : Nat) : Int) else total rows := by
    split
    · have hp : 0 < p := by
        by_contra hle
        have hmul : p * i ≤ 0 := Int.mul_nonpos_of_nonpos_of_nonneg (by omega) (by omega)
        omega
      rw [Nat.cast_add, Nat.cast_one, Int.mul_add]
      omega
    · omega
  obtain ⟨j, rfl⟩ : ∃ j, i = j + 1 := ⟨i - 1, by omega⟩
  have hmem := @sliceAt_mem_slicesFrom (cuNumTokens (numScheduledTokens rows)) _ 0 _ _ _ hcut
    hnext
  obtain ⟨a, b, hab, hb, heq, has, hsa, -, heb⟩ := sliceAt_spec hlow.1 hlt
    (hbounds _ (mem_of_getElem? hnext)).2
  rw [heq] at hmem
  obtain ⟨md, hmd, hadds, -⟩ := h.metadata _ hmem (Int.sub_pos_of_lt hlt)
  obtain ⟨md', hmd', hsliced⟩ := makeMetadataWithSlice_spec hm hlt hab hb has hsa heb
  rw [hmd] at hmd'
  cases hmd'
  exact hne a (by omega) ((hsliced.addsUp_iff hab hb).mp hadds)

/-- For every batch and every split point the micro-batches are made, and they preserve the
metadata of the batch exactly when every cut is between two requests. -/
theorem ubatches_preserve_iff {rows : List Query} {m : CommonAttentionMetadata}
    (hm : IsMetadata rows m) {numTokensPadded numReqsPadded numUbatches : Nat}
    {splitPoint : Option Int} {p : Int}
    (hp : splitPointOf splitPoint numTokensPadded numUbatches = .ok p) :
    ∃ us padded, maybeCreateUbatchSlices true (numScheduledTokens rows) numTokensPadded
        numReqsPadded numUbatches splitPoint = .ok (some (us, padded)) ∧
      (Preserves rows m us ↔ CutsBetweenRequests rows p numUbatches) := by
  obtain ⟨padded, hmake⟩ := @maybeCreateUbatchSlices_ok rows _ numReqsPadded _ _ _ hp
  exact ⟨_, padded, hmake, fun h => h.cutsBetweenRequests hm, fun h => h.preserves hm⟩

theorem eight_pos : 0 < 8 := by decide

def twoPrefills : List Query := [⟨8, 24, eight_pos⟩, ⟨8, 32, eight_pos⟩]

def twoPrefillsMetadata : CommonAttentionMetadata where
  queryStartLoc := [0, 8, 16]
  queryStartLocCpu := [0, 8, 16]
  seqLens := [32, 40]
  seqLensCpu := [32, 40]
  numComputedTokensCpu := [24, 32]
  numReqs := 2
  numActualTokens := 16
  maxQueryLen := 8
  maxSeqLen := 40
  blockTableTensor := [[0, 1], [2, 3]]
  slotMapping := (List.range 16).map Nat.cast

theorem twoPrefills_isMetadata : IsMetadata twoPrefills twoPrefillsMetadata := by
  constructor <;> decide

/-- Cut at the start of the second request, the batch is preserved. -/
theorem ubatches_preserve_iff_twoPrefills :
    ∃ us padded, maybeCreateUbatchSlices true (numScheduledTokens twoPrefills) 16 2 2 (some 8) =
        .ok (some (us, padded)) ∧ (Preserves twoPrefills twoPrefillsMetadata us ↔
          CutsBetweenRequests twoPrefills 8 2) :=
  ubatches_preserve_iff twoPrefills_isMetadata (by decide)

/-- Cut inside the first request, its rest counts 24 computed tokens and has 4 tokens of a sequence
of 32. -/
theorem not_ubatches_preserve :
    ∃ us padded, maybeCreateUbatchSlices true (numScheduledTokens twoPrefills) 16 2 2 (some 4) =
        .ok (some (us, padded)) ∧ ¬ Preserves twoPrefills twoPrefillsMetadata us := by
  obtain ⟨padded, hmake⟩ := @maybeCreateUbatchSlices_ok twoPrefills _ 2 _ _ _
    (show splitPointOf (some 4) 16 2 = .ok 4 by decide)
  refine ⟨_, padded, hmake, ?_⟩
  intro hpreserves
  obtain ⟨r, hr, heq⟩ :=
    hpreserves.cutsBetweenRequests twoPrefills_isMetadata 1 (by decide) (by decide)
  have hstarts : ∀ r ≤ 2, (4 : Int) * (1 : Nat) ≠ start twoPrefills r := by decide
  exact hstarts r hr heq

end VllmCore.Worker.UBatch
