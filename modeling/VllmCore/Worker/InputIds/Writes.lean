import VllmCore.Worker.InputIds
import Mathlib.Algebra.Order.BigOperators.Group.Finset
/-!
# The writes of the sampled tokens and of the drafts

The tokens of a request lie one behind the other, and the positions of different requests
are different.  So the sampled tokens and the drafts are written to distinct positions.  The
copy from the CPU is left out when these are all positions, and one slice is copied when the
rows that the requests had are the positions that they have.
-/

namespace VllmCore.Worker.InputIds

open List Nat Support

/-! ## Rows in a flat array -/

section Rows

variable (n d : Nat → Nat) (prev : Nat → Option Nat)

def start (i : Nat) : Nat := ∑ k ∈ Finset.range i, n k

theorem start_succ (i : Nat) : start n (i + 1) = start n i + n i := Finset.sum_range_succ _ _

variable {i j : Nat}

theorem start_mono (h : i ≤ j) : start n i ≤ start n j :=
  Finset.sum_le_sum_of_subset (Finset.range_mono h)

variable {n} in
theorem start_add_inj {a b : Nat} (ha : a < n i) (hb : b < n j)
    (h : start n i + a = start n j + b) : i = j ∧ a = b := by
  have hij : ¬ i < j := by
    intro hlt
    have hle := start_mono n (succ_le_of_lt hlt)
    rw [start_succ] at hle
    omega
  have hji : ¬ j < i := by
    intro hlt
    have hle := start_mono n (succ_le_of_lt hlt)
    rw [start_succ] at hle
    omega
  obtain rfl : i = j := by omega
  exact ⟨rfl, by omega⟩

def common (k : Nat) : List Nat := (List.range k).filter fun i => (prev i).isSome

theorem mem_common {k : Nat} : i ∈ common prev k ↔ i < k ∧ ∃ p, prev i = some p := by
  rw [common, mem_filter, mem_range, Option.isSome_iff_exists]

theorem common_succ (k : Nat) :
    common prev (k + 1) = common prev k ++ if (prev k).isSome then [k] else [] := by
  unfold common
  rw [range_succ, filter_append]
  rw [filter_cons, filter_nil]

theorem nodup_common (k : Nat) : (common prev k).Nodup := nodup_range.filter _

/-- The position of the last token that is not a draft. -/
def samplePos (i : Nat) : Nat := start n i + (n i - 1 - d i)

def lastPos (i : Nat) : Nat := start n i + (n i - 1)

/-- What the loop has collected after `k` rows. -/
def flattened (numSpecTokens k : Nat) : Flattened where
  sampleFlattenedIndices := (common prev k).map fun i => (samplePos n d i : Int)
  specFlattenedIndices := (common prev k).flatMap fun i =>
    (List.range (d i)).map fun t => ((samplePos n d i + 1 + t : Nat) : Int)
  prevDraftTokenIndices := (common prev k).flatMap fun i =>
    (List.range (d i)).map fun t => (((prev i).getD 0 * numSpecTokens + t : Nat) : Int)
  prevIndices := (common prev k).map fun i => (((prev i).getD 0 : Nat) : Int)
  commonIndicesMatch := (common prev k).all fun i => (prev i).getD 0 = lastPos n i
  maxFlattenedIndex := (common prev k).foldl (fun m i => max m (lastPos n i : Int)) (-1)
  totalNumSpecTokens := ((common prev k).map d).sum

end Rows

theorem pyRange_add (a : Int) (n : Nat) :
    pyRange a (a + n) 1 = (List.range n).map fun k : Nat => a + k := by
  unfold pyRange rangeLength
  simp

/-! ## The loop -/

/-- The number of drafts that are scheduled for a request. -/
def draftLen (scheduledSpecTokens : Dict ReqId (List Token)) (reqId : ReqId) : Nat :=
  ((scheduledSpecTokens.get? reqId).getD []).length

/-- The rows that the loop goes over. -/
structure LoopRow {E : Type} (r : ModelRunner E) (scheduledSpecTokens : Dict ReqId (List Token))
    (cuNumTokens : List Nat) (n d : Nat → Nat) (prev : Nat → Option Nat) (i : Nat) : Prop where
  reqId : ∃ reqId, r.reqIds[i]? = some reqId ∧ draftLen scheduledSpecTokens reqId = d i
  prevPosition : r.prevPositions[i]? = some ((prev i).elim (-1) fun p : Nat => (p : Int))
  cuNumTokens : cuNumTokens[i]? = some (start n (i + 1))
  scheduled : 0 < n i
  drafts : (prev i).isSome → d i < n i

variable {E : Type} {r : ModelRunner E} {scheduledSpecTokens : Dict ReqId (List Token)}
  {cuNumTokens : List Nat} {n d : Nat → Nat} {prev : Nat → Option Nat} {numReqs : Nat}
variable {k : Nat}

theorem flattenRow_eq (h : LoopRow r scheduledSpecTokens cuNumTokens n d prev k) :
    r.flattenRow scheduledSpecTokens cuNumTokens (flattened n d prev r.numSpecTokens k) k =
      .ok (flattened n d prev r.numSpecTokens (k + 1)) := by
  refine bind_ok.mpr ⟨_, pyGet_natCast_ok.mpr h.prevPosition, ?_⟩
  have hcommon := common_succ prev k
  cases hprev : prev k with
  | none =>
    rw [hprev] at hcommon
    have hsame : common prev (k + 1) = common prev k := by
      rw [hcommon]
      exact append_nil _
    unfold flattened
    rw [hsame]
    rfl
  | some p =>
    rw [hprev] at hcommon
    obtain ⟨reqId, hreqId, hdraft⟩ := h.reqId
    have hlt := h.drafts (by rw [hprev]; rfl)
    have hsample :
        ((start n (k + 1) : Nat) : Int) - 1 - (d k : Int) = (samplePos n d k : Int) := by
      rw [start_succ]
      unfold samplePos
      omega
    have hlast : ((start n (k + 1) : Nat) : Int) - 1 = (lastPos n k : Int) := by
      rw [start_succ]
      unfold lastPos
      omega
    refine bind_ok.mpr ⟨_, pyGet_natCast_ok.mpr hreqId, ?_⟩
    refine bind_ok.mpr ⟨_, pyGet_natCast_ok.mpr h.cuNumTokens, ?_⟩
    have hspec : pyRange ((start n (k + 1) : Nat) - 1 - (d k : Int) + 1)
        ((start n (k + 1) : Nat) - 1 + 1) 1 =
          (List.range (d k)).map fun t => ((samplePos n d k + 1 + t : Nat) : Int) := by
      rw [hsample, show ((start n (k + 1) : Nat) : Int) - 1 + 1 =
        (samplePos n d k : Int) + 1 + (d k : Nat) by omega, pyRange_add]
      simp
    have hstart : pyRange ((p : Int) * r.numSpecTokens)
        ((p : Int) * r.numSpecTokens + (d k : Int)) 1 =
          (List.range (d k)).map fun t => ((p * r.numSpecTokens + t : Nat) : Int) := by
      rw [pyRange_add]
      simp
    unfold draftLen at hdraft
    dsimp only [Option.elim_some]
    rw [hdraft, hspec, hstart, hsample, hlast]
    have hmore : common prev (k + 1) = common prev k ++ [k] := hcommon
    unfold flattened
    rw [hmore]
    simp [hprev]
    rfl

theorem foldlM_flattenRow (h : ∀ i < k, LoopRow r scheduledSpecTokens cuNumTokens n d prev i) :
    (List.range k).foldlM (r.flattenRow scheduledSpecTokens cuNumTokens) {} =
      .ok (flattened n d prev r.numSpecTokens k) := by
  induction k with
  | zero => rfl
  | succ k ih =>
    rw [range_succ, foldlM_append, ih fun i hi => h i (by omega)]
    refine bind_ok.mpr ⟨_, rfl, ?_⟩
    rw [foldlM_cons, flattenRow_eq (h k (by omega))]
    rfl

/-! ## The writes -/

def IsPlain (n d : Nat → Nat) (prev : Nat → Option Nat) (i j : Nat) : Prop :=
  prev i = none ∨ j < n i - 1 - d i

section Writes

variable (n d prev)

def sampleWrites (token : Nat → Token) (k : Nat) : List (Nat × Token) :=
  (common prev k).map fun i => (samplePos n d i, token i)

def draftWrites (draft : Nat → Nat → Token) (k : Nat) : List (Nat × Token) :=
  (common prev k).flatMap fun i =>
    (List.range (d i)).map fun t => (samplePos n d i + 1 + t, draft i t)

variable {n d prev}
variable (hscheduled : ∀ i < numReqs, 0 < n i)
  (hdrafts : ∀ i < numReqs, (prev i).isSome → d i < n i)
variable {token : Nat → Token} {i j room : Nat} {x : Token} {draft : Nat → Nat → Token}

include hdrafts in
theorem mem_sampleWrites (hi : i < numReqs) (hj : j < n i)
    : (start n i + j, x) ∈ sampleWrites n d prev token numReqs ↔
      (prev i).isSome ∧ j = n i - 1 - d i ∧ x = token i := by
  unfold sampleWrites
  rw [mem_map]
  constructor
  · rintro ⟨k, hk, heq⟩
    obtain ⟨hlt, p, hp⟩ := (mem_common prev).mp hk
    have hsome : (prev k).isSome := by rw [hp]; rfl
    have hdk := hdrafts k hlt hsome
    obtain ⟨hpos, rfl⟩ := Prod.mk.inj heq
    obtain ⟨rfl, rfl⟩ := start_add_inj (by omega) hj hpos
    exact ⟨hsome, rfl, rfl⟩
  · rintro ⟨hsome, rfl, rfl⟩
    exact ⟨i, (mem_common prev).mpr ⟨hi, Option.isSome_iff_exists.mp hsome⟩, rfl⟩

include hdrafts in
theorem mem_draftWrites (hi : i < numReqs)
    (hj : j < n i) : (start n i + j, x) ∈ draftWrites n d prev draft numReqs ↔
      (prev i).isSome ∧ n i - d i ≤ j ∧ x = draft i (j - (n i - d i)) := by
  unfold draftWrites
  rw [mem_flatMap]
  constructor
  · rintro ⟨k, hk, hmem⟩
    obtain ⟨t, ht, heq⟩ := mem_map.mp hmem
    rw [mem_range] at ht
    obtain ⟨hlt, p, hp⟩ := (mem_common prev).mp hk
    have hsome : (prev k).isSome := by rw [hp]; rfl
    have hdk := hdrafts k hlt hsome
    obtain ⟨hpos, rfl⟩ := Prod.mk.inj heq
    have hpos' : start n k + (n k - 1 - d k + 1 + t) = start n i + j := by
      rw [← hpos, samplePos]
      omega
    obtain ⟨rfl, rfl⟩ := start_add_inj (by omega) hj hpos'
    refine ⟨hsome, by omega, ?_⟩
    congr 1
    omega
  · rintro ⟨hsome, hle, rfl⟩
    have hdi := hdrafts i hi hsome
    refine ⟨i, (mem_common prev).mpr ⟨hi, Option.isSome_iff_exists.mp hsome⟩, ?_⟩
    refine mem_map.mpr ⟨j - (n i - d i), mem_range.mpr (by omega), ?_⟩
    rw [samplePos]
    congr 1
    omega

include hdrafts in
theorem nodup_sampleWrites (token : Nat → Token) :
    ((sampleWrites n d prev token numReqs).map Prod.fst).Nodup := by
  unfold sampleWrites
  rw [map_map]
  apply (nodup_common prev numReqs).map_on
  intro i hi k hk heq
  obtain ⟨hi, p, hp⟩ := (mem_common prev).mp hi
  obtain ⟨hk, q, hq⟩ := (mem_common prev).mp hk
  have hdi := hdrafts i hi (by rw [hp]; rfl)
  have hdk := hdrafts k hk (by rw [hq]; rfl)
  exact (start_add_inj (a := n i - 1 - d i) (b := n k - 1 - d k) (by omega) (by omega) heq).1

include hdrafts in
theorem nodup_draftWrites (draft : Nat → Nat → Token) :
    ((draftWrites n d prev draft numReqs).map Prod.fst).Nodup := by
  unfold draftWrites
  rw [map_flatMap, nodup_flatMap]
  constructor
  · intro i _
    rw [map_map]
    apply nodup_range.map
    intro t u htu
    have heq : samplePos n d i + 1 + t = samplePos n d i + 1 + u := htu
    omega
  · apply (nodup_common prev numReqs).pairwise_of_forall_ne
    intro i hi k hk hne p hpi hpk
    simp only [map_map, mem_map, mem_range, Function.comp_apply] at hpi hpk
    obtain ⟨t, ht, rfl⟩ := hpi
    obtain ⟨u, hu, heq⟩ := hpk
    obtain ⟨hi, p, hp⟩ := (mem_common prev).mp hi
    obtain ⟨hk, q, hq⟩ := (mem_common prev).mp hk
    have hdi := hdrafts i hi (by rw [hp]; rfl)
    have hdk := hdrafts k hk (by rw [hq]; rfl)
    unfold samplePos at heq
    have hpos : start n i + (n i - 1 - d i + 1 + t) = start n k + (n k - 1 - d k + 1 + u) := by
      omega
    exact hne (start_add_inj (by omega) (by omega) hpos).1

def idAt (n d : Nat → Nat) (prev : Nat → Option Nat) (cpu : List Token) (token : Nat → Token)
    (draft : Nat → Nat → Token) (i j : Nat) : Option Token :=
  if (prev i).isSome then
    if j < n i - 1 - d i then cpu[start n i + j]?
    else if j = n i - 1 - d i then some (token i)
    else some (draft i (j - (n i - d i)))
  else cpu[start n i + j]?

include hdrafts in
theorem getElem?_writes {cpu base : List Token} (hi : i < numReqs) (hj : j < n i)
    (hbase : IsPlain n d prev i j → base[start n i + j]? = cpu[start n i + j]?)
    (hroom : start n i + j < base.length) :
    (scatter (scatter base (sampleWrites n d prev token numReqs))
      (draftWrites n d prev draft numReqs))[start n i + j]? =
        idAt n d prev cpu token draft i j := by
  have hnot : ∀ writes : List (Nat × Token), (∀ x, (start n i + j, x) ∉ writes) →
      start n i + j ∉ writes.map Prod.fst := by
    intro writes h hmem
    obtain ⟨w, hw, heq⟩ := mem_map.mp hmem
    exact h w.2 (by rw [← heq]; exact hw)
  unfold idAt
  by_cases hsome : (prev i).isSome
  · have hdi := hdrafts i hi hsome
    rw [if_pos hsome]
    by_cases hdraft : n i - d i ≤ j
    · rw [if_neg (by omega), if_neg (by omega)]
      apply getElem?_scatter_of_mem (nodup_draftWrites hdrafts draft)
      · exact (mem_draftWrites hdrafts hi hj).mpr ⟨hsome, hdraft, rfl⟩
      · rw [length_scatter]
        exact hroom
    · rw [getElem?_scatter_of_not_mem (hnot _ fun x hx =>
        hdraft ((mem_draftWrites hdrafts hi hj).mp hx).2.1)]
      by_cases hsample : j = n i - 1 - d i
      · rw [if_neg (by omega), if_pos hsample]
        apply getElem?_scatter_of_mem (nodup_sampleWrites hdrafts token) _ hroom
        exact (mem_sampleWrites hdrafts hi hj).mpr ⟨hsome, hsample, rfl⟩
      · rw [if_pos (by omega), getElem?_scatter_of_not_mem (hnot _ fun x hx =>
          hsample ((mem_sampleWrites hdrafts hi hj).mp hx).2.1)]
        exact hbase (.inr (by omega))
  · rw [if_neg hsome]
    rw [getElem?_scatter_of_not_mem (hnot _ fun x hx =>
        hsome ((mem_draftWrites hdrafts hi hj).mp hx).1),
      getElem?_scatter_of_not_mem (hnot _ fun x hx =>
        hsome ((mem_sampleWrites hdrafts hi hj).mp hx).1)]
    exact hbase (.inl (Option.not_isSome_iff_eq_none.mp hsome))

include hdrafts in
theorem sampleWrites_room (hroom : start n numReqs ≤ room) :
    ∀ w ∈ sampleWrites n d prev token numReqs, w.1 < room := by
  intro w hw
  obtain ⟨i, hi, rfl⟩ := mem_map.mp hw
  obtain ⟨hi, p, hp⟩ := (mem_common prev).mp hi
  have hdi := hdrafts i hi (by rw [hp]; rfl)
  have hle := start_mono n (succ_le_of_lt hi)
  rw [start_succ] at hle
  show start n i + (n i - 1 - d i) < room
  omega

include hdrafts in
theorem draftWrites_room (hroom : start n numReqs ≤ room) :
    ∀ w ∈ draftWrites n d prev draft numReqs, w.1 < room := by
  intro w hw
  obtain ⟨i, hi, hw⟩ := mem_flatMap.mp hw
  obtain ⟨t, ht, rfl⟩ := mem_map.mp hw
  rw [mem_range] at ht
  obtain ⟨hi, p, hp⟩ := (mem_common prev).mp hi
  have hdi := hdrafts i hi (by rw [hp]; rfl)
  have hle := start_mono n (succ_le_of_lt hi)
  rw [start_succ] at hle
  show start n i + (n i - 1 - d i) + 1 + t < room
  omega

include hscheduled hdrafts in
/-- When the copy from the CPU is left out, no position keeps the token of the CPU. -/
theorem not_isPlain_of_skip
    (hskip : start n numReqs ≤ (common prev numReqs).length + ((common prev numReqs).map d).sum)
    (hi : i < numReqs) : ¬ IsPlain n d prev i j := by
  have hcounts : ∀ k, (common prev k).length + ((common prev k).map d).sum =
      ∑ i ∈ Finset.range k, if (prev i).isSome then 1 + d i else 0 := by
    intro k
    induction k with
    | zero => rfl
    | succ k ih =>
      rw [common_succ, Finset.sum_range_succ, ← ih]
      cases (prev k).isSome
      · simp
      · simp
        omega
  intro hplain
  have hlt : ∑ k ∈ Finset.range numReqs, (if (prev k).isSome then 1 + d k else 0) <
      ∑ k ∈ Finset.range numReqs, n k := by
    apply Finset.sum_lt_sum
    · intro k hk
      have hk := Finset.mem_range.mp hk
      split
      next hsome =>
        have hdk := hdrafts k hk hsome
        omega
      · exact zero_le _
    · refine ⟨i, Finset.mem_range.mpr hi, ?_⟩
      split
      next hsome =>
        rcases hplain with hnone | hplain
        · rw [hnone] at hsome
          cases hsome
        · omega
      · exact hscheduled i hi
  rw [← hcounts] at hlt
  unfold start at hskip
  omega

include hdrafts in
theorem exists_lastPos
    (hmax : ∀ i ∈ common prev numReqs, lastPos n i < (common prev numReqs).length) {q : Nat}
    (hq : q < (common prev numReqs).length) :
    ∃ k ∈ common prev numReqs, lastPos n k = q ∧ 0 < n k := by
  have hpos : ∀ k ∈ common prev numReqs, 0 < n k := by
    intro k hk
    obtain ⟨hk, p, hp⟩ := (mem_common prev).mp hk
    have hdk := hdrafts k hk (by rw [hp]; rfl)
    omega
  have hnodup : ((common prev numReqs).map (lastPos n)).Nodup := by
    apply (nodup_common prev numReqs).map_on
    intro a ha b hb hab
    have hna := hpos a ha
    have hnb := hpos b hb
    exact (start_add_inj (a := n a - 1) (b := n b - 1) (by omega) (by omega) hab).1
  have hsub : (common prev numReqs).map (lastPos n) ⊆
      List.range (common prev numReqs).length := by
    intro q hq
    obtain ⟨k, hk, rfl⟩ := mem_map.mp hq
    exact mem_range.mpr (hmax k hk)
  have hperm := (subperm_of_subset hnodup hsub).perm_of_length_le (by simp)
  obtain ⟨k, hk, heq⟩ := mem_map.mp (hperm.mem_iff.mpr (mem_range.mpr hq))
  exact ⟨k, hk, heq, hpos k hk⟩

include hdrafts in
/-- When the one slice is copied, the rows that it covers have one token each, which is at the
position of the row that they had, and the others are new. -/
theorem row_of_slice (hmatch : ∀ i ∈ common prev numReqs, (prev i).getD 0 = lastPos n i)
    (hmax : ∀ i ∈ common prev numReqs, lastPos n i < (common prev numReqs).length)
    (hi : i < numReqs) (hj : j < n i) :
    (start n i + j < (common prev numReqs).length →
      prev i = some (start n i + j) ∧ j = 0 ∧ n i = 1) ∧
    ((common prev numReqs).length ≤ start n i + j → prev i = none) := by
  have hend : ∀ a < n i, start n i + a < (common prev numReqs).length →
      i ∈ common prev numReqs ∧ a = n i - 1 := by
    intro a ha hlt
    obtain ⟨k, hk, heq, hnk⟩ := exists_lastPos hdrafts hmax hlt
    obtain ⟨rfl, rfl⟩ := start_add_inj (a := n k - 1) (by omega) ha heq
    exact ⟨hk, rfl⟩
  constructor
  · intro hlt
    obtain ⟨hmem, rfl⟩ := hend j hj hlt
    have hone : n i - 1 = 0 := by
      have hfirst := (hend 0 (by omega) (by omega)).2
      exact hfirst.symm
    obtain ⟨_, p, hp⟩ := (mem_common prev).mp hmem
    have hprev := hmatch i hmem
    rw [hp, Option.getD_some] at hprev
    exact ⟨by rw [hp, hprev, lastPos], hone, by omega⟩
  · intro hge
    cases hprev : prev i with
    | none => rfl
    | some p =>
      have hlt := hmax i ((mem_common prev).mpr ⟨hi, p, hprev⟩)
      unfold lastPos at hlt
      omega

end Writes

end VllmCore.Worker.InputIds
