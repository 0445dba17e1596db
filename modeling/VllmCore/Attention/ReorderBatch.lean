import Mathlib.Data.List.GetD
import VllmCore.Support.CycleSwaps
import VllmCore.Support.Ragged
import VllmCore.Worker.InputBatch.Rows
/-!
# Reordering the batch by kind of request

`reorder_batch_to_split_decodes_and_prefills` of `attention/backends/utils.py` brings
the rows of the batch into the order decode, short extend, long extend, prefill.  It
reads three columns of the batch and issues exchanges of two rows; the batch carries
them out with `swap_states`.
-/

namespace VllmCore.Attention

open List Support

/-- What is read of a row of the batch, with the tokens scheduled for its request. -/
structure BatchRow where
  reqId : ReqId
  numScheduledTokens : Nat
  numComputedTokens : Nat
  numPromptTokens : Nat
  deriving DecidableEq

namespace BatchRow

variable (threshold : Int) (r : BatchRow)

def hasContext : Bool := decide (0 < r.numComputedTokens)

def isBelowThreshold : Bool := decide ((r.numScheduledTokens : Int) ≤ threshold)

def donePrefilling : Bool := decide (r.numPromptTokens ≤ r.numComputedTokens)

def isPurePrefill : Bool := !r.hasContext

def isLongExtend : Bool := r.hasContext && !r.isBelowThreshold threshold

def isShortExtend : Bool := r.hasContext && r.isBelowThreshold threshold && !r.donePrefilling

def isDecode : Bool := r.hasContext && r.isBelowThreshold threshold && r.donePrefilling

/-- The entry of `req_regions`: the masks are assigned in turn over the default. -/
def region : Nat :=
  if r.isPurePrefill then 3
  else if r.isLongExtend threshold then 2
  else if r.isShortExtend threshold then 1
  else 0

end BatchRow

def targetRegions (threshold : Int) (rows : List BatchRow) : List Nat :=
  npRepeat [0, 1, 2, 3]
    [rows.countP (BatchRow.isDecode threshold), rows.countP (BatchRow.isShortExtend threshold),
      rows.countP (BatchRow.isLongExtend threshold), rows.countP BatchRow.isPurePrefill]

/-- `np.where(needs_swap)[0]`. -/
def origIndices (reqRegions targetRegions : List Nat) : List Nat :=
  (List.range reqRegions.length).filter fun i => reqRegions[i]? ≠ targetRegions[i]?

/-- `orig_indices[sorted_order]`, the order of a stable sort by region. -/
def srcIndices (reqRegions : List Nat) (origIndices : List Nat) : List Nat :=
  origIndices.insertionSort fun i j => reqRegions.getD i 0 ≤ reqRegions.getD j 0

/-- `reorder_batch_to_split_decodes_and_prefills`: what it returns, and the exchanges it makes
with `swap_states`.  `none` when one of its loops does not end. -/
def reorderBatchToSplitDecodesAndPrefills (threshold : Int) (rows : List BatchRow) :
    Option (Bool × List (Nat × Nat)) :=
  let reqRegions := rows.map (BatchRow.region threshold)
  let origIndices := origIndices reqRegions (targetRegions threshold rows)
  if origIndices = [] then some (false, [])
  else
    let srcIndices := srcIndices reqRegions origIndices
    let srcDestMap : Dict Nat Nat :=
      (srcIndices.zip origIndices).foldl (fun d e => d.set e.1 e.2) Dict.empty
    (cycleSwaps rows.length srcDestMap.keys srcDestMap).map fun swaps => (true, swaps)

/-! ## The target regions -/

section

variable (threshold : Int)

include threshold

theorem flags_eq (r : BatchRow) :
    r.isDecode threshold = decide (r.region threshold = 0) ∧
      r.isShortExtend threshold = decide (r.region threshold = 1) ∧
      r.isLongExtend threshold = decide (r.region threshold = 2) ∧
      r.isPurePrefill = decide (r.region threshold = 3) := by
  unfold BatchRow.isDecode BatchRow.region BatchRow.isPurePrefill BatchRow.isLongExtend
    BatchRow.isShortExtend
  cases r.hasContext <;> cases r.isBelowThreshold threshold <;> cases r.donePrefilling <;>
    exact ⟨rfl, rfl, rfl, rfl⟩

theorem region_le (r : BatchRow) : r.region threshold ≤ 3 := by
  unfold BatchRow.region
  split_ifs <;> omega

theorem countP_region (rows : List BatchRow) (k : Nat) :
    rows.countP (fun r => decide (r.region threshold = k)) =
      (rows.map (BatchRow.region threshold)).count k := by
  rw [List.count, countP_map]
  apply countP_congr
  intro r _
  simp

theorem targetRegions_eq (rows : List BatchRow) :
    targetRegions threshold rows = npRepeat [0, 1, 2, 3]
        ([0, 1, 2, 3].map (rows.map (BatchRow.region threshold)).count) := by
  unfold targetRegions
  simp only [map_cons, map_nil, ← countP_region]
  rw [countP_congr (p := BatchRow.isDecode threshold) fun r _ => by rw [(flags_eq threshold r).1],
    countP_congr (p := BatchRow.isShortExtend threshold) fun r _ => by
      rw [(flags_eq threshold r).2.1],
    countP_congr (p := BatchRow.isLongExtend threshold) fun r _ => by
      rw [(flags_eq threshold r).2.2.1],
    countP_congr (p := BatchRow.isPurePrefill) fun r _ => by rw [(flags_eq threshold r).2.2.2]]

theorem targetRegions_perm (rows : List BatchRow) :
    (targetRegions threshold rows).Perm (rows.map (BatchRow.region threshold)) := by
  rw [targetRegions_eq]
  apply npRepeat_count_perm (by decide)
  intro k hk
  rcases mem_map.mp hk with ⟨r, _, hr⟩
  have := region_le threshold r
  simp only [mem_cons, not_mem_nil, or_false]
  omega

theorem targetRegions_pairwise (rows : List BatchRow) :
    (targetRegions threshold rows).Pairwise (· ≤ ·) := by
  exact pairwise_npRepeat Nat.le_refl (by decide) _

end

/-! ## The rows that move -/

theorem map_getD_range (xs : List Nat) (d : Nat) :
    (List.range xs.length).map (fun i => xs.getD i d) = xs := by
  apply ext_getElem
  · simp
  · intro i h₁ h₂
    simp [h₂]

variable {xs regions targets : List Nat} {i : Nat}

theorem getD_eq_of_getElem?_eq {ys : List Nat} (h : xs[i]? = ys[i]?) :
    xs.getD i 0 = ys.getD i 0 := by
  rw [getD_eq_getElem?_getD, getD_eq_getElem?_getD, h]

theorem mem_origIndices :
    i ∈ origIndices regions targets ↔ i < regions.length ∧ regions[i]? ≠ targets[i]? := by
  unfold origIndices
  rw [mem_filter, mem_range, decide_eq_true_iff]

theorem origIndices_nodup (regions targets : List Nat) : (origIndices regions targets).Nodup :=
  nodup_range.filter _

theorem origIndices_pairwise (regions targets : List Nat) :
    (origIndices regions targets).Pairwise (· < ·) :=
  pairwise_lt_range.filter _

/-- The rows that are in place agree with the targets, so the others have the regions that the
other targets ask for. -/
theorem origIndices_perm (hperm : targets.Perm regions) :
    ((origIndices regions targets).map fun i => regions.getD i 0).Perm
      ((origIndices regions targets).map fun i => targets.getD i 0) := by
  have hlen := hperm.length_eq
  let p : Nat → Bool := fun i => regions[i]? ≠ targets[i]?
  have hsplit : ∀ f : Nat → Nat, (((List.range regions.length).filter p).map f ++
      ((List.range regions.length).filter fun i => !p i).map f).Perm
        ((List.range regions.length).map f) := by
    intro f
    rw [← map_append]
    exact (filter_append_perm p _).map f
  have hagree : ((List.range regions.length).filter fun i => !p i).map
        (fun i => regions.getD i 0) =
      ((List.range regions.length).filter fun i => !p i).map (fun i => targets.getD i 0) := by
    apply map_congr_left
    intro i hi
    have hpi := (mem_filter.mp hi).2
    have heq : regions[i]? = targets[i]? := by
      simpa [p] using hpi
    exact getD_eq_of_getElem?_eq heq
  have hregions := hsplit fun i => regions.getD i 0
  have htargets := hsplit fun i => targets.getD i 0
  rw [map_getD_range] at hregions
  rw [← hlen, map_getD_range] at htargets
  rw [hlen, ← hagree] at htargets
  exact (perm_append_right_iff _).mp (hregions.trans (hperm.symm.trans htargets.symm))

theorem srcIndices_perm (regions orig : List Nat) : (srcIndices regions orig).Perm orig :=
  perm_insertionSort _ _

theorem srcIndices_pairwise (regions orig : List Nat) :
    ((srcIndices regions orig).map fun i => regions.getD i 0).Pairwise (· ≤ ·) := by
  rw [pairwise_map]
  exact pairwise_insertionSort _ _

theorem map_srcIndices (hperm : targets.Perm regions) (hsorted : targets.Pairwise (· ≤ ·)) :
    (srcIndices regions (origIndices regions targets)).map (fun i => regions.getD i 0) =
      (origIndices regions targets).map fun i => targets.getD i 0 := by
  apply @List.Perm.eq_of_pairwise _ (· ≤ ·)
  · intro a b _ _ hab hba
    exact le_antisymm hab hba
  · exact srcIndices_pairwise _ _
  · rw [pairwise_map]
    apply (origIndices_pairwise regions targets).imp_of_mem
    intro i j hi hj hij
    have hin := (mem_origIndices.mp hi).1
    have hjn := (mem_origIndices.mp hj).1
    rw [← hperm.length_eq] at hin hjn
    rw [getD_eq_getElem _ _ hin, getD_eq_getElem _ _ hjn]
    exact pairwise_iff_getElem.mp hsorted i j hin hjn hij
  · exact ((srcIndices_perm _ _).map _).trans (origIndices_perm hperm)

theorem getD_relabel (hperm : targets.Perm regions)
    (hsorted : targets.Pairwise (· ≤ ·)) (hi : i < regions.length) :
    regions.getD (relabel (origIndices regions targets)
      (srcIndices regions (origIndices regions targets)) i) 0 = targets.getD i 0 := by
  have hmap := map_srcIndices hperm hsorted
  have hsrc := srcIndices_perm regions (origIndices regions targets)
  generalize hd : origIndices regions targets = dsts at *
  have hnodup : dsts.Nodup := by
    rw [← hd]
    exact origIndices_nodup _ _
  by_cases hmem : i ∈ dsts
  · rcases mem_iff_getElem?.mp hmem with ⟨j, hj⟩
    have hat := congrArg (fun xs : List Nat => xs[j]?) hmap
    simp only [getElem?_map] at hat
    rw [hj, Option.map_some, Option.map_eq_some_iff] at hat
    rcases hat with ⟨x, hx, hregion⟩
    rw [relabel_of_getElem? hnodup (le_of_eq hsrc.length_eq.symm) hj hx]
    exact hregion
  · rw [relabel_of_not_mem hmem]
    rw [← hd, mem_origIndices] at hmem
    apply getD_eq_of_getElem?_eq
    by_contra hne
    exact hmem ⟨hi, hne⟩

theorem map_region_rowPrefix (threshold : Int) (row : Nat → BatchRow) (n i : Nat) (hi : i < n) :
    ((rowPrefix row n).map (BatchRow.region threshold)).getD i 0 = (row i).region threshold := by
  rw [getD_eq_getElem?_getD]
  unfold rowPrefix
  rw [map_map, getElem?_map, getElem?_range hi]
  rfl

theorem reorderBatch_run (threshold : Int) (row : Nat → BatchRow) (numReqs : Nat) :
    ∃ modified swaps,
      reorderBatchToSplitDecodesAndPrefills threshold (rowPrefix row numReqs) =
        some (modified, swaps) ∧
      (∀ p ∈ swaps, p.1 < numReqs ∧ p.2 < numReqs) ∧
      (modified = false → swaps = []) ∧
      (rowPrefix (applySwaps row swaps) numReqs).map (BatchRow.region threshold) =
        targetRegions threshold (rowPrefix row numReqs) := by
  have hperm := targetRegions_perm threshold (rowPrefix row numReqs)
  have hsorted := targetRegions_pairwise threshold (rowPrefix row numReqs)
  have hlen : ((rowPrefix row numReqs).map (BatchRow.region threshold)).length = numReqs := by
    rw [length_map, length_rowPrefix]
  have hregion := map_region_rowPrefix threshold row numReqs
  unfold reorderBatchToSplitDecodesAndPrefills
  dsimp only
  generalize hr : (rowPrefix row numReqs).map (BatchRow.region threshold) = regions at *
  generalize targetRegions threshold (rowPrefix row numReqs) = targets at *
  split
  next hnone =>
    refine ⟨false, [], rfl, by simp, fun _ => rfl, ?_⟩
    show (rowPrefix row numReqs).map _ = targets
    rw [hr]
    apply ext_getElem?
    intro i
    by_contra hne
    have hi : i < regions.length := by
      by_contra hge
      apply hne
      rw [getElem?_eq_none (by omega), getElem?_eq_none (by
        rw [hperm.length_eq]
        omega)]
    have := mem_origIndices.mpr ⟨hi, hne⟩
    rw [hnone] at this
    exact absurd this not_mem_nil
  · have hsrc := srcIndices_perm regions (origIndices regions targets)
    have hnodup := hsrc.nodup_iff.mpr (origIndices_nodup regions targets)
    have hentries : (((srcIndices regions (origIndices regions targets)).zip
        (origIndices regions targets)).foldl (fun d e => d.set e.1 e.2)
          (Dict.empty : Dict Nat Nat)).entries =
        (srcIndices regions (origIndices regions targets)).zip (origIndices regions targets) := by
      rw [Dict.entries_foldl_set]
      · rfl
      · show (List.map Prod.fst (List.zip _ _)).Nodup
        rwa [map_fst_zip (le_of_eq hsrc.length_eq)]
    have hlt : ∀ x ∈ srcIndices regions (origIndices regions targets), x < numReqs := by
      intro x hx
      rw [← hlen]
      exact (mem_origIndices.mp (hsrc.mem_iff.mp hx)).1
    rcases @cycleSwaps_zip BatchRow _ _ _ _ hsrc hnodup hlt (le_of_eq (length_rowPrefix row _).symm)
      _ hentries with ⟨swaps, hrun, hrange, hend⟩
    refine ⟨true, swaps, ?_, hrange, nofun, ?_⟩
    · rw [hrun]
      rfl
    · apply ext_getElem?
      intro i
      by_cases hi : i < numReqs
      · have hgoal := getD_relabel hperm hsorted (i := i) (by omega)
        have hmove : relabel (origIndices regions targets)
            (srcIndices regions (origIndices regions targets)) i < numReqs := by
          by_cases hmem : i ∈ origIndices regions targets
          · exact hlt _ (relabel_mem (origIndices_nodup _ _) (le_of_eq hsrc.length_eq.symm) hmem)
          · rwa [relabel_of_not_mem hmem]
        have hit : i < targets.length := by
          rw [hperm.length_eq]
          omega
        rw [hregion _ hmove, getD_eq_getElem _ _ hit] at hgoal
        unfold rowPrefix
        rw [map_map, getElem?_map, getElem?_range hi, getElem?_eq_getElem hit]
        show some (BatchRow.region threshold (applySwaps row swaps i)) = _
        rw [hend row i, hgoal]
      · rw [getElem?_eq_none, getElem?_eq_none]
        · rw [hperm.length_eq]
          omega
        · rw [length_map, length_rowPrefix]
          omega

end VllmCore.Attention
