import VllmCore.Eplb.RebalanceExecute
/-!
# The ranks of an expert

What the batched query finds for an expert does not depend on the other experts it is asked
for, so sender and receiver compute the same lists.
-/

namespace VllmCore.Eplb

open List Support Dict

/-! ## Sorting the positions -/

instance (indices : List Int) : Std.Total (lexLe indices) where
  total p q := by
    unfold lexLe
    omega

instance (indices : List Int) : IsTrans Nat (lexLe indices) where
  trans p q r := by
    unfold lexLe
    omega

def positionsOf (indices : List Int) (e : Int) : List Nat :=
  (List.range indices.length).filter fun p => decide (indices.getD p (-1) = e)

theorem pairwise_positionsOf (indices : List Int) (e : Int) :
    (positionsOf indices e).Pairwise (· ≤ ·) :=
  List.Pairwise.filter _ (pairwise_le_range)

variable {experts : List Int} {e : Int} {rank : Nat} {ids : Nat → Int} {rows : List Nat}

theorem filter_sortedPositions (indices : List Int) (he : e ∈ experts) :
    (sortedPositions experts indices).filter (fun p => decide (indices.getD p (-1) = e)) =
      positionsOf indices e := by
  have hsorted : (sortedPositions experts indices).Pairwise (lexLe indices) :=
    pairwise_insertionSort _ _
  have hperm : ((sortedPositions experts indices).filter
      fun p => decide (indices.getD p (-1) = e)).Perm (positionsOf indices e) := by
    have h := (perm_insertionSort (lexLe indices)
      ((List.range indices.length).filter fun p => indices.getD p (-1) ∈ experts)).filter
        fun p => decide (indices.getD p (-1) = e)
    refine h.trans ?_
    rw [filter_filter]
    unfold positionsOf
    have hcongr : (List.range indices.length).filter (fun p =>
          decide (indices.getD p (-1) = e) && decide (indices.getD p (-1) ∈ experts)) =
        (List.range indices.length).filter fun p => decide (indices.getD p (-1) = e) := by
      apply filter_congr
      intro p _
      by_cases hp : indices.getD p (-1) = e
      · rw [hp]
        simp [he]
      · rw [decide_eq_false hp]
        rfl
    rw [hcongr]
  have hle : ((sortedPositions experts indices).filter
      fun p => decide (indices.getD p (-1) = e)).Pairwise (· ≤ ·) := by
    refine List.Pairwise.imp_of_mem ?_ (List.Pairwise.filter _ hsorted)
    intro p q hp hq h
    have hpe : indices.getD p (-1) = e := by simpa using (mem_filter.mp hp).2
    have hqe : indices.getD q (-1) = e := by simpa using (mem_filter.mp hq).2
    unfold lexLe at h
    omega
  exact hperm.eq_of_pairwise (fun p q _ _ h h' => Nat.le_antisymm h h') hle
    (pairwise_positionsOf indices e)

/-! ## The query -/

def ranksOf (n : Nat) (indices : List Int) (e : Int) : List Nat :=
  firstAppearance ((positionsOf indices e).map (· / n))

def ranksNeeding (n : Nat) (oldIndices newIndices : List Int) (e : Int) : List Nat :=
  (ranksOf n newIndices e).filter (· ∉ ranksOf n oldIndices e)

theorem nodup_ranksOf (n : Nat) (indices : List Int) (e : Int) : (ranksOf n indices e).Nodup :=
  nodup_firstAppearance _

theorem nodup_ranksNeeding (n : Nat) (oldIndices newIndices : List Int) (e : Int) :
    (ranksNeeding n oldIndices newIndices e).Nodup := (nodup_ranksOf n newIndices e).filter _

theorem expertRanks_spec (n : Nat) (experts indices : List Int) :
    ((expertRanks n experts indices).map Prod.fst).Nodup ∧
      ∀ e ranks, (e, ranks) ∈ expertRanks n experts indices →
        e ∈ experts ∧ ranks = ranksOf n indices e := by
  have hsorted : (sortedPositions experts indices).Pairwise (lexLe indices) :=
    pairwise_insertionSort _ _
  have hruns := @runs_spec _ _ _ (fun p => indices.getD p (-1)) (sortedPositions experts indices)
    (hsorted.imp fun h => by unfold lexLe at h; omega)
  constructor
  · unfold expertRanks
    rw [map_map]
    exact hruns.1.imp fun h => ne_of_lt h
  · intro e ranks hmem
    obtain ⟨⟨k, ps⟩, hrun, heq⟩ := mem_map.mp hmem
    cases heq
    have hps := (hruns.2 k ps).mp hrun
    have hk : k ∈ experts := by
      obtain ⟨p, hp⟩ := exists_mem_of_ne_nil _ hps.2
      rw [hps.1, mem_filter] at hp
      have hpk : indices.getD p (-1) = k := by simpa using hp.2
      have hpos := (mem_insertionSort _).mp hp.1
      have hin := (mem_filter.mp hpos).2
      rw [hpk] at hin
      simpa using hin
    refine ⟨hk, ?_⟩
    unfold ranksOf
    rw [hps.1, filter_sortedPositions indices hk]

theorem ranksOf_of_not_mem {n : Nat} {indices : List Int} (he : e ∈ experts)
    (h : e ∉ (expertRanks n experts indices).map Prod.fst) : ranksOf n indices e = [] := by
  have hsorted : (sortedPositions experts indices).Pairwise (lexLe indices) :=
    pairwise_insertionSort _ _
  have hruns := @runs_spec _ _ _ (fun p => indices.getD p (-1)) (sortedPositions experts indices)
    (hsorted.imp fun h => by unfold lexLe at h; omega)
  have hnil : positionsOf indices e = [] := by
    by_contra hne
    have hrun := (hruns.2 e (positionsOf indices e)).mpr
      ⟨(filter_sortedPositions indices he).symm, hne⟩
    apply h
    unfold expertRanks
    rw [map_map]
    exact mem_map.mpr ⟨_, hrun, rfl⟩
  unfold ranksOf
  rw [hnil]
  rfl

theorem get?_foldl_set {V : Type} {xs : List (Int × V)} (hnd : (xs.map Prod.fst).Nodup) (e : Int) :
    ((xs.foldl (fun d x => d.set x.1 x.2) Dict.empty : Dict Int V).get? e) = xs.lookup e := by
  have hentries := @entries_foldl_set Int V _ xs Dict.empty (by simpa [Dict.empty] using hnd)
  unfold Dict.get?
  rw [hentries]
  rfl

theorem get?_fillMissing (experts : List Int) (d : Dict Int (List Nat)) (e : Int) :
    (fillMissing experts d).get? e =
      if e ∈ experts then some ((d.get? e).getD []) else d.get? e := by
  induction experts generalizing d with
  | nil => rfl
  | cons x experts ih =>
    show (fillMissing experts (if x ∈ d.keys then d else d.set x [])).get? e = _
    rw [ih]
    by_cases hex : e = x
    · rw [hex, if_pos mem_cons_self]
      by_cases hx : x ∈ d.keys
      · rw [if_pos hx]
        obtain ⟨v, hv⟩ := exists_of_mem_keys hx
        rw [hv]
        simp
      · rw [if_neg hx, get?_set_self, (get?_eq_none_iff d x).mpr hx]
        simp
    · have hget : (if x ∈ d.keys then d else d.set x []).get? e = d.get? e := by
        split
        · rfl
        · exact get?_set_ne _ _ hex
      rw [hget]
      simp [hex]

theorem lookup_map_expertRanks {n : Nat} {experts indices : List Int} {e : Int}
    (he : e ∈ experts) (f : Int → List Nat → List Nat) :
    ((expertRanks n experts indices).map fun x => (x.1, f x.1 x.2)).lookup e =
      if e ∈ (expertRanks n experts indices).map Prod.fst then some (f e (ranksOf n indices e))
      else none := by
  have hspec := expertRanks_spec n experts indices
  have hkeys : ((expertRanks n experts indices).map fun x => (x.1, f x.1 x.2)).map Prod.fst =
      (expertRanks n experts indices).map Prod.fst := by
    rw [map_map]
    rfl
  split
  · rename_i hmem
    obtain ⟨x, hx, rfl⟩ := mem_map.mp hmem
    rw [lookup_eq_some (by rw [hkeys]; exact hspec.1)]
    have hranks := (hspec.2 x.1 x.2 hx).2
    refine mem_map.mpr ⟨x, hx, ?_⟩
    rw [← hranks]
  · rename_i hnot
    rw [lookup_eq_none, hkeys]
    exact hnot

theorem getEpRanksWithExpertsBatch_spec (n : Nat) (oldIndices newIndices : List Int)
    (he : e ∈ experts) :
    (getEpRanksWithExpertsBatch experts n oldIndices newIndices).1.get? e =
        some (ranksOf n oldIndices e) ∧
      (getEpRanksWithExpertsBatch experts n oldIndices newIndices).2.get? e =
        some (ranksNeeding n oldIndices newIndices e) := by
  have hne : experts ≠ [] := ne_nil_of_mem he
  have hu : e ∈ (npUnique experts).map Prod.fst := by
    rw [map_fst_npUnique, mem_insertionSort, mem_dedup]
    exact he
  unfold getEpRanksWithExpertsBatch
  rw [if_neg hne]
  dsimp only
  generalize (npUnique experts).map Prod.fst = us at hu
  -- the map of the senders, before missing experts are filled in
  have hsend : ((expertRanks n us oldIndices).foldl (fun d e => d.set e.1 e.2) Dict.empty :
      Dict Int (List Nat)).get? e =
        if e ∈ (expertRanks n us oldIndices).map Prod.fst then some (ranksOf n oldIndices e)
        else none := by
    rw [get?_foldl_set (expertRanks_spec n us oldIndices).1]
    have h := @lookup_map_expertRanks n us oldIndices e hu fun _ ranks => ranks
    rw [← h]
    congr 1
    exact (map_id _).symm
  have hsendD : (((expertRanks n us oldIndices).foldl (fun d e => d.set e.1 e.2) Dict.empty :
      Dict Int (List Nat)).get? e).getD [] = ranksOf n oldIndices e := by
    rw [hsend]
    split
    · rfl
    · rename_i hnot
      exact (ranksOf_of_not_mem hu hnot).symm
  constructor
  · rw [get?_fillMissing, if_pos hu, hsendD]
  · generalize hmap : ((expertRanks n us oldIndices).foldl (fun d e => d.set e.1 e.2) Dict.empty :
      Dict Int (List Nat)) = sendMap at hsendD
    have hrecv : ((expertRanks n us newIndices).foldl (fun d x => d.set x.1
        (x.2.filter (· ∉ (sendMap.get? x.1).getD []))) Dict.empty : Dict Int (List Nat)).get? e =
          if e ∈ (expertRanks n us newIndices).map Prod.fst then
            some (ranksNeeding n oldIndices newIndices e) else none := by
      have hfold : (expertRanks n us newIndices).foldl (fun (d : Dict Int (List Nat)) x =>
            d.set x.1 (x.2.filter (· ∉ (sendMap.get? x.1).getD []))) Dict.empty =
          ((expertRanks n us newIndices).map fun x =>
            (x.1, x.2.filter (· ∉ (sendMap.get? x.1).getD []))).foldl
              (fun d x => d.set x.1 x.2) Dict.empty := by
        rw [foldl_map]
      have hkeys : (((expertRanks n us newIndices).map fun x =>
          (x.1, x.2.filter (· ∉ (sendMap.get? x.1).getD []))).map Prod.fst).Nodup := by
        rw [map_map]
        exact (expertRanks_spec n us newIndices).1
      have h := @lookup_map_expertRanks n us newIndices e hu
        fun e ranks => ranks.filter (· ∉ (sendMap.get? e).getD [])
      rw [hfold, get?_foldl_set hkeys, h, hsendD]
      rfl
    rw [get?_fillMissing, if_pos hu, hrecv]
    split
    · rfl
    · rename_i hnot
      unfold ranksNeeding
      rw [ranksOf_of_not_mem hu hnot]
      rfl

variable {n numRanks : Nat} {indices : List Int}

theorem mem_ranksOf (hlen : indices.length = numRanks * n) (he : e ≠ -1) :
    rank ∈ ranksOf n indices e ↔ ∃ row < n, localId n indices rank row = e := by
  unfold ranksOf positionsOf localId
  rw [mem_firstAppearance, mem_map]
  constructor
  · rintro ⟨p, hp, rfl⟩
    rw [mem_filter, mem_range, hlen] at hp
    have hn : 0 < n := by
      rcases Nat.eq_zero_or_pos n with hzero | hpos
      · rw [hzero, Nat.mul_zero] at hp
        exact absurd hp.1 (Nat.not_lt_zero p)
      · exact hpos
    refine ⟨p % n, Nat.mod_lt p hn, ?_⟩
    rw [Nat.div_add_mod']
    simpa using hp.2
  · rintro ⟨row, hrow, heq⟩
    have hp : rank * n + row < indices.length := by
      by_contra hge
      rw [getD_eq_getElem?_getD, getElem?_eq_none (Nat.not_lt.mp hge)] at heq
      exact he heq.symm
    refine ⟨rank * n + row, ?_, ?_⟩
    · rw [mem_filter, mem_range]
      exact ⟨hp, by simpa using heq⟩
    · rw [Nat.mul_comm, Nat.mul_add_div (Nat.lt_of_le_of_lt (Nat.zero_le row) hrow),
        Nat.div_eq_of_lt hrow, Nat.add_zero]

theorem lt_of_localId (hlen : indices.length = numRanks * n) {row : Nat}
    (h : localId n indices rank row ≠ -1) : rank < numRanks := by
  by_contra hge
  apply h
  have hle : numRanks * n ≤ rank * n + row :=
    Nat.le_trans (Nat.mul_le_mul_right n (Nat.not_lt.mp hge)) (Nat.le_add_right _ _)
  unfold localId
  rw [getD_eq_getElem?_getD, getElem?_eq_none (by omega)]
  rfl

/-! ## First rows -/

theorem mem_firstRows {r : Nat} (h : (e, r) ∈ firstRows ids rows) : r ∈ rows ∧ ids r = e := by
  obtain ⟨⟨x, i⟩, hx, heq⟩ := mem_map.mp h
  cases heq
  have hmem := mem_npUnique.mp hx
  have hget := getElem?_idxOf hmem.1
  rw [← hmem.2, getElem?_map] at hget
  obtain ⟨r', hr', hid⟩ := Option.map_eq_some_iff.mp hget
  have hD : rows.getD i 0 = r' := by
    rw [getD_eq_getElem?_getD, hr']
    rfl
  rw [hD]
  exact ⟨mem_of_getElem? hr', hid⟩

theorem pairwise_firstRows (ids : Nat → Int) (rows : List Nat) :
    ((firstRows ids rows).map Prod.fst).Pairwise (· < ·) := by
  unfold firstRows
  rw [map_map]
  exact pairwise_npUnique (rows.map ids)

theorem mem_map_fst_firstRows : e ∈ (firstRows ids rows).map Prod.fst ↔ ∃ r ∈ rows, ids r = e := by
  constructor
  · intro h
    obtain ⟨⟨x, r⟩, hx, rfl⟩ := mem_map.mp h
    exact ⟨r, mem_firstRows hx⟩
  · rintro ⟨r, hr, rfl⟩
    unfold firstRows
    rw [map_map]
    exact mem_map.mpr
      ⟨(ids r, _), mem_npUnique.mpr ⟨mem_map.mpr ⟨r, hr, rfl⟩, rfl⟩, rfl⟩

theorem sortExperts_firstRows (ids : Nat → Int) (rows : List Nat) :
    sortExperts (firstRows ids rows) = firstRows ids rows := by
  apply List.Pairwise.insertionSort_eq
  have h := pairwise_firstRows ids rows
  rw [pairwise_map] at h
  exact h.imp le_of_lt

end VllmCore.Eplb
