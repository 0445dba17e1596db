import VllmCore.Support.Slices
import VllmCore.Eplb.RebalanceExecute.Ranks
/-!
# Who sends to whom

The ranks that need an expert are dealt out to those that have it, in equal shares and the
remainder one by one.  A receiver finds the sender whose share it is in.  Both post their
operations by ascending expert, so those of two ranks match in order.
-/

namespace VllmCore.Eplb

open List Support Dict

/-! ## Dealing out the receivers -/

/-- The share of a sender: its part of the equal shares, and of the remainder. -/
def share (ranksToSend ranksToRecv : List Nat) (pos : Nat) : List Nat :=
  (ranksToRecv.take (pos * (ranksToRecv.length / ranksToSend.length) +
      ranksToRecv.length / ranksToSend.length)).drop
    (pos * (ranksToRecv.length / ranksToSend.length)) ++
  (ranksToRecv[ranksToSend.length * (ranksToRecv.length / ranksToSend.length) + pos]?).toList

variable {S R : List Nat}
variable {xs : List Nat} {x d pos rank row : Nat} {α β : Type} {e : Int}

theorem mem_take_drop {a b : Nat} (hnd : xs.Nodup) (hx : x ∈ xs) :
    x ∈ (xs.take b).drop a ↔ a ≤ xs.idxOf x ∧ xs.idxOf x < b := by
  have hidx := idxOf_lt_length_iff.mpr hx
  constructor
  · intro h
    obtain ⟨i, hi, heq⟩ := mem_iff_getElem.mp h
    rw [length_drop, length_take] at hi
    rw [getElem_drop, getElem_take] at heq
    have hget : xs.idxOf x = a + i := by
      rw [← heq]
      exact hnd.idxOf_getElem _ _
    omega
  · rintro ⟨ha, hb⟩
    refine mem_iff_getElem.mpr ⟨xs.idxOf x - a, ?_, ?_⟩
    · rw [length_drop, length_take]
      omega
    · rw [getElem_drop, getElem_take]
      simp only [Nat.add_sub_cancel' ha]
      exact getElem_idxOf hidx

theorem mem_toList_getElem? {i : Nat} (hnd : xs.Nodup) (hx : x ∈ xs) :
    x ∈ (xs[i]?).toList ↔ xs.idxOf x = i := by
  rw [Option.mem_toList]
  constructor
  · intro h
    obtain ⟨hi, heq⟩ := List.getElem?_eq_some_iff.mp h
    rw [← heq]
    exact hnd.idxOf_getElem _ _
  · rintro rfl
    exact getElem?_idxOf hx

theorem mem_share (hR : R.Nodup) (hd : d ∈ R) (hpos : pos < S.length) : d ∈ share S R pos ↔
      if R.idxOf d < S.length * (R.length / S.length) then R.idxOf d / (R.length / S.length) = pos
      else R.idxOf d - S.length * (R.length / S.length) = pos := by
  unfold share
  rw [mem_append, mem_take_drop hR hd, mem_toList_getElem? hR hd]
  generalize R.length / S.length = k
  have hle : pos * k + k ≤ S.length * k := by
    rw [← Nat.succ_mul]
    exact Nat.mul_le_mul_right k hpos
  split
  · rename_i hlt
    have hk : 0 < k := by
      rcases Nat.eq_zero_or_pos k with hzero | hk
      · rw [hzero, Nat.mul_zero] at hlt
        omega
      · exact hk
    rw [Nat.div_eq_iff hk]
    omega
  · omega

theorem nodup_share (hR : R.Nodup) (hpos : pos < S.length) : (share S R pos).Nodup := by
  have hle : pos * (R.length / S.length) + R.length / S.length ≤
      S.length * (R.length / S.length) := by
    rw [← Nat.succ_mul]
    exact Nat.mul_le_mul_right _ hpos
  have hlast : ∀ x ∈ (R[S.length * (R.length / S.length) + pos]?).toList, x ∈ R := by
    intro x hx
    rw [Option.mem_toList] at hx
    exact mem_of_getElem? hx
  refine nodup_append.mpr ⟨?_, ?_, ?_⟩
  · exact (hR.sublist (take_sublist _ _)).sublist (drop_sublist _ _)
  · cases R[S.length * (R.length / S.length) + pos]? <;> simp
  · rintro x hx y hy rfl
    have hxR := hlast x hy
    rw [mem_take_drop hR hxR] at hx
    rw [mem_toList_getElem? hR hxR] at hy
    omega

theorem sendRank_spec (hS : S ≠ []) (hSnd : S.Nodup) (hd : d ∈ R) (hR : R.Nodup) :
    ∃ s ∈ S, sendRank d S R = .ok (some s) ∧ ∀ s' ∈ S, d ∈ share S R (S.idxOf s') ↔ s' = s := by
  have hRne : R ≠ [] := ne_nil_of_mem hd
  have hq := idxOf_lt_length_iff.mpr hd
  have hSpos : 0 < S.length := length_pos_iff.mpr hS
  have hmod := Nat.div_add_mod R.length S.length
  have hmodlt := Nat.mod_lt R.length hSpos
  unfold sendRank pyIndexOf
  rw [if_neg (by simp [hS, hRne]), if_pos hd, ok_bind]
  by_cases hlt : R.idxOf d < S.length * (R.length / S.length)
  · have hk : 0 < R.length / S.length := by
      rcases Nat.eq_zero_or_pos (R.length / S.length) with hzero | hk
      · rw [hzero, Nat.mul_zero] at hlt
        omega
      · exact hk
    have hidx : R.idxOf d / (R.length / S.length) < S.length :=
      Nat.div_lt_of_lt_mul (by rw [Nat.mul_comm]; exact hlt)
    rw [if_pos hlt, pyGet_natCast S _ hidx, ok_bind]
    refine ⟨_, getElem_mem hidx, rfl, ?_⟩
    intro s' hs'
    rw [mem_share hR hd (idxOf_lt_length_iff.mpr hs'), if_pos hlt]
    constructor
    · intro h
      simp only [h]
      exact (getElem_idxOf _).symm
    · rintro rfl
      exact (hSnd.idxOf_getElem _ _).symm
  · have hidx : R.idxOf d - S.length * (R.length / S.length) < S.length := by omega
    rw [if_neg hlt, pyGet_natCast S _ hidx, ok_bind]
    refine ⟨_, getElem_mem hidx, rfl, ?_⟩
    intro s' hs'
    rw [mem_share hR hd (idxOf_lt_length_iff.mpr hs'), if_neg hlt]
    constructor
    · intro h
      simp only [h]
      exact (getElem_idxOf _).symm
    · rintro rfl
      exact (hSnd.idxOf_getElem _ _).symm

theorem recvRanks_spec (hS : S ≠ []) {s : Nat} (hs : s ∈ S) (R : List Nat) :
    recvRanks s S R = .ok (if R = [] then [] else share S R (S.idxOf s)) := by
  unfold recvRanks pyIndexOf
  by_cases hR : R = []
  · rw [if_pos (.inr hR), if_pos hR]
  · rw [if_neg (by simp [hS, hR]), if_pos hs, ok_bind, if_neg hR]
    rfl

/-! ## The operations of a rank -/

theorem mapM_ok_of_forall {f : α → Py β} {g : α → β} {xs : List α}
    (h : ∀ x ∈ xs, f x = .ok (g x)) : xs.mapM f = .ok (xs.map g) := by
  rw [mapM_ok_iff, forall₂_map_right_iff, forall₂_same]
  exact h

variable {n numRanks : Nat} {oldIndices newIndices : List Int}

def dstsOf (n : Nat) (oldIndices newIndices : List Int) (rank : Nat) (e : Int) : List Nat :=
  if ranksNeeding n oldIndices newIndices e = [] then []
  else share (ranksOf n oldIndices e) (ranksNeeding n oldIndices newIndices e)
    ((ranksOf n oldIndices e).idxOf rank)

def srcOf (n : Nat) (oldIndices newIndices : List Int) (rank : Nat) (e : Int) : Option Nat :=
  match sendRank rank (ranksOf n oldIndices e) (ranksNeeding n oldIndices newIndices e) with
  | .ok src => src
  | .error _ => none

theorem mem_sendRows (h : (e, row) ∈ sendRows n oldIndices rank) :
    row < n ∧ localId n oldIndices rank row = e ∧ e ≠ -1 := by
  have hrow := mem_firstRows h
  rw [mem_filter, mem_range] at hrow
  refine ⟨hrow.1.1, hrow.2, ?_⟩
  have hne := hrow.1.2
  rw [hrow.2] at hne
  simpa using hne

theorem mem_map_fst_sendRows (hold : oldIndices.length = numRanks * n) (he : e ≠ -1) :
    e ∈ (sendRows n oldIndices rank).map Prod.fst ↔ rank ∈ ranksOf n oldIndices e := by
  unfold sendRows
  rw [mem_map_fst_firstRows, mem_ranksOf hold he]
  constructor
  · rintro ⟨r, hr, hid⟩
    exact ⟨r, mem_range.mp (mem_filter.mp hr).1, hid⟩
  · rintro ⟨r, hr, hid⟩
    refine ⟨r, mem_filter.mpr ⟨mem_range.mpr hr, ?_⟩, hid⟩
    rw [hid]
    simpa using he

theorem not_isReceivedLocally (hrow : row < n) (hne : localId n newIndices rank row ≠ -1) :
    isReceivedLocally n oldIndices newIndices rank row = false ↔
      ∀ r < n, localId n oldIndices rank r ≠ localId n newIndices rank row := by
  have hbne : (localId n newIndices rank row != -1) = true := by simpa using hne
  unfold isReceivedLocally isUnchanged
  rw [hbne, Bool.true_and, Bool.or_eq_false_iff, any_eq_false]
  constructor
  · intro h r hr
    have hany := h.2 r (mem_range.mpr hr)
    simpa using hany
  · intro h
    refine ⟨?_, ?_⟩
    · simpa using h row hrow
    · intro r hr
      simpa using h r (mem_range.mp hr)

theorem mem_recvRows (h : (e, row) ∈ recvRows n oldIndices newIndices rank) :
    row < n ∧ localId n newIndices rank row = e ∧ e ≠ -1 ∧
      isReceivedLocally n oldIndices newIndices rank row = false := by
  have hrow := mem_firstRows h
  rw [mem_filter, mem_range, Bool.and_eq_true] at hrow
  refine ⟨hrow.1.1, hrow.2, ?_, ?_⟩
  · have hne := hrow.1.2.2
    rw [hrow.2] at hne
    simpa using hne
  · simpa using hrow.1.2.1

theorem mem_map_fst_recvRows (hold : oldIndices.length = numRanks * n)
    (hnew : newIndices.length = numRanks * n) (he : e ≠ -1) :
    e ∈ (recvRows n oldIndices newIndices rank).map Prod.fst ↔
      rank ∈ ranksNeeding n oldIndices newIndices e := by
  unfold ranksNeeding
  rw [mem_filter, mem_ranksOf hnew he, decide_eq_true_eq, mem_ranksOf hold he]
  unfold recvRows
  rw [mem_map_fst_firstRows]
  constructor
  · rintro ⟨r, hr, hid⟩
    rw [mem_filter, mem_range, Bool.and_eq_true, Bool.not_eq_true'] at hr
    refine ⟨⟨r, hr.1, hid⟩, ?_⟩
    rintro ⟨r', hr', hid'⟩
    have hnot := (not_isReceivedLocally hr.1 (by rw [hid]; exact he)).mp hr.2.1 r' hr'
    exact hnot (hid'.trans hid.symm)
  · rintro ⟨⟨r, hr, hid⟩, hnone⟩
    refine ⟨r, ?_, hid⟩
    rw [mem_filter, mem_range, Bool.and_eq_true, Bool.not_eq_true']
    refine ⟨hr, (not_isReceivedLocally hr (by rw [hid]; exact he)).mpr ?_, ?_⟩
    · intro r' hr' heq
      exact hnone ⟨r', hr', heq.trans hid⟩
    · rw [hid]
      simpa using he

theorem postSends_spec (numTensors : Nat) (hold : oldIndices.length = numRanks * n) (rank : Nat) :
    postSends numTensors n oldIndices newIndices rank =
      .ok ((sendRows n oldIndices rank).flatMap fun e =>
        (dstsOf n oldIndices newIndices rank e.1).flatMap fun dst =>
          (List.range numTensors).map fun j => .isend j e.2 dst) := by
  unfold postSends
  have hsort : sortExperts (sendRows n oldIndices rank) = sendRows n oldIndices rank :=
    sortExperts_firstRows _ _
  rw [hsort]
  dsimp only
  rw [mapM_ok_of_forall (g := fun e => (dstsOf n oldIndices newIndices rank e.1).flatMap
    fun dst => (List.range numTensors).map fun j => .isend j e.2 dst), ok_bind]
  · rfl
  · intro e he
    have hmem := mem_sendRows he
    have hfst : e.1 ∈ (sendRows n oldIndices rank).map Prod.fst := mem_map.mpr ⟨e, he, rfl⟩
    have hquery := getEpRanksWithExpertsBatch_spec n oldIndices newIndices hfst
    have hrank := (mem_ranksOf hold hmem.2.2).mpr ⟨e.2, hmem.1, hmem.2.1⟩
    rw [get_ok.mpr hquery.1, ok_bind, get_ok.mpr hquery.2, ok_bind,
      recvRanks_spec (ne_nil_of_mem hrank) hrank]
    rfl

theorem srcOf_spec (hold : oldIndices.length = numRanks * n)
    (hnew : newIndices.length = numRanks * n) (he : e ≠ -1)
    (h : e ∈ (recvRows n oldIndices newIndices rank).map Prod.fst) :
    sendRank rank (ranksOf n oldIndices e) (ranksNeeding n oldIndices newIndices e) =
      .ok (srcOf n oldIndices newIndices rank e) := by
  have hrank := (mem_map_fst_recvRows hold hnew he).mp h
  unfold srcOf
  by_cases hS : ranksOf n oldIndices e = []
  · have hnone : sendRank rank (ranksOf n oldIndices e)
        (ranksNeeding n oldIndices newIndices e) = .ok none := if_pos (.inl hS)
    rw [hnone]
  · obtain ⟨s, _, hs, _⟩ := sendRank_spec hS (nodup_ranksOf n oldIndices e) hrank
      (nodup_ranksNeeding n oldIndices newIndices e)
    rw [hs]

theorem postRecvs_spec (numTensors : Nat) (hold : oldIndices.length = numRanks * n)
    (hnew : newIndices.length = numRanks * n) (rank : Nat) :
    postRecvs numTensors n oldIndices newIndices rank =
      .ok ((recvRows n oldIndices newIndices rank).flatMap fun e =>
        (srcOf n oldIndices newIndices rank e.1).toList.flatMap fun src =>
          (List.range numTensors).map fun j => .irecv j e.2 src) := by
  unfold postRecvs
  have hsort : sortExperts (recvRows n oldIndices newIndices rank) =
      recvRows n oldIndices newIndices rank := sortExperts_firstRows _ _
  rw [hsort]
  dsimp only
  rw [mapM_ok_of_forall (g := fun e => (srcOf n oldIndices newIndices rank e.1).toList.flatMap
    fun src => (List.range numTensors).map fun j => .irecv j e.2 src), ok_bind]
  · rfl
  · intro e he
    have hmem := mem_recvRows he
    have hfst : e.1 ∈ (recvRows n oldIndices newIndices rank).map Prod.fst :=
      mem_map.mpr ⟨e, he, rfl⟩
    have hquery := getEpRanksWithExpertsBatch_spec n oldIndices newIndices hfst
    rw [get_ok.mpr hquery.1, ok_bind, get_ok.mpr hquery.2, ok_bind,
      srcOf_spec hold hnew hmem.2.2.1 hfst, ok_bind]

/-! ## Operations between two ranks -/

def opsOf (numTensors n : Nat) (oldIndices newIndices : List Int) (rank : Nat) : List P2POp :=
  ((sendRows n oldIndices rank).flatMap fun e =>
    (dstsOf n oldIndices newIndices rank e.1).flatMap fun dst =>
      (List.range numTensors).map fun j => .isend j e.2 dst) ++
  (recvRows n oldIndices newIndices rank).flatMap fun e =>
    (srcOf n oldIndices newIndices rank e.1).toList.flatMap fun src =>
      (List.range numTensors).map fun j => .irecv j e.2 src

def sentRows (n : Nat) (oldIndices newIndices : List Int) (s d : Nat) : List (Int × Nat) :=
  (sendRows n oldIndices s).filter fun e => d ∈ dstsOf n oldIndices newIndices s e.1

def receivedRows (n : Nat) (oldIndices newIndices : List Int) (s d : Nat) : List (Int × Nat) :=
  (recvRows n oldIndices newIndices d).filter fun e =>
    srcOf n oldIndices newIndices d e.1 = some s

theorem sendsTo_append (ops ops' : List P2POp) (d : Nat) :
    sendsTo (ops ++ ops') d = sendsTo ops d ++ sendsTo ops' d := filterMap_append

theorem recvsFrom_append (ops ops' : List P2POp) (s : Nat) :
    recvsFrom (ops ++ ops') s = recvsFrom ops s ++ recvsFrom ops' s := filterMap_append

theorem sendsTo_map (d : Nat) (row dst : Nat) (js : List Nat) :
    sendsTo (js.map fun j => .isend j row dst) d =
      if dst = d then js.map fun j => (j, row) else [] := by
  unfold sendsTo
  rw [filterMap_map]
  split
  · rename_i h
    rw [← filterMap_eq_map]
    apply filterMap_congr
    intro j _
    exact if_pos h
  · rename_i h
    apply filterMap_eq_nil_iff.mpr
    intro j _
    exact if_neg h

theorem sendsTo_flatMap (d row : Nat) (js : List Nat) {dsts : List Nat} (hnd : dsts.Nodup) :
    sendsTo (dsts.flatMap fun dst => js.map fun j => .isend j row dst) d =
      if d ∈ dsts then js.map fun j => (j, row) else [] := by
  induction dsts with
  | nil => rfl
  | cons dst dsts ih =>
    have hnew := nodup_cons.mp hnd
    rw [flatMap_cons, sendsTo_append, sendsTo_map, ih hnew.2]
    by_cases hd : dst = d
    · rw [if_pos hd, if_neg (by rw [← hd]; exact hnew.1), if_pos (by simp [hd]), append_nil]
    · have hmem : d ∈ dst :: dsts ↔ d ∈ dsts := by simp [Ne.symm hd]
      rw [if_neg hd, nil_append]
      simp only [hmem]

theorem nodup_dstsOf (newIndices : List Int) (hold : oldIndices.length = numRanks * n)
    (h : (e, row) ∈ sendRows n oldIndices rank) :
    (dstsOf n oldIndices newIndices rank e).Nodup := by
  have hmem := mem_sendRows h
  have hrank := (mem_ranksOf hold hmem.2.2).mpr ⟨row, hmem.1, hmem.2.1⟩
  unfold dstsOf
  split
  · exact nodup_nil
  · exact nodup_share (nodup_ranksNeeding n oldIndices newIndices e)
      (idxOf_lt_length_iff.mpr hrank)

theorem flatMap_ite (xs : List α) (p : α → Bool) (f : α → List β) :
    xs.flatMap (fun x => if p x then f x else []) = (xs.filter p).flatMap f := by
  induction xs with
  | nil => rfl
  | cons x xs ih =>
    rw [flatMap_cons, ih]
    cases hp : p x
    · rw [filter_cons_of_neg (by simp [hp])]
      rfl
    · rw [filter_cons_of_pos hp]
      rfl

theorem sendsTo_opsOf (numTensors : Nat) (hold : oldIndices.length = numRanks * n) (s d : Nat) :
    sendsTo (opsOf numTensors n oldIndices newIndices s) d =
      (sentRows n oldIndices newIndices s d).flatMap fun e =>
        (List.range numTensors).map fun j => (j, e.2) := by
  have hrecv : sendsTo ((recvRows n oldIndices newIndices s).flatMap fun e =>
      (srcOf n oldIndices newIndices s e.1).toList.flatMap fun src =>
        (List.range numTensors).map fun j => .irecv j e.2 src) d = [] := by
    apply filterMap_eq_nil_iff.mpr
    intro op hop
    obtain ⟨e, _, hop⟩ := mem_flatMap.mp hop
    obtain ⟨src, _, hop⟩ := mem_flatMap.mp hop
    obtain ⟨j, _, rfl⟩ := mem_map.mp hop
    rfl
  have hsend : sendsTo ((sendRows n oldIndices s).flatMap fun e =>
      (dstsOf n oldIndices newIndices s e.1).flatMap fun dst =>
        (List.range numTensors).map fun j => .isend j e.2 dst) d =
      (sendRows n oldIndices s).flatMap fun e =>
        if decide (d ∈ dstsOf n oldIndices newIndices s e.1) then
          (List.range numTensors).map fun j => (j, e.2) else [] := by
    unfold sendsTo
    rw [filterMap_flatMap]
    apply flatMap_congr
    intro e he
    have h := sendsTo_flatMap d e.2 (List.range numTensors)
      (nodup_dstsOf newIndices hold he)
    simp only [decide_eq_true_eq]
    exact h
  unfold opsOf
  rw [sendsTo_append, hrecv, hsend, append_nil, flatMap_ite]
  rfl

theorem recvsFrom_opsOf (numTensors s d : Nat) :
    recvsFrom (opsOf numTensors n oldIndices newIndices d) s =
      (receivedRows n oldIndices newIndices s d).flatMap fun e =>
        (List.range numTensors).map fun j => (j, e.2) := by
  have hsend : recvsFrom ((sendRows n oldIndices d).flatMap fun e =>
      (dstsOf n oldIndices newIndices d e.1).flatMap fun dst =>
        (List.range numTensors).map fun j => .isend j e.2 dst) s = [] := by
    apply filterMap_eq_nil_iff.mpr
    intro op hop
    obtain ⟨e, _, hop⟩ := mem_flatMap.mp hop
    obtain ⟨dst, _, hop⟩ := mem_flatMap.mp hop
    obtain ⟨j, _, rfl⟩ := mem_map.mp hop
    rfl
  have hrecv : recvsFrom ((recvRows n oldIndices newIndices d).flatMap fun e =>
      (srcOf n oldIndices newIndices d e.1).toList.flatMap fun src =>
        (List.range numTensors).map fun j => .irecv j e.2 src) s =
      (recvRows n oldIndices newIndices d).flatMap fun e =>
        if decide (srcOf n oldIndices newIndices d e.1 = some s) then
          (List.range numTensors).map fun j => (j, e.2) else [] := by
    unfold recvsFrom
    rw [filterMap_flatMap]
    apply flatMap_congr
    intro e _
    cases srcOf n oldIndices newIndices d e.1 with
    | none => rfl
    | some src =>
      show ((List.range numTensors).map _ ++ []).filterMap _ = _
      rw [append_nil, filterMap_map]
      by_cases hs : src = s
      · rw [hs, if_pos (by simp), ← filterMap_eq_map]
        apply filterMap_congr
        intro j _
        exact if_pos rfl
      · rw [if_neg (by simpa using hs)]
        apply filterMap_eq_nil_iff.mpr
        intro j _
        exact if_neg hs
  unfold opsOf
  rw [recvsFrom_append, hrecv, hsend, nil_append, flatMap_ite]
  rfl

end VllmCore.Eplb
