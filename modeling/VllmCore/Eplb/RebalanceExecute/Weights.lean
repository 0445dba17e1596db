import VllmCore.Eplb.RebalanceExecute.Exchange
/-!
# Every row holds its expert

The weights of a rank after the exchange, by the way its rows are filled.
-/

namespace VllmCore.Eplb

open List Support Dict

variable {α : Type} {n numRanks numTensors : Nat} {oldIndices newIndices : List Int}

/-- Rows are overwritten one after another.  What is written to one of them is known from the
rows that are not overwritten. -/
theorem foldl_copyRow {step : Tensors α → Nat → Tensors α} {value w₀ : Tensors α} {all : List Nat}
    (hstep : ∀ w : Tensors α, (∀ j, ∀ r ∉ all, w j r = w₀ j r) → ∀ dst ∈ all,
      step w dst = copyRow w dst fun j => value j dst) {xs : List Nat} (hxs : xs ⊆ all)
    {w : Tensors α} (hw : ∀ j, ∀ r ∉ all, w j r = w₀ j r) (j r : Nat) :
    xs.foldl step w j r = if r ∈ xs then value j r else w j r := by
  induction xs generalizing w with
  | nil => rfl
  | cons dst xs ih =>
    have hdst := hxs mem_cons_self
    have hkeep : ∀ j, ∀ r ∉ all, (copyRow w dst fun j => value j dst) j r = w₀ j r := by
      intro j r hr
      have hne : r ≠ dst := fun h => hr (h ▸ hdst)
      show (if r = dst then value j dst else w j r) = w₀ j r
      rw [if_neg hne]
      exact hw j r hr
    rw [foldl_cons, hstep w hw dst hdst,
      ih (fun x hx => hxs (mem_cons_of_mem _ hx)) hkeep]
    show (if r ∈ xs then value j r else if r = dst then value j dst else w j r) = _
    by_cases hr : r = dst
    · rw [hr, if_pos rfl, if_pos mem_cons_self]
      exact ite_self _
    · rw [if_neg hr]
      simp only [mem_cons, hr, false_or]

variable {e : Int} {row : Nat} {ops : List P2POp} {target : Nat × Nat}
variable {r r' rank d src : Nat} {w b' : Nat → Tensors α} {recv : List (Int × Nat)}

theorem eq_of_mem_sendRows {s : Nat} (h : (e, r) ∈ sendRows n oldIndices s)
    (h' : (e, r') ∈ sendRows n oldIndices s) : r = r' := by
  have hnodup : ((sendRows n oldIndices s).map Prod.fst).Nodup :=
    (pairwise_map.mpr (pairwise_sendRows n oldIndices s)).imp ne_of_lt
  have hlookup := (lookup_eq_some hnodup).mpr h
  rw [(lookup_eq_some hnodup).mpr h'] at hlookup
  exact (Option.some.inj hlookup).symm

theorem lookup_sendRows (hlocal : isReceivedLocally n oldIndices newIndices rank row = true)
    (hchanged : isUnchanged n oldIndices newIndices rank row = false) :
    ∃ src, (sendRows n oldIndices rank).lookup (localId n newIndices rank row) = some src ∧
      src < n ∧ localId n oldIndices rank src = localId n newIndices rank row := by
  unfold isReceivedLocally at hlocal
  rw [hchanged, Bool.false_or, Bool.and_eq_true, bne_iff_ne, any_eq_true] at hlocal
  obtain ⟨hne, r, hr, heq⟩ := hlocal
  have hid : localId n oldIndices rank r = localId n newIndices rank row := by simpa using heq
  have hmem : localId n newIndices rank row ∈ (sendRows n oldIndices rank).map Prod.fst := by
    unfold sendRows
    rw [mem_map_fst_firstRows]
    refine ⟨r, mem_filter.mpr ⟨hr, ?_⟩, hid⟩
    rw [hid]
    simpa using hne
  obtain ⟨⟨e, src⟩, hsrc, rfl⟩ := mem_map.mp hmem
  have hnodup : ((sendRows n oldIndices rank).map Prod.fst).Nodup :=
    (pairwise_map.mpr (pairwise_sendRows n oldIndices rank)).imp ne_of_lt
  have hrow := mem_sendRows hsrc
  exact ⟨src, (lookup_eq_some hnodup).mpr hsrc, hrow.1, hrow.2.1⟩

theorem localMoves_spec (hrow : row < n)
    (hlocal : isReceivedLocally n oldIndices newIndices rank row = true)
    (hchanged : isUnchanged n oldIndices newIndices rank row = false) (w b : Tensors α) :
    ∃ src < n, localId n oldIndices rank src = localId n newIndices rank row ∧
      ∀ j, localMoves n oldIndices newIndices rank w b j row = w j src := by
  have hmem : ∀ r, r ∈ (List.range n).filter (fun r =>
      !isUnchanged n oldIndices newIndices rank r &&
        isReceivedLocally n oldIndices newIndices rank r) ↔
      r < n ∧ isUnchanged n oldIndices newIndices rank r = false ∧
        isReceivedLocally n oldIndices newIndices rank r = true := by
    intro r
    rw [mem_filter, mem_range, Bool.and_eq_true, Bool.not_eq_true']
  obtain ⟨src, hsrc, hlt, hid⟩ := lookup_sendRows hlocal hchanged
  refine ⟨src, hlt, hid, ?_⟩
  intro j
  unfold localMoves
  rw [@foldl_copyRow α _ (fun j dst =>
    w j (((sendRows n oldIndices rank).lookup (localId n newIndices rank dst)).getD 0)) b _ ?_ _
      (List.Subset.refl _) b (fun _ _ _ => rfl), if_pos ((hmem row).mpr ⟨hrow, hchanged, hlocal⟩),
    hsrc]
  · rfl
  · intro v _ dst hdst
    obtain ⟨src', hsrc', _⟩ := lookup_sendRows ((hmem dst).mp hdst).2.2 ((hmem dst).mp hdst).2.1
    rw [hsrc']
    rfl

theorem received_spec (hold : oldIndices.length = numRanks * n)
    (hnew : newIndices.length = numRanks * n) (hd : d < numRanks) (he : e ∈ oldIndices)
    (hmem : (e, row) ∈ recvRows n oldIndices newIndices d)
    (hnet : ∀ s < numRanks, ∀ d < numRanks, ∀ (k : Nat) snd rcv,
      (sendsTo (opsOf numTensors n oldIndices newIndices s) d)[k]? = some snd →
      (recvsFrom (opsOf numTensors n oldIndices newIndices d) s)[k]? = some rcv →
        b' d rcv.1 rcv.2 = w s snd.1 snd.2) :
    ∃ s < numRanks, ∃ src < n, localId n oldIndices s src = e ∧
      ∀ j < numTensors, b' d j row = w s j src := by
  have hne := (mem_recvRows hmem).2.2.1
  have hneed := (mem_map_fst_recvRows hold hnew hne).mp (mem_map.mpr ⟨_, hmem, rfl⟩)
  -- the expert has a rank, since it is in the old assignment
  obtain ⟨p, hp, hpe⟩ := mem_iff_getElem.mp he
  have hn : 0 < n := Nat.lt_of_le_of_lt (Nat.zero_le row) (mem_recvRows hmem).1
  have hrank : p / n ∈ ranksOf n oldIndices e := by
    rw [mem_ranksOf hold hne]
    refine ⟨p % n, Nat.mod_lt p hn, ?_⟩
    unfold localId
    rw [Nat.div_add_mod', getD_eq_getElem?_getD, getElem?_eq_getElem hp, hpe]
    rfl
  obtain ⟨s, hs, hsend, _⟩ := sendRank_spec (ne_nil_of_mem hrank)
    (nodup_ranksOf n oldIndices e) hneed (nodup_ranksNeeding n oldIndices newIndices e)
  have hsrc : srcOf n oldIndices newIndices d e = some s := by
    unfold srcOf
    rw [hsend]
  obtain ⟨⟨e', src⟩, hrow, rfl⟩ := mem_map.mp ((mem_map_fst_sendRows hold hne).mpr hs)
  have hspec := mem_sendRows hrow
  have hslt : s < numRanks := by
    apply lt_of_localId hold
    rw [hspec.2.1]
    exact hne
  refine ⟨s, hslt, src, hspec.1, hspec.2.1, ?_⟩
  intro j hj
  -- the receive of this tensor, and the send at its place
  have hrecv : (j, row) ∈ recvsFrom (opsOf numTensors n oldIndices newIndices d) s := by
    rw [recvsFrom_opsOf]
    refine mem_flatMap.mpr ⟨(e', row), ?_, mem_map.mpr ⟨j, mem_range.mpr hj, rfl⟩⟩
    exact mem_filter.mpr ⟨hmem, decide_eq_true hsrc⟩
  obtain ⟨k, hk, hrcv⟩ := mem_iff_getElem.mp hrecv
  have hmatch := forall₂_opsOf numTensors hold hnew s d
  have hk' : k < (sendsTo (opsOf numTensors n oldIndices newIndices s) d).length := by
    rw [hmatch.length_eq]
    exact hk
  have hcorr := (forall₂_iff_get.mp hmatch).2 k hk' hk
  have hsent : (sendsTo (opsOf numTensors n oldIndices newIndices s) d)[k] ∈
      sendsTo (opsOf numTensors n oldIndices newIndices s) d := getElem_mem hk'
  have hvalue := hnet s hslt d hd k _ _ (getElem?_eq_getElem hk')
    (getElem?_eq_getElem hk)
  rw [hrcv] at hvalue
  rw [get_eq_getElem, get_eq_getElem, hrcv] at hcorr
  generalize (sendsTo (opsOf numTensors n oldIndices newIndices s) d)[k] = snd at *
  rw [sendsTo_opsOf numTensors hold] at hsent
  obtain ⟨x, hx, hsnd⟩ := mem_flatMap.mp hsent
  obtain ⟨i, _, rfl⟩ := mem_map.mp hsnd
  have hx' := mem_sendRows (mem_filter.mp hx).1
  have hxe : x.1 = e' := by
    rw [← hx'.2.1, hcorr.2.2]
    exact (mem_recvRows hmem).2.1
  have hxrow : x.2 = src := by
    apply eq_of_mem_sendRows _ hrow
    rw [← hxe]
    exact (mem_filter.mp hx).1
  rw [hvalue, hxrow]
  exact congrArg (fun i => w s i src) hcorr.1

theorem primaryRow_spec (h : recv.Pairwise fun x y => x.1 < y.1)
    (hmem : (e, row) ∈ recv) : primaryRow recv e = some row := by
  have hsort : sortExperts recv = recv :=
    List.Pairwise.insertionSort_eq (h.imp le_of_lt)
  obtain ⟨xs, ys, rfl⟩ := append_of_mem hmem
  have hbefore : ∀ x ∈ xs, decide (x.1 < e) = true := by
    intro x hx
    exact decide_eq_true ((pairwise_append.mp h).2.2 x hx _ mem_cons_self)
  have htake : (xs ++ (e, row) :: ys).takeWhile (fun x => decide (x.1 < e)) = xs := by
    rw [takeWhile_append_of_pos hbefore, takeWhile_cons_of_neg (by simp),
      append_nil]
  unfold primaryRow
  rw [hsort]
  dsimp only
  rw [htake, getElem?_append_right (Nat.le_refl _), Nat.sub_self]
  exact if_pos rfl

theorem eq_of_mem_recvRows (h : (e, r) ∈ recvRows n oldIndices newIndices d)
    (h' : (e, r') ∈ recvRows n oldIndices newIndices d) : r = r' := by
  have hpairwise := pairwise_recvRows n oldIndices newIndices d
  have hprimary := primaryRow_spec hpairwise h
  rw [primaryRow_spec hpairwise h'] at hprimary
  exact (Option.some.inj hprimary).symm

/-! ## The rows at the end -/

/-- What `move_to_buffer` returns. -/
def movedToBuffer (numTensors n : Nat) (oldIndices newIndices : List Int) (rank : Nat)
    (w b : Tensors α) : MoveToBuffer α where
  buffers := localMoves n oldIndices newIndices rank w b
  p2pOps := opsOf numTensors n oldIndices newIndices rank
  unchanged := isUnchanged n oldIndices newIndices rank
  receivedLocally := isReceivedLocally n oldIndices newIndices rank
  recvRows := recvRows n oldIndices newIndices rank

theorem moveToBuffer_spec (numTensors : Nat) (hold : oldIndices.length = numRanks * n)
    (hnew : newIndices.length = numRanks * n) (rank : Nat) (w b : Tensors α) :
    moveToBuffer numTensors n oldIndices newIndices rank w b =
      .ok (movedToBuffer numTensors n oldIndices newIndices rank w b) := by
  unfold moveToBuffer
  rw [pyAssert_pos (hold.trans hnew.symm), ok_bind, postSends_spec numTensors hold, ok_bind,
    postRecvs_spec numTensors hold hnew, ok_bind]
  rfl

theorem isRecvPrimary_iff : isRecvPrimary recv row = true ↔ ∃ e, (e, row) ∈ recv := by
  unfold isRecvPrimary
  rw [any_eq_true]
  constructor
  · rintro ⟨⟨e, r⟩, hmem, heq⟩
    have hr : r = row := by simpa using heq
    exact ⟨e, hr ▸ hmem⟩
  · rintro ⟨e, hmem⟩
    exact ⟨_, hmem, by simp⟩

theorem exists_mem_recvRows (hrow : row < n)
    (hlocal : isReceivedLocally n oldIndices newIndices rank row = false)
    (hne : localId n newIndices rank row ≠ -1) :
    ∃ src, (localId n newIndices rank row, src) ∈ recvRows n oldIndices newIndices rank := by
  have hmem : localId n newIndices rank row ∈
      (recvRows n oldIndices newIndices rank).map Prod.fst := by
    unfold recvRows
    rw [mem_map_fst_firstRows]
    refine ⟨row, mem_filter.mpr ⟨mem_range.mpr hrow, ?_⟩, rfl⟩
    rw [hlocal]
    simpa using hne
  obtain ⟨⟨e, src⟩, hsrc, rfl⟩ := mem_map.mp hmem
  exact ⟨src, hsrc⟩

theorem copyBack_spec (m : MoveToBuffer α) (w b : Tensors α) (j row : Nat) :
    copyBack n m w b j row =
      if row < n ∧ m.unchanged row = false ∧
        (m.receivedLocally row = true ∨ isRecvPrimary m.recvRows row = true) then b j row
      else w j row := by
  unfold copyBack
  rw [@foldl_copyRow α _ b w _ (fun _ _ _ _ => rfl) _ (List.Subset.refl _) w
    (fun _ _ _ => rfl)]
  simp only [mem_filter, mem_range, Bool.and_eq_true, Bool.or_eq_true,
    Bool.not_eq_true']

section Result

variable {rank : Nat} (w b b' : Tensors α)

variable {row : Nat}

theorem mem_duplicateRows :
    row ∈ duplicateRows n (movedToBuffer numTensors n oldIndices newIndices rank w b)
        newIndices rank ↔
      row < n ∧ isUnchanged n oldIndices newIndices rank row = false ∧
        isReceivedLocally n oldIndices newIndices rank row = false ∧
        isRecvPrimary (recvRows n oldIndices newIndices rank) row = false ∧
        localId n newIndices rank row ≠ -1 := by
  unfold duplicateRows movedToBuffer
  simp only [mem_filter, mem_range, Bool.and_eq_true, Bool.not_eq_true', bne_iff_ne,
    and_assoc]

theorem moveFromBuffer_spec (j row : Nat) :
    moveFromBuffer n newIndices rank
        (movedToBuffer numTensors n oldIndices newIndices rank w b) w b' j row =
      let m := movedToBuffer numTensors n oldIndices newIndices rank w b
      if row ∈ duplicateRows n m newIndices rank then
        copyBack n m w b' j ((primaryRow m.recvRows (localId n newIndices rank row)).getD 0)
      else copyBack n m w b' j row := by
  have hprimary : ∀ dst ∈ duplicateRows n
      (movedToBuffer numTensors n oldIndices newIndices rank w b) newIndices rank,
      ∃ src, primaryRow (recvRows n oldIndices newIndices rank) (localId n newIndices rank dst) =
          some src ∧ (localId n newIndices rank dst, src) ∈
            recvRows n oldIndices newIndices rank := by
    intro dst hdst
    have hspec := (mem_duplicateRows w b).mp hdst
    obtain ⟨src, hsrc⟩ := exists_mem_recvRows hspec.1 hspec.2.2.1 hspec.2.2.2.2
    exact ⟨src, primaryRow_spec (pairwise_recvRows _ _ _ _) hsrc, hsrc⟩
  unfold moveFromBuffer
  dsimp only
  by_cases hnil : (movedToBuffer numTensors n oldIndices newIndices rank w b).recvRows = []
  · rw [if_pos hnil]
    split
    · rename_i hdup
      obtain ⟨src, _, hsrc⟩ := hprimary row hdup
      have hrows : recvRows n oldIndices newIndices rank = [] := hnil
      rw [hrows] at hsrc
      cases hsrc
    · rfl
  · rw [if_neg hnil]
    apply @foldl_copyRow α _ (fun j dst => copyBack n
      (movedToBuffer numTensors n oldIndices newIndices rank w b) w b' j ((primaryRow
        (recvRows n oldIndices newIndices rank) (localId n newIndices rank dst)).getD 0))
      (copyBack n (movedToBuffer numTensors n oldIndices newIndices rank w b) w b') _ ?_ _
      (List.Subset.refl _) _ (fun _ _ _ => rfl)
    intro v hv dst hdst
    obtain ⟨src, hsrc, hmem⟩ := hprimary dst hdst
    -- the primary row is not a duplicate itself
    have hnot : src ∉ duplicateRows n
        (movedToBuffer numTensors n oldIndices newIndices rank w b) newIndices rank := by
      intro hdup
      have hfalse := ((mem_duplicateRows w b).mp hdup).2.2.2.1
      rw [isRecvPrimary_iff.mpr ⟨_, hmem⟩] at hfalse
      cases hfalse
    have hrow : primaryRow (movedToBuffer numTensors n oldIndices newIndices rank w b).recvRows
        (localId n newIndices rank dst) = some src := hsrc
    rw [hrow, hsrc]
    dsimp only [Option.getD_some]
    congr 1
    funext j
    exact hv j src hnot

theorem moveFromBuffer_unchanged (h : isUnchanged n oldIndices newIndices rank row = true)
    (j : Nat) :
    moveFromBuffer n newIndices rank
        (movedToBuffer numTensors n oldIndices newIndices rank w b) w b' j row = w j row := by
  have hdup : row ∉ duplicateRows n
      (movedToBuffer numTensors n oldIndices newIndices rank w b) newIndices rank := by
    intro hmem
    rw [((mem_duplicateRows w b).mp hmem).2.1] at h
    cases h
  rw [moveFromBuffer_spec]
  rw [if_neg hdup, copyBack_spec, if_neg]
  rintro ⟨_, hchanged, _⟩
  have hfalse : isUnchanged n oldIndices newIndices rank row = false := hchanged
  rw [h] at hfalse
  cases hfalse

theorem moveFromBuffer_buffered (hrow : row < n)
    (hchanged : isUnchanged n oldIndices newIndices rank row = false)
    (h : isReceivedLocally n oldIndices newIndices rank row = true ∨
      isRecvPrimary (recvRows n oldIndices newIndices rank) row = true) (j : Nat) :
    moveFromBuffer n newIndices rank
        (movedToBuffer numTensors n oldIndices newIndices rank w b) w b' j row = b' j row := by
  have hdup : row ∉ duplicateRows n
      (movedToBuffer numTensors n oldIndices newIndices rank w b) newIndices rank := by
    intro hmem
    have hspec := (mem_duplicateRows w b).mp hmem
    rw [hspec.2.2.1, hspec.2.2.2.1] at h
    simp at h
  rw [moveFromBuffer_spec]
  rw [if_neg hdup, copyBack_spec]
  exact if_pos ⟨hrow, hchanged, h⟩

theorem moveFromBuffer_duplicate (hrow : row < n)
    (hlocal : isReceivedLocally n oldIndices newIndices rank row = false)
    (hprimary : isRecvPrimary (recvRows n oldIndices newIndices rank) row = false)
    (hne : localId n newIndices rank row ≠ -1)
    (hsrc : (localId n newIndices rank row, src) ∈ recvRows n oldIndices newIndices rank)
    (j : Nat) :
    moveFromBuffer n newIndices rank
        (movedToBuffer numTensors n oldIndices newIndices rank w b) w b' j row = b' j src := by
  have hspec := mem_recvRows hsrc
  have hchanged : ∀ {r}, isReceivedLocally n oldIndices newIndices rank r = false →
      isUnchanged n oldIndices newIndices rank r = false := by
    intro r hr
    exact (Bool.or_eq_false_iff.mp hr).1
  have hrowPrimary : primaryRow
      (movedToBuffer numTensors n oldIndices newIndices rank w b).recvRows
      (localId n newIndices rank row) = some src :=
    primaryRow_spec (pairwise_recvRows _ _ _ _) hsrc
  rw [moveFromBuffer_spec]
  rw [if_pos ((mem_duplicateRows w b).mpr ⟨hrow, hchanged hlocal, hlocal, hprimary, hne⟩),
    hrowPrimary, copyBack_spec]
  exact if_pos ⟨hspec.1, hchanged hspec.2.2.2, .inr (isRecvPrimary_iff.mpr ⟨_, hsrc⟩)⟩

end Result

theorem moveFromBuffer_placed (hold : oldIndices.length = numRanks * n)
    (hnew : newIndices.length = numRanks * n) (hcovered : ∀ e ∈ newIndices, e ≠ -1 → e ∈ oldIndices)
    {b : Nat → Tensors α} (hsent : ∀ s < numRanks, ∀ d < numRanks, ∀ (k : Nat) snd rcv,
      (sendsTo (opsOf numTensors n oldIndices newIndices s) d)[k]? = some snd →
      (recvsFrom (opsOf numTensors n oldIndices newIndices d) s)[k]? = some rcv →
        b' d rcv.1 rcv.2 = w s snd.1 snd.2) (hkept : ∀ d < numRanks, ∀ tensor row,
      (tensor, row) ∉ targets (opsOf numTensors n oldIndices newIndices d) →
        b' d tensor row = localMoves n oldIndices newIndices d (w d) (b d) tensor row)
    (hrank : rank < numRanks) (hrow : row < n) (hne : localId n newIndices rank row ≠ -1) :
    ∃ s < numRanks, ∃ src < n, localId n oldIndices s src = localId n newIndices rank row ∧
      ∀ j < numTensors, moveFromBuffer n newIndices rank
        (movedToBuffer numTensors n oldIndices newIndices rank (w rank) (b rank)) (w rank)
          (b' rank) j row = w s j src := by
  cases hunchanged : isUnchanged n oldIndices newIndices rank row with
  | true =>
    refine ⟨rank, hrank, row, hrow, by simpa [isUnchanged] using hunchanged, ?_⟩
    intro j _
    exact moveFromBuffer_unchanged _ _ _ hunchanged j
  | false =>
    cases hlocal : isReceivedLocally n oldIndices newIndices rank row with
    | true =>
      obtain ⟨src, hsrc, hid, hvalue⟩ :=
        localMoves_spec hrow hlocal hunchanged (w rank) (b rank)
      refine ⟨rank, hrank, src, hsrc, hid, ?_⟩
      intro j _
      rw [moveFromBuffer_buffered _ _ _ hrow hunchanged (.inl hlocal),
        hkept rank hrank j row (not_mem_targets_opsOf hlocal), hvalue]
    | false =>
      -- the expert comes from another rank, into this row or into another one
      have hold' : localId n newIndices rank row ∈ oldIndices := by
        apply hcovered _ _ hne
        unfold localId at hne ⊢
        rw [getD_eq_getElem?_getD] at hne ⊢
        cases hget : newIndices[rank * n + row]? with
        | none =>
          rw [hget] at hne
          exact absurd rfl hne
        | some e => exact mem_of_getElem? hget
      obtain ⟨src, hsrc⟩ := exists_mem_recvRows hrow hlocal hne
      obtain ⟨s, hs, r, hr, hid, hvalue⟩ :=
        received_spec hold hnew hrank hold' hsrc hsent
      refine ⟨s, hs, r, hr, hid, ?_⟩
      intro j hj
      rw [← hvalue j hj]
      cases hprimary : isRecvPrimary (recvRows n oldIndices newIndices rank) row with
      | true =>
        obtain ⟨e, he⟩ := isRecvPrimary_iff.mp hprimary
        have hsame : row = src := by
          rw [← (mem_recvRows he).2.1] at he
          exact eq_of_mem_recvRows he hsrc
        rw [moveFromBuffer_buffered _ _ _ hrow hunchanged (.inr hprimary), hsame]
      | false => exact moveFromBuffer_duplicate _ _ _ hrow hlocal hprimary hne hsrc j

def P2POp.peer : P2POp → Nat
  | .isend _ _ dst => dst
  | .irecv _ _ src => src

theorem peer_lt (hold : oldIndices.length = numRanks * n)
    (hnew : newIndices.length = numRanks * n) {op : P2POp}
    (h : op ∈ opsOf numTensors n oldIndices newIndices rank) : op.peer < numRanks := by
  obtain h | h := mem_append.mp h
  · obtain ⟨e, he, h⟩ := mem_flatMap.mp h
    obtain ⟨dst, hdst, h⟩ := mem_flatMap.mp h
    obtain ⟨j, _, rfl⟩ := mem_map.mp h
    have hne := (mem_sendRows he).2.2
    have hrank := (mem_filter.mp (mem_ranksNeeding_of_mem_dstsOf hdst)).1
    obtain ⟨row, _, hrow⟩ := (mem_ranksOf hnew hne).mp hrank
    have hlt : dst < numRanks := lt_of_localId hnew (by rw [hrow]; exact hne)
    exact hlt
  · obtain ⟨e, he, h⟩ := mem_flatMap.mp h
    obtain ⟨src, hsrc, h⟩ := mem_flatMap.mp h
    obtain ⟨j, _, rfl⟩ := mem_map.mp h
    have hne := (mem_recvRows he).2.2.1
    have hneed := (mem_map_fst_recvRows hold hnew hne).mp (mem_map.mpr ⟨e, he, rfl⟩)
    rw [Option.mem_toList] at hsrc
    obtain ⟨row, _, hrow⟩ := (mem_ranksOf hold hne).mp (mem_ranksOf_of_srcOf hneed hsrc)
    have hlt : src < numRanks := lt_of_localId hold (by rw [hrow]; exact hne)
    exact hlt

/-- The sends and receives of any two ranks match one to one, in order, and at the end every
row that is to hold an expert holds the weights of a row that had it. -/
theorem exchange_places (net : Network α) (numTensors n numRanks : Nat)
    (oldIndices newIndices : List Int) (hold : oldIndices.length = numRanks * n)
    (hnew : newIndices.length = numRanks * n)
    (hcovered : ∀ e ∈ newIndices, e ≠ -1 → e ∈ oldIndices) (w b : Nat → Tensors α) :
    ∃ moved : Nat → MoveToBuffer α,
      (∀ rank < numRanks, moveToBuffer numTensors n oldIndices newIndices rank (w rank) (b rank) =
        .ok (moved rank)) ∧
      (∀ rank < numRanks, ∀ op ∈ (moved rank).p2pOps, op.peer < numRanks) ∧
      (∀ s < numRanks, ∀ d < numRanks, List.Forall₂ (Corresponds n oldIndices newIndices s d)
        (sendsTo (moved s).p2pOps d) (recvsFrom (moved d).p2pOps s)) ∧
      ∃ received, net.exchange numRanks (fun rank => (moved rank).p2pOps) w
          (fun rank => (moved rank).buffers) = some received ∧
        ∀ rank < numRanks, ∀ row < n, localId n newIndices rank row ≠ -1 →
          ∃ s < numRanks, ∃ src < n,
            localId n oldIndices s src = localId n newIndices rank row ∧
              ∀ j < numTensors, moveFromBuffer n newIndices rank (moved rank) (w rank)
                (received rank) j row = w s j src := by
  refine ⟨fun rank => movedToBuffer numTensors n oldIndices newIndices rank (w rank) (b rank),
    fun rank _ => moveToBuffer_spec numTensors hold hnew rank (w rank) (b rank),
    fun _ _ _ hop => peer_lt hold hnew hop,
    fun s _ d _ => forall₂_opsOf numTensors hold hnew s d, ?_⟩
  obtain ⟨received, hexchange, hsent, hkept⟩ := net.exchange_matched numRanks
    (opsOf numTensors n oldIndices newIndices) w
    (fun rank => localMoves n oldIndices newIndices rank (w rank) (b rank))
    (matched_opsOf numTensors hold hnew) (fun d _ => nodup_targets_opsOf numTensors d)
  refine ⟨received, hexchange, ?_⟩
  intro rank hrank row hrow hne
  exact moveFromBuffer_placed hold hnew hcovered hsent hkept hrank hrow hne

/-! ## A network -/

instance (numRanks : Nat) (ops : Nat → List P2POp) : Decidable (Matched numRanks ops) :=
  inferInstanceAs (Decidable (∀ s < numRanks, ∀ d < numRanks, _ = _))

def sourceOf (target : Nat × Nat) : List P2POp → Option Nat
  | [] => none
  | .irecv tensor row src :: ops =>
    if (tensor, row) = target then some src else sourceOf target ops
  | .isend .. :: ops => sourceOf target ops

theorem sourceOf_eq_some (hnodup : (targets ops).Nodup)
    (h : .irecv target.1 target.2 src ∈ ops) : sourceOf target ops = some src := by
  induction ops with
  | nil => cases h
  | cons op ops ih =>
    cases op with
    | isend tensor row dst =>
      obtain heq | h := mem_cons.mp h
      · cases heq
      · exact ih hnodup h
    | irecv tensor row src' =>
      have hnew : (tensor, row) ∉ targets ops ∧ (targets ops).Nodup :=
        nodup_cons.mp hnodup
      show (if (tensor, row) = target then some src' else sourceOf target ops) = some src
      obtain heq | h := mem_cons.mp h
      · cases heq
        exact if_pos rfl
      · have hne : (tensor, row) ≠ target := by
          rintro rfl
          exact hnew.1 (mem_targets.mpr ⟨src, h⟩)
        rw [if_neg hne]
        exact ih hnew.2 h

theorem sourceOf_eq_none (h : target ∉ targets ops) : sourceOf target ops = none := by
  induction ops with
  | nil => rfl
  | cons op ops ih =>
    cases op with
    | isend tensor row dst => exact ih h
    | irecv tensor row src =>
      have hnot : target ∉ (tensor, row) :: targets ops := h
      rw [mem_cons, not_or] at hnot
      show (if (tensor, row) = target then some src else sourceOf target ops) = none
      rw [if_neg (Ne.symm hnot.1)]
      exact ih hnot.2

theorem mem_recvsFrom : target ∈ recvsFrom ops src ↔ .irecv target.1 target.2 src ∈ ops := by
  unfold recvsFrom
  rw [mem_filterMap]
  constructor
  · rintro ⟨op, hop, heq⟩
    cases op with
    | isend tensor row dst => cases heq
    | irecv tensor row src' =>
      by_cases hsrc : src' = src
      · rw [hsrc] at hop
        have htarget : (tensor, row) = target := by simpa [hsrc] using heq
        rw [← htarget]
        exact hop
      · simp [hsrc] at heq
  · intro h
    exact ⟨_, h, if_pos rfl⟩

theorem nodup_recvsFrom (h : (targets ops).Nodup) (src : Nat) : (recvsFrom ops src).Nodup := by
  induction ops with
  | nil => exact nodup_nil
  | cons op ops ih =>
    cases op with
    | isend tensor row dst => exact ih h
    | irecv tensor row src' =>
      have hnew : (tensor, row) ∉ targets ops ∧ (targets ops).Nodup := nodup_cons.mp h
      unfold recvsFrom
      rw [filterMap_cons]
      dsimp only
      by_cases hsrc : src' = src
      · rw [if_pos hsrc]
        refine nodup_cons.mpr ⟨?_, ih hnew.2⟩
        intro hmem
        exact hnew.1 (mem_targets.mpr ⟨src, mem_recvsFrom.mp hmem⟩)
      · rw [if_neg hsrc]
        exact ih hnew.2

/-- What a rank finds in a row after it has received: what its peer sent at the same place. -/
def deliver (ops : Nat → List P2POp) (w b : Nat → Tensors α) (d tensor row : Nat) : α :=
  match sourceOf (tensor, row) (ops d) with
  | some src =>
    match (sendsTo (ops src) d)[(recvsFrom (ops d) src).idxOf (tensor, row)]? with
    | some snd => w src snd.1 snd.2
    | none => b d tensor row
  | none => b d tensor row

theorem deliver_law (numRanks : Nat) (ops : Nat → List P2POp) (w b : Nat → Tensors α)
    (hmatched : Matched numRanks ops) (hnodup : ∀ d < numRanks, (targets (ops d)).Nodup) :
    ∃ b', (if Matched numRanks ops then some (deliver ops w b) else none) = some b' ∧
      (∀ s < numRanks, ∀ d < numRanks, ∀ (k : Nat) snd rcv, (sendsTo (ops s) d)[k]? = some snd →
        (recvsFrom (ops d) s)[k]? = some rcv → b' d rcv.1 rcv.2 = w s snd.1 snd.2) ∧
      ∀ d < numRanks, ∀ tensor row, (tensor, row) ∉ targets (ops d) →
        b' d tensor row = b d tensor row := by
  refine ⟨deliver ops w b, if_pos hmatched, ?_, ?_⟩
  · intro s _ d hd k snd rcv hsnd hrcv
    have hmem := mem_recvsFrom.mp (mem_of_getElem? hrcv)
    have hidx : (recvsFrom (ops d) s).idxOf rcv = k := by
      obtain ⟨hk, rfl⟩ := List.getElem?_eq_some_iff.mp hrcv
      exact (nodup_recvsFrom (hnodup d hd) s).idxOf_getElem k hk
    unfold deliver
    rw [sourceOf_eq_some (hnodup d hd) hmem]
    dsimp only
    rw [hidx, hsnd]
  · intro d _ tensor row hnot
    unfold deliver
    rw [sourceOf_eq_none hnot]

/-- A network that delivers in order, and does not return where operations do not match. -/
def inOrderNetwork : Network α where
  exchange numRanks ops w b :=
    if Matched numRanks ops then some (deliver ops w b) else none
  exchange_matched := deliver_law

/-- Three ranks of two rows.  An expert is sent to a rank with two rows for it, rows are
swapped, and a slot stays empty; weights name their experts. -/
theorem exchange_places_three :
    let oldIndices := [0, 1, 1, 0, 2, -1]
    let newIndices := [2, 2, 0, 1, 1, -1]
    let w : Nat → Tensors Int := fun rank _ row => localId 2 oldIndices rank row
    ∃ (moved : Nat → MoveToBuffer Int) (received : Nat → Tensors Int),
      (∀ rank < 3, moveToBuffer 2 2 oldIndices newIndices rank (w rank) (fun _ _ => 0) =
        .ok (moved rank)) ∧
      inOrderNetwork.exchange 3 (fun rank => (moved rank).p2pOps) w
        (fun rank => (moved rank).buffers) = some received ∧
      ∀ rank < 3, ∀ row < 2, localId 2 newIndices rank row ≠ -1 → ∀ j < 2,
        moveFromBuffer 2 newIndices rank (moved rank) (w rank) (received rank) j row =
          localId 2 newIndices rank row := by
  intro oldIndices newIndices w
  obtain ⟨moved, hmoved, _, _, received, hexchange, hplaced⟩ := exchange_places inOrderNetwork 2 2 3
    oldIndices newIndices (by decide) (by decide) (by decide) w (fun _ _ _ => 0)
  refine ⟨moved, received, hmoved, hexchange, ?_⟩
  intro rank hrank row hrow hne j hj
  obtain ⟨s, _, src, _, hid, hvalue⟩ := hplaced rank hrank row hrow hne
  rw [hvalue j hj]
  exact hid

end VllmCore.Eplb
