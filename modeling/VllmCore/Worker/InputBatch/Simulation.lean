import VllmCore.Worker.InputBatch.AddRemove
/-!
# The batch simulates the states of its requests

`Simulates` says that the batch holds, for each request in it, the row and the
settings that belong to the request, and nothing for the others.  The holes are
tracked separately: they are the removed rows that are still on the list, except after
`condense`, which trims the batch and may leave rows on the list that no longer exist.
-/

namespace VllmCore.Worker

open Function List Support Dict

namespace InputBatch

/-- The batch holds what belongs to the requests in `live`. -/
structure Simulates (b : InputBatch) (live : ReqId → Option LiveRequest) : Prop where
  index : ∀ id i, b.reqIdToIndex.get? id = some i ↔ b.reqIds[i]? = some (some id)
  isLive : ∀ id, live id ≠ none ↔ ∃ i, b.reqIdToIndex.get? id = some i
  named : ∀ id l, live id = some l → l.request.reqId = id
  row : ∀ id l i, live id = some l → b.reqIdToIndex.get? id = some i →
    b.row i = l.row b.config
  entry : ∀ id, b.idEntry id = (live id).elim .absent (LiveRequest.idEntry b.config)
  embeds : ∀ id l i e, live id = some l → b.reqIdToIndex.get? id = some i →
    l.request.promptEmbeds = some e → b.reqPromptEmbeds.get? i = some e
  fits : ∀ id l, live id = some l → b.Fits l.request
  outputs_length : b.reqOutputTokenIds.length = b.reqIds.length
  specs_length : b.reqIds.length ≤ b.specTokenIds.length
  beyond : ∀ k, b.reqIds.length ≤ k → b.specAt k = []
  clear : ∀ k, (∀ id, b.reqIds[k]? ≠ some (some id)) →
    b.generators.get? k = none ∧ b.badWordsTokenIds.get? k = none
  pooling : b.isPoolingModel = true → ∀ k,
    b.generators.get? k = none ∧ b.badWordsTokenIds.get? k = none

structure HolesInv (b : InputBatch) : Prop where
  nodup : b.batchUpdateBuilder.removedList.Nodup
  sorted : b.batchUpdateBuilder.isRemovedSorted = true →
    b.batchUpdateBuilder.removedList.Pairwise (· ≥ ·)
  hole : ∀ k < b.reqIds.length,
    b.reqIds[k]? = some none ↔ k ∈ b.batchUpdateBuilder.removedList
  phase : (∀ k ∈ b.batchUpdateBuilder.removedList, k < b.reqIds.length) ∨
    (b.batchUpdateBuilder.isRemovedSorted = true ∧
      ∀ k ∈ b.batchUpdateBuilder.removedList, b.reqIds.length ≤ k)

def Condensed (b : InputBatch) : Prop := ∀ x ∈ b.reqIds, x ≠ none

instance (b : InputBatch) : Decidable b.Condensed :=
  inferInstanceAs (Decidable (∀ x ∈ b.reqIds, x ≠ none))

variable {b b' : InputBatch} {live : ReqId → Option LiveRequest}

/-! ## Counting -/

/-- A batch whose first `n` rows are taken and whose other rows are empty holds `n`
requests. -/
theorem Simulates.numReqs_eq (h : b.Simulates live) {n : Nat} (hn : n ≤ b.reqIds.length)
    (hrows : ∀ k < b.reqIds.length, b.reqIds[k]? = some none ↔ n ≤ k) : b.numReqs = n := by
  have hindex : ∀ id ∈ b.reqIdToIndex.keys, ∃ i, b.reqIdToIndex.get? id = some i := by
    intro id hid
    exact exists_of_mem_keys hid
  have hperm : (b.reqIdToIndex.keys.map fun id => (b.reqIdToIndex.get? id).getD 0).Perm
      (List.range n) := by
    refine (perm_ext_iff_of_nodup ?_ nodup_range).mpr ?_
    · refine List.Nodup.map_on ?_ b.reqIdToIndex.nodup
      intro x hx y hy hxy
      obtain ⟨i, hi⟩ := hindex x hx
      obtain ⟨j, hj⟩ := hindex y hy
      simp only [hi, hj, Option.getD_some] at hxy
      subst hxy
      have hsame := ((h.index x i).mp hi).symm.trans ((h.index y i).mp hj)
      simpa using hsame
    · intro i
      rw [mem_map, mem_range]
      constructor
      · rintro ⟨id, hid, rfl⟩
        obtain ⟨j, hj⟩ := hindex id hid
        have hat := (h.index id j).mp hj
        have hlt := (List.getElem?_eq_some_iff.mp hat).1
        rw [hj, Option.getD_some]
        by_contra hge
        rw [(hrows j hlt).mpr (by omega)] at hat
        simp at hat
      · intro hi
        obtain ⟨x, hx⟩ : ∃ x, b.reqIds[i]? = some x :=
          ⟨_, getElem?_eq_getElem (by omega)⟩
        cases x with
        | none =>
          have := (hrows i (by omega)).mp hx
          omega
        | some id =>
          have hget := (h.index id i).mpr hx
          exact ⟨id, (mem_keys_iff _ _).mpr (by simp [hget]), by simp [hget]⟩
  calc b.numReqs
      = (b.reqIdToIndex.keys.map fun id => (b.reqIdToIndex.get? id).getD 0).length := by
        rw [length_map]
        rfl
    _ = n := by rw [hperm.length_eq, length_range]

theorem condensed_iff : b.Condensed ↔ ∀ k < b.reqIds.length, b.reqIds[k]? ≠ some none := by
  constructor
  · intro h k _ hnone
    exact h none (mem_of_getElem? hnone) rfl
  · intro h x hx hnone
    obtain ⟨k, hk, hget⟩ := getElem_of_mem hx
    exact h k hk (by rw [getElem?_eq_getElem hk, hget, hnone])

theorem Simulates.numReqs_of_condensed (h : b.Simulates live) (hc : b.Condensed) :
    b.numReqs = b.reqIds.length := by
  apply h.numReqs_eq (Nat.le_refl _)
  intro k hk
  have := condensed_iff.mp hc k hk
  simp only [this, false_iff]
  omega

theorem Simulates.exists_row (h : b.Simulates live) (hpos : 0 < b.numReqs) :
    ∃ (id : ReqId) (i : Nat), b.reqIds[i]? = some (some id) := by
  obtain ⟨id, hid⟩ := exists_mem_of_length_pos hpos
  obtain ⟨i, hi⟩ := exists_of_mem_keys hid
  exact ⟨id, i, (h.index id i).mp hi⟩

end InputBatch

namespace BatchUpdateBuilder

theorem ensureRemovedSorted_spec (u : BatchUpdateBuilder)
    (hsorted : u.isRemovedSorted = true → u.removedList.Pairwise (· ≥ ·)) :
    u.ensureRemovedSorted.removedList.Perm u.removedList ∧
      u.ensureRemovedSorted.isRemovedSorted = true ∧
      u.ensureRemovedSorted.removedList.Pairwise (· ≥ ·) := by
  unfold ensureRemovedSorted
  split
  · rename_i hflag
    exact ⟨.refl _, hflag, hsorted hflag⟩
  · exact ⟨perm_insertionSort _ _, rfl, pairwise_insertionSort _ _⟩

theorem popRemoved_spec (u : BatchUpdateBuilder)
    (hsorted : u.isRemovedSorted = true → u.removedList.Pairwise (· ≥ ·))
    (hne : u.removedList ≠ []) :
    ∃ e, u.popRemoved.1 = some e ∧ u.peekRemoved = (some e, u.ensureRemovedSorted) ∧
      (u.popRemoved.2.removedList ++ [e]).Perm u.removedList ∧
      u.popRemoved.2.isRemovedSorted = true ∧
      u.popRemoved.2.removedList.Pairwise (· ≥ ·) ∧ ∀ k ∈ u.removedList, e ≤ k := by
  obtain ⟨hperm, hflag, hpair⟩ := u.ensureRemovedSorted_spec hsorted
  have hne' : u.ensureRemovedSorted.removedList ≠ [] := by
    intro hnil
    rw [hnil] at hperm
    exact hne hperm.symm.eq_nil
  have hlast := dropLast_append_getLast hne'
  refine ⟨u.ensureRemovedSorted.removedList.getLast hne', ?_, ?_, ?_, ?_, ?_, ?_⟩
  · simp [popRemoved, hne, getLast?_eq_some_getLast hne']
  · simp [peekRemoved, hne, getLast?_eq_some_getLast hne']
  · simp only [popRemoved, if_neg hne]
    rw [hlast]
    exact hperm
  · simp only [popRemoved, if_neg hne]
    exact hflag
  · simp only [popRemoved, if_neg hne]
    exact hpair.sublist (dropLast_sublist _)
  · intro k hk
    have hk' := hperm.mem_iff.mpr hk
    rw [← hlast] at hk' hpair
    rw [mem_append, mem_singleton] at hk'
    rcases hk' with hmem | rfl
    · exact (pairwise_append.mp hpair).2.2 k hmem _ (by simp)
    · exact Nat.le_refl _

end BatchUpdateBuilder

namespace InputBatch

variable {b b' : InputBatch} {live : ReqId → Option LiveRequest}

variable {id id₁ id₂ : ReqId} {i i₁ i₂ : Nat} {r : CachedRequestState} {toks : List Token}

theorem Simulates.live_none (h : b.Simulates live) (hid : b.reqIdToIndex.get? id = none) :
    live id = none := by
  by_contra hne
  obtain ⟨i, hi⟩ := (h.isLive id).mp hne
  rw [hid] at hi
  cases hi

/-! ## Adding -/

theorem Simulates.nextIndex_free (h : b.Simulates live) (hh : b.HolesInv) (id : ReqId) :
    b.reqIds[b.nextIndex]? ≠ some (some id) := by
  intro hat
  have hlt := (List.getElem?_eq_some_iff.mp hat).1
  by_cases hne : b.batchUpdateBuilder.removedList = []
  · have hcond : b.Condensed := by
      rw [condensed_iff]
      intro k hk hnone
      have := (hh.hole k hk).mp hnone
      rw [hne] at this
      simp at this
    have hnum := h.numReqs_of_condensed hcond
    have hnext : b.nextIndex = b.numReqs := by
      simp [nextIndex, BatchUpdateBuilder.popRemoved, hne]
    omega
  · obtain ⟨e, he, _, hperm, _⟩ := b.batchUpdateBuilder.popRemoved_spec hh.sorted hne
    have hnext : b.nextIndex = e := by simp [nextIndex, he]
    have hmem : e ∈ b.batchUpdateBuilder.removedList := hperm.mem_iff.mp (by simp)
    rw [hnext] at hat hlt
    rw [(hh.hole e hlt).mpr hmem] at hat
    simp at hat

theorem Places.reqIds_getElem? (hp : b.Places b' r i) (k : Nat) :
    b'.reqIds[k]? = if k = i then some (some r.reqId) else b.reqIds[k]? := by
  rcases hp.lists with ⟨rfl, hids, _⟩ | ⟨hlt, _, _, hids, _⟩
  · rw [hids]
    split
    · rename_i hk
      simp [hk]
    · rename_i hk
      rcases Nat.lt_or_gt_of_ne hk with hlt | hgt
      · rw [getElem?_append_left hlt]
      · rw [getElem?_append_right (by omega), getElem?_eq_none (by simp; omega),
          getElem?_eq_none (by omega)]
  · rw [hids]
    split
    · rename_i hk
      simp [hk, hlt]
    · rename_i hk
      rw [getElem?_set_ne (Ne.symm hk)]

theorem Places.length (hp : b.Places b' r i) :
    i < b'.reqIds.length ∧ b.reqIds.length ≤ b'.reqIds.length ∧
      b'.reqIds.length ≤ max b.reqIds.length (i + 1) := by
  rcases hp.lists with ⟨rfl, hids, _⟩ | ⟨hlt, _, _, hids, _⟩ <;> rw [hids] <;> simp
  omega

theorem HolesInv.places (hh : b.HolesInv) (hp : b.Places b' r b.nextIndex) : b'.HolesInv := by
  obtain ⟨hi, hle, hmax⟩ := hp.length
  by_cases hne : b.batchUpdateBuilder.removedList = []
  · have hpop : b.batchUpdateBuilder.popRemoved = (none, b.batchUpdateBuilder) := by
      simp [BatchUpdateBuilder.popRemoved, hne]
    have hremoved : b'.batchUpdateBuilder.removedList = [] := by
      rw [hp.removed, hpop, hne]
    refine ⟨by simp [hremoved], by simp [hremoved], ?_, .inl (by simp [hremoved])⟩
    intro k hk
    rw [hp.reqIds_getElem?, hremoved]
    split
    · simp
    · have hlt : k < b.reqIds.length := by
        rcases hp.lists with ⟨hii, hids, _⟩ | ⟨_, _, _, hids, _⟩
        · rw [hids] at hk
          simp at hk
          omega
        · rw [hids] at hk
          simpa using hk
      rw [hh.hole k hlt, hne]
  · obtain ⟨e, he, _, hperm, hflag, hpair, _⟩ :=
      b.batchUpdateBuilder.popRemoved_spec hh.sorted hne
    have hnext : b.nextIndex = e := by simp [nextIndex, he]
    rw [hnext] at hp hi hmax
    have hnd : (b.batchUpdateBuilder.popRemoved.2.removedList ++ [e]).Nodup :=
      hperm.nodup_iff.mpr hh.nodup
    have hmem : ∀ k, k ∈ b'.batchUpdateBuilder.removedList ↔
        k ∈ b.batchUpdateBuilder.removedList ∧ k ≠ e := by
      intro k
      rw [hp.removed, ← hperm.mem_iff, mem_append, mem_singleton]
      constructor
      · intro hk
        refine ⟨.inl hk, ?_⟩
        rintro rfl
        exact (nodup_append.mp hnd).2.2 k hk k (by simp) rfl
      · rintro ⟨hk | hk, hke⟩
        · exact hk
        · exact absurd hk hke
    have hmeme : e ∈ b.batchUpdateBuilder.removedList := hperm.mem_iff.mp (by simp)
    refine ⟨?_, ?_, ?_, ?_⟩
    · rw [hp.removed]
      exact (nodup_append.mp hnd).1
    · intro _
      rw [hp.removed]
      exact hpair
    · intro k hk
      rw [hp.reqIds_getElem?, hmem]
      split
      · rename_i hke
        simp [hke]
      · rename_i hke
        have hlt : k < b.reqIds.length := by
          rcases hp.lists with ⟨hii, hids, _⟩ | ⟨_, _, _, hids, _⟩
          · rw [hids] at hk
            simp at hk
            omega
          · rw [hids] at hk
            simpa using hk
        rw [hh.hole k hlt]
        simp [hke]
    · rcases hh.phase with hopen | ⟨_, hclosed⟩
      · left
        intro k hk
        have := hopen k ((hmem k).mp hk).1
        omega
      · right
        refine ⟨by rw [hp.sorted]; exact hflag, ?_⟩
        intro k hk
        have hk' := (hmem k).mp hk
        have := hclosed k hk'.1
        rcases hp.lists with ⟨hii, hids, _⟩ | ⟨hlt, _⟩
        · rw [hids]
          simp
          omega
        · omega

theorem Simulates.adds (h : b.Simulates live) (hh : b.HolesInv) (hfits : b.Fits r)
    (hnew : b.reqIdToIndex.get? r.reqId = none) (hadd : b.addRequest r = .ok (i, b')) :
    b.Adds b' r i := by
  obtain ⟨hgen, hbad⟩ := h.clear b.nextIndex (h.nextIndex_free hh)
  have habsent : b.idEntry r.reqId = .absent := by
    rw [h.entry, h.live_none hnew]
    rfl
  exact addRequest_spec hfits h.outputs_length h.beyond hgen hbad habsent hadd

theorem Simulates.addRequest (h : b.Simulates live) (hh : b.HolesInv) (hfits : b.Fits r)
    (hnew : b.reqIdToIndex.get? r.reqId = none) (hadd : b.addRequest r = .ok (i, b')) :
    b'.Simulates (update live r.reqId (some ⟨r, []⟩)) ∧ b'.HolesInv := by
  have hfree := h.nextIndex_free hh
  obtain ⟨rfl, hplaces, honly, hrow, hentry, hembeds, hpooling⟩ := h.adds hh hfits hnew hadd
  refine ⟨?_, hh.places hplaces⟩
  have hconfig := honly.config
  have hids := hplaces.reqIds_getElem?
  have hpool : b'.isPoolingModel = b.isPoolingModel :=
    congrArg BatchConfig.isPoolingModel hconfig
  have hlists : b'.reqOutputTokenIds.length = b'.reqIds.length ∧
      b'.reqIds.length ≤ b'.specTokenIds.length := by
    have h₁ := h.outputs_length
    have h₂ := h.specs_length
    rcases hplaces.lists with ⟨_, hids, hout, hspec⟩ | ⟨_, _, _, hids, hout, hspec⟩ <;>
      rw [hids, hout, hspec] <;> simp <;> omega
  -- the new request is in the row it took, and the others are where they were
  have hindex : ∀ id i, b'.reqIdToIndex.get? id = some i ↔
      (id = r.reqId ∧ i = b.nextIndex) ∨
        (id ≠ r.reqId ∧ b.reqIdToIndex.get? id = some i) := by
    intro id i
    rw [hplaces.index, get?_set]
    split
    · rename_i hid
      simp [hid, eq_comm]
    · rename_i hid
      simp [hid]
  refine ⟨?_, ?_, ?_, ?_, ?_, ?_, ?_, hlists.1, hlists.2, ?_, ?_, ?_⟩
  · intro id i
    rw [hindex, hids]
    by_cases hi : i = b.nextIndex
    · subst hi
      rw [if_pos rfl]
      constructor
      · rintro (⟨rfl, _⟩ | ⟨_, hget⟩)
        · rfl
        · exact absurd ((h.index id _).mp hget) (hfree id)
      · intro hsome
        simp only [Option.some.injEq] at hsome
        exact .inl ⟨hsome.symm, rfl⟩
    · rw [if_neg hi, h.index]
      constructor
      · rintro (⟨_, rfl⟩ | ⟨_, hget⟩)
        · exact absurd rfl hi
        · exact hget
      · intro hget
        refine .inr ⟨?_, hget⟩
        rintro rfl
        rw [(h.index _ _).mpr hget] at hnew
        cases hnew
  · intro id
    rw [update_apply]
    split
    · rename_i hid
      simp [hindex, hid]
    · rename_i hid
      rw [h.isLive]
      simp [hindex, hid]
  · intro id l hl
    rw [update_apply] at hl
    split at hl
    · rename_i hid
      cases hl
      exact hid.symm
    · exact h.named id l hl
  · intro id l i hl hi
    rw [update_apply] at hl
    rw [hconfig]
    rcases (hindex id i).mp hi with ⟨rfl, rfl⟩ | ⟨hid, hget⟩
    · rw [if_pos rfl] at hl
      cases hl
      exact hrow
    · rw [if_neg hid] at hl
      rw [honly.row i]
      · exact h.row id l i hl hget
      · rintro rfl
        exact hfree id ((h.index id _).mp hget)
  · intro id
    rw [update_apply, hconfig]
    split
    · rename_i hid
      subst hid
      exact hentry
    · rename_i hid
      rw [honly.idEntry id hid, h.entry]
  · intro id l i e hl hi he
    rw [update_apply] at hl
    rcases (hindex id i).mp hi with ⟨rfl, rfl⟩ | ⟨hid, hget⟩
    · rw [if_pos rfl] at hl
      cases hl
      exact hembeds e he
    · rw [if_neg hid] at hl
      rw [(honly.dicts i ?_).2.2]
      · exact h.embeds id l i e hl hget he
      · rintro rfl
        exact hfree id ((h.index id _).mp hget)
  · intro id l hl
    unfold Fits
    rw [hpool]
    rw [update_apply] at hl
    split at hl
    · cases hl
      exact hfits
    · exact h.fits id l hl
  · intro k hk
    have hkne : k ≠ b.nextIndex := by
      have := hplaces.length.1
      omega
    have hrowk := congrArg Row.specTokenIds (honly.row k hkne)
    exact hrowk.trans (h.beyond k (by have := hplaces.length.2.1; omega))
  · intro k hk
    have hkne : k ≠ b.nextIndex := by
      rintro rfl
      exact hk r.reqId (by rw [hids, if_pos rfl])
    obtain ⟨h₁, h₂, _⟩ := honly.dicts k hkne
    rw [h₁, h₂]
    apply h.clear
    intro id hid
    exact hk id (by rw [hids, if_neg hkne, hid])
  · intro hp k
    obtain ⟨h₁, h₂⟩ := hpooling (hpool ▸ hp)
    rw [h₁, h₂]
    exact h.pooling (hpool ▸ hp) k

theorem getElem?_set_of_lt {xs : List (Option ReqId)} (hi : i < xs.length) (x : Option ReqId)
    (k : Nat) : (xs.set i x)[k]? = if k = i then some x else xs[k]? := by
  split
  · rename_i hk
    simp [hk, hi]
  · rename_i hk
    rw [getElem?_set_ne (Ne.symm hk)]

theorem HolesInv.removes (hh : b.HolesInv) (h : b.Simulates live) (hr : b.Removes b' i id) :
    b'.HolesInv := by
  have hat := (h.index id i).mp hr.at_row
  have hopen : ∀ k ∈ b.batchUpdateBuilder.removedList, k < b.reqIds.length := by
    rcases hh.phase with hopen | ⟨hflag, _⟩
    · exact hopen
    · rw [hr.unsorted.1] at hflag
      cases hflag
  have hnot : i ∉ b.batchUpdateBuilder.removedList := by
    intro hmem
    rw [(hh.hole i hr.lt.1).mpr hmem] at hat
    simp at hat
  refine ⟨?_, ?_, ?_, ?_⟩
  · rw [hr.removed]
    refine nodup_append.mpr ⟨hh.nodup, by simp, ?_⟩
    intro x hx y hy hxy
    rw [mem_singleton] at hy
    exact hnot (by rw [← hy, ← hxy]; exact hx)
  · intro hflag
    rw [hr.unsorted.2] at hflag
    cases hflag
  · intro k hk
    rw [hr.reqIds, length_set] at hk
    rw [hr.reqIds, hr.removed, getElem?_set_of_lt hr.lt.1, mem_append,
      mem_singleton]
    split
    · rename_i hki
      simp [hki]
    · rename_i hki
      rw [hh.hole k hk]
      simp [hki]
  · left
    intro k hk
    rw [hr.reqIds, length_set]
    rw [hr.removed, mem_append, mem_singleton] at hk
    rcases hk with hk | rfl
    · exact hopen k hk
    · exact hr.lt.1

theorem Simulates.removes (h : b.Simulates live) (hr : b.Removes b' i id) :
    b'.Simulates (update live id none) := by
  have hat := (h.index id i).mp hr.at_row
  have hconfig := hr.only.config
  have hpool : b'.isPoolingModel = b.isPoolingModel :=
    congrArg BatchConfig.isPoolingModel hconfig
  have hids : ∀ k, b'.reqIds[k]? = if k = i then some none else b.reqIds[k]? := by
    intro k
    rw [hr.reqIds, getElem?_set_of_lt hr.lt.1]
  have hne : ∀ id' j, id' ≠ id → b.reqIdToIndex.get? id' = some j → j ≠ i := by
    rintro id' j hid hget rfl
    have := ((h.index id' j).mp hget).symm.trans hat
    simp only [Option.some.injEq] at this
    exact hid this
  have hindex : ∀ id' j, b'.reqIdToIndex.get? id' = some j ↔
      id' ≠ id ∧ b.reqIdToIndex.get? id' = some j := by
    intro id' j
    rw [hr.index, get?_erase]
    split
    · rename_i hid
      simp [hid]
    · rename_i hid
      simp [hid]
  have hlive : ∀ id' l, update live id none id' = some l → id' ≠ id ∧ live id' = some l := by
    intro id' l hl
    rw [update_apply] at hl
    split at hl
    · cases hl
    · rename_i hid
      exact ⟨hid, hl⟩
  obtain ⟨l, hl⟩ := Option.ne_none_iff_exists'.mp ((h.isLive id).mpr ⟨i, hr.at_row⟩)
  refine ⟨?_, ?_, ?_, ?_, ?_, ?_, ?_, ?_, ?_, ?_, ?_, ?_⟩
  · intro id' j
    rw [hindex, hids, h.index]
    by_cases hj : j = i
    · subst hj
      rw [if_pos rfl, hat]
      simp only [Option.some.injEq, reduceCtorEq, iff_false, not_and]
      exact fun hid heq => hid heq.symm
    · rw [if_neg hj]
      constructor
      · exact fun hj => hj.2
      · intro hget
        refine ⟨?_, hget⟩
        rintro rfl
        have := (h.index id' j).mpr hget
        rw [hr.at_row] at this
        exact hj (Option.some.inj this).symm
  · intro id'
    rw [update_apply]
    split
    · rename_i hid
      simp [hindex, hid]
    · rename_i hid
      rw [h.isLive]
      simp [hindex, hid]
  · exact fun id' l' hl' => h.named id' l' (hlive id' l' hl').2
  · intro id' l' j hl' hj
    obtain ⟨hid, hl'⟩ := hlive id' l' hl'
    have hget := ((hindex id' j).mp hj).2
    rw [hconfig, hr.only.row j (hne id' j hid hget)]
    exact h.row id' l' j hl' hget
  · intro id'
    rw [update_apply, hconfig]
    split
    · rename_i hid
      subst hid
      have hold := h.entry id'
      rw [hl] at hold
      have hfits := h.fits id' l hl
      unfold Fits at hfits
      rw [hr.entry, hold]
      cases hp : b.isPoolingModel with
      | true =>
        rw [hp] at hfits
        have hs : l.request.samplingParams = none := by simpa using hfits
        simp [LiveRequest.idEntry, hs, IdEntry.absent]
      | false =>
        rw [hp] at hfits
        obtain ⟨p, hs⟩ := Option.isSome_iff_exists.mp hfits
        simp [LiveRequest.idEntry, hs, IdEntry.absent]
    · rename_i hid
      rw [hr.only.idEntry id' hid, h.entry]
  · intro id' l' j e hl' hj he
    obtain ⟨hid, hl'⟩ := hlive id' l' hl'
    have hget := ((hindex id' j).mp hj).2
    rw [(hr.only.dicts j (hne id' j hid hget)).2.2]
    exact h.embeds id' l' j e hl' hget he
  · intro id' l' hl'
    unfold Fits
    rw [hpool]
    exact h.fits id' l' (hlive id' l' hl').2
  · rw [hr.outputs, hr.reqIds, length_set, length_set]
    exact h.outputs_length
  · rw [hr.specs, hr.reqIds, length_set, length_set]
    exact h.specs_length
  · intro k hk
    rw [hr.reqIds, length_set] at hk
    rw [specAt, hr.specs, getElem?_set_ne (by have := hr.lt.1; omega)]
    exact h.beyond k hk
  · intro k hk
    by_cases hki : k = i
    · subst hki
      have hdicts := hr.dicts
      cases hp : b.isPoolingModel with
      | true =>
        rw [hp, if_pos rfl] at hdicts
        rw [hdicts.1, hdicts.2]
        exact h.pooling hp k
      | false =>
        rw [hp, if_neg Bool.false_ne_true] at hdicts
        rw [hdicts.1, hdicts.2]
        exact ⟨get?_erase_self _ _, get?_erase_self _ _⟩
    · obtain ⟨h₁, h₂, _⟩ := hr.only.dicts k hki
      rw [h₁, h₂]
      apply h.clear
      intro id' hid'
      exact hk id' (by rw [hids, if_neg hki, hid'])
  · intro hp k
    have hdicts := hr.dicts
    rw [hpool] at hp
    rw [hp, if_pos rfl] at hdicts
    rw [hdicts.1, hdicts.2]
    exact h.pooling hp k

/-! ## Swapping -/

theorem Swaps.reqIds_getElem? (hs : b.Swaps b' i₁ i₂ id₁ id₂) (k : Nat) : b'.reqIds[k]? =
      if k = i₂ then some (some id₁) else if k = i₁ then some (some id₂) else b.reqIds[k]? := by
  rw [pySwap_getElem? hs.reqIds, hs.at_left, hs.at_right]

theorem pySwap_length {α : Type} {xs ys : List α} {j : Nat} (h : pySwap xs i j = .ok ys) :
    ys.length = xs.length := by
  obtain ⟨_, _, _, _, rfl⟩ := pySwap_ok h
  simp

theorem HolesInv.swaps (hh : b.HolesInv) (hs : b.Swaps b' i₁ i₂ id₁ id₂) : b'.HolesInv := by
  obtain ⟨_, _, hremoved, hflag⟩ := hs.same
  have hlen := pySwap_length hs.reqIds
  refine ⟨by rw [hremoved]; exact hh.nodup, by rw [hremoved, hflag]; exact hh.sorted, ?_,
    by rw [hremoved, hflag, hlen]; exact hh.phase⟩
  intro k hk
  rw [hlen] at hk
  rw [hremoved, ← hh.hole k hk, hs.reqIds_getElem?]
  split
  · rename_i hk₂
    rw [hk₂, hs.at_right]
    simp
  · split
    · rename_i hk₁
      rw [hk₁, hs.at_left]
      simp
    · rfl

theorem swap_cases {β : Type} (f : Nat → β) (i₁ i₂ k : Nat) :
    (if k = i₂ then f i₁ else if k = i₁ then f i₂ else f k) = f (Equiv.swap i₁ i₂ k) := by
  by_cases h₂ : k = i₂
  · rw [if_pos h₂, h₂, Equiv.swap_apply_right]
  · rw [if_neg h₂]
    by_cases h₁ : k = i₁
    · rw [if_pos h₁, h₁, Equiv.swap_apply_left]
    · rw [if_neg h₁, Equiv.swap_apply_of_ne_of_ne h₁ h₂]

theorem Simulates.swaps_index (h : b.Simulates live) (hs : b.Swaps b' i₁ i₂ id₁ id₂) (id : ReqId)
    (j : Nat) :
    b'.reqIdToIndex.get? id = some j ↔
      b.reqIdToIndex.get? id = some (Equiv.swap i₁ i₂ j) := by
  have hget₁ := (h.index id₁ i₁).mpr hs.at_left
  have hget₂ := (h.index id₂ i₂).mpr hs.at_right
  obtain ⟨n₁, n₂, hn₁, hn₂, hindex⟩ := hs.index
  obtain rfl : i₁ = n₁ := Option.some.inj (hget₁.symm.trans hn₁)
  obtain rfl : i₂ = n₂ := Option.some.inj (hget₂.symm.trans hn₂)
  have hunique : ∀ k, b.reqIdToIndex.get? id = some k → id ≠ id₁ → id ≠ id₂ →
      k ≠ i₁ ∧ k ≠ i₂ := by
    intro k hk hne₁ hne₂
    have hat := (h.index id k).mp hk
    constructor
    · rintro rfl
      have := hat.symm.trans hs.at_left
      simp only [Option.some.injEq] at this
      exact hne₁ this
    · rintro rfl
      have := hat.symm.trans hs.at_right
      simp only [Option.some.injEq] at this
      exact hne₂ this
  rw [hindex, get?_set, get?_set]
  by_cases hid₂ : id = id₂
  · rw [if_pos hid₂, hid₂, hget₂, Option.some.injEq, Option.some.injEq, eq_comm (a := i₂),
      Equiv.swap_apply_eq_iff, Equiv.swap_apply_right, eq_comm]
  · rw [if_neg hid₂]
    by_cases hid₁ : id = id₁
    · rw [if_pos hid₁, hid₁, hget₁, Option.some.injEq, Option.some.injEq, eq_comm (a := i₁),
        Equiv.swap_apply_eq_iff, Equiv.swap_apply_left, eq_comm]
    · rw [if_neg hid₁]
      constructor
      · intro hj
        obtain ⟨h₁, h₂⟩ := hunique j hj hid₁ hid₂
        rwa [Equiv.swap_apply_of_ne_of_ne h₁ h₂]
      · intro hj
        obtain ⟨h₁, h₂⟩ := hunique _ hj hid₁ hid₂
        have hfix := Equiv.swap_apply_of_ne_of_ne h₁ h₂
        rw [Equiv.swap_apply_self] at hfix
        rwa [← hfix] at hj

theorem Simulates.swaps (h : b.Simulates live) (hs : b.Swaps b' i₁ i₂ id₁ id₂) :
    b'.Simulates live := by
  obtain ⟨hconfig, hentry, _, _⟩ := hs.same
  have hpool : b'.isPoolingModel = b.isPoolingModel :=
    congrArg BatchConfig.isPoolingModel hconfig
  have hlen := pySwap_length hs.reqIds
  have hindex := h.swaps_index hs
  have hrow : ∀ k, b'.row k = b.row (Equiv.swap i₁ i₂ k) := by
    intro k
    rw [hs.row, swap_cases]
  have hids : ∀ k, b'.reqIds[k]? = b.reqIds[Equiv.swap i₁ i₂ k]? := by
    intro k
    rw [pySwap_getElem? hs.reqIds, swap_cases fun j => b.reqIds[j]?]
  have hlt₁ := (List.getElem?_eq_some_iff.mp hs.at_left).1
  have hlt₂ := (List.getElem?_eq_some_iff.mp hs.at_right).1
  have hdicts := hs.dicts
  refine ⟨?_, ?_, h.named, ?_, ?_, ?_, ?_, ?_, ?_, ?_, ?_, ?_⟩
  · intro id j
    rw [hindex, hids, h.index]
  · intro id
    rw [h.isLive]
    constructor
    · rintro ⟨i, hi⟩
      exact ⟨Equiv.swap i₁ i₂ i, by rw [hindex, Equiv.swap_apply_self, hi]⟩
    · rintro ⟨i, hi⟩
      exact ⟨_, (hindex id i).mp hi⟩
  · intro id l i hl hi
    rw [hrow, hconfig]
    exact h.row id l _ hl ((hindex id i).mp hi)
  · intro id
    rw [hentry, h.entry, hconfig]
  · intro id l i e hl hi he
    rw [hdicts.1, swapDictValues_get?, swap_cases fun j => b.reqPromptEmbeds.get? j]
    exact h.embeds id l _ e hl ((hindex id i).mp hi) he
  · intro id l hl
    unfold Fits
    rw [hpool]
    exact h.fits id l hl
  · rw [pySwap_length hs.outputs, hlen]
    exact h.outputs_length
  · rw [pySwap_length hs.specs, hlen]
    exact h.specs_length
  · intro k hk
    rw [hlen] at hk
    have hfix : Equiv.swap i₁ i₂ k = k := by
      apply Equiv.swap_apply_of_ne_of_ne <;> omega
    have hspec := congrArg Row.specTokenIds (hrow k)
    rw [hfix] at hspec
    exact hspec.trans (h.beyond k hk)
  · intro k hk
    have hold := h.clear (Equiv.swap i₁ i₂ k) (fun id => by rw [← hids]; exact hk id)
    cases hp : b.isPoolingModel with
    | true =>
      rw [hp, if_pos rfl] at hdicts
      rw [hdicts.2.1, hdicts.2.2]
      exact h.pooling hp k
    | false =>
      rw [hp, if_neg Bool.false_ne_true] at hdicts
      rw [hdicts.2.1, hdicts.2.2, swapDictValues_get?, swapDictValues_get?,
        swap_cases fun j => b.generators.get? j, swap_cases fun j => b.badWordsTokenIds.get? j]
      exact hold
  · intro hp k
    rw [hpool] at hp
    rw [hp, if_pos rfl] at hdicts
    rw [hdicts.2.1, hdicts.2.2]
    exact h.pooling hp k

theorem updateReqSpecTokenIds_ok (h : b.updateReqSpecTokenIds id toks = .ok b') :
    ∃ i, b.reqIdToIndex.get? id = some i ∧ i < b.specTokenIds.length ∧
      b' = { b with
        specTokenIds := b.specTokenIds.set i toks
        tokenIdsCpu := update b.tokenIdsCpu i
          (writeSlice (b.tokenIdsCpu i) (b.numTokensNoSpec i) toks) } := by
  simp only [InputBatch.updateReqSpecTokenIds, bind_ok, get_ok, pySet_natCast_ok,
    require_ok, pure_ok] at h
  obtain ⟨i, hi, _, ⟨hlt, rfl⟩, _, _, rfl⟩ := h
  exact ⟨i, hi, hlt, rfl⟩

theorem updateReqSpecTokenIds_row (hlt : i < b.specTokenIds.length) (hb' : b' = { b with
        specTokenIds := b.specTokenIds.set i toks
        tokenIdsCpu := update b.tokenIdsCpu i
          (writeSlice (b.tokenIdsCpu i) (b.numTokensNoSpec i) toks) }) (k : Nat) :
    b'.row k =
      if k = i then { b.row i with specTokenIds := toks, draftTokens := toks } else b.row k := by
  split
  · rename_i hk
    subst hk
    have hspec : b'.specAt k = toks := by
      rw [specAt, hb']
      simp [hlt]
    have hdraft : b'.draftTokens k = toks := by
      rw [draftTokens, hspec, hb']
      simp only [update_self]
      exact rowPrefix_eq rfl fun p hp => writeSlice_at _ _ hp
    have htokens : b'.tokenColumns k = b.tokenColumns k := by
      rw [hb']
      simp only [tokenColumns, update_self, TokenColumns.mk.injEq, and_true]
      exact tokens_congr (fun _ _ => rfl) fun p hp => writeSlice_before _ _ hp
    rw [row, hspec, hdraft, htokens, hb']
    rfl
  · rename_i hk
    rw [hb']
    simp only [row, tokenColumns, outputAt, specAt, draftTokens, samplingColumns,
      update_of_ne hk, getElem?_set_ne (Ne.symm hk)]

theorem Simulates.updateReqSpecTokenIds (h : b.Simulates live) (hh : b.HolesInv)
    (hu : b.updateReqSpecTokenIds id toks = .ok b') :
    b'.Simulates (update live id
      ((live id).map fun l => { l with specTokenIds := toks })) ∧ b'.HolesInv := by
  obtain ⟨i, hi, hlt, hb'⟩ := updateReqSpecTokenIds_ok hu
  have hat := (h.index id i).mp hi
  have hlti := (List.getElem?_eq_some_iff.mp hat).1
  have hrow := updateReqSpecTokenIds_row hlt hb'
  obtain ⟨l, hl⟩ := Option.ne_none_iff_exists'.mp ((h.isLive id).mpr ⟨i, hi⟩)
  have hlive : ∀ id' l', update live id
      ((live id).map fun l => { l with specTokenIds := toks }) id' = some l' →
      (id' = id ∧ l' = { l with specTokenIds := toks }) ∨ (id' ≠ id ∧ live id' = some l') := by
    intro id' l' hl'
    rw [update_apply] at hl'
    split at hl'
    · rename_i hid
      rw [hl] at hl'
      cases hl'
      exact .inl ⟨hid, rfl⟩
    · rename_i hid
      exact .inr ⟨hid, hl'⟩
  have hconfig : b'.config = b.config := by rw [hb']; rfl
  have hindex : b'.reqIdToIndex = b.reqIdToIndex := by rw [hb']
  have hids : b'.reqIds = b.reqIds := by rw [hb']
  have hbuilder : b'.batchUpdateBuilder = b.batchUpdateBuilder := by rw [hb']
  refine ⟨⟨?_, ?_, ?_, ?_, ?_, ?_, ?_, ?_, ?_, ?_, ?_, ?_⟩, ⟨?_, ?_, ?_, ?_⟩⟩
  · rw [hindex, hids]
    exact h.index
  · intro id'
    rw [hindex, ← h.isLive, update_apply]
    split
    · rename_i hid
      simp [hid, hl]
    · rfl
  · intro id' l' hl'
    rcases hlive id' l' hl' with ⟨rfl, rfl⟩ | ⟨_, hl'⟩
    · exact h.named id' l hl
    · exact h.named id' l' hl'
  · intro id' l' j hl' hj
    rw [hindex] at hj
    rw [hrow, hconfig]
    rcases hlive id' l' hl' with ⟨rfl, rfl⟩ | ⟨hid, hl'⟩
    · obtain rfl : i = j := Option.some.inj (hi.symm.trans hj)
      rw [if_pos rfl, h.row id' l i hl hi]
      rfl
    · rw [if_neg, h.row id' l' j hl' hj]
      rintro rfl
      have := hat.symm.trans ((h.index id' j).mp hj)
      simp only [Option.some.injEq] at this
      exact hid this.symm
  · intro id'
    have hentry : b'.idEntry id' = b.idEntry id' := by rw [hb']; rfl
    rw [hentry, h.entry, hconfig, update_apply]
    split
    · rename_i hid
      rw [hid, hl]
      rfl
    · rfl
  · intro id' l' j e hl' hj he
    rw [hindex] at hj
    have hembeds : b'.reqPromptEmbeds = b.reqPromptEmbeds := by rw [hb']
    rw [hembeds]
    rcases hlive id' l' hl' with ⟨rfl, rfl⟩ | ⟨_, hl'⟩
    · exact h.embeds id' l j e hl hj he
    · exact h.embeds id' l' j e hl' hj he
  · intro id' l' hl'
    unfold Fits
    rw [show b'.isPoolingModel = b.isPoolingModel from congrArg BatchConfig.isPoolingModel hconfig]
    rcases hlive id' l' hl' with ⟨rfl, rfl⟩ | ⟨_, hl'⟩
    · exact h.fits id' l hl
    · exact h.fits id' l' hl'
  · rw [hids, hb']
    exact h.outputs_length
  · rw [hids, hb', length_set]
    exact h.specs_length
  · intro k hk
    rw [hids] at hk
    have hspec := congrArg Row.specTokenIds (hrow k)
    rw [if_neg (by omega)] at hspec
    exact hspec.trans (h.beyond k hk)
  · rw [hids, hb']
    exact h.clear
  · rw [hb']
    exact h.pooling
  · rw [hbuilder]
    exact hh.nodup
  · rw [hbuilder]
    exact hh.sorted
  · rw [hbuilder, hids]
    exact hh.hole
  · rw [hbuilder, hids]
    exact hh.phase

end InputBatch

end VllmCore.Worker
