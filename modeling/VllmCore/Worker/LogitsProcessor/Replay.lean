import VllmCore.Worker.LogitsProcessor
import VllmCore.Worker.InputBatch.AllowedTokens
/-!
# Replaying the changes of a batch

The builder keeps the additions, the removals and the moves of a step apart, and they are
replayed in this order.  The replay follows the batch: after each call it takes the rows
of the last refresh to the rows of now.  What makes the order harmless is that a row on the
list of the removed rows is in no move.
-/

namespace VllmCore.Worker

open Function List Support

variable {β : Type}

/-! ## The replay -/

def addRow (value : AddedRequest → β) (rows : Nat → β) (added : AddedRequest) : Nat → β :=
  update rows added.index (value added)

def moveRow (empty : β) (rows : Nat → β) (moved : Nat × Nat × MoveDirectionality) : Nat → β :=
  match moved.2.2 with
  | .unidirectional => moveEntry empty rows moved.1 moved.2.1
  | .swap => swapEntries rows moved.1 moved.2.1

/-- The rows after an update: added, then removed, then moved. -/
def replay (empty : β) (value : AddedRequest → β) (added : List AddedRequest)
    (removed : List Nat) (moved : List (Nat × Nat × MoveDirectionality)) (rows : Nat → β) :
    Nat → β :=
  moved.foldl (moveRow empty) (clearEntries empty (added.foldl (addRow value) rows) removed)

variable {moved : List (Nat × Nat × MoveDirectionality)} {added : List AddedRequest}
  {removed : List Nat}
variable {k : Nat} {empty : β} {value : AddedRequest → β}

theorem foldl_moveRow_update (empty : β) (h : ∀ m ∈ moved, m.1 ≠ k ∧ m.2.1 ≠ k)
    (rows : Nat → β) (x : β) :
    moved.foldl (moveRow empty) (update rows k x) =
      update (moved.foldl (moveRow empty) rows) k x := by
  induction moved generalizing rows with
  | nil => rfl
  | cons m moved ih =>
    obtain ⟨hsrc, htgt⟩ := h m mem_cons_self
    have hfirst : moveRow empty (update rows k x) m =
        update (moveRow empty rows m) k x := by
      unfold moveRow
      split
      · exact moveEntry_update empty rows hsrc htgt x
      · exact swapEntries_update rows hsrc htgt x
    rw [foldl_cons, foldl_cons, hfirst]
    exact ih (fun m' hm' => h m' (mem_cons_of_mem m hm')) (moveRow empty rows m)

theorem replay_erase_removed {removed' : List Nat}
    (hperm : (removed' ++ [k]).Perm removed) (h : ∀ m ∈ moved, m.1 ≠ k ∧ m.2.1 ≠ k)
    (rows : Nat → β) :
    replay empty value added removed moved rows =
      update (replay empty value added removed' moved rows) k empty := by
  unfold replay
  rw [← foldl_moveRow_update empty h, ← clearEntries_append_singleton,
    clearEntries_congr empty _ fun j => hperm.mem_iff]

theorem replay_added {a : AddedRequest} (h : a.index ∉ removed) (rows : Nat → β) :
    replay empty value (added ++ [a]) removed [] rows =
      update (replay empty value added removed [] rows) a.index (value a) := by
  unfold replay
  rw [foldl_append, foldl_nil, foldl_nil]
  exact clearEntries_update empty _ h (value a)

theorem replay_removed (k : Nat) (rows : Nat → β) :
    replay empty value added (removed ++ [k]) [] rows =
      update (replay empty value added removed [] rows) k empty :=
  clearEntries_append_singleton empty _ removed k

theorem replay_moved (m : Nat × Nat × MoveDirectionality) (rows : Nat → β) :
    replay empty value added removed (moved ++ [m]) rows =
      moveRow empty (replay empty value added removed moved rows) m := by
  unfold replay
  rw [foldl_append]
  rfl

theorem replay_empty (empty : β) (value : AddedRequest → β) (removed : List Nat)
    (moved : List (Nat × Nat × MoveDirectionality)) :
    replay empty value [] removed moved (fun _ => empty) = fun _ => empty := by
  have hclear : clearEntries empty (fun _ => empty) removed = fun _ => empty := by
    funext k
    exact ite_self empty
  have hmove : ∀ m, moveRow empty (fun _ => empty) m = fun _ => empty := by
    intro m
    unfold moveRow
    split
    · funext k
      rw [moveEntry_apply]
      split
      · rfl
      · exact ite_self empty
    · funext k
      rw [swapEntries_apply]
      split
      · rfl
      · exact ite_self empty
  unfold replay
  rw [foldl_nil, hclear]
  induction moved with
  | nil => rfl
  | cons m moved ih => rw [foldl_cons, hmove m, ih]

namespace InputBatch

variable {b b' : InputBatch} {live : ReqId → Option LiveRequest}

/-- What the requests have that are in the rows now. -/
def ownedRows (b : InputBatch) (empty : β) (owned : ReqId → β) (i : Nat) : β :=
  match b.reqIds[i]? with
  | some (some id) => owned id
  | _ => empty

variable {i : Nat}
variable {owned : ReqId → β}

theorem ownedRows_some {id : ReqId}
    (h : b.reqIds[i]? = some (some id)) : b.ownedRows empty owned i = owned id := by
  unfold ownedRows
  rw [h]

theorem ownedRows_empty (h : ∀ id, b.reqIds[i]? ≠ some (some id)) :
    b.ownedRows empty owned i = empty := by
  unfold ownedRows
  split
  next id hid => exact absurd hid (h id)
  · rfl

theorem ownedRows_congr {owned' : ReqId → β} {j : Nat} (hids : b'.reqIds[i]? = b.reqIds[j]?)
    (howned : ∀ id, b.reqIds[j]? = some (some id) → owned' id = owned id) :
    b'.ownedRows empty owned' i = b.ownedRows empty owned j := by
  unfold ownedRows
  rw [hids]
  split
  next id hid => exact howned id hid
  · rfl

/-- The replay of the builder's records takes `rows` to what the requests have now. -/
structure Tracks (empty : β) (value : AddedRequest → β) (rows : Nat → β) (owned : ReqId → β)
    (b : InputBatch) : Prop where
  sampling : b.isPoolingModel = false
  rows : replay empty value b.batchUpdateBuilder.added b.batchUpdateBuilder.removedList
    b.batchUpdateBuilder.moved rows = b.ownedRows empty owned
  nodup : b.batchUpdateBuilder.removedList.Nodup
  holes : ∀ i ∈ b.batchUpdateBuilder.removedList, ∀ id, b.reqIds[i]? ≠ some (some id)
  apart : ∀ m ∈ b.batchUpdateBuilder.moved, m.1 ∉ b.batchUpdateBuilder.removedList ∧
    m.2.1 ∉ b.batchUpdateBuilder.removedList
  oneWay : ∀ m ∈ b.batchUpdateBuilder.moved, m.2.2 = .unidirectional → m.1 ≠ m.2.1

namespace Tracks

variable {empty : β} {value : AddedRequest → β} {rows : Nat → β} {owned owned' : ReqId → β}

theorem congr (h : b.Tracks empty value rows owned) (hpool : b'.isPoolingModel = b.isPoolingModel)
    (hadded : b'.batchUpdateBuilder.added = b.batchUpdateBuilder.added)
    (hmoved : b'.batchUpdateBuilder.moved = b.batchUpdateBuilder.moved)
    (hremoved : b'.batchUpdateBuilder.removedList.Perm b.batchUpdateBuilder.removedList)
    (hids : ∀ i, b'.ownedRows empty owned' i = b.ownedRows empty owned i)
    (hholes : ∀ (i : Nat) (id : ReqId), b'.reqIds[i]? = some (some id) →
      b.reqIds[i]? = some (some id)) : b'.Tracks empty value rows owned' := by
  refine ⟨hpool.trans h.sampling, ?_, hremoved.nodup_iff.mpr h.nodup, ?_, ?_, ?_⟩
  · rw [hadded, hmoved, funext hids, ← h.rows]
    unfold replay
    rw [clearEntries_congr empty _ fun j => hremoved.mem_iff]
  · exact fun i hi id hid => h.holes i (hremoved.mem_iff.mp hi) id (hholes i id hid)
  · rw [hmoved]
    intro m hm
    obtain ⟨hsrc, htgt⟩ := h.apart m hm
    exact ⟨fun hmem => hsrc (hremoved.mem_iff.mp hmem), fun hmem => htgt (hremoved.mem_iff.mp hmem)⟩
  · rw [hmoved]
    exact h.oneWay

variable {id : ReqId}

theorem removes (h : b.Tracks empty value rows owned)
    (hmoved : b.batchUpdateBuilder.moved = []) (hat : b.reqIds[i]? = some (some id))
    (hr : b.Removes b' i id) : b'.Tracks empty value rows owned := by
  obtain ⟨hadded, hsame⟩ := hr.records
  rw [hmoved] at hsame
  have hids : ∀ k, b'.reqIds[k]? = if k = i then some none else b.reqIds[k]? := by
    intro k
    rw [hr.reqIds]
    exact getElem?_set_of_lt hr.lt.1 none k
  have hnot : i ∉ b.batchUpdateBuilder.removedList := fun hmem => h.holes i hmem id hat
  have hrows := h.rows
  rw [hmoved] at hrows
  refine ⟨?_, ?_, ?_, ?_, ?_, ?_⟩
  · exact (congrArg BatchConfig.isPoolingModel hr.only.config).trans h.sampling
  · rw [hadded, hsame, hr.removed, replay_removed, hrows]
    funext k
    rw [update_apply]
    split
    next hk =>
      refine (ownedRows_empty fun id' => ?_).symm
      rw [hids, if_pos hk]
      simp
    next hk =>
      refine (ownedRows_congr ?_ fun _ _ => rfl).symm
      rw [hids, if_neg hk]
  · rw [hr.removed, ← concat_eq_append]
    exact h.nodup.concat hnot
  · intro k hk id'
    rw [hr.removed, mem_append, mem_singleton] at hk
    rw [hids]
    split
    · simp
    next hne => exact h.holes k (hk.resolve_right hne) id'
  · rw [hsame]
    exact fun m hm => absurd hm not_mem_nil
  · rw [hsame]
    exact fun m hm => absurd hm not_mem_nil

theorem popRemoved_cases (hh : b.HolesInv) :
    (b.batchUpdateBuilder.removedList = [] ∧
        b.batchUpdateBuilder.popRemoved.2.removedList = []) ∨
      (b.batchUpdateBuilder.popRemoved.2.removedList ++ [b.nextIndex]).Perm
        b.batchUpdateBuilder.removedList := by
  by_cases hne : b.batchUpdateBuilder.removedList = []
  · refine .inl ⟨hne, ?_⟩
    simp [BatchUpdateBuilder.popRemoved, hne]
  · obtain ⟨e, he, _, hperm, _⟩ := b.batchUpdateBuilder.popRemoved_spec hh.sorted hne
    have hnext : b.nextIndex = e := by simp [nextIndex, he]
    rw [hnext]
    exact .inr hperm

theorem places {r : CachedRequestState} {p : SamplingParams}
    (h : b.Tracks empty value rows owned) (hh : b.HolesInv)
    (hmoved : b.batchUpdateBuilder.moved = []) (hparams : r.samplingParams = some p)
    (hnew : ∀ i : Nat, b.reqIds[i]? ≠ some (some r.reqId))
    (hconfig : b'.config = b.config) (hp : b.Places b' r b.nextIndex) :
    b'.Tracks empty value rows
      (update owned r.reqId (value (r.toAddedRequest b.nextIndex p))) := by
  have hadded := hp.added
  have hsame := hp.moved
  rw [hparams] at hadded
  rw [hmoved] at hsame
  have hrows := h.rows
  rw [hmoved] at hrows
  -- The row is not on the list any more, and the replay without it differs there only.
  obtain ⟨hnot, hsub, hreplay⟩ : b.nextIndex ∉ b'.batchUpdateBuilder.removedList ∧
      (∀ k ∈ b'.batchUpdateBuilder.removedList, k ∈ b.batchUpdateBuilder.removedList) ∧
      ∀ k, k ≠ b.nextIndex → replay empty value b.batchUpdateBuilder.added
        b'.batchUpdateBuilder.removedList [] rows k = b.ownedRows empty owned k := by
    rw [hp.removed]
    rcases popRemoved_cases hh with ⟨hnil, hpop⟩ | hperm
    · rw [hpop]
      refine ⟨not_mem_nil, fun k hk => absurd hk not_mem_nil, fun k _ => ?_⟩
      rw [← hrows, hnil]
    · have hnodup := hperm.nodup_iff.mpr h.nodup
      refine ⟨?_, fun k hk => hperm.mem_iff.mp (mem_append_left _ hk), fun k hk => ?_⟩
      · intro hmem
        exact (nodup_append.mp hnodup).2.2 _ hmem _ (mem_singleton_self _) rfl
      · rw [← hrows, replay_erase_removed hperm (fun m hm => absurd hm not_mem_nil),
          update_of_ne hk]
  refine ⟨?_, ?_, ?_, ?_, ?_, ?_⟩
  · exact (congrArg BatchConfig.isPoolingModel hconfig).trans h.sampling
  · rw [hadded, hsame]
    show replay empty value (b.batchUpdateBuilder.added ++ [r.toAddedRequest b.nextIndex p]) _ []
      rows = _
    rw [replay_added hnot]
    funext k
    rw [update_apply]
    have hids := hp.reqIds_getElem? k
    show (if k = b.nextIndex then _ else _) = _
    by_cases hk : k = b.nextIndex
    · rw [if_pos hk] at hids
      rw [if_pos hk, ownedRows_some hids, update_self]
    · rw [if_neg hk] at hids
      rw [if_neg hk, hreplay k hk]
      refine (ownedRows_congr hids fun id hid => ?_).symm
      apply update_of_ne
      rintro rfl
      exact hnew k hid
  · rw [hp.removed]
    rcases popRemoved_cases hh with ⟨_, hpop⟩ | hperm
    · rw [hpop]
      exact nodup_nil
    · exact (nodup_append.mp (hperm.nodup_iff.mpr h.nodup)).1
  · intro k hk id
    have hne : k ≠ b.nextIndex := by
      intro heq
      rw [heq] at hk
      exact hnot hk
    rw [hp.reqIds_getElem?, if_neg hne]
    exact h.holes k (hsub k hk) id
  · rw [hsame]
    exact fun m hm => absurd hm not_mem_nil
  · rw [hsame]
    exact fun m hm => absurd hm not_mem_nil

variable {src tgt i₁ i₂ : Nat} {id₁ id₂ : ReqId}

theorem moves_records (hpool : b.isPoolingModel = false) (hm : b.Moves b' src tgt id) :
    b'.batchUpdateBuilder = { b.batchUpdateBuilder with
      moved := b.batchUpdateBuilder.moved ++ [(src, tgt, .unidirectional)] } := by
  have hcolumns := hm.columns
  dsimp only at hcolumns
  rw [if_neg (by simp [hpool])] at hcolumns
  rw [hcolumns]
  rfl

theorem swaps_records (hpool : b.isPoolingModel = false) (hs : b.Swaps b' i₁ i₂ id₁ id₂) :
    b'.batchUpdateBuilder = { b.batchUpdateBuilder with
      moved := b.batchUpdateBuilder.moved ++ [(i₁, i₂, .swap)] } := by
  obtain ⟨n, _, _, hcolumns⟩ := hs.columns
  dsimp only at hcolumns
  rw [if_neg (by simp [hpool])] at hcolumns
  rw [hcolumns]
  rfl

theorem moves (h : b.Tracks empty value rows owned)
    (hperm : (b.batchUpdateBuilder.popRemoved.2.removedList ++ [tgt]).Perm
      b.batchUpdateBuilder.removedList)
    (hm : InputBatch.Moves { b with batchUpdateBuilder := b.batchUpdateBuilder.popRemoved.2 } b'
      src tgt id) : b'.Tracks empty value rows owned := by
  obtain ⟨hadded, hmoved⟩ := popRemoved_records b.batchUpdateBuilder
  have hbuilder := moves_records
    (b := { b with batchUpdateBuilder := b.batchUpdateBuilder.popRemoved.2 }) h.sampling hm
  dsimp only at hbuilder
  rw [hadded, hmoved] at hbuilder
  have hat : b.reqIds[src]? = some (some id) := hm.at_src
  have htgt : tgt ∈ b.batchUpdateBuilder.removedList :=
    hperm.mem_iff.mp (mem_append_right _ (mem_singleton_self tgt))
  have hne : src ≠ tgt := by
    rintro rfl
    exact h.holes src htgt id hat
  have hnodup := nodup_append.mp (hperm.nodup_iff.mpr h.nodup)
  have hnot : tgt ∉ b.batchUpdateBuilder.popRemoved.2.removedList := fun hmem =>
    hnodup.2.2 tgt hmem tgt (mem_singleton_self tgt) rfl
  have hsub : ∀ k ∈ b.batchUpdateBuilder.popRemoved.2.removedList,
      k ∈ b.batchUpdateBuilder.removedList := fun k hk =>
    hperm.mem_iff.mp (mem_append_left _ hk)
  have hids : ∀ k, b'.reqIds[k]? =
      if k = src then some none else if k = tgt then some (some id) else b.reqIds[k]? :=
    hm.reqIds_getElem?
  have hrows := h.rows
  rw [replay_erase_removed hperm fun m hm' =>
    ⟨fun heq => (h.apart m hm').1 (heq ▸ htgt), fun heq => (h.apart m hm').2 (heq ▸ htgt)⟩] at hrows
  have hother : ∀ k, k ≠ tgt → replay empty value b.batchUpdateBuilder.added
      b.batchUpdateBuilder.popRemoved.2.removedList b.batchUpdateBuilder.moved rows k =
        b.ownedRows empty owned k := by
    intro k hk
    rw [← hrows, update_of_ne hk]
  refine ⟨?_, ?_, ?_, ?_, ?_, ?_⟩
  · exact (congrArg BatchConfig.isPoolingModel hm.same.1).trans h.sampling
  · rw [hbuilder]
    rw [replay_moved]
    funext k
    show moveEntry empty _ src tgt k = _
    rw [moveEntry_apply]
    by_cases hsrc : k = src
    · rw [if_pos hsrc]
      refine (ownedRows_empty fun id' => ?_).symm
      rw [hids, if_pos hsrc]
      simp
    · rw [if_neg hsrc]
      by_cases htgt' : k = tgt
      · rw [if_pos htgt', hother src hne]
        refine (ownedRows_congr ?_ fun _ _ => rfl).symm
        rw [hids, if_neg hsrc, if_pos htgt', hat]
      · rw [if_neg htgt', hother k htgt']
        refine (ownedRows_congr ?_ fun _ _ => rfl).symm
        rw [hids, if_neg hsrc, if_neg htgt']
  · rw [hbuilder]
    exact hnodup.1
  · rw [hbuilder]
    intro k hk id'
    have hktgt : k ≠ tgt := by
      rintro rfl
      exact hnot hk
    rw [hids, if_neg hktgt]
    split
    · simp
    · exact h.holes k (hsub k hk) id'
  · rw [hbuilder]
    intro m hm'
    rcases mem_append.mp hm' with hm' | hm'
    · obtain ⟨hsrc, htgt'⟩ := h.apart m hm'
      exact ⟨fun hmem => hsrc (hsub _ hmem), fun hmem => htgt' (hsub _ hmem)⟩
    · rw [mem_singleton.mp hm']
      exact ⟨fun hmem => h.holes src (hsub _ hmem) id hat, hnot⟩
  · rw [hbuilder]
    intro m hm' honeWay
    rcases mem_append.mp hm' with hm' | hm'
    · exact h.oneWay m hm' honeWay
    · rw [mem_singleton.mp hm']
      exact hne

theorem swaps (h : b.Tracks empty value rows owned)
    (hs : b.Swaps b' i₁ i₂ id₁ id₂) : b'.Tracks empty value rows owned := by
  have hbuilder := swaps_records h.sampling hs
  have hids := hs.reqIds_getElem?
  have hleft := hs.at_left
  have hright := hs.at_right
  refine ⟨?_, ?_, ?_, ?_, ?_, ?_⟩
  · exact (congrArg BatchConfig.isPoolingModel hs.same.1).trans h.sampling
  · rw [hbuilder]
    rw [replay_moved, h.rows]
    funext k
    show swapEntries _ i₁ i₂ k = _
    rw [swapEntries_apply]
    by_cases h₂ : k = i₂
    · rw [if_pos h₂]
      refine (ownedRows_congr ?_ fun _ _ => rfl).symm
      rw [hids, if_pos h₂, hleft]
    · rw [if_neg h₂]
      by_cases h₁ : k = i₁
      · rw [if_pos h₁]
        refine (ownedRows_congr ?_ fun _ _ => rfl).symm
        rw [hids, if_neg h₂, if_pos h₁, hright]
      · rw [if_neg h₁]
        refine (ownedRows_congr ?_ fun _ _ => rfl).symm
        rw [hids, if_neg h₂, if_neg h₁]
  · rw [hbuilder]
    exact h.nodup
  · rw [hbuilder]
    intro k hk id
    have h₂ : k ≠ i₂ := by
      rintro rfl
      exact h.holes k hk id₂ hright
    have h₁ : k ≠ i₁ := by
      rintro rfl
      exact h.holes k hk id₁ hleft
    rw [hids, if_neg h₂, if_neg h₁]
    exact h.holes k hk id
  · rw [hbuilder]
    intro m hm
    rcases mem_append.mp hm with hm | hm
    · exact h.apart m hm
    · rw [mem_singleton.mp hm]
      exact ⟨fun hmem => h.holes i₁ hmem id₁ hleft, fun hmem => h.holes i₂ hmem id₂ hright⟩
  · rw [hbuilder]
    intro m hm honeWay
    rcases mem_append.mp hm with hm | hm
    · exact h.oneWay m hm honeWay
    · rw [mem_singleton.mp hm] at honeWay
      cases honeWay

theorem keptByCondense :
    KeptByCondense live fun b => b.Tracks empty value rows owned where
  sorted {b} h := by
    obtain ⟨hmoved, hadded⟩ := ensureRemovedSorted_moved b.batchUpdateBuilder
    refine h.congr rfl hadded hmoved ?_ (fun _ => rfl) fun _ _ => id
    unfold BatchUpdateBuilder.ensureRemovedSorted
    split
    · exact .refl _
    · exact perm_insertionSort _ _
  moves _ _ hperm hm h := h.moves hperm hm
  trimmed {b} n htaken h := by
    have hids : ∀ (k : Nat) (id : ReqId),
        (b.reqIds.take n)[k]? = some (some id) ↔ b.reqIds[k]? = some (some id) := by
      intro k id
      rw [getElem?_take]
      split
      · exact .rfl
      next hk =>
        exact ⟨fun hnone => absurd hnone (by simp), fun hat => absurd (htaken k id hat) hk⟩
    refine h.congr rfl rfl rfl (.refl _) ?_ fun k id => (hids k id).mp
    intro k
    by_cases hat : ∃ id, b.reqIds[k]? = some (some id)
    · obtain ⟨id, hat⟩ := hat
      rw [ownedRows_some hat, ownedRows_some ((hids k id).mpr hat)]
    · rw [not_exists] at hat
      rw [ownedRows_empty hat, ownedRows_empty fun id hid => hat id ((hids k id).mp hid)]

end Tracks

end InputBatch

end VllmCore.Worker
