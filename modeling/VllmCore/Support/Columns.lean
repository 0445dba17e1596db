import Mathlib.Data.Finset.Card
import Mathlib.Data.List.Range
/-!
# Columns and rows of preallocated arrays

A preallocated array is a function from its index: only the part that was written
is meaningful, and its length is kept elsewhere.  A column is written one entry at a
time; a row of a two-dimensional array is written in slices, and read as the list
of its valid prefix.
-/

namespace VllmCore.Support

open List

variable {α : Type}

/-- The first `n` entries of a row. -/
def rowPrefix (row : Nat → α) (n : Nat) : List α := (List.range n).map row

/-- `row[start : start + len(xs)] = xs`. -/
def writeSlice (row : Nat → α) (start : Nat) (xs : List α) : Nat → α := fun p =>
  if start ≤ p then (xs[p - start]?).getD (row p) else row p

/-- `dst[:n] = src[:n]`. -/
def copyPrefix (dst src : Nat → α) (n : Nat) : Nat → α := fun p =>
  if p < n then src p else dst p

/-- `col[i], col[j] = col[j], col[i]`, for entries that are values. -/
def swapEntries (col : Nat → α) (i j : Nat) : Nat → α :=
  Function.update (Function.update col i (col j)) j (col i)

/-- `col[tgt] = col[src]`, and then `col[src]` is empty. -/
def moveEntry (empty : α) (col : Nat → α) (src tgt : Nat) : Nat → α :=
  Function.update (Function.update col tgt (col src)) src empty

def clearEntries (empty : α) (col : Nat → α) (removed : List Nat) : Nat → α := fun k =>
  if k ∈ removed then empty else col k

/-- `n` entries are not empty. -/
def Occupied (empty : α) (col : Nat → α) (n : Int) : Prop :=
  ∃ rows : Finset Nat, (∀ k, k ∈ rows ↔ col k ≠ empty) ∧ n = rows.card

/-- Exchange the first `n` entries of two rows, through a copy of the first one. -/
def swapPrefixes (table : Nat → Nat → α) (i j n : Nat) : Nat → Nat → α :=
  let tmp := table i
  let t := Function.update table i (copyPrefix (table i) (table j) n)
  Function.update t j (copyPrefix (t j) tmp n)

@[simp] theorem length_rowPrefix (row : Nat → α) (n : Nat) : (rowPrefix row n).length = n := by
  simp [rowPrefix]

@[simp] theorem rowPrefix_zero (row : Nat → α) : rowPrefix row 0 = [] := rfl

variable {row : Nat → α} {n p k i j : Nat} {removed : List Nat}

theorem rowPrefix_congr {row' : Nat → α} (h : ∀ p < n, row p = row' p) :
    rowPrefix row n = rowPrefix row' n := by
  apply map_congr_left
  intro p hp
  exact h p (mem_range.mp hp)

theorem rowPrefix_copyPrefix (dst src : Nat → α) {m : Nat} (h : n ≤ m) :
    rowPrefix (copyPrefix dst src m) n = rowPrefix src n := by
  apply rowPrefix_congr
  intro p hp
  rw [copyPrefix, if_pos (by omega)]

theorem writeSlice_before (row : Nat → α) {start : Nat} (xs : List α) (h : p < start) :
    writeSlice row start xs p = row p := by
  rw [writeSlice, if_neg (by omega)]

theorem writeSlice_at (row : Nat → α) (start : Nat) {xs : List α} {p : Nat}
    (h : p < xs.length) : writeSlice row start xs (start + p) = xs[p] := by
  rw [writeSlice, if_pos (by omega)]
  simp [h]

theorem rowPrefix_writeSlice (row : Nat → α) (start : Nat) (xs : List α) :
    rowPrefix (writeSlice row start xs) (start + xs.length) = rowPrefix row start ++ xs := by
  apply ext_getElem
  · simp
  · intro p hp hp'
    by_cases hlt : p < start
    · rw [getElem_append_left (by simpa using hlt)]
      simp [rowPrefix, writeSlice_before row xs hlt]
    · obtain ⟨q, rfl⟩ := Nat.exists_eq_add_of_le (Nat.le_of_not_lt hlt)
      have hq : q < xs.length := by
        simp only [length_rowPrefix] at hp
        omega
      simp [rowPrefix, writeSlice_at row start hq]

theorem rowPrefix_add (row : Nat → α) (n m : Nat) :
    rowPrefix row (n + m) = rowPrefix row n ++ rowPrefix (fun p => row (n + p)) m := by
  simp [rowPrefix, range_add, Function.comp_def]

theorem rowPrefix_eq {xs : List α} (hlen : xs.length = n)
    (h : ∀ (p : Nat) (hp : p < xs.length), row p = xs[p]) : rowPrefix row n = xs := by
  apply ext_getElem
  · simp [hlen]
  · intro p _ hp
    simp [rowPrefix, h p hp]

theorem swapEntries_apply (col : Nat → α) (i j k : Nat) :
    swapEntries col i j k = if k = j then col i else if k = i then col j else col k := by
  unfold swapEntries
  rw [Function.update_apply, Function.update_apply]

theorem moveEntry_apply (empty : α) (col : Nat → α) (src tgt k : Nat) :
    moveEntry empty col src tgt k =
      if k = src then empty else if k = tgt then col src else col k := by
  unfold moveEntry
  rw [Function.update_apply, Function.update_apply]

theorem moveEntry_update (empty : α) (col : Nat → α) {src tgt : Nat} (hsrc : src ≠ k)
    (htgt : tgt ≠ k) (x : α) :
    moveEntry empty (Function.update col k x) src tgt =
      Function.update (moveEntry empty col src tgt) k x := by
  unfold moveEntry
  rw [Function.update_of_ne hsrc, Function.update_comm htgt.symm, Function.update_comm hsrc.symm]

theorem swapEntries_update (col : Nat → α) (hi : i ≠ k) (hj : j ≠ k) (x : α) :
    swapEntries (Function.update col k x) i j = Function.update (swapEntries col i j) k x := by
  unfold swapEntries
  rw [Function.update_of_ne hi, Function.update_of_ne hj, Function.update_comm hi.symm,
    Function.update_comm hj.symm]

theorem clearEntries_congr (empty : α) (col : Nat → α) {removed' : List Nat}
    (h : ∀ k, k ∈ removed ↔ k ∈ removed') :
    clearEntries empty col removed = clearEntries empty col removed' := by
  funext k
  exact if_congr (h k) rfl rfl

theorem clearEntries_append_singleton (empty : α) (col : Nat → α) (removed : List Nat) (k : Nat) :
    clearEntries empty col (removed ++ [k]) =
      Function.update (clearEntries empty col removed) k empty := by
  funext j
  unfold clearEntries
  rw [Function.update_apply]
  by_cases hj : j = k
  · rw [if_pos (by simp [hj]), if_pos hj]
  · rw [if_neg hj]
    exact if_congr (by simp [hj]) rfl rfl

theorem clearEntries_update (empty : α) (col : Nat → α) (h : k ∉ removed) (x : α) :
    clearEntries empty (Function.update col k x) removed =
      Function.update (clearEntries empty col removed) k x := by
  funext j
  unfold clearEntries
  rw [Function.update_apply, Function.update_apply]
  by_cases hj : j = k
  · rw [if_pos hj, if_pos hj, hj, if_neg h]
  · rw [if_neg hj, if_neg hj]

theorem clearEntries_nil (empty : α) (col : Nat → α) : clearEntries empty col [] = col := by
  funext j
  unfold clearEntries
  rw [if_neg not_mem_nil]

theorem clearEntries_cons (empty : α) (col : Nat → α) (k : Nat) (removed : List Nat) :
    clearEntries empty col (k :: removed) =
      clearEntries empty (Function.update col k empty) removed := by
  funext j
  unfold clearEntries
  rw [Function.update_apply]
  by_cases hj : j = k
  · rw [if_pos (by simp [hj]), if_pos hj, ite_self]
  · rw [if_neg hj]
    exact if_congr (by simp [hj]) rfl rfl

namespace Occupied

variable [DecidableEq α] {empty : α} {col : Nat → α} {n : Int}

theorem update (h : Occupied empty col n) (k : Nat) (x : α) :
    Occupied empty (Function.update col k x)
      (n + (if x = empty then 0 else 1) - (if col k = empty then 0 else 1)) := by
  obtain ⟨rows, hmem, rfl⟩ := h
  have hk := hmem k
  by_cases hx : x = empty
  · refine ⟨rows.erase k, fun j => ?_, ?_⟩
    · rw [Finset.mem_erase, hmem, Function.update_apply]
      by_cases hj : j = k
      · simp [hj, hx]
      · simp [hj]
    · rw [if_pos hx]
      split
      next hempty => rw [Finset.erase_eq_of_notMem (by simp [hk, hempty])]; omega
      next hfull =>
        have hin : k ∈ rows := hk.mpr hfull
        have hpos := Finset.card_pos.mpr ⟨k, hin⟩
        rw [Finset.card_erase_of_mem hin]
        omega
  · refine ⟨insert k rows, fun j => ?_, ?_⟩
    · rw [Finset.mem_insert, hmem, Function.update_apply]
      by_cases hj : j = k
      · simp [hj, hx]
      · simp [hj]
    · rw [if_neg hx]
      split
      next hempty =>
        rw [Finset.card_insert_of_notMem (by simp [hk, hempty])]
        omega
      next hfull =>
        rw [Finset.insert_eq_of_mem (hk.mpr hfull)]
        omega

theorem moveEntry (h : Occupied empty col n) {src tgt : Nat} (hne : src ≠ tgt) :
    Occupied empty (moveEntry empty col src tgt) (n - (if col tgt = empty then 0 else 1)) := by
  have hmove := (h.update tgt (col src)).update src empty
  rw [Function.update_of_ne hne, if_pos rfl] at hmove
  have hn : n - (if col tgt = empty then 0 else 1) =
      n + (if col src = empty then 0 else 1) - (if col tgt = empty then 0 else 1) + 0 -
        (if col src = empty then 0 else 1) := by omega
  rw [hn]
  exact hmove

theorem swapEntries (h : Occupied empty col n) (i j : Nat) :
    Occupied empty (swapEntries col i j) n := by
  have hswap := (h.update i (col j)).update j (col i)
  have hj : Function.update col i (col j) j = col j := by
    rw [Function.update_apply]
    exact ite_self (col j)
  rw [hj] at hswap
  have hn : n = n + (if col j = empty then 0 else 1) - (if col i = empty then 0 else 1) +
      (if col i = empty then 0 else 1) - (if col j = empty then 0 else 1) := by omega
  rw [hn]
  exact hswap

theorem eq_empty (h : Occupied empty col 0) : col = fun _ => empty := by
  obtain ⟨rows, hmem, hcard⟩ := h
  have hrows : rows = ∅ := Finset.card_eq_zero.mp (by omega)
  funext k
  have hk := hmem k
  rw [hrows] at hk
  simpa using hk

theorem eq_card (h : Occupied empty col n) {bound : Nat} (hbound : ∀ k, bound ≤ k → col k = empty) :
    n = ((List.range bound).filter fun k => col k ≠ empty).length := by
  obtain ⟨rows, hmem, rfl⟩ := h
  have hrows : rows = ((List.range bound).filter fun k => col k ≠ empty).toFinset := by
    ext k
    rw [hmem, mem_toFinset, mem_filter, mem_range, decide_eq_true_eq]
    refine ⟨fun hk => ⟨?_, hk⟩, And.right⟩
    by_contra hge
    exact hk (hbound k (by omega))
  rw [hrows, toFinset_card_of_nodup (nodup_range.filter _)]

end Occupied

theorem swapPrefixes_right (table : Nat → Nat → α) (i j : Nat) (h : p < n) :
    swapPrefixes table i j n j p = table i p := by
  simp only [swapPrefixes, Function.update_self]
  rw [copyPrefix, if_pos h]

theorem swapPrefixes_left (table : Nat → Nat → α) (hij : i ≠ j)
    (h : p < n) : swapPrefixes table i j n i p = table j p := by
  simp only [swapPrefixes, Function.update_of_ne hij, Function.update_self]
  rw [copyPrefix, if_pos h]

theorem swapPrefixes_of_ne (table : Nat → Nat → α) (hi : k ≠ i) (hj : k ≠ j)
    (n : Nat) : swapPrefixes table i j n k = table k := by
  simp only [swapPrefixes, Function.update_of_ne hi, Function.update_of_ne hj]

end VllmCore.Support
