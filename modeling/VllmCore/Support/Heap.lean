import Mathlib.Data.List.Nodup
/-!
# Binary heaps in a list

The functions of Python's `heapq` over an arbitrary strict comparison.  Moving an
item along a path of the tree is written as a sequence of swaps.  The comparison
need not be an order: keys may have changed since an item was pushed, and then
only the items of the heap are known, not their arrangement.
-/

namespace VllmCore.Support.Heap

open List

variable {α : Type} (lt : α → α → Bool)

def swapAt (h : List α) (i j : Nat) : List α :=
  match h[i]?, h[j]? with
  | some a, some b => (h.set i b).set j a
  | _, _ => h

/-- `_siftdown`: move the item at `pos` towards `start` while it is smaller than its
parent.  `pos` is enough fuel. -/
def siftDown (start : Nat) : Nat → Nat → List α → List α
  | 0, _, h => h
  | fuel + 1, pos, h =>
    if start < pos then
      match h[pos]?, h[(pos - 1) / 2]? with
      | some newitem, some parent =>
        if lt newitem parent then
          siftDown start fuel ((pos - 1) / 2) (swapAt h pos ((pos - 1) / 2))
        else h
      | _, _ => h
    else h

/-- The smaller child of `pos`, if there is one. -/
def smallerChild (h : List α) (pos : Nat) : Option Nat :=
  match h[2 * pos + 1]? with
  | none => none
  | some left =>
    match h[2 * pos + 2]? with
    | none => some (2 * pos + 1)
    | some right => some (if lt left right then 2 * pos + 1 else 2 * pos + 2)

/-- The first loop of `_siftup`: move the item at `pos` down to a leaf.  The length of
the heap is enough fuel. -/
def sinkToLeaf : Nat → Nat → List α → Nat × List α
  | 0, pos, h => (pos, h)
  | fuel + 1, pos, h =>
    match smallerChild lt h pos with
    | none => (pos, h)
    | some child => sinkToLeaf fuel child (swapAt h pos child)

def siftUp (h : List α) (pos : Nat) : List α :=
  let leaf := sinkToLeaf lt h.length pos h
  siftDown lt pos leaf.1 leaf.1 leaf.2

/-- `heappush`. -/
def push (h : List α) (item : α) : List α :=
  siftDown lt 0 h.length h.length (h ++ [item])

/-- `heappop`: the first item and the heap without it. -/
def pop (h : List α) : Option (α × List α) :=
  match h with
  | [] => none
  | first :: rest =>
    match rest.getLast? with
    | none => some (first, [])
    | some last => some (first, siftUp lt (last :: rest.dropLast) 0)

def heapify (h : List α) : List α :=
  (List.range (h.length / 2)).reverse.foldl (siftUp lt) h

/-- The items in the order in which popping yields them.  The length of the heap is
enough fuel. -/
def inOrder : Nat → List α → List α
  | 0, _ => []
  | fuel + 1, h =>
    match pop lt h with
    | none => []
    | some (item, rest) => item :: inOrder fuel rest

/-! ## What a heap holds -/

theorem swapAt_perm (h : List α) (i j : Nat) : (swapAt h i j).Perm h := by
  unfold swapAt
  split
  next a b ha hb =>
    obtain ⟨hi, rfl⟩ := List.getElem?_eq_some_iff.mp ha
    obtain ⟨hj, rfl⟩ := List.getElem?_eq_some_iff.mp hb
    exact List.set_set_perm hi hj
  · exact .refl h

theorem siftDown_perm (start fuel pos : Nat) (h : List α) :
    (siftDown lt start fuel pos h).Perm h := by
  induction fuel generalizing pos h with
  | zero => exact .refl h
  | succ fuel ih =>
    unfold siftDown
    split
    · split
      · split
        · exact (ih _ _).trans (swapAt_perm h _ _)
        · exact .refl h
      · exact .refl h
    · exact .refl h

theorem sinkToLeaf_perm (fuel pos : Nat) (h : List α) : (sinkToLeaf lt fuel pos h).2.Perm h := by
  induction fuel generalizing pos h with
  | zero => exact .refl h
  | succ fuel ih =>
    unfold sinkToLeaf
    split
    · exact .refl h
    · exact (ih _ _).trans (swapAt_perm h _ _)

theorem siftUp_perm (h : List α) (pos : Nat) : (siftUp lt h pos).Perm h :=
  (siftDown_perm lt _ _ _ _).trans (sinkToLeaf_perm lt _ _ h)

theorem push_perm (h : List α) (item : α) : (push lt h item).Perm (item :: h) :=
  (siftDown_perm lt _ _ _ _).trans perm_append_comm

variable {h rest : List α} {item : α}

theorem pop_perm (hpop : pop lt h = some (item, rest)) : h.Perm (item :: rest) := by
  cases h with
  | nil => cases hpop
  | cons top tail =>
    dsimp only [pop] at hpop
    cases hlast : tail.getLast? with
    | none =>
      rw [hlast] at hpop
      rw [getLast?_eq_none_iff] at hlast
      cases hpop
      rw [hlast]
    | some last =>
      rw [hlast] at hpop
      cases hpop
      have htail : tail = tail.dropLast ++ [last] :=
        (dropLast_append_getLast? last hlast).symm
      calc item :: tail
          = item :: (tail.dropLast ++ [last]) := by rw [← htail]
        _ |>.Perm (item :: last :: tail.dropLast) := perm_append_comm.cons item
        _ |>.Perm (item :: siftUp lt (last :: tail.dropLast) 0) :=
            (siftUp_perm lt _ 0).symm.cons item

theorem pop_eq_none_iff : pop lt h = none ↔ h = [] := by
  cases h with
  | nil => simp [pop]
  | cons first rest =>
    unfold pop
    dsimp only
    split <;> simp

theorem pop_head (hpop : pop lt h = some (item, rest)) : h.head? = some item := by
  unfold pop at hpop
  split at hpop
  · cases hpop
  · split at hpop <;> cases hpop <;> rfl

theorem heapify_perm (h : List α) : (heapify lt h).Perm h := by
  unfold heapify
  generalize (List.range (h.length / 2)).reverse = positions
  induction positions generalizing h with
  | nil => exact .refl h
  | cons pos positions ih => exact (ih _).trans (siftUp_perm lt h pos)

theorem inOrder_perm (fuel : Nat) (h : List α) (hfuel : h.length ≤ fuel) :
    (inOrder lt fuel h).Perm h := by
  induction fuel generalizing h with
  | zero =>
    have hnil : h = [] := length_eq_zero_iff.mp (by omega)
    rw [hnil]
    exact .refl _
  | succ fuel ih =>
    unfold inOrder
    cases hpop : pop lt h with
    | none => rw [(pop_eq_none_iff lt).mp hpop]
    | some r =>
      obtain ⟨item, rest⟩ := r
      have hperm := pop_perm lt hpop
      have hlen := hperm.length_eq
      rw [length_cons] at hlen
      exact ((ih rest (by omega)).cons item).trans hperm.symm

end VllmCore.Support.Heap
