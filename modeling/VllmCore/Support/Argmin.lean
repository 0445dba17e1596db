import VllmCore.Support.Py
import Mathlib.Data.List.Sort
/-!
# Positions of least items, and positions in order

`np.argmin` gives the first position of a least item, and `np.argsort` the positions in the
order of their items.  Its default sort is not stable, so which of several orders it gives
is left open.
-/

namespace VllmCore.Support

open List

variable {α : Type} [LinearOrder α]

/-- The first position of a least item, where `best` was found at `bestIdx`. -/
def argminFrom (best : α) (bestIdx i : Nat) : List α → Nat
  | [] => bestIdx
  | x :: xs => if x < best then argminFrom x i (i + 1) xs else argminFrom best bestIdx (i + 1) xs

def argmin : List α → Py Nat
  | [] => .error (.valueError "attempt to get argmin of an empty sequence")
  | x :: xs => .ok (argminFrom x 0 1 xs)

def argmax (xs : List α) : Py Nat :=
  if xs.isEmpty then .error (.valueError "attempt to get argmax of an empty sequence")
  else argmin (xs.map OrderDual.toDual)

theorem argminFrom_spec {xs : List α} {best : α} {bestIdx i : Nat} {ys : List α}
    (hlength : ys.length = i) (hbest : ys[bestIdx]? = some best) (hleast : ∀ y ∈ ys, best ≤ y) :
    ∃ x, (ys ++ xs)[argminFrom best bestIdx i xs]? = some x ∧ ∀ y ∈ ys ++ xs, x ≤ y := by
  induction xs generalizing best bestIdx i ys with
  | nil =>
    rw [append_nil]
    exact ⟨best, hbest, hleast⟩
  | cons x xs ih =>
    have happend : ys ++ x :: xs = (ys ++ [x]) ++ xs := by simp
    have hlength' : (ys ++ [x]).length = i + 1 := by rw [length_append, hlength]; rfl
    rw [happend, argminFrom]
    split
    next hlt =>
      apply ih hlength'
      · rw [getElem?_append_right (by omega), hlength, Nat.sub_self]
        rfl
      · intro y hy
        rcases mem_append.mp hy with hy | hy
        · exact hlt.le.trans (hleast y hy)
        · rw [mem_singleton.mp hy]
    next hge =>
      apply ih hlength'
      · rw [List.getElem?_append_left (List.getElem?_eq_some_iff.mp hbest).1]
        exact hbest
      · intro y hy
        rcases mem_append.mp hy with hy | hy
        · exact hleast y hy
        · rw [mem_singleton.mp hy]
          exact not_lt.mp hge

theorem argmin_spec {xs : List α} (h : xs ≠ []) :
    ∃ i x, argmin xs = .ok i ∧ xs[i]? = some x ∧ ∀ y ∈ xs, x ≤ y := by
  cases xs with
  | nil => exact absurd rfl h
  | cons x xs =>
    obtain ⟨y, hy, hleast⟩ := @argminFrom_spec _ _ xs x 0 1 [x] rfl rfl
      fun y hy => by rw [mem_singleton.mp hy]
    exact ⟨_, y, rfl, hy, hleast⟩

theorem argmax_spec {xs : List α} (h : xs ≠ []) :
    ∃ i x, argmax xs = .ok i ∧ xs[i]? = some x ∧ ∀ y ∈ xs, y ≤ x := by
  obtain ⟨i, x, hi, hx, hleast⟩ := argmin_spec
    (show xs.map OrderDual.toDual ≠ [] by simpa using h)
  rw [getElem?_map] at hx
  obtain ⟨y, hy, rfl⟩ := Option.map_eq_some_iff.mp hx
  refine ⟨i, y, ?_, hy, ?_⟩
  · unfold argmax
    rw [if_neg (by simpa using h)]
    exact hi
  · intro z hz
    exact hleast _ (mem_map.mpr ⟨z, hz, rfl⟩)

/-- `np.argsort`: the positions in some ascending order of their items. -/
structure Argsort (α : Type) [LinearOrder α] where
  run : List α → List Nat
  perm : ∀ xs, (run xs).Perm (List.range xs.length)
  sorted : ∀ xs, (run xs).Pairwise fun i j =>
    ∀ x y, xs[i]? = some x → xs[j]? = some y → x ≤ y

def Argsort.stable (α : Type) [LinearOrder α] : Argsort α where
  run xs := (xs.zipIdx.insertionSort fun a b => a.1 ≤ b.1).map Prod.snd
  perm xs := by
    have hperm := (perm_insertionSort (fun a b : α × Nat => a.1 ≤ b.1) xs.zipIdx).map Prod.snd
    rw [zipIdx_map_snd, ← range_eq_range'] at hperm
    exact hperm
  sorted xs := by
    have : Std.Total fun a b : α × Nat => a.1 ≤ b.1 := ⟨fun a b => le_total a.1 b.1⟩
    have : IsTrans (α × Nat) fun a b => a.1 ≤ b.1 := ⟨fun a b c => le_trans⟩
    have hsorted := pairwise_insertionSort (fun a b : α × Nat => a.1 ≤ b.1) xs.zipIdx
    rw [pairwise_map]
    apply hsorted.imp_of_mem
    intro a b ha hb hle x y hx hy
    have ha := mk_mem_zipIdx_iff_getElem?.mp ((perm_insertionSort _ _).mem_iff.mp ha)
    have hb := mk_mem_zipIdx_iff_getElem?.mp ((perm_insertionSort _ _).mem_iff.mp hb)
    rw [ha] at hx
    rw [hb] at hy
    rw [← Option.some.inj hx, ← Option.some.inj hy]
    exact hle

end VllmCore.Support
