import Mathlib.Data.List.Sort
import VllmCore.Support.Dict
/-!
# Unique values and runs

`np.unique` with the first indices, values in the order of their first appearance, and the
runs of equal keys in a sorted list, as numpy code finds them with `diff` and boundaries.
-/

namespace VllmCore.Support

open List

variable {α ι : Type} [LinearOrder α]

/-- `np.unique(xs, return_index=True)`: the values, ascending, each with its first index. -/
def npUnique (xs : List α) : List (α × Nat) :=
  (xs.dedup.insertionSort (· ≤ ·)).map fun x => (x, xs.idxOf x)

theorem map_fst_npUnique (xs : List α) :
    (npUnique xs).map Prod.fst = xs.dedup.insertionSort (· ≤ ·) := by
  unfold npUnique
  rw [map_map]
  exact map_id _

theorem pairwise_npUnique (xs : List α) : ((npUnique xs).map Prod.fst).Pairwise (· < ·) := by
  rw [map_fst_npUnique]
  have hsorted : (xs.dedup.insertionSort (· ≤ ·)).Pairwise (· ≤ ·) :=
    pairwise_insertionSort _ _
  have hnodup : (xs.dedup.insertionSort (· ≤ ·)).Nodup :=
    (perm_insertionSort _ _).nodup_iff.mpr (nodup_dedup xs)
  exact (hsorted.and hnodup).imp fun h => lt_of_le_of_ne h.1 h.2

theorem mem_npUnique {xs : List α} {x : α} {i : Nat} :
    (x, i) ∈ npUnique xs ↔ x ∈ xs ∧ i = xs.idxOf x := by
  unfold npUnique
  rw [mem_map]
  constructor
  · rintro ⟨y, hy, heq⟩
    cases heq
    rw [mem_insertionSort, mem_dedup] at hy
    exact ⟨hy, rfl⟩
  · rintro ⟨hx, rfl⟩
    refine ⟨x, ?_, rfl⟩
    rw [mem_insertionSort, mem_dedup]
    exact hx

/-- The values in the order of their first appearance: those at the sorted first indices. -/
def firstAppearance (xs : List α) : List α :=
  (((npUnique xs).map Prod.snd).insertionSort (· ≤ ·)).filterMap (xs[·]?)

theorem firstAppearance_perm (xs : List α) : (firstAppearance xs).Perm xs.dedup := by
  have hindices : (((npUnique xs).map Prod.snd).insertionSort (· ≤ ·)).Perm
      ((npUnique xs).map Prod.snd) := perm_insertionSort _ _
  have hvalues : ((npUnique xs).map Prod.snd).filterMap (xs[·]?) =
      xs.dedup.insertionSort (· ≤ ·) := by
    unfold npUnique
    rw [map_map, filterMap_map]
    have hget : ∀ x ∈ xs.dedup.insertionSort (· ≤ ·), xs[xs.idxOf x]? = some x := by
      intro x hx
      rw [mem_insertionSort, mem_dedup] at hx
      exact getElem?_idxOf hx
    calc
      (xs.dedup.insertionSort (· ≤ ·)).filterMap (fun x => xs[xs.idxOf x]?) =
          (xs.dedup.insertionSort (· ≤ ·)).filterMap some := filterMap_congr hget
      _ = xs.dedup.insertionSort (· ≤ ·) := filterMap_some
  refine (hindices.filterMap _).trans ?_
  rw [hvalues]
  exact perm_insertionSort _ _

theorem nodup_firstAppearance (xs : List α) : (firstAppearance xs).Nodup :=
  (firstAppearance_perm xs).nodup_iff.mpr (nodup_dedup xs)

theorem mem_firstAppearance {xs : List α} {x : α} : x ∈ firstAppearance xs ↔ x ∈ xs := by
  rw [(firstAppearance_perm xs).mem_iff, mem_dedup]

def runs (key : ι → α) : List ι → List (α × List ι)
  | [] => []
  | x :: xs =>
    match runs key xs with
    | [] => [(key x, [x])]
    | (k, ys) :: rest =>
      if key x = k then (k, x :: ys) :: rest else (key x, [x]) :: (k, ys) :: rest

/-- In a list sorted by the key, the run of a key is all that has it. -/
theorem runs_spec (key : ι → α) {xs : List ι} (h : xs.Pairwise fun x y => key x ≤ key y) :
    ((runs key xs).map Prod.fst).Pairwise (· < ·) ∧
      ∀ k ys, (k, ys) ∈ runs key xs ↔
        ys = xs.filter (fun x => decide (key x = k)) ∧ ys ≠ [] := by
  induction xs with
  | nil =>
    refine ⟨List.Pairwise.nil, ?_⟩
    intro k ys
    simp only [runs, not_mem_nil, filter_nil, false_iff]
    rintro ⟨rfl, hne⟩
    exact hne rfl
  | cons x xs ih =>
    have hx := (pairwise_cons.mp h).1
    have ih := ih (pairwise_cons.mp h).2
    unfold runs
    cases hruns : runs key xs with
    | nil =>
      rw [hruns] at ih
      -- no key has a run, so nothing is left
      have hnil : xs = [] := by
        apply eq_nil_iff_forall_not_mem.mpr
        intro y hy
        have hrun := (ih.2 (key y) (xs.filter fun z => decide (key z = key y))).mpr
          ⟨rfl, ne_nil_of_mem (mem_filter.mpr ⟨hy, by simp⟩)⟩
        cases hrun
      rw [hnil]
      refine ⟨by simp, ?_⟩
      intro k ys
      by_cases hk : key x = k
      · rw [filter_cons_of_pos (by simpa using hk), mem_singleton, ← hk]
        simp
        intro hys
        rw [hys]
        exact cons_ne_nil _ _
      · rw [filter_cons_of_neg (by simpa using hk), mem_singleton]
        simp [Ne.symm hk]
    | cons run rest =>
      obtain ⟨k₀, ys₀⟩ := run
      rw [hruns] at ih
      have hhead := (ih.2 k₀ ys₀).mp mem_cons_self
      have hle : key x ≤ k₀ := by
        obtain ⟨y, hy⟩ := exists_mem_of_ne_nil _ hhead.2
        rw [hhead.1, mem_filter] at hy
        have hyk : key y = k₀ := by simpa using hy.2
        rw [← hyk]
        exact hx y hy.1
      have hrest := (pairwise_cons.mp ih.1)
      by_cases heq : key x = k₀
      · dsimp only
        rw [if_pos heq]
        refine ⟨ih.1, ?_⟩
        intro k ys
        by_cases hk : key x = k
        · rw [filter_cons_of_pos (by simpa using hk)]
          have hk₀ : k = k₀ := hk.symm.trans heq
          rw [hk₀, ← hhead.1, mem_cons, Prod.mk.injEq]
          constructor
          · rintro (⟨_, rfl⟩ | hmem)
            · exact ⟨rfl, cons_ne_nil _ _⟩
            · exact absurd (hrest.1 k₀ (mem_map.mpr ⟨_, hmem, rfl⟩)) (lt_irrefl _)
          · rintro ⟨rfl, _⟩
            exact .inl ⟨rfl, rfl⟩
        · rw [filter_cons_of_neg (by simpa using hk), ← ih.2 k ys, mem_cons,
            mem_cons, Prod.mk.injEq, Prod.mk.injEq]
          have hne : ¬k = k₀ := fun h => hk (heq.trans h.symm)
          simp [hne]
      · dsimp only
        rw [if_neg heq]
        have hlt : key x < k₀ := lt_of_le_of_ne hle heq
        have hall : ∀ y ∈ xs, key x < key y := by
          intro y hy
          have hrun := (ih.2 (key y) (xs.filter fun z => decide (key z = key y))).mpr
            ⟨rfl, ne_nil_of_mem (mem_filter.mpr ⟨hy, by simp⟩)⟩
          obtain heq' | hmem := mem_cons.mp hrun
          · have hkey : key y = k₀ := congrArg Prod.fst heq'
            rw [hkey]
            exact hlt
          · exact lt_trans hlt (hrest.1 _ (mem_map.mpr ⟨_, hmem, rfl⟩))
        refine ⟨pairwise_cons.mpr ⟨?_, ih.1⟩, ?_⟩
        · intro k hk
          obtain rfl | hmem := mem_cons.mp hk
          · exact hlt
          · exact lt_trans hlt (hrest.1 _ hmem)
        · intro k ys
          rw [mem_cons]
          by_cases hk : key x = k
          · have hnone : xs.filter (fun z => decide (key z = k)) = [] := by
              apply filter_eq_nil_iff.mpr
              intro y hy
              have hne : key y ≠ k := fun h => absurd (hall y hy) (by rw [h, hk]; exact lt_irrefl _)
              simpa using hne
            rw [filter_cons_of_pos (by simpa using hk), hnone, ih.2 k ys, hnone,
              Prod.mk.injEq]
            constructor
            · rintro (⟨_, rfl⟩ | ⟨rfl, hne⟩)
              · exact ⟨rfl, cons_ne_nil _ _⟩
              · exact absurd rfl hne
            · rintro ⟨rfl, _⟩
              exact .inl ⟨hk.symm, rfl⟩
          · rw [filter_cons_of_neg (by simpa using hk), ih.2 k ys, Prod.mk.injEq]
            have hne : ¬k = key x := fun h => hk h.symm
            simp [hne]

end VllmCore.Support
