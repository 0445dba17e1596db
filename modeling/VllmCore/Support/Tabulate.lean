import VllmCore.Support.Scatter
import VllmCore.Support.Slices
import Mathlib.Order.Interval.Finset.Nat
import Mathlib.Algebra.BigOperators.Group.Finset.Piecewise
/-!
# Lists by index

An array that is computed from other arrays entry by entry is a function on its indices.
Reshaping, gathering along an index array, and inverting an index array that permutes its
indices are then statements about these functions.
-/

namespace VllmCore.Support

open Function List Nat

variable {α β γ : Type}

def tab (n : Nat) (f : Nat → α) : List α := (List.range n).map f

@[simp] theorem length_tab (n : Nat) (f : Nat → α) : (tab n f).length = n := by simp [tab]

theorem getElem?_tab (n : Nat) (f : Nat → α) (i : Nat) :
    (tab n f)[i]? = if i < n then some (f i) else none := by
  unfold tab
  rw [getElem?_map]
  split
  next h => rw [getElem?_range h, Option.map_some]
  next h => rw [getElem?_eq_none (by rw [length_range]; omega), Option.map_none]

variable {n c y m i : Nat} {mask : Nat → Bool}
variable {f g : Nat → α} {xs : List α} {x : α}

theorem tab_congr (h : ∀ i < n, f i = g i) : tab n f = tab n g :=
  map_congr_left fun i hi => h i (mem_range.mp hi)

theorem eq_tab (hlength : xs.length = n) (h : ∀ i < n, xs[i]? = some (f i)) : xs = tab n f := by
  apply ext_getElem?
  intro i
  rw [getElem?_tab]
  split
  next hi => exact h i hi
  · exact getElem?_eq_none (by omega)

theorem eq_tab_getD (xs : List α) (x : α) : xs = tab xs.length fun i => xs[i]?.getD x := by
  apply eq_tab rfl
  intro i hi
  rw [getElem?_eq_getElem hi]
  rfl

theorem mem_tab : x ∈ tab n f ↔ ∃ i < n, f i = x := by
  simp [tab]

theorem tab_succ (n : Nat) (f : Nat → α) : tab (n + 1) f = tab n f ++ [f n] := by
  simp [tab, range_succ]

theorem count_tab_succ [DecidableEq α] (n : Nat) (f : Nat → α) (x : α) :
    (tab (n + 1) f).count x = (tab n f).count x + if f n = x then 1 else 0 := by
  rw [tab_succ, count_append, count_singleton]
  simp

theorem map_tab (g : α → β) (n : Nat) (f : Nat → α) : (tab n f).map g = tab n fun i => g (f i) := by
  simp [tab]

theorem zipWith_tab (g : α → β → γ) (n : Nat) (f : Nat → α) (f' : Nat → β) :
    List.zipWith g (tab n f) (tab n f') = tab n fun i => g (f i) (f' i) := by
  simp [tab, zipWith_map]

theorem zip_tab (n : Nat) (f : Nat → α) (g : Nat → β) :
    (tab n f).zip (tab n g) = tab n fun i => (f i, g i) := by
  simp [tab, zip_map']

theorem mapM_tab {g : α → Py β} {h : Nat → β} (hg : ∀ i < n, g (f i) = .ok (h i)) :
    (tab n f).mapM g = .ok (tab n h) := by
  unfold tab
  rw [mapM_ok_iff, forall₂_map_left_iff, forall₂_map_right_iff, forall₂_same]
  intro i hi
  exact hg i (mem_range.mp hi)

/-! ## Blocks -/

theorem block_div {x : Nat} (h : y < c) : (x * c + y) / c = x := by
  rw [Nat.mul_comm, mul_add_div (by omega), div_eq_of_lt h, add_zero]

theorem block_mod {x : Nat} (h : y < c) : (x * c + y) % c = y := by
  rw [Nat.mul_comm, mul_add_mod, mod_eq_of_lt h]

theorem block_lt {x : Nat} (hx : x < m) (hy : y < c) : x * c + y < m * c :=
  calc x * c + y < x * c + c := by omega
    _ = (x + 1) * c := (succ_mul x c).symm
    _ ≤ m * c := mul_le_mul_right c hx

theorem flatMap_tab (m c : Nat) (f : Nat → Nat → α) :
    ((List.range m).flatMap fun i => tab c (f i)) = tab (m * c) fun p => f (p / c) (p % c) := by
  induction m with
  | zero => simp [tab]
  | succ m ih =>
    rw [range_succ, flatMap_append, ih, flatMap_singleton]
    unfold tab
    rw [succ_mul, range_add, map_append, map_map]
    congr 1
    apply map_congr_left
    intro j hj
    have hj := mem_range.mp hj
    show f m j = f ((m * c + j) / c) ((m * c + j) % c)
    rw [block_div hj, block_mod hj]

theorem count_tab_congr [DecidableEq α] [DecidableEq β] {g : Nat → β} {y : β}
    (h : ∀ i < n, (f i = x ↔ g i = y)) : (tab n f).count x = (tab n g).count y := by
  unfold tab List.count
  rw [countP_map, countP_map]
  apply countP_congr
  intro i hi
  have hi := h i (mem_range.mp hi)
  simpa using hi

theorem count_tab_block [DecidableEq α] (hi : i < m) (h : ∀ p < m * c, f p = x → p / c = i) :
    (tab (m * c) f).count x = (tab c fun j => f (i * c + j)).count x := by
  have hrows : tab (m * c) f = (List.range m).flatMap fun i => tab c fun j => f (i * c + j) := by
    rw [flatMap_tab m c fun i j => f (i * c + j)]
    apply tab_congr
    intro p hp
    rw [div_add_mod']
  have hcounts : ∀ k ∈ List.range m, (List.count x ∘ fun i => tab c fun j => f (i * c + j)) k =
      if k = i then (tab c fun j => f (i * c + j)).count x else 0 := by
    intro k hk
    by_cases hki : k = i
    · rw [if_pos hki, hki]
      rfl
    · rw [if_neg hki]
      apply count_eq_zero.mpr
      intro hx
      obtain ⟨j, hj, hfx⟩ := mem_tab.mp hx
      have hblock := h _ (block_lt (mem_range.mp hk) hj) hfx
      rw [block_div hj] at hblock
      exact hki hblock
  have hsum : ((List.range m).map fun k =>
      if k = i then (tab c fun j => f (i * c + j)).count x else 0).sum =
      (Finset.range m).sum fun k =>
        if k = i then (tab c fun j => f (i * c + j)).count x else 0 := rfl
  rw [hrows, count_flatMap, map_congr_left hcounts, hsum, Finset.sum_ite_eq',
    if_pos (Finset.mem_range.mpr hi)]

theorem slice_tab (n : Nat) (f : Nat → α) {a : Nat} (h : a + c ≤ n) :
    ((tab n f).drop a).take c = tab c fun i => f (a + i) := by
  apply eq_tab
  · rw [length_take, length_drop, length_tab]
    omega
  · intro i hi
    rw [getElem?_take, if_pos hi, getElem?_drop, getElem?_tab, if_pos (by omega)]

/-! ## Index arrays -/

/-- `np.take_along_axis`, along a row. -/
def takeAlong (row : List α) (indices : List Int) : Py (List α) := indices.mapM (pyGet row)

theorem takeAlong_tab {f : Nat → Nat} (hf : ∀ i < n, f i < m) :
    takeAlong (tab m g) (tab n fun i => (f i : Int)) = .ok (tab n fun i => g (f i)) := by
  apply mapM_tab
  intro i hi
  apply pyGet_natCast_ok.mpr
  rw [getElem?_tab, if_pos (hf i hi)]

/-- `inv[perm] = arange`. -/
def inverseRow (perm : List Int) : Py (List Int) :=
  perm.zipIdx.foldlM (fun inv e => pySet inv e.1 (e.2 : Int)) (List.replicate perm.length 0)

/-- A map that permutes the numbers below `n`. -/
def PermBelow (n : Nat) (f : Nat → Nat) : Prop := Set.BijOn f (Set.Iio n) (Set.Iio n)

theorem PermBelow.of_injOn {f : Nat → Nat} (hlt : ∀ i < n, f i < n)
    (hinj : ∀ i < n, ∀ j < n, f i = f j → i = j) : PermBelow n f :=
  ((Set.finite_Iio n).injOn_iff_bijOn_of_mapsTo fun i hi => hlt i hi).mp
    fun i hi j hj hij => hinj i hi j hj hij

theorem PermBelow.lt {f : Nat → Nat} (h : PermBelow n f) (hi : i < n) : f i < n := h.mapsTo hi

theorem PermBelow.inj {f : Nat → Nat} (h : PermBelow n f) {j : Nat} (hi : i < n) (hj : j < n)
    (hij : f i = f j) : i = j := h.injOn hi hj hij

theorem PermBelow.exists_inverse {f : Nat → Nat} (h : PermBelow n f) :
    ∃ g, PermBelow n g ∧ (∀ i < n, g (f i) = i) ∧ ∀ i < n, f (g i) = i := by
  have hinv := h.invOn_invFunOn
  refine ⟨invFunOn f (Set.Iio n), ?_, fun i hi => hinv.1 hi, fun i hi => hinv.2 hi⟩
  exact (Set.bijOn_comm hinv).mpr h

theorem PermBelow.blocks {f : Nat → Nat} (h : PermBelow m f) :
    PermBelow (m * c) fun p => f (p / c) * c + p % c := by
  have hc : ∀ p < m * c, 0 < c := by
    intro p hp
    exact Nat.pos_of_mul_pos_left (Nat.zero_lt_of_lt hp)
  have hdiv : ∀ p < m * c, p / c < m := by
    intro p hp
    exact Nat.div_lt_of_lt_mul (Nat.mul_comm m c ▸ hp)
  apply PermBelow.of_injOn
  · intro p hp
    exact block_lt (h.lt (hdiv p hp)) (mod_lt p (hc p hp))
  · intro p hp q hq hpq
    have hp' := mod_lt p (hc p hp)
    have hq' := mod_lt q (hc p hp)
    have hblock : f (p / c) = f (q / c) :=
      calc f (p / c) = (f (p / c) * c + p % c) / c := (block_div hp').symm
        _ = (f (q / c) * c + q % c) / c := congrArg (· / c) hpq
        _ = f (q / c) := block_div hq'
    have hoffset : p % c = q % c :=
      calc p % c = (f (p / c) * c + p % c) % c := (block_mod hp').symm
        _ = (f (q / c) * c + q % c) % c := congrArg (· % c) hpq
        _ = q % c := block_mod hq'
    have hdivs := h.inj (hdiv p hp) (hdiv q hq) hblock
    rw [← div_add_mod' p c, ← div_add_mod' q c, hdivs, hoffset]

theorem inverseRow_tab {f g : Nat → Nat} (h : PermBelow n f) (hleft : ∀ i < n, g (f i) = i) :
    inverseRow (tab n fun i => (f i : Int)) = .ok (tab n fun i => (g i : Int)) := by
  have hzip : (tab n fun i => (f i : Int)).zipIdx = tab n fun i => ((f i : Int), i) := by
    apply eq_tab
    · rw [length_zipIdx, length_tab]
    · intro i hi
      rw [getElem?_zipIdx, getElem?_tab, if_pos hi, Option.map_some, zero_add]
  have hfold : inverseRow (tab n fun i => (f i : Int)) =
      (tab n fun i => (f i, (i : Int))).foldlM (fun inv w => pySet inv (w.1 : Int) w.2)
        (List.replicate n 0) := by
    unfold inverseRow
    rw [hzip, length_tab]
    unfold tab
    rw [foldlM_map, foldlM_map]
  rw [hfold, foldlM_pySet]
  · congr 1
    apply eq_tab
    · rw [length_scatter, length_replicate]
    · intro j hj
      obtain ⟨i, hi, rfl⟩ := h.surjOn hj
      apply getElem?_scatter_of_mem
      · rw [map_tab]
        apply nodup_range.map_on
        intro a ha b hb hab
        exact h.inj (mem_range.mp ha) (mem_range.mp hb) hab
      · rw [hleft i hi]
        exact mem_tab.mpr ⟨i, hi, rfl⟩
      · rw [length_replicate]
        exact h.lt hi
  · intro w hw
    obtain ⟨i, hi, rfl⟩ := mem_tab.mp hw
    rw [length_replicate]
    exact h.lt hi

theorem tab_perm {f : Nat → Nat} (h : PermBelow n f) (g : Nat → α) :
    (tab n fun i => g (f i)).Perm (tab n g) := by
  have hrange : ((List.range n).map f).Perm (List.range n) := by
    apply (subperm_of_subset ?_ ?_).perm_of_length_le (by simp)
    · apply nodup_range.map_on
      intro i hi j hj hij
      exact h.inj (mem_range.mp hi) (mem_range.mp hj) hij
    · intro x hx
      obtain ⟨i, hi, rfl⟩ := mem_map.mp hx
      exact mem_range.mpr (h.lt (mem_range.mp hi))
  have hmap := hrange.map g
  rw [map_map] at hmap
  exact hmap

/-! ## Masks -/

theorem pyGet_tab (h : i < n) : pyGet (tab n f) (i : Int) = .ok (f i) := by
  apply pyGet_natCast_ok.mpr
  rw [getElem?_tab, if_pos h]

theorem pySet_tab (h : i < n) (x : α) :
    pySet (tab n f) (i : Int) x = .ok (tab n (update f i x)) := by
  apply pySet_ok.mpr
  refine ⟨i, pyIndex_natCast (by rw [length_tab]; exact h), (eq_tab ?_ ?_).symm⟩
  · rw [length_set, length_tab]
  · intro j hj
    by_cases hij : j = i
    · rw [hij, update_self, getElem?_set_self (by rw [length_tab]; exact h)]
    · rw [update_of_ne hij, getElem?_set_ne (Ne.symm hij), getElem?_tab, if_pos hj]

def chosen (n : Nat) (mask : Nat → Bool) : List Nat := (List.range n).filter mask

def picked (n : Nat) (mask : Nat → Bool) (f : Nat → α) : List α := (chosen n mask).map f

theorem mem_chosen : i ∈ chosen n mask ↔ i < n ∧ mask i = true := by
  rw [chosen, mem_filter, mem_range]

theorem nodup_chosen (n : Nat) (mask : Nat → Bool) : (chosen n mask).Nodup :=
  nodup_range.filter mask

theorem length_picked (n : Nat) (mask : Nat → Bool) (f : Nat → α) :
    (picked n mask f).length = (chosen n mask).length := length_map f

theorem count_true_tab (n : Nat) (mask : Nat → Bool) :
    (tab n mask).count true = (chosen n mask).length := by
  unfold tab chosen List.count
  rw [countP_map, countP_eq_length_filter]
  congr 2
  ext i
  simp

theorem picked_congr (h : ∀ i < n, mask i = true → f i = g i) :
    picked n mask f = picked n mask g := by
  apply map_congr_left
  intro i hi
  exact h i (mem_chosen.mp hi).1 (mem_chosen.mp hi).2

theorem picked_append_not (n : Nat) (mask : Nat → Bool) (f : Nat → α) :
    (picked n mask f ++ picked n (fun i => !mask i) f).Perm (tab n f) := by
  unfold picked tab chosen
  rw [← map_append]
  exact (filter_append_perm mask (List.range n)).map f

theorem picked_update (hi : i < n) (hmask : mask i = false) (f : Nat → α) :
    (picked n (update mask i true) f).Perm (f i :: picked n mask f) := by
  have hchosen : (chosen n (update mask i true)).Perm (i :: chosen n mask) := by
    have hnew : i ∉ chosen n mask := by
      intro hmem
      have := (mem_chosen.mp hmem).2
      rw [hmask] at this
      cases this
    rw [perm_ext_iff_of_nodup (nodup_chosen _ _)
      (nodup_cons.mpr ⟨hnew, nodup_chosen _ _⟩)]
    intro j
    rw [mem_cons, mem_chosen, mem_chosen]
    by_cases hij : j = i
    · rw [hij, update_self]
      simp [hi]
    · rw [update_of_ne hij]
      simp [hij]
  exact hchosen.map f

theorem take_filter_of_pairwise {p : α → Bool}
    (h : xs.Pairwise fun x y => p y = true → p x = true) :
    xs.take (xs.filter p).length = xs.filter p := by
  induction xs with
  | nil => rfl
  | cons x xs ih =>
    rw [pairwise_cons] at h
    by_cases hx : p x = true
    · rw [filter_cons_of_pos hx, length_cons, take_succ_cons, ih h.2]
    · have hnone : xs.filter p = [] := by
        apply filter_eq_nil_iff.mpr
        intro y hy hpy
        exact hx (h.1 y hy hpy)
      rw [filter_cons_of_neg hx, hnone]
      rfl

end VllmCore.Support
