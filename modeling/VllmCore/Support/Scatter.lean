import VllmCore.Support.Dict
/-!
# Scattered writes

Values written to positions of a list, one after the other.  Where the positions are
distinct, the order does not matter: every position holds the value written there, or what
it held before.
-/

namespace VllmCore.Support

open List

variable {α : Type}

def scatter (xs : List α) (writes : List (Nat × α)) : List α :=
  writes.foldl (fun xs w => xs.set w.1 w.2) xs

@[simp] theorem length_scatter (xs : List α) (writes : List (Nat × α)) :
    (scatter xs writes).length = xs.length := by
  unfold scatter
  induction writes generalizing xs with
  | nil => rfl
  | cons w writes ih => rw [foldl_cons, ih, length_set]

theorem scatter_cons (xs : List α) (w : Nat × α) (writes : List (Nat × α)) :
    scatter xs (w :: writes) = scatter (xs.set w.1 w.2) writes := rfl

variable {xs : List α} {writes : List (Nat × α)} {p : Nat}

theorem getElem?_scatter_of_not_mem
    (h : p ∉ writes.map Prod.fst) : (scatter xs writes)[p]? = xs[p]? := by
  induction writes generalizing xs with
  | nil => rfl
  | cons w writes ih =>
    rw [map_cons, mem_cons, not_or] at h
    rw [scatter_cons, ih h.2, getElem?_set_ne (Ne.symm h.1)]

theorem getElem?_scatter_of_mem (hnodup : (writes.map Prod.fst).Nodup) {x : α} (h : (p, x) ∈ writes)
    (hp : p < xs.length) : (scatter xs writes)[p]? = some x := by
  induction writes generalizing xs with
  | nil => cases h
  | cons w writes ih =>
    rw [map_cons, nodup_cons] at hnodup
    rw [scatter_cons]
    rcases mem_cons.mp h with rfl | h
    · rw [getElem?_scatter_of_not_mem hnodup.1]
      exact getElem?_set_self hp
    · exact ih hnodup.2 h (by rw [length_set]; exact hp)

theorem map_scatter_zip {xs : List α} {positions : List Nat} {values : List α}
    (hlength : positions.length = values.length) (hnodup : positions.Nodup)
    (hlt : ∀ p ∈ positions, p < xs.length) :
    positions.map (fun p => (scatter xs (positions.zip values))[p]?) = values.map some := by
  have hnodup' : ((positions.zip values).map Prod.fst).Nodup := by
    rw [map_fst_zip hlength.le]
    exact hnodup
  apply ext_getElem
  · rw [length_map, length_map, hlength]
  · intro j hj hj'
    rw [length_map] at hj hj'
    have hzip := getElem_mem (l := positions.zip values) (n := j) (by
      rw [length_zip]
      omega)
    rw [getElem_zip] at hzip
    rw [getElem_map, getElem_map]
    exact getElem?_scatter_of_mem hnodup' hzip (hlt _ (getElem_mem hj))

theorem foldlM_pySet (h : ∀ w ∈ writes, w.1 < xs.length) :
    writes.foldlM (fun xs w => pySet xs (w.1 : Int) w.2) xs = .ok (scatter xs writes) := by
  induction writes generalizing xs with
  | nil => rfl
  | cons w writes ih =>
    have hset : pySet xs (w.1 : Int) w.2 = .ok (xs.set w.1 w.2) :=
      pySet_ok.mpr ⟨w.1, pyIndex_natCast (h w mem_cons_self), rfl⟩
    rw [foldlM_cons, hset]
    apply ih
    intro v hv
    rw [length_set]
    exact h v (mem_cons_of_mem w hv)

/-- `xs.scatter_(0, index, src)`. -/
def torchScatter (xs : List α) (index : List Int) (src : List α) : Py (List α) :=
  if src.length < index.length then
    .error (.runtimeError "Expected index to be smaller than src apart from dimension 0")
  else if ∃ i ∈ index, i < 0 ∨ (xs.length : Int) ≤ i then
    .error (.runtimeError "index is out of bounds for dimension 0")
  else .ok (scatter xs ((index.map Int.toNat).zip src))

theorem length_torchScatter {ys : List α} {index : List Int} {src : List α}
    (h : torchScatter xs index src = .ok ys) : ys.length = xs.length := by
  unfold torchScatter at h
  split at h
  · cases h
  · split at h
    · cases h
    · cases h
      exact length_scatter _ _

theorem torchScatter_ok (h : ∀ w ∈ writes, w.1 < xs.length) :
    torchScatter xs (writes.map fun w => (w.1 : Int)) (writes.map Prod.snd) =
      .ok (scatter xs writes) := by
  unfold torchScatter
  rw [if_neg (by rw [length_map, length_map]; omega), if_neg]
  · congr 2
    rw [map_map]
    exact (zip_of_prod rfl rfl).symm
  · rintro ⟨i, hi, hout⟩
    obtain ⟨w, hw, rfl⟩ := mem_map.mp hi
    have hlt := h w hw
    omega

end VllmCore.Support
