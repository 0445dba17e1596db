import VllmCore.Support.Py
import Mathlib.Data.List.Range
/-!
# Slices with a stride, and columns

A list is split into its slices `xs[0::n]`, …, `xs[n-1::n]`, and a list of rows of
different lengths is read column by column.  Neither loses or repeats an item.
-/

namespace VllmCore.Support

open List Nat

variable {α β : Type}

/-! ## Traversals -/

variable {f : α → Py β} {xs : List α} {ys : List β}

theorem mapM_ok_iff : xs.mapM f = .ok ys ↔ List.Forall₂ (fun x y => f x = .ok y) xs ys := by
  induction xs generalizing ys with
  | nil =>
    rw [mapM_nil, pure_ok]
    constructor
    · rintro rfl
      exact .nil
    · intro h
      cases h
      rfl
  | cons x xs ih =>
    simp only [mapM_cons, bind_ok, pure_ok]
    constructor
    · rintro ⟨y, hy, ys', hys, rfl⟩
      exact .cons hy (ih.mp hys)
    · intro h
      cases h with
      | cons hy hys => exact ⟨_, hy, _, ih.mpr hys, rfl⟩

variable {y : β} {x : α} {is : List Nat} {n : Nat}

theorem exists_of_mem_mapM (h : xs.mapM f = .ok ys) (hy : y ∈ ys) : ∃ x ∈ xs, f x = .ok y := by
  rw [mapM_ok_iff] at h
  induction h with
  | nil => cases hy
  | cons hx _ ih =>
    rcases mem_cons.mp hy with rfl | hy
    · exact ⟨_, mem_cons_self, hx⟩
    · obtain ⟨x, hmem, hf⟩ := ih hy
      exact ⟨x, mem_cons_of_mem _ hmem, hf⟩

theorem exists_mem_of_mapM (h : xs.mapM f = .ok ys) (hx : x ∈ xs) : ∃ y ∈ ys, f x = .ok y := by
  rw [mapM_ok_iff] at h
  induction h with
  | nil => cases hx
  | cons hfst _ ih =>
    rcases mem_cons.mp hx with rfl | hx
    · exact ⟨_, mem_cons_self, hfst⟩
    · obtain ⟨y, hmem, hf⟩ := ih hx
      exact ⟨y, mem_cons_of_mem _ hmem, hf⟩

theorem getElem?_of_mapM (h : xs.mapM f = .ok ys) {i : Nat} (hy : ys[i]? = some y) :
    ∃ x, xs[i]? = some x ∧ f x = .ok y := by
  rw [mapM_ok_iff] at h
  induction h generalizing i with
  | nil => cases hy
  | cons hx _ ih =>
    cases i with
    | zero =>
      cases hy
      exact ⟨_, rfl, hx⟩
    | succ i =>
      exact ih hy

theorem forM_ok {f : α → Py Unit} (h : xs.forM f = .ok ()) (hx : x ∈ xs) : f x = .ok () := by
  induction xs with
  | nil => cases hx
  | cons y ys ih =>
    change (f y >>= fun _ => ys.forM f) = .ok () at h
    rw [bind_ok] at h
    obtain ⟨_, hy, hys⟩ := h
    rcases mem_cons.mp hx with rfl | hx
    · exact hy
    · exact ih hys hx

theorem foldlM_establishes {f : β → α → Py β} {P : α → β → Prop}
    (hkeep : ∀ a x s s', P a s → f s x = .ok s' → P a s')
    (hnew : ∀ x s s', f s x = .ok s' → P x s') :
    ∀ {xs : List α} {s s' : β}, xs.foldlM f s = .ok s' → ∀ x ∈ xs, P x s' := by
  intro xs
  induction xs with
  | nil => exact fun _ x hx => absurd hx not_mem_nil
  | cons y ys ih =>
    intro s s' h x hx
    rw [foldlM_cons, bind_ok] at h
    obtain ⟨t, hy, hys⟩ := h
    rcases mem_cons.mp hx with rfl | hx
    · exact foldlM_inv (fun u z u' _ hu hz => hkeep x z u u' hu hz) (hnew x s t hy) hys
    · exact ih hys x hx

theorem map_of_mapM {γ : Type} {g : α → γ} {k : β → γ} (h : xs.mapM f = .ok ys)
    (hf : ∀ x ∈ xs, ∀ y, f x = .ok y → k y = g x) : ys.map k = xs.map g := by
  rw [mapM_ok_iff] at h
  induction h with
  | nil => rfl
  | cons hx _ ih =>
    rw [map_cons, map_cons, hf _ mem_cons_self _ hx,
      ih fun x hmem => hf x (mem_cons_of_mem _ hmem)]

theorem getElem?_flatten_rows {rows : List (List α)} {m : Nat}
    (h : ∀ row ∈ rows, row.length = m) {p t : Nat} (ht : t < m) :
    rows.flatten[p * m + t]? = rows[p]?.bind (·[t]?) := by
  induction rows generalizing p with
  | nil => rfl
  | cons row rows ih =>
    have hrow := h row mem_cons_self
    rw [flatten_cons]
    cases p with
    | zero =>
      rw [getElem?_append_left (by omega), zero_mul, zero_add]
      rfl
    | succ p =>
      have hrest := ih (fun row hrow => h row (mem_cons_of_mem _ hrow)) (p := p)
      rw [getElem?_append_right (by rw [succ_mul]; omega), getElem?_cons_succ,
        ← hrest]
      congr 1
      rw [succ_mul]
      omega

/-! ## Strides -/

/-- `xs[i::n]`. -/
def stride (xs : List α) (i n : Nat) : List α :=
  (xs.zipIdx.filter fun x => i ≤ x.2 ∧ (x.2 - i) % n = 0).map Prod.fst

theorem flatMap_update_perm (hnd : is.Nodup) {j : Nat} (hj : j ∈ is) (f : Nat → List α) (x : α) :
    (is.flatMap fun i => if i = j then x :: f i else f i).Perm (x :: is.flatMap f) := by
  induction is with
  | nil => cases hj
  | cons i is ih =>
    rw [flatMap_cons, flatMap_cons]
    rw [nodup_cons] at hnd
    by_cases hij : i = j
    · have hrest : (is.flatMap fun i => if i = j then x :: f i else f i) = is.flatMap f := by
        apply flatMap_congr
        intro k hk
        rw [if_neg]
        rintro rfl
        exact hnd.1 (hij ▸ hk)
      rw [if_pos hij, hrest]
      exact .refl _
    · have hmem : j ∈ is := (mem_cons.mp hj).resolve_left fun h => hij h.symm
      rw [if_neg hij]
      exact ((ih hnd.2 hmem).append_left (f i)).trans perm_middle

theorem flatMap_filter_perm (hnd : is.Nodup) (key : α → Nat) (xs : List α)
    (hkey : ∀ x ∈ xs, key x ∈ is) :
    (is.flatMap fun i => xs.filter fun x => key x = i).Perm xs := by
  induction xs with
  | nil => simp
  | cons x xs ih =>
    have hsplit : (is.flatMap fun i => (x :: xs).filter fun x => key x = i) =
        is.flatMap fun i => if i = key x then x :: (xs.filter fun x => key x = i)
          else xs.filter fun x => key x = i := by
      apply flatMap_congr
      intro i _
      by_cases hi : i = key x
      · rw [if_pos hi, filter_cons_of_pos (by simp [hi])]
      · rw [if_neg hi, filter_cons_of_neg (by simpa using fun h : key x = i => hi h.symm)]
    rw [hsplit]
    exact (flatMap_update_perm hnd (hkey x mem_cons_self) _ x).trans
      ((ih fun y hy => hkey y (mem_cons_of_mem x hy)).cons x)

theorem flatten_stride_perm (xs : List α) (hn : 0 < n) :
    ((List.range n).map fun i => stride xs i n).flatten.Perm xs := by
  have hkey : ∀ i ∈ List.range n, stride xs i n =
      (xs.zipIdx.filter fun x => x.2 % n = i).map Prod.fst := by
    intro i hi
    rw [mem_range] at hi
    unfold stride
    congr 1
    apply filter_congr
    intro x _
    rw [decide_eq_decide]
    constructor
    · rintro ⟨hle, hmod⟩
      obtain ⟨k, hk⟩ := dvd_of_mod_eq_zero hmod
      have hx : x.2 = i + n * k := by omega
      rw [hx, add_mul_mod_self_left, mod_eq_of_lt hi]
    · intro hmod
      have hdiv := div_add_mod x.2 n
      refine ⟨by omega, ?_⟩
      have hsub : x.2 - i = n * (x.2 / n) := by omega
      rw [hsub, mul_mod_right]
  rw [map_congr_left hkey, ← flatMap_def, ← map_flatMap]
  have hperm := flatMap_filter_perm (nodup_range (n := n)) (fun x : α × Nat => x.2 % n)
    xs.zipIdx fun x _ => mem_range.mpr (mod_lt _ hn)
  have hfst := hperm.map Prod.fst
  rw [zipIdx_map_fst] at hfst
  exact hfst

theorem flatMap_getElem?_toList (xs : List α) (n : Nat) :
    ((List.range n).flatMap fun i => xs[i]?.toList) = xs.take n := by
  induction n with
  | zero => simp
  | succ n ih =>
    rw [range_succ, flatMap_append, ih, flatMap_singleton, take_add_one]

theorem flatMap_column_perm (row : β → List α) (rows : List β)
    (hn : ∀ r ∈ rows, (row r).length ≤ n) :
    ((List.range n).flatMap fun i => rows.filterMap fun r => (row r)[i]?).Perm
      (rows.flatMap row) := by
  induction rows with
  | nil => simp
  | cons r rows ih =>
    have hcolumn : ((List.range n).flatMap fun i =>
        (r :: rows).filterMap fun r => (row r)[i]?) =
          (List.range n).flatMap fun i => (row r)[i]?.toList ++
            rows.filterMap fun r => (row r)[i]? := by
      apply flatMap_congr
      intro i _
      rw [filterMap_cons]
      cases (row r)[i]? <;> rfl
    rw [hcolumn, flatMap_cons]
    have hrow : ((List.range n).flatMap fun i => (row r)[i]?.toList) = row r := by
      rw [flatMap_getElem?_toList, take_of_length_le (hn r mem_cons_self)]
    have hrest := ih fun r' hr' => hn r' (mem_cons_of_mem r hr')
    have happend := (flatMap_append_perm (List.range n) (fun i => (row r)[i]?.toList)
      fun i => rows.filterMap fun r => (row r)[i]?).symm
    rw [hrow] at happend
    exact happend.trans (hrest.append_left (row r))

theorem le_foldl_max (xs : List Nat) (m : Nat) : (∀ x ∈ xs, x ≤ xs.foldl max m) ∧
    m ≤ xs.foldl max m ∧ (xs.foldl max m = m ∨ xs.foldl max m ∈ xs) := by
  induction xs generalizing m with
  | nil => simp
  | cons x xs ih =>
    obtain ⟨hmem, hle, heq⟩ := ih (max m x)
    rw [foldl_cons]
    refine ⟨?_, by omega, ?_⟩
    · intro y hy
      rcases mem_cons.mp hy with rfl | hy
      · omega
      · exact hmem y hy
    · rcases heq with heq | heq
      · rw [heq]
        rcases le_total m x with hmx | hmx
        · rw [max_eq_right hmx]
          exact .inr mem_cons_self
        · rw [max_eq_left hmx]
          exact .inl rfl
      · exact .inr (mem_cons_of_mem x heq)

end VllmCore.Support
