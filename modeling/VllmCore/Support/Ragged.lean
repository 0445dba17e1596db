import VllmCore.Support.Slices
/-!
# Ragged arrays

Rows of different lengths in one flat array, with the cumulative sums of their
lengths, as numpy code addresses them.  An index into a row becomes an index into
the flat array when the lengths of the rows before it are added; the arrays that
numpy computes with `cumsum`, `repeat` and `arange` are such indices.
-/

namespace VllmCore.Support

open List Nat

variable {α ρ : Type}

/-- The cumulative sums behind `off`. -/
def cumsumFrom (off : Nat) : List Nat → List Nat
  | [] => []
  | n :: ns => (off + n) :: cumsumFrom (off + n) ns

def cumsum (ns : List Nat) : List Nat := cumsumFrom 0 ns

/-- `np.repeat(xs, counts)`. -/
def npRepeat (xs : List α) (counts : List Nat) : List α :=
  (xs.zip counts).flatMap fun e => List.replicate e.2 e.1

def npSub (xs ys : List Nat) : List Nat := List.zipWith (· - ·) xs ys

def npAdd (xs ys : List Nat) : List Nat := List.zipWith (· + ·) xs ys

/-- `xs[indices]`. -/
def gather (xs : List α) (indices : List Nat) : Py (List α) :=
  indices.mapM fun i : Nat => pyGet xs i

/-- `np.searchsorted(xs, v, side="left")`, for ascending `xs`. -/
def searchsortedLeft (xs : List Int) (v : Int) : Nat := (xs.takeWhile (· < v)).length

/-- `np.searchsorted(xs, v, side="right")`, for ascending `xs`. -/
def searchsortedRight (xs : List Int) (v : Int) : Nat := (xs.takeWhile (· ≤ v)).length

/-- The indices `idx` into the rows, as indices into the flat array behind `off`. -/
def flatIndices (n : ρ → Nat) (idx : ρ → List Nat) (off : Nat) : List ρ → List Nat
  | [] => []
  | r :: rows => (idx r).map (off + ·) ++ flatIndices n idx (off + n r) rows

/-! ## The arrays of indices -/

theorem npRepeat_cons (x : α) (xs : List α) (c : Nat) (cs : List Nat) :
    npRepeat (x :: xs) (c :: cs) = List.replicate c x ++ npRepeat xs cs := by
  simp [npRepeat]

variable {keys xs : List α} {xs' ys ys' : List Nat} {i : Nat} {v x : Int} {seg out : ρ → List α}
  {n : ρ → Nat} {idx : ρ → List Nat} {rows : List ρ}

theorem count_npRepeat [DecidableEq α] (xs : List α) (a : α) (hnd : keys.Nodup) :
    (npRepeat keys (keys.map xs.count)).count a = if a ∈ keys then xs.count a else 0 := by
  induction keys with
  | nil => rfl
  | cons k keys ih =>
    have hk := nodup_cons.mp hnd
    rw [map_cons, npRepeat_cons, count_append, count_replicate, ih hk.2]
    by_cases hak : a = k
    · rw [hak, if_neg hk.1, if_pos mem_cons_self]
      simp
    · simp [hak, Ne.symm hak]

theorem npRepeat_count_perm [DecidableEq α] (hnd : keys.Nodup)
    (hkeys : ∀ x ∈ xs, x ∈ keys) : (npRepeat keys (keys.map xs.count)).Perm xs := by
  apply perm_iff_count.mpr
  intro a
  rw [count_npRepeat xs a hnd]
  split
  · rfl
  next ha => exact (count_eq_zero.mpr fun hmem => ha (hkeys a hmem)).symm

theorem pairwise_npRepeat {r : α → α → Prop} (hrefl : ∀ a, r a a)
    (h : keys.Pairwise r) (counts : List Nat) : (npRepeat keys counts).Pairwise r := by
  induction keys generalizing counts with
  | nil => exact List.Pairwise.nil
  | cons k keys ih =>
    have hk := pairwise_cons.mp h
    cases counts with
    | nil => exact List.Pairwise.nil
    | cons c counts =>
      refine pairwise_append.mpr ⟨pairwise_replicate.mpr (Or.inr (hrefl k)),
        ih hk.2 counts, ?_⟩
      intro a ha b hb
      rw [eq_of_mem_replicate ha]
      rcases mem_flatMap.mp hb with ⟨e, he, hbe⟩
      rw [eq_of_mem_replicate hbe]
      exact hk.1 _ (of_mem_zip he).1

theorem npAdd_append {xs : List Nat} (h : xs.length = ys.length) :
    npAdd (xs ++ xs') (ys ++ ys') = npAdd xs ys ++ npAdd xs' ys' :=
  zipWith_append h

theorem npSub_append {xs : List Nat} (h : xs.length = ys.length) :
    npSub (xs ++ xs') (ys ++ ys') = npSub xs ys ++ npSub xs' ys' :=
  zipWith_append h

theorem npAdd_replicate_range (x c : Nat) :
    npAdd (List.replicate c x) (List.range c) = (List.range c).map (x + ·) := by
  apply ext_getElem
  · simp [npAdd]
  · intro i h₁ h₂
    simp [npAdd]

theorem range_sub_repeat (off : Nat) (ns : List Nat) :
    npSub (List.range' off ns.sum) (npRepeat (npSub (cumsumFrom off ns) ns) ns) =
      ns.flatMap List.range := by
  induction ns generalizing off with
  | nil => rfl
  | cons n ns ih =>
    have hstart : npSub (cumsumFrom off (n :: ns)) (n :: ns) =
        off :: npSub (cumsumFrom (off + n) ns) ns := by
      show (off + n - n) :: _ = _
      rw [Nat.add_sub_cancel]
      rfl
    have hfirst : npSub (List.range' off n) (List.replicate n off) = List.range n := by
      apply ext_getElem
      · simp [npSub]
      · intro i h₁ h₂
        simp [npSub]
    rw [hstart, npRepeat_cons, sum_cons, ← List.range'_append_1,
      npSub_append (by simp), hfirst, ih, flatMap_cons]

theorem repeat_add_arange {n s c : ρ → Nat} {rows : List ρ} (h : ∀ r ∈ rows, s r ≤ n r)
    (off : Nat) :
    npAdd (npRepeat (npSub (cumsumFrom off (rows.map n)) (rows.map s)) (rows.map c))
        ((rows.map c).flatMap List.range) =
      flatIndices n (fun r => (List.range (c r)).map (n r - s r + ·)) off rows := by
  induction rows generalizing off with
  | nil => rfl
  | cons r rows ih =>
    have hle := h r (by simp)
    have hsub : npSub (cumsumFrom off ((r :: rows).map n)) ((r :: rows).map s) =
        (off + n r - s r) :: npSub (cumsumFrom (off + n r) (rows.map n)) (rows.map s) := rfl
    rw [hsub, map_cons, npRepeat_cons, flatMap_cons, npAdd_append (by simp),
      npAdd_replicate_range, ih fun r hr => h r (by simp [hr])]
    simp only [flatIndices, map_map]
    congr 1
    apply map_congr_left
    intro i _
    show off + n r - s r + i = off + (n r - s r + i)
    omega

theorem cumsum_sub_one {n : ρ → Nat} {rows : List ρ} (h : ∀ r ∈ rows, 0 < n r) (off : Nat) :
    (cumsumFrom off (rows.map n)).map (· - 1) = flatIndices n (fun r => [n r - 1]) off rows := by
  induction rows generalizing off with
  | nil => rfl
  | cons r rows ih =>
    have hpos := h r (by simp)
    rw [map_cons, cumsumFrom, map_cons, ih fun r hr => h r (by simp [hr])]
    have hlast : off + n r - 1 = off + (n r - 1) := by omega
    rw [hlast]
    rfl

theorem map_add_flatIndices (n : ρ → Nat) (idx : ρ → List Nat) (k off : Nat) (rows : List ρ) :
    (flatIndices n idx off rows).map (· + k) =
      flatIndices n (fun r => (idx r).map (· + k)) off rows := by
  induction rows generalizing off with
  | nil => rfl
  | cons r rows ih =>
    simp only [flatIndices, map_append, ih, map_map]
    congr 1
    apply map_congr_left
    intro i _
    exact add_assoc off i k

theorem length_cumsumFrom (off : Nat) (ns : List Nat) : (cumsumFrom off ns).length = ns.length := by
  induction ns generalizing off with
  | nil => rfl
  | cons n ns ih => rw [cumsumFrom, length_cons, length_cons, ih]

theorem getElem?_cumsumFrom (off : Nat) (ns : List Nat) (h : i < ns.length) :
    (cumsumFrom off ns)[i]? = some (off + (ns.take (i + 1)).sum) := by
  induction ns generalizing off i with
  | nil => cases h
  | cons n ns ih =>
    cases i with
    | zero => simp [cumsumFrom]
    | succ i =>
      have hrest := ih (off + n) (lt_of_succ_lt_succ h)
      rw [cumsumFrom, getElem?_cons_succ, hrest, take_succ_cons, sum_cons,
        add_assoc]

theorem getElem?_cumsum (xs : List Nat) {v : Nat} (hv : v ≤ xs.length) :
    (0 :: cumsum xs)[v]? = some (xs.take v).sum := by
  cases v with
  | zero => rfl
  | succ v =>
    rw [getElem?_cons_succ]
    unfold cumsum
    rw [getElem?_cumsumFrom 0 xs hv, zero_add]

theorem sum_take_mono (xs : List Nat) {v w : Nat} (h : v ≤ w) :
    (xs.take v).sum ≤ (xs.take w).sum := by
  have hsplit : xs.take w = xs.take v ++ (xs.drop v).take (w - v) := by
    rw [← take_add, Nat.add_sub_cancel' h]
  rw [hsplit, List.sum_append]
  exact le_add_right _ _

theorem sum_take_add_le {ns : List Nat} {i n : Nat} (hn : ns[i]? = some n) :
    (ns.take i).sum + n ≤ ns.sum := by
  obtain ⟨hlt, rfl⟩ := List.getElem?_eq_some_iff.mp hn
  have hsum : ns.sum = (ns.take (i + 1)).sum + (ns.drop (i + 1)).sum := by
    rw [← List.sum_append, take_append_drop]
  rw [hsum, take_add_one, List.sum_append, getElem?_eq_getElem hlt]
  simp

theorem sum_take_add_inj {ns : List Nat} {i j n m a b : Nat} (hi : ns[i]? = some n)
    (hj : ns[j]? = some m) (ha : a < n) (hb : b < m)
    (h : (ns.take i).sum + a = (ns.take j).sum + b) : i = j ∧ a = b := by
  have hnext : ∀ {i n}, ns[i]? = some n → (ns.take (i + 1)).sum = (ns.take i).sum + n := by
    intro i n hn
    rw [take_add_one, hn, List.sum_append]
    simp
  have hij : ¬i < j := by
    intro hlt
    have hle := sum_take_mono ns (succ_le_of_lt hlt)
    rw [hnext hi] at hle
    omega
  have hji : ¬j < i := by
    intro hlt
    have hle := sum_take_mono ns (succ_le_of_lt hlt)
    rw [hnext hj] at hle
    omega
  obtain rfl : i = j := by omega
  exact ⟨rfl, by omega⟩

theorem drop_flatMap (seg : ρ → List α) (n : ρ → Nat) {pre post : List ρ} {r : ρ}
    (hn : ∀ r ∈ pre, (seg r).length = n r) :
    ((pre ++ r :: post).flatMap seg).drop (pre.map n).sum = seg r ++ post.flatMap seg := by
  induction pre with
  | nil => rfl
  | cons x pre ih =>
    rw [cons_append, flatMap_cons, map_cons, sum_cons,
      ← hn x (by simp), ← drop_drop, drop_left]
    exact ih fun r hr => hn r (by simp [hr])

theorem lt_length_takeWhile_iff {p : α → Bool}
    (h : xs.Pairwise fun a b => p b = true → p a = true) :
    i < (xs.takeWhile p).length ↔ ∃ x, xs[i]? = some x ∧ p x = true := by
  induction xs generalizing i with
  | nil => simp
  | cons y xs ih =>
    obtain ⟨hy, hxs⟩ := pairwise_cons.mp h
    by_cases hp : p y = true
    · rw [takeWhile_cons_of_pos hp, length_cons]
      cases i with
      | zero =>
        exact iff_of_true (by omega) ⟨y, rfl, hp⟩
      | succ i =>
        rw [getElem?_cons_succ, ← ih hxs]
        omega
    · rw [takeWhile_cons_of_neg hp]
      refine iff_of_false (by simp) ?_
      rintro ⟨x, hx, hpx⟩
      rcases mem_cons.mp (mem_of_getElem? hx) with rfl | hmem
      · exact hp hpx
      · exact hp (hy x hmem hpx)

/-- The position that a search from the right finds: the item before it is not greater, and the
item there is. -/
theorem searchsortedRight_eq {xs : List Int} (h : xs.Pairwise (· ≤ ·))
    (hx : xs[i]? = some x) (hle : x ≤ v) (hnext : ∀ y, xs[i + 1]? = some y → v < y) :
    searchsortedRight xs v = i + 1 := by
  have hdown : xs.Pairwise fun a b => decide (b ≤ v) = true → decide (a ≤ v) = true := by
    apply h.imp
    intro a b hab hb
    rw [decide_eq_true_eq] at hb ⊢
    omega
  have hin : i < searchsortedRight xs v :=
    (lt_length_takeWhile_iff hdown).mpr ⟨x, hx, decide_eq_true hle⟩
  have hout : ¬ i + 1 < searchsortedRight xs v := by
    intro hlt
    obtain ⟨y, hy, hp⟩ := (lt_length_takeWhile_iff hdown).mp hlt
    rw [decide_eq_true_eq] at hp
    have hgt := hnext y hy
    omega
  omega

/-- The position that a search from the left finds: the item before it is less, and the item
there is not. -/
theorem searchsortedLeft_eq {xs : List Int} (h : xs.Pairwise (· ≤ ·))
    (hx : xs[i]? = some x) (hle : v ≤ x) (hbefore : ∀ j y, j < i → xs[j]? = some y → y < v) :
    searchsortedLeft xs v = i := by
  have hdown : xs.Pairwise fun a b => decide (b < v) = true → decide (a < v) = true := by
    apply h.imp
    intro a b hab hb
    rw [decide_eq_true_eq] at hb ⊢
    omega
  have hout : ¬ i < searchsortedLeft xs v := by
    intro hlt
    obtain ⟨y, hy, hp⟩ := (lt_length_takeWhile_iff hdown).mp hlt
    rw [hx] at hy
    cases hy
    rw [decide_eq_true_eq] at hp
    omega
  have hin : ∀ j < i, j < searchsortedLeft xs v := by
    intro j hj
    have hlen := (List.getElem?_eq_some_iff.mp hx).1
    have hget : xs[j]? = some xs[j] := getElem?_eq_getElem (by omega)
    exact (lt_length_takeWhile_iff hdown).mpr ⟨_, hget, decide_eq_true (hbefore j _ hj hget)⟩
  by_cases hzero : i = 0
  · omega
  · have hlast := hin (i - 1) (by omega)
    omega

/-! ## Gathering -/

theorem gather_ok {ys : List α} {indices : List Nat} :
    gather xs indices = .ok ys ↔ List.Forall₂ (fun i y => xs[i]? = some y) indices ys := by
  unfold gather
  rw [mapM_ok_iff]
  have hget : ∀ (i : Nat) y,
    pyGet xs (i : Int) = .ok y ↔ xs[i]? = some y := fun i y => pyGet_natCast_ok
  simp only [hget]

theorem gather_range {xs : List α} {a c : Nat} (h : a + c ≤ xs.length) :
    gather xs ((List.range c).map (a + ·)) = .ok ((xs.drop a).take c) := by
  rw [gather_ok, forall₂_iff_get]
  constructor
  · simp
    omega
  · intro i h₁ h₂
    have hi : i < c := by simpa using h₁
    simp only [get_eq_getElem, getElem_map, getElem_range, getElem_take,
      getElem_drop]
    exact getElem?_eq_getElem (by omega)

theorem gather_flatIndices (hn : ∀ r ∈ rows, (seg r).length = n r)
    (h : ∀ r ∈ rows, gather (seg r) (idx r) = .ok (out r)) (pre : List α) :
    gather (pre ++ rows.flatMap seg) (flatIndices n idx pre.length rows) =
      .ok (rows.flatMap out) := by
  induction rows generalizing pre with
  | nil => rfl
  | cons r rows ih =>
    have hrow := h r (by simp)
    have hrest := ih (fun r hr => hn r (by simp [hr])) (fun r hr => h r (by simp [hr]))
      (pre ++ seg r)
    rw [length_append, hn r (by simp)] at hrest
    rw [gather_ok] at hrow hrest ⊢
    rw [flatIndices, flatMap_cons, flatMap_cons, ← append_assoc]
    apply rel_append _ hrest
    rw [forall₂_map_left_iff]
    apply hrow.imp
    intro i y hi
    have hlt : i < (seg r).length := (List.getElem?_eq_some_iff.mp hi).1
    rw [append_assoc, getElem?_append_right (by omega),
      Nat.add_sub_cancel_left, getElem?_append_left hlt]
    exact hi

theorem gather_rows (hn : ∀ r ∈ rows, (seg r).length = n r)
    (h : ∀ r ∈ rows, gather (seg r) (idx r) = .ok (out r)) :
    gather (rows.flatMap seg) (flatIndices n idx 0 rows) = .ok (rows.flatMap out) :=
  gather_flatIndices hn h []

end VllmCore.Support
