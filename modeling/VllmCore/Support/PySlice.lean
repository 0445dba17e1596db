import VllmCore.Support.Slices
/-!
# Slices of a list

`xs[start:stop:step]` with any of the three left out, negative bounds and negative
steps.  A slice selects positions of the list, forwards or backwards, and none twice.
-/

namespace VllmCore.Support

open List

variable {α β : Type}

/-- The number of items of `range(start, stop, step)`. -/
def rangeLength (start stop step : Int) : Nat :=
  if 0 < step then ((stop - start + step - 1) / step).toNat
  else ((start - stop - step - 1) / (-step)).toNat

/-- `range(start, stop, step)`. -/
def pyRange (start stop step : Int) : List Int :=
  (List.range (rangeLength start stop step)).map fun k : Nat => start + k * step

/-- `slice(start, stop, step)`. -/
structure PySlice where
  start : Option Int := none
  stop : Option Int := none
  step : Option Int := none
  deriving DecidableEq, Repr

namespace PySlice

/-- The step, 1 when it is left out. -/
def stride (s : PySlice) : Int := s.step.getD 1

/-- A bound as `slice.indices` reads it: it counts from the end when it is negative, and is
moved to the nearer end when it lies outside. -/
def clamp (length lower upper default : Int) : Option Int → Int
  | none => default
  | some i => if i < 0 then max (i + length) lower else min i upper

/-- The first position of `slice.indices`. -/
def first (s : PySlice) (length : Int) : Int :=
  if 0 < s.stride then clamp length 0 length 0 s.start
  else clamp length (-1) (length - 1) (length - 1) s.start

/-- The bound of `slice.indices`. -/
def bound (s : PySlice) (length : Int) : Int :=
  if 0 < s.stride then clamp length 0 length length s.stop
  else clamp length (-1) (length - 1) (-1) s.stop

def positions (s : PySlice) (length : Nat) : List Nat :=
  (pyRange (s.first length) (s.bound length) s.stride).map Int.toNat

def select (s : PySlice) (xs : List α) : List α := (s.positions xs.length).filterMap (xs[·]?)

/-- `xs[s]`. -/
def get (s : PySlice) (xs : List α) : Py (List α) :=
  if s.stride = 0 then .error (.valueError "slice step cannot be zero") else .ok (s.select xs)

end PySlice

theorem pyGet_map (xs : List α) (f : α → β) (i : Int) :
    pyGet (xs.map f) i = (pyGet xs i).map f := by
  unfold pyGet
  rw [length_map]
  cases hi : pyIndex xs.length i with
  | none => rfl
  | some j =>
    rw [Option.bind_some, Option.bind_some, getElem?_map]
    cases xs[j]? <;> rfl

variable {xs : List α} {i start stop step : Int} {k : Nat}

theorem pySlice_natCast (xs : List α) (start stop : Nat) :
    pySlice xs start stop = (xs.take stop).drop start := by
  unfold pySlice sliceBound
  rfl

theorem getElem?_pySlice (xs : List α) (a b j : Nat) :
    (pySlice xs a b)[j]? = if a + j < b then xs[a + j]? else none := by
  rw [pySlice_natCast, getElem?_drop, getElem?_take]

theorem length_pySlice {a b : Nat} (h : b ≤ xs.length) :
    (pySlice xs (a : Int) b).length = b - a := by
  rw [pySlice_natCast, length_drop, length_take]
  omega

theorem pyGet_first (x : α) (xs : List α) : pyGet (x :: xs) 0 = .ok x :=
  pyGet_natCast (x :: xs) 0 (by simp)

theorem pyGet_last (xs : List α) (hne : xs ≠ []) :
    pyGet xs (-1) = .ok (xs.getLast hne) := by
  have hpos := length_pos_iff.mpr hne
  rw [pyGet_ok]
  refine ⟨xs.length - 1, ?_, ?_⟩
  · unfold pyIndex
    rw [if_neg (by omega), if_pos (by omega)]
    congr 1
    omega
  · rw [getLast_eq_getElem, getElem?_eq_getElem]

/-! ## Ranges -/

theorem lt_of_lt_rangeLength (hpos : 0 < step)
    (h : k < rangeLength start stop step) : start + k * step < stop := by
  unfold rangeLength at h
  rw [if_pos hpos] at h
  have hle : (k : Int) + 1 ≤ (stop - start + step - 1) / step := by omega
  have hmul := (Int.le_ediv_iff_mul_le hpos).mp hle
  rw [Int.add_mul] at hmul
  omega

theorem gt_of_lt_rangeLength (hneg : step < 0)
    (h : k < rangeLength start stop step) : stop < start + k * step := by
  unfold rangeLength at h
  rw [if_neg (by omega)] at h
  have hle : (k : Int) + 1 ≤ (start - stop - step - 1) / (-step) := by omega
  have hmul := (Int.le_ediv_iff_mul_le (by omega)).mp hle
  rw [Int.add_mul, Int.mul_neg] at hmul
  omega

theorem rangeLength_one (start stop : Int) : rangeLength start stop 1 = (stop - start).toNat := by
  unfold rangeLength
  rw [if_pos (by omega), Int.ediv_one]
  omega

theorem pyRange_natCast (start stop : Nat) :
    pyRange start stop 1 =
      (List.range (stop - start)).map fun k : Nat => ((start + k : Nat) : Int) := by
  unfold pyRange
  rw [rangeLength_one]
  have hlen : ((stop : Int) - start).toNat = stop - start := by omega
  rw [hlen]
  apply map_congr_left
  intro k _
  omega

/-! ## The positions of a slice -/

namespace PySlice

variable {s : PySlice} {length : Nat}
variable {default : Int} {r : α → α → Prop}

theorem clamp_nonneg (i : Option Int) (h : 0 ≤ default) : 0 ≤ clamp length 0 length default i := by
  unfold clamp
  split
  · exact h
  · split <;> omega

theorem clamp_le (i : Option Int) (h : default ≤ length) :
    clamp length 0 length default i ≤ length := by
  unfold clamp
  split
  · exact h
  · split <;> omega

theorem clamp_ge (i : Option Int) (h : -1 ≤ default) :
    -1 ≤ clamp length (-1) (length - 1) default i := by
  unfold clamp
  split
  · exact h
  · split <;> omega

theorem clamp_lt (i : Option Int) (h : default < length) :
    clamp length (-1) (length - 1) default i < length := by
  unfold clamp
  split
  · exact h
  · split <;> omega

theorem range_bounds (h : s.stride ≠ 0)
    (hk : k < rangeLength (s.first length) (s.bound length) s.stride) :
    0 ≤ s.first length + k * s.stride ∧ s.first length + k * s.stride < length := by
  by_cases hpos : 0 < s.stride
  · have hlt := lt_of_lt_rangeLength hpos hk
    have hfirst : 0 ≤ s.first length := by
      unfold first
      rw [if_pos hpos]
      exact clamp_nonneg s.start (by omega)
    have hbound : s.bound length ≤ length := by
      unfold bound
      rw [if_pos hpos]
      exact clamp_le s.stop (by omega)
    have hmul : 0 ≤ (k : Int) * s.stride := by positivity
    omega
  · have hneg : s.stride < 0 := by omega
    have hgt := gt_of_lt_rangeLength hneg hk
    have hfirst : s.first length < length := by
      unfold first
      rw [if_neg hpos]
      exact clamp_lt s.start (by omega)
    have hbound : -1 ≤ s.bound length := by
      unfold bound
      rw [if_neg hpos]
      exact clamp_ge s.stop (by omega)
    have hmul : (k : Int) * s.stride ≤ 0 := by nlinarith
    omega

theorem pairwise_positions (h : 0 < s.stride) : (s.positions length).Pairwise (· < ·) := by
  unfold positions pyRange
  rw [map_map, pairwise_map]
  apply pairwise_lt_range.imp_of_mem
  intro j k hj hk hjk
  have hlow := range_bounds (by omega) (mem_range.mp hj)
  have hmul : (j : Int) * s.stride < k * s.stride := by
    apply Int.mul_lt_mul_of_pos_right
    · omega
    · exact h
  show (s.first length + j * s.stride).toNat < (s.first length + k * s.stride).toNat
  omega

theorem pairwise_positions_gt (h : s.stride < 0) : (s.positions length).Pairwise (· > ·) := by
  unfold positions pyRange
  rw [map_map, pairwise_map]
  apply pairwise_lt_range.imp_of_mem
  intro j k hj hk hjk
  have hlow := range_bounds (by omega) (mem_range.mp hk)
  have hmul : (k : Int) * s.stride < j * s.stride := by nlinarith
  show (s.first length + k * s.stride).toNat < (s.first length + j * s.stride).toNat
  omega

/-! ## The items of a slice -/

theorem get_of_ne (h : s.stride ≠ 0) (xs : List α) : s.get xs = .ok (s.select xs) := by
  unfold get
  rw [if_neg h]

theorem select_map (s : PySlice) (xs : List α) (f : α → β) :
    s.select (xs.map f) = (s.select xs).map f := by
  unfold select
  rw [length_map, map_filterMap]
  apply filterMap_congr
  intro i _
  rw [getElem?_map]

theorem mem_of_mem_select {x : α} (hx : x ∈ s.select xs) : x ∈ xs := by
  unfold select at hx
  rw [mem_filterMap] at hx
  obtain ⟨i, _, hi⟩ := hx
  exact mem_of_getElem? hi

theorem pairwise_select (h : 0 < s.stride) (hxs : xs.Pairwise r) : (s.select xs).Pairwise r := by
  unfold select
  rw [pairwise_filterMap]
  apply (pairwise_positions h).imp
  intro i j hij a ha b hb
  rw [pairwise_iff_getElem] at hxs
  obtain ⟨hi, rfl⟩ := List.getElem?_eq_some_iff.mp ha
  obtain ⟨hj, rfl⟩ := List.getElem?_eq_some_iff.mp hb
  exact hxs i j hi hj hij

theorem pairwise_select_flip (h : s.stride < 0)
    (hxs : xs.Pairwise r) : (s.select xs).Pairwise fun a b => r b a := by
  unfold select
  rw [pairwise_filterMap]
  apply (pairwise_positions_gt h).imp
  intro i j hij a ha b hb
  rw [pairwise_iff_getElem] at hxs
  obtain ⟨hi, rfl⟩ := List.getElem?_eq_some_iff.mp ha
  obtain ⟨hj, rfl⟩ := List.getElem?_eq_some_iff.mp hb
  exact hxs j i hj hi hij

end PySlice

end VllmCore.Support
