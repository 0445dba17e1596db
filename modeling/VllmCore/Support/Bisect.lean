import Mathlib.Order.UpperLower.Basic
/-!
# Bisection

The search for the greatest number with a property that smaller numbers inherit.  The
search keeps an interval of open numbers and the best number found so far; each probe
halves the interval.
-/

namespace VllmCore.Support

open Nat

/-- The state of the search among the numbers up to `last`: `result` has the property, the
numbers from `left` to `right` are open, and none behind them has it. -/
structure Bisecting (s : Set Nat) (last left right result : Nat) : Prop where
  pos : 0 < left
  next : left ≤ result + 1
  right_le : right ≤ last
  result_le : result ≤ last
  mem : result ∈ s
  above : ∀ n, right < n → n ≤ last → n ∉ s

namespace Bisecting

variable {s : Set Nat} {last left right result : Nat}

theorem start (hlast : 0 < last) (hone : 1 ∈ s) : Bisecting s last 1 last 1 where
  pos := one_pos
  next := le_succ 1
  right_le := le_rfl
  result_le := hlast
  mem := hone
  above := fun _ hlt hle => absurd hlt (not_lt.mpr hle)

theorem le_mid (h : left ≤ right) : left ≤ (left + right) / 2 := by omega

theorem mid_le (h : left ≤ right) : (left + right) / 2 ≤ right := by omega

section

variable (h : Bisecting s last left right result)

include h

theorem accept (hle : left ≤ right)
    (hmem : (left + right) / 2 ∈ s) :
    Bisecting s last ((left + right) / 2 + 1) right ((left + right) / 2) where
  pos := succ_pos _
  next := le_rfl
  right_le := h.right_le
  result_le := (mid_le hle).trans h.right_le
  mem := hmem
  above := h.above

theorem reject (hlower : IsLowerSet s)
    (hle : left ≤ right) (hmem : (left + right) / 2 ∉ s) :
    Bisecting s last left ((left + right) / 2 - 1) result := { h with
  right_le := ((sub_le _ 1).trans (mid_le hle)).trans h.right_le
  above := by
    intro n hlt _ hn
    apply hmem
    exact hlower (le_of_pred_lt hlt) hn }

theorem isGreatest (hdone : right < left) :
    IsGreatest {n | n ≤ last ∧ n ∈ s} result := by
  refine ⟨⟨h.result_le, h.mem⟩, ?_⟩
  rintro n ⟨hle, hn⟩
  by_contra hlt
  have hnext := h.next
  exact h.above n (by omega) hle hn

end

end Bisecting

end VllmCore.Support
