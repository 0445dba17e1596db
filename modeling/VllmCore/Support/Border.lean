import Mathlib.Order.Basic
import Mathlib.Tactic.Common
/-!
# Borders of the prefixes of a sequence

A border of the first `m` items of a sequence is a proper prefix of them that is
also a suffix.  The failure function of a string search is the length of the
longest one.
-/

namespace VllmCore.Support

variable {β : Type}

/-- The first `v` items are a proper suffix of the first `m`. -/
def Border (t : Nat → β) (v m : Nat) : Prop := v < m ∧ ∀ j < v, t j = t (m - v + j)

/-- `v` is the length of the longest border of the first `m` items. -/
def LongestBorder (t : Nat → β) (v m : Nat) : Prop :=
  Border t v m ∧ ∀ w, Border t w m → w ≤ v

variable {t : Nat → β} {v m w : Nat}

theorem Border.lt (h : Border t v m) : v < m := h.1

theorem border_zero (h : 0 < m) : Border t 0 m := by
  refine ⟨h, ?_⟩
  intro j hj
  omega

theorem longestBorder_one (t : Nat → β) : LongestBorder t 0 1 := by
  refine ⟨border_zero (by omega), ?_⟩
  intro w hw
  have := hw.lt
  omega

theorem border_succ : Border t (v + 1) (m + 1) ↔ Border t v m ∧ t v = t m := by
  constructor
  · intro h
    have hv : v < m := by
      have := h.lt
      omega
    refine ⟨⟨hv, ?_⟩, ?_⟩
    · intro j hj
      have := h.2 j (by omega)
      rwa [show m + 1 - (v + 1) + j = m - v + j by omega] at this
    · have := h.2 v (by omega)
      rwa [show m + 1 - (v + 1) + v = m by omega] at this
  · intro ⟨h, heq⟩
    have hv := h.lt
    refine ⟨by omega, ?_⟩
    intro j hj
    rw [show m + 1 - (v + 1) + j = m - v + j by omega]
    by_cases hj' : j < v
    · exact h.2 j hj'
    · rw [show j = v by omega, show m - v + v = m by omega]
      exact heq

theorem Border.pred (h : Border t w (m + 1)) :
    w = 0 ∨ ∃ v, w = v + 1 ∧ Border t v m ∧ t v = t m := by
  cases w with
  | zero => exact Or.inl rfl
  | succ v => exact Or.inr ⟨v, rfl, border_succ.mp h⟩

theorem Border.trans (hvw : Border t v w) (hwm : Border t w m) : Border t v m := by
  have hv := hvw.lt
  have hw := hwm.lt
  refine ⟨by omega, ?_⟩
  intro j hj
  calc t j = t (w - v + j) := hvw.2 j hj
    _ = t (m - w + (w - v + j)) := hwm.2 _ (by omega)
    _ = t (m - v + j) := by
        congr 1
        omega

theorem Border.of_lt (hv : Border t v m) (hw : Border t w m) (hlt : v < w) : Border t v w := by
  have := hw.lt
  refine ⟨hlt, ?_⟩
  intro j hj
  calc t j = t (m - v + j) := hv.2 j hj
    _ = t (m - w + (w - v + j)) := by
        congr 1
        omega
    _ = t (w - v + j) := (hw.2 _ (by omega)).symm

end VllmCore.Support
