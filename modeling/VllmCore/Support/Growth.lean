import VllmCore.Support.Py
import Mathlib.Data.Int.ConditionallyCompleteOrder
import Mathlib.Algebra.Order.BigOperators.Group.List
/-!
# Computations that grow

A computation with a number as its argument grows when its result does, and whether it
fails, and how, does not depend on the number.  Sums, maxima and traversals of such
computations grow as well.
-/

namespace VllmCore.Support

open List

/-- The result grows with the argument; whether it fails, and how, does not depend on it. -/
def Grows {α : Type} [Preorder α] (u : Nat → Py α) : Prop :=
  (∃ f : Nat → α, Monotone f ∧ ∀ n, u n = .ok (f n)) ∨ ∃ e, ∀ n, u n = .error e

section

variable {α β : Type} [Preorder α] [Preorder β]

theorem Grows.const (x : Py α) : Grows fun _ => x := by
  cases x with
  | ok a => exact .inl ⟨fun _ => a, monotone_const, fun _ => rfl⟩
  | error e => exact .inr ⟨e, fun _ => rfl⟩

theorem Grows.of_monotone {f : Nat → α} (h : Monotone f) : Grows fun n => (.ok (f n) : Py α) :=
  .inl ⟨f, h, fun _ => rfl⟩

variable {u : Nat → Py α} {γ : Type}

theorem Grows.map (hu : Grows u) {g : α → β} (hg : Monotone g) :
    Grows fun n => (do return g (← u n) : Py β) := by
  rcases hu with ⟨f, hf, hu⟩ | ⟨e, hu⟩
  · refine .inl ⟨fun n => g (f n), hg.comp hf, ?_⟩
    intro n
    beta_reduce
    rw [hu n]
    rfl
  · refine .inr ⟨e, ?_⟩
    intro n
    beta_reduce
    rw [hu n]
    rfl

theorem Grows.after (x : Py γ) {u : γ → Nat → Py β} (hu : ∀ y, Grows (u y)) :
    Grows fun n => (do u (← x) n : Py β) := by
  cases x with
  | ok y => exact hu y
  | error e => exact .inr ⟨e, fun _ => rfl⟩

theorem Grows.before (hu : Grows u) (x : Py γ) {w : α → γ → Py β}
    (hw : ∀ y, Grows fun n => (do w (← u n) y : Py β)) :
    Grows fun n => (do
      let a ← u n
      let y ← x
      w a y : Py β) := by
  cases x with
  | ok y => exact hw y
  | error e =>
    rcases hu with ⟨f, -, hu⟩ | ⟨e', hu⟩
    · refine .inr ⟨e, ?_⟩
      intro n
      beta_reduce
      rw [hu n]
      rfl
    · refine .inr ⟨e', ?_⟩
      intro n
      beta_reduce
      rw [hu n]
      rfl

theorem Grows.mapM {u : γ → Nat → Py Int} : ∀ {xs : List γ}, (∀ x ∈ xs, Grows (u x)) →
    (∃ fs : List (Nat → Int), (∀ f ∈ fs, Monotone f) ∧
        ∀ n, (xs.mapM fun x => u x n) = .ok (fs.map (· n))) ∨
      ∃ e, ∀ n, (xs.mapM fun x => u x n) = .error e := by
  intro xs
  induction xs with
  | nil =>
    intro _
    exact .inl ⟨[], fun f hf => absurd hf not_mem_nil, fun _ => rfl⟩
  | cons x xs ih =>
    intro h
    have hrest := ih fun y hy => h y (mem_cons_of_mem x hy)
    rcases h x mem_cons_self with ⟨f, hf, hx⟩ | ⟨e, hx⟩
    · rcases hrest with ⟨fs, hfs, hxs⟩ | ⟨e, hxs⟩
      · refine .inl ⟨f :: fs, forall_mem_cons.mpr ⟨hf, hfs⟩, ?_⟩
        intro n
        rw [mapM_cons, hx n, ok_bind, hxs n]
        rfl
      · refine .inr ⟨e, ?_⟩
        intro n
        rw [mapM_cons, hx n, ok_bind, hxs n]
        rfl
    · refine .inr ⟨e, ?_⟩
      intro n
      rw [mapM_cons, hx n]
      rfl

end

variable {fs : List (Nat → Int)}

theorem monotone_sum (h : ∀ f ∈ fs, Monotone f) : Monotone fun n => (fs.map (· n)).sum := by
  intro m n hmn
  apply sum_le_sum
  intro f hf
  exact h f hf hmn

theorem foldl_max_mono (h : ∀ f ∈ fs, Monotone f) {m n : Nat}
    (hmn : m ≤ n) : ∀ {a b : Int}, a ≤ b →
    (fs.map (· m)).foldl max a ≤ (fs.map (· n)).foldl max b := by
  induction fs with
  | nil => exact fun hab => hab
  | cons f fs ih =>
    intro a b hab
    apply ih fun g hg => h g (mem_cons_of_mem f hg)
    exact max_le_max hab (h f mem_cons_self hmn)

end VllmCore.Support
