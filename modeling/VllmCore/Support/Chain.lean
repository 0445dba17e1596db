import Mathlib.Data.List.Infix
/-!
# Chains

A chain links a list of items to a seed: every link is computed from the link
before it and one item.  If the link function is injective and never returns
the seed, one link determines its position and all items up to it.
-/

namespace VllmCore.Support

open List

variable {δ β : Type}

/-- The links of the items, the first one computed from `parent`. -/
def chain (f : δ → β → δ) (parent : δ) : List β → List δ
  | [] => []
  | x :: xs => f parent x :: chain f (f parent x) xs

@[simp] theorem length_chain (f : δ → β → δ) (parent : δ) (xs : List β) :
    (chain f parent xs).length = xs.length := by
  induction xs generalizing parent with
  | nil => rfl
  | cons x xs ih => simp [chain, ih]

theorem chain_append (f : δ → β → δ) (parent : δ) (xs ys : List β) :
    chain f parent (xs ++ ys) =
      chain f parent xs ++ chain f ((chain f parent xs).getLast?.getD parent) ys := by
  induction xs generalizing parent with
  | nil => rfl
  | cons x xs ih =>
    simp only [cons_append, chain, ih, getLast?_cons, Option.getD_some]

theorem chain_take (f : δ → β → δ) (parent : δ) (xs : List β) (n : Nat) :
    (chain f parent xs).take n = chain f parent (xs.take n) := by
  induction xs generalizing parent n with
  | nil => simp [chain]
  | cons x xs ih =>
    cases n with
    | zero => rfl
    | succ n => simp only [chain, take_succ_cons, ih]

variable {f : δ → β → δ} {xs ys : List β}

theorem chain_prefix {parent : δ} (h : xs <+: ys) : chain f parent xs <+: chain f parent ys := by
  obtain ⟨zs, rfl⟩ := h
  rw [chain_append]
  exact prefix_append _ _

theorem chain_getElem? : ∀ {xs : List β} {parent : δ} {i : Nat} {d : δ},
    (chain f parent xs)[i]? = some d →
      ∃ p x, (parent :: chain f parent xs)[i]? = some p ∧ xs[i]? = some x ∧ d = f p x := by
  intro xs
  induction xs with
  | nil => intro parent i d h; simp [chain] at h
  | cons x xs ih =>
    intro parent i d h
    cases i with
    | zero =>
      simp only [chain, getElem?_cons_zero, Option.some.injEq] at h
      exact ⟨parent, x, rfl, rfl, h.symm⟩
    | succ i =>
      obtain ⟨p, y, hp, hy, hd⟩ := ih h
      exact ⟨p, y, hp, hy, hd⟩

theorem chain_inj {seed : δ}
    (hinj : ∀ p x p' x', f p x = f p' x' → p = p' ∧ x = x') (hseed : ∀ p x, f p x ≠ seed)
    : ∀ {i j : Nat} {d : δ}, (chain f seed xs)[i]? = some d →
      (chain f seed ys)[j]? = some d → i = j ∧ xs.take (i + 1) = ys.take (j + 1) := by
  intro i
  induction i with
  | zero =>
    intro j d hi hj
    obtain ⟨p, x, hp, hx, rfl⟩ := chain_getElem? hi
    obtain ⟨p', x', hp', hx', heq⟩ := chain_getElem? hj
    obtain ⟨rfl, rfl⟩ := hinj _ _ _ _ heq
    rw [getElem?_cons_zero, Option.some.injEq] at hp
    cases j with
    | zero =>
      refine ⟨rfl, ?_⟩
      rw [take_add_one, take_add_one, hx, hx']
      rfl
    | succ j =>
      -- A link cannot be the seed.
      rw [getElem?_cons_succ] at hp'
      obtain ⟨q, y, _, _, hq⟩ := chain_getElem? hp'
      exact absurd (hq.symm.trans hp.symm) (hseed q y)
  | succ i ih =>
    intro j d hi hj
    obtain ⟨p, x, hp, hx, rfl⟩ := chain_getElem? hi
    obtain ⟨p', x', hp', hx', heq⟩ := chain_getElem? hj
    obtain ⟨rfl, rfl⟩ := hinj _ _ _ _ heq
    cases j with
    | zero =>
      rw [getElem?_cons_zero, Option.some.injEq] at hp'
      obtain ⟨q, y, _, _, hq⟩ := chain_getElem? hp
      exact absurd (hq.symm.trans hp'.symm) (hseed q y)
    | succ j =>
      obtain ⟨rfl, htake⟩ := ih hp hp'
      refine ⟨rfl, ?_⟩
      rw [take_add_one, take_add_one (l := ys), htake, hx, hx']

end VllmCore.Support
