import Mathlib.Algebra.Order.Group.Multiset
import Mathlib.Tactic.Linarith
/-!
# Exceptions, ceiling division and list indexing as Python has them

A small shallow embedding of the Python features that stateful code uses: an
exception monad, `assert`, `-(a // -b)`, negative list indices, and loops over
a list whose body may raise.  Nothing here depends on a particular program.
-/

namespace VllmCore.Support

open List

inductive PyError
  | assertionError (msg : String)
  | valueError (msg : String)
  | runtimeError (msg : String)
  | indexError (msg : String)
  | keyError (msg : String)
  | notImplementedError (msg : String)
  | zeroDivisionError (msg : String)
  | typeError (msg : String)
  | attributeError (msg : String)
  | overflowError (msg : String)
  deriving DecidableEq, Repr

abbrev Py := Except PyError

/-- Continue when `c` holds, raise `e` otherwise. -/
def require (c : Prop) [Decidable c] (e : PyError) : Py Unit :=
  if c then .ok () else .error e

/-- `assert c, msg`. -/
def pyAssert (c : Prop) [Decidable c] (msg : String) : Py Unit :=
  require c (.assertionError msg)

variable {c : Prop} {α : Type} {xs : List α} {a n i : Int} {b : Nat} {x : α}
variable {e : PyError} {u : Unit} {msg : String} {β : Type} {length j : Nat}

@[simp] theorem require_ok [Decidable c] : require c e = .ok u ↔ c := by
  unfold require
  split <;> simp_all

@[simp] theorem pyAssert_ok [Decidable c] : pyAssert c msg = .ok u ↔ c := by
  exact require_ok

theorem require_pos [Decidable c] (h : c) : require c e = .ok () := require_ok.mpr h

theorem pyAssert_pos [Decidable c] (h : c) : pyAssert c msg = .ok () := pyAssert_ok.mpr h

theorem bind_ok {x : Py α} {f : α → Py β} {r : β} :
    (x >>= f) = .ok r ↔ ∃ a, x = .ok a ∧ f a = .ok r := by
  cases x with
  | error e => simp [bind, Except.bind]
  | ok a => simp [bind, Except.bind]

/-- Whether a computation returns a value of the given kind. -/
def okWith {α : Type} (x : Py α) (p : α → Bool) : Bool :=
  match x with
  | .ok a => p a
  | .error _ => false

theorem okWith_iff {x : Py α} {p : α → Bool} : okWith x p = true ↔ ∃ a, x = .ok a ∧ p a = true := by
  unfold okWith
  cases x <;> simp

theorem pure_ok {a b : α} : (pure a : Py α) = .ok b ↔ a = b := by
  simp [pure, Except.pure]

theorem map_ok {f : α → β} {x : Py α} {b : β} : f <$> x = .ok b ↔ ∃ a, x = .ok a ∧ f a = b := by
  cases x with
  | error e => simp [Functor.map, Except.map]
  | ok a => simp [Functor.map, Except.map]

theorem map_snd_ok {x : Py (α × β)} {b : β} : Prod.snd <$> x = .ok b ↔ ∃ a, x = .ok (a, b) := by
  cases x with
  | error e => simp [Functor.map, Except.map]
  | ok ab =>
    obtain ⟨a, b'⟩ := ab
    simp [Functor.map, Except.map]

@[simp] theorem ok_bind (a : α) (f : α → Py β) : ((.ok a : Py α) >>= f) = f a := rfl

theorem foldlM_inv {α σ : Type} {f : σ → α → Py σ} {P : σ → Prop} {xs : List α}
    (hstep : ∀ s x s', x ∈ xs → P s → f s x = .ok s' → P s') :
    ∀ {s s' : σ}, P s → xs.foldlM f s = .ok s' → P s' := by
  induction xs with
  | nil =>
    intro s s' hs h
    simp only [foldlM_nil, pure_ok] at h
    exact h ▸ hs
  | cons x xs ih =>
    intro s s' hs h
    rw [foldlM_cons, bind_ok] at h
    obtain ⟨t, hx, ht⟩ := h
    exact ih (fun s x s' hm => hstep s x s' (by simp [hm]))
      (hstep s x t (by simp) hs hx) ht

theorem foldlM_accumulates {σ : Type} {f : σ → α → Py σ} {P : σ → Multiset α → Prop}
    (hstep : ∀ s M x s', x ∈ xs → P s M → f s x = .ok s' → P s' (x ::ₘ M)) :
    ∀ {s s' : σ} {M : Multiset α}, P s M → xs.foldlM f s = .ok s' →
      P s' (↑xs + M) := by
  induction xs with
  | nil =>
    intro s s' M hs h
    simp only [foldlM_nil, pure_ok] at h
    simpa using h ▸ hs
  | cons x xs ih =>
    intro s s' M hs h
    rw [foldlM_cons, bind_ok] at h
    obtain ⟨t, hx, ht⟩ := h
    have hnext := hstep s M x t (by simp) hs hx
    have hrest := ih (fun s M x s' hm => hstep s M x s' (by simp [hm])) hnext ht
    have hsum : (↑(x :: xs) : Multiset α) + M = ↑xs + (x ::ₘ M) := by
      rw [← Multiset.cons_coe, Multiset.cons_add, Multiset.add_cons]
    rwa [hsum]

/-- `a // b`. -/
def floorDiv (a b : Int) : Py Int :=
  if b = 0 then .error (.zeroDivisionError "integer division or modulo by zero")
  else .ok (a.fdiv b)

theorem floorDiv_ok {b q : Int} : floorDiv a b = .ok q ↔ b ≠ 0 ∧ a.fdiv b = q := by
  unfold floorDiv
  split <;> simp_all

/-! ## Ceiling division -/

/-- `-(a // -b)`, for a positive divisor. -/
def cdiv (a : Int) (b : Nat) : Int := -((-a) / (b : Int))

theorem cdiv_le_iff (hb : 0 < b) : cdiv a b ≤ n ↔ a ≤ n * b := by
  unfold cdiv
  have hb' : (0 : Int) < b := by exact_mod_cast hb
  rw [neg_le, Int.le_ediv_iff_mul_le hb', Int.neg_mul]
  omega

theorem lt_cdiv_iff (hb : 0 < b) : n < cdiv a b ↔ n * b < a := by
  rw [← Int.not_le, ← Int.not_le, cdiv_le_iff hb]

theorem le_cdiv_mul (hb : 0 < b) : a ≤ cdiv a b * b :=
  (cdiv_le_iff hb).mp (Int.le_refl _)

theorem cdiv_mono {c : Int} (hb : 0 < b) (h : a ≤ c) : cdiv a b ≤ cdiv c b :=
  (cdiv_le_iff hb).mpr (h.trans (le_cdiv_mul hb))

theorem cdiv_pos (hb : 0 < b) (h : 0 < a) : 0 < cdiv a b :=
  (lt_cdiv_iff hb).mpr (by simpa using h)

theorem div_le_cdiv (hb : 0 < b) : a / b ≤ cdiv a b := by
  have hb' : (0 : Int) < b := by exact_mod_cast hb
  have hlow : a / b * b ≤ a := Int.ediv_mul_le a (by omega)
  exact Int.le_of_mul_le_mul_right (hlow.trans (le_cdiv_mul hb)) hb'

/-! ## Python list indices -/

/-- The position a Python index denotes: negative indices count from the end. -/
def pyIndex (length : Nat) (i : Int) : Option Nat :=
  if 0 ≤ i then
    if i < length then some i.toNat else none
  else
    if 0 ≤ i + length then some (i + length).toNat else none

/-- `xs[i]`. -/
def pyGet {α : Type} (xs : List α) (i : Int) : Py α :=
  match (pyIndex xs.length i).bind (xs[·]?) with
  | some x => .ok x
  | none => .error (.indexError "list index out of range")

/-- `xs[i] = x`. -/
def pySet {α : Type} (xs : List α) (i : Int) (x : α) : Py (List α) :=
  match pyIndex xs.length i with
  | some j => .ok (xs.set j x)
  | none => .error (.indexError "list assignment index out of range")

@[simp] theorem pyIndex_natCast {i : Nat} (h : i < length) : pyIndex length i = some i := by
  unfold pyIndex
  rw [if_pos (by omega), if_pos (by omega)]
  simp

theorem pyGet_ok : pyGet xs i = .ok x ↔ ∃ j, pyIndex xs.length i = some j ∧ xs[j]? = some x := by
  unfold pyGet
  cases hi : pyIndex xs.length i with
  | none => simp
  | some j =>
    cases hx : xs[j]? with
    | none => simp [hx]
    | some y => simp [hx]

theorem pyGet_natCast (xs : List α) (i : Nat) (h : i < xs.length) : pyGet xs i = .ok xs[i] := by
  rw [pyGet_ok]
  exact ⟨i, pyIndex_natCast h, by simp [h]⟩

theorem pyGet_natCast_ok {α : Type} {xs : List α} {i : Nat} {x : α} :
    pyGet xs (i : Int) = .ok x ↔ xs[i]? = some x := by
  rw [pyGet_ok]
  constructor
  · rintro ⟨j, hj, hx⟩
    by_cases hi : i < xs.length
    · rw [pyIndex_natCast hi] at hj
      cases hj
      exact hx
    · simp [pyIndex, hi] at hj
  · intro hx
    have hlt := (List.getElem?_eq_some_iff.mp hx).1
    exact ⟨i, pyIndex_natCast hlt, hx⟩

theorem pySet_ok {ys : List α} :
    pySet xs i x = .ok ys ↔ ∃ j, pyIndex xs.length i = some j ∧ ys = xs.set j x := by
  unfold pySet
  cases pyIndex xs.length i with
  | none => simp
  | some j => simp [eq_comm]

theorem coe_set {y : α} (h : xs[j]? = some x) : x ::ₘ (↑(xs.set j y) : Multiset α) = y ::ₘ ↑xs := by
  induction xs generalizing j with
  | nil => simp at h
  | cons z xs ih =>
    cases j with
    | zero =>
      simp only [getElem?_cons_zero, Option.some.injEq] at h
      subst h
      simp only [set_cons_zero, ← Multiset.cons_coe]
      exact Multiset.cons_swap _ _ _
    | succ j =>
      simp only [set_cons_succ, ← Multiset.cons_coe]
      rw [Multiset.cons_swap x z, ih h, Multiset.cons_swap z y]

def sliceBound (length : Nat) (i : Int) : Nat := if i < 0 then (i + length).toNat else i.toNat

/-- `xs[start:stop]`. -/
def pySlice {α : Type} (xs : List α) (start stop : Int) : List α :=
  (xs.take (sliceBound xs.length stop)).drop (sliceBound xs.length start)

end VllmCore.Support
