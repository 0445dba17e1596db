import Mathlib.Algebra.BigOperators.Group.List.Basic
import Mathlib.Algebra.Order.Group.Multiset
import Mathlib.Tactic.Linarith
/-!
# Edits of a list

An edit puts some content in the place of a part of a list, which may be empty.  A list of
edits is carried out from left to right by copying what lies before each of them.  That
gives the list with these parts replaced, where everything else is kept once and in order,
exactly when no edit steps back behind the one before it.
-/

namespace VllmCore.Support

open List

/-- Put `content` in the place of the elements from `lo` up to `hi`. -/
structure Edit (α : Type) where
  lo : Nat
  hi : Nat
  content : List α
  deriving DecidableEq

variable {α : Type}

/-- What is copied for the edits: `xs[pos:lo]` and the content for each of them. -/
def pieces (xs : List α) : Nat → List (Edit α) → List (List α)
  | _, [] => []
  | pos, e :: es => (xs.take e.lo).drop pos :: e.content :: pieces xs e.hi es

def lastEnd : Nat → List (Edit α) → Nat
  | pos, [] => pos
  | _, e :: es => lastEnd e.hi es

def emit (xs : List α) (pos : Nat) (es : List (Edit α)) : List α :=
  (pieces xs pos es).flatten ++ xs.drop (lastEnd pos es)

/-- No edit begins before the end of the one before it. -/
def Forward : Nat → List (Edit α) → Prop
  | _, [] => True
  | pos, e :: es => pos ≤ e.lo ∧ Forward e.hi es

/-- The edits lie in a list of `n` elements. -/
def Within (n : Nat) (es : List (Edit α)) : Prop := ∀ e ∈ es, e.lo ≤ e.hi ∧ e.hi ≤ n

/-- The elements from `pos` on with the edits made: each element is kept, once and in
order, or it is removed by the edit that begins there. -/
inductive Spliced : Nat → List α → List (Edit α) → List α → Prop
  | done (pos : Nat) (rest : List α) : Spliced pos rest [] rest
  | keep {pos : Nat} {x : α} {rest out : List α} {e : Edit α} {es : List (Edit α)} :
      pos < e.lo → Spliced (pos + 1) rest (e :: es) out →
      Spliced pos (x :: rest) (e :: es) (x :: out)
  | edit {pos : Nat} {removed rest out : List α} {e : Edit α} {es : List (Edit α)} :
      e.lo = pos → e.hi = pos + removed.length → Spliced e.hi rest es out →
      Spliced pos (removed ++ rest) (e :: es) (e.content ++ out)

def numRemoved (es : List (Edit α)) : Nat := (es.map fun e => e.hi - e.lo).sum

def numContent (es : List (Edit α)) : Nat := (es.map fun e => e.content.length).sum

def stepsBack : Nat → List (Edit α) → Nat
  | _, [] => 0
  | pos, e :: es => (pos - e.lo) + stepsBack e.hi es

theorem emit_cons (xs : List α) (pos : Nat) (e : Edit α) (es : List (Edit α)) :
    emit xs pos (e :: es) = (xs.take e.lo).drop pos ++ e.content ++ emit xs e.hi es := by
  unfold emit
  rw [pieces, lastEnd, flatten_cons, flatten_cons]
  simp only [append_assoc]

theorem pieces_append (xs : List α) (pos : Nat) (es fs : List (Edit α)) :
    pieces xs pos (es ++ fs) = pieces xs pos es ++ pieces xs (lastEnd pos es) fs := by
  induction es generalizing pos with
  | nil => rfl
  | cons e es ih => rw [cons_append, pieces, pieces, lastEnd, ih, cons_append,
      cons_append]

theorem lastEnd_append (pos : Nat) (es fs : List (Edit α)) :
    lastEnd pos (es ++ fs) = lastEnd (lastEnd pos es) fs := by
  induction es generalizing pos with
  | nil => rfl
  | cons e es ih => exact ih e.hi

variable {es : List (Edit α)} {pos : Nat} {xs : List α}

theorem forward_append {fs : List (Edit α)} :
    Forward pos (es ++ fs) ↔ Forward pos es ∧ Forward (lastEnd pos es) fs := by
  induction es generalizing pos with
  | nil => simp [Forward, lastEnd]
  | cons e es ih => rw [cons_append, Forward, Forward, lastEnd, ih, and_assoc]

theorem stepsBack_eq_zero : stepsBack pos es = 0 ↔ Forward pos es := by
  induction es generalizing pos with
  | nil => simp [stepsBack, Forward]
  | cons e es ih =>
    rw [stepsBack, Forward, Nat.add_eq_zero_iff, ih]
    constructor
    · exact fun h => ⟨by omega, h.2⟩
    · exact fun h => ⟨by omega, h.2⟩

theorem Spliced.keep_all {kept rest out : List α} {e : Edit α} (hpos : pos + kept.length ≤ e.lo)
    (h : Spliced (pos + kept.length) rest (e :: es) out) :
    Spliced pos (kept ++ rest) (e :: es) (kept ++ out) := by
  induction kept generalizing pos with
  | nil => exact h
  | cons x kept ih =>
    rw [length_cons] at hpos h
    apply Spliced.keep
    · omega
    · apply ih
      · omega
      · rw [show pos + 1 + kept.length = pos + (kept.length + 1) by omega]
        exact h

theorem spliced_emit (hforward : Forward pos es) (hwithin : Within xs.length es)
    (hpos : pos ≤ xs.length) : Spliced pos (xs.drop pos) es (emit xs pos es) := by
  induction es generalizing pos with
  | nil => exact .done _ _
  | cons e es ih =>
    obtain ⟨hle, hrest⟩ := hforward
    obtain ⟨hspan, hend⟩ := hwithin e mem_cons_self
    have hnext := ih hrest (fun f hf => hwithin f (mem_cons_of_mem e hf)) hend
    have hkept : ((xs.take e.lo).drop pos).length = e.lo - pos := by
      rw [length_drop, length_take]
      omega
    have hremoved : ((xs.take e.hi).drop e.lo).length = e.hi - e.lo := by
      rw [length_drop, length_take]
      omega
    have hsplit : xs.drop pos =
        (xs.take e.lo).drop pos ++ ((xs.take e.hi).drop e.lo ++ xs.drop e.hi) := by
      have hcut : (xs.take e.hi).drop e.lo ++ xs.drop e.hi = xs.drop e.lo := by
        conv_rhs => rw [← take_append_drop e.hi xs]
        rw [drop_append_of_le_length]
        rw [length_take]
        omega
      rw [hcut]
      conv_lhs => rw [← take_append_drop e.lo xs]
      rw [drop_append_of_le_length]
      rw [length_take]
      omega
    rw [hsplit, emit_cons, append_assoc]
    apply Spliced.keep_all
    · rw [hkept]
      omega
    · rw [hkept]
      apply Spliced.edit
      · omega
      · rw [hremoved]
        omega
      · exact hnext

theorem Spliced.length {rest out : List α} (h : Spliced pos rest es out) :
    out.length + numRemoved es = rest.length + numContent es := by
  induction h with
  | done pos rest => rfl
  | keep _ _ ih =>
    rw [length_cons, length_cons]
    omega
  | @edit pos removed rest out e es hlo hhi _ ih =>
    have hremoved : numRemoved (e :: es) = (e.hi - e.lo) + numRemoved es := rfl
    have hcontent : numContent (e :: es) = e.content.length + numContent es := rfl
    rw [hremoved, hcontent, length_append, length_append]
    omega

theorem length_emit (hwithin : Within xs.length es) (hpos : pos ≤ xs.length) :
    (emit xs pos es).length + numRemoved es =
      (xs.length - pos) + numContent es + stepsBack pos es := by
  induction es generalizing pos with
  | nil =>
    show (xs.drop pos).length + 0 = xs.length - pos + 0 + 0
    rw [length_drop]
  | cons e es ih =>
    obtain ⟨hspan, hend⟩ := hwithin e mem_cons_self
    have hrest := ih (fun f hf => hwithin f (mem_cons_of_mem e hf)) hend
    have hremoved : numRemoved (e :: es) = (e.hi - e.lo) + numRemoved es := rfl
    have hcontent : numContent (e :: es) = e.content.length + numContent es := rfl
    rw [hremoved, hcontent, emit_cons, stepsBack, length_append, length_append,
      length_drop, length_take]
    omega

/-- Copying splices the list, with the edits in any order, exactly when the edits go
forward. -/
theorem spliced_iff (hwithin : Within xs.length es) :
    (∃ fs : List (Edit α), fs.Perm es ∧ Spliced 0 xs fs (emit xs 0 es)) ↔ Forward 0 es := by
  constructor
  · rintro ⟨fs, hperm, hspliced⟩
    have hremoved : numRemoved fs = numRemoved es := (hperm.map _).sum_eq
    have hcontent : numContent fs = numContent es := (hperm.map _).sum_eq
    have hlength := hspliced.length
    have hemit := length_emit hwithin (Nat.zero_le xs.length)
    apply stepsBack_eq_zero.mp
    omega
  · intro hforward
    exact ⟨es, .refl es, spliced_emit hforward hwithin (Nat.zero_le _)⟩

end VllmCore.Support
