import Mathlib.Tactic.Linarith
/-!
# A queue of segments in a circular buffer

Positions go on behind the end of a buffer of `n` bytes, and a position stands for the
place it leaves modulo `n`.  A queue is laid out along the positions; a segment does not
cross the end of the buffer, and there may be a gap behind it.  A queue whose positions
stay within `n` of its start takes places that do not overlap.
-/

namespace VllmCore.Support

/-- A segment of a circular buffer; its address is one of its positions. -/
structure RingSegment where
  address : Int
  size : Nat
  deriving DecidableEq

namespace RingSegment

def place (n : Nat) (s : RingSegment) : Int := s.address % n

def Inside (n : Nat) (s : RingSegment) : Prop := 0 ≤ s.place n ∧ s.place n + s.size ≤ n

def Apart (n : Nat) (s t : RingSegment) : Prop :=
  s.place n + s.size ≤ t.place n ∨ t.place n + t.size ≤ s.place n

end RingSegment

/-- The queue is laid out from the first position to the last one.  The first segment
begins at the first position; behind each segment there may be a gap. -/
inductive Laid (n : Nat) : Int → List RingSegment → Int → Prop
  | nil (p : Int) : Laid n p [] p
  | cons {p q stop : Int} {s : RingSegment} {rest : List RingSegment}
      (place : s.address % n = p % n) (fits : p % n + s.size ≤ n) (behind : p + s.size ≤ q)
      (laid : Laid n q rest stop) :
      Laid n p (s :: rest) stop

theorem emod_of_step {n : Nat} {p q : Int} (hle : p ≤ q) (hlt : q < p + n) :
    q % n = p % n + (q - p) ∨ q % n = p % n + (q - p) - n := by
  have hpos : (0 : Int) < n := by omega
  have hlow := Int.emod_nonneg p (by omega : (n : Int) ≠ 0)
  have hhigh := Int.emod_lt_of_pos p hpos
  have hsplit : q % n = (p % n + (q - p)) % n := by
    rw [Int.emod_add_emod]
    congr 1
    omega
  rw [hsplit]
  by_cases hround : p % n + (q - p) < n
  · left
    exact Int.emod_eq_of_lt (by omega) hround
  · right
    rw [← Int.sub_emod_right]
    exact Int.emod_eq_of_lt (by omega) (by omega)

namespace Laid

variable {n : Nat} {p q stop : Int} {s t : RingSegment} {rest segments : List RingSegment}

theorem nil_eq (h : Laid n p [] stop) : stop = p := by
  cases h
  rfl

theorem le (h : Laid n p segments stop) : p ≤ stop := by
  induction h with
  | nil p => exact le_refl p
  | cons _ _ hbehind _ ih => omega

theorem position (h : Laid n p segments stop) (hs : s ∈ segments) :
    ∃ q, p ≤ q ∧ s.address % n = q % n ∧ q % n + s.size ≤ n ∧ q + s.size ≤ stop := by
  induction h with
  | nil p => cases hs
  | @cons p q stop first rest hplace hfits hbehind hlaid ih =>
    rcases List.mem_cons.mp hs with rfl | hs
    · exact ⟨p, le_refl p, hplace, hfits, hbehind.trans hlaid.le⟩
    · obtain ⟨q', hle, hrest⟩ := ih hs
      exact ⟨q', by omega, hrest⟩

theorem inside (hn : 0 < n) (h : Laid n p segments stop) (hs : s ∈ segments) : s.Inside n := by
  obtain ⟨q, _, hplace, hfits, _⟩ := h.position hs
  constructor
  · exact Int.emod_nonneg s.address (by omega)
  · unfold RingSegment.place
    rw [hplace]
    exact hfits

theorem apart (h : Laid n p segments stop) (hround : stop ≤ p + n)
    (hsizes : ∀ s ∈ segments, 0 < s.size) : segments.Pairwise (RingSegment.Apart n) := by
  induction h with
  | nil p => exact List.Pairwise.nil
  | @cons p q stop first rest hplace hfits hbehind hlaid ih =>
    have hrest : ∀ t ∈ rest, 0 < t.size := fun t ht => hsizes t (List.mem_cons_of_mem first ht)
    apply List.Pairwise.cons
    · intro t ht
      obtain ⟨q', hle, hplace', hfits', hend⟩ := hlaid.position ht
      have hsize := hrest t ht
      unfold RingSegment.Apart RingSegment.place
      rcases emod_of_step (n := n) (p := p) (q := q') (by omega) (by omega) with heq | heq
      · left
        omega
      · right
        omega
    · exact ih (by omega) hrest

theorem append (h : Laid n p segments stop) (hstop : stop ≤ q) (hfirst : segments = [] → q = p)
    (hplace : s.address % n = q % n) (hfits : q % n + s.size ≤ n) :
    Laid n p (segments ++ [s]) (q + s.size) := by
  induction h with
  | nil p =>
    obtain rfl := hfirst rfl
    exact .cons hplace hfits (le_refl _) (.nil _)
  | @cons p q₁ stop first rest hplace₁ hfits₁ hbehind hlaid ih =>
    by_cases hnil : rest = []
    · subst hnil
      have hle := hlaid.le
      exact .cons hplace₁ hfits₁ (by omega) (.cons hplace hfits (le_refl _) (.nil _))
    · exact .cons hplace₁ hfits₁ hbehind (ih hstop (fun h => absurd h hnil))

/-- Without the first segment the queue begins at the second one, whose position is found
from its address. -/
theorem second (h : Laid n p (s :: t :: rest) stop) (hsize : 0 < t.size) (hround : stop ≤ p + n) :
    Laid n (p + (t.address - p) % n) (t :: rest) stop ∧ p + s.size ≤ p + (t.address - p) % n := by
  cases h with
  | @cons _ q _ _ _ _ _ hbehind hlaid =>
    have hend : q + t.size ≤ stop := by
      cases hlaid with
      | cons _ _ hbehind' hlaid' => exact hbehind'.trans hlaid'.le
    have hplace : t.address % n = q % n := by
      cases hlaid with
      | cons hplace _ _ _ => exact hplace
    have hstep : (t.address - p) % n = q - p := by
      rw [Int.sub_emod, hplace, ← Int.sub_emod]
      exact Int.emod_eq_of_lt (by omega) (by omega)
    have hq : p + (t.address - p) % n = q := by omega
    rw [hq]
    exact ⟨hlaid, hbehind⟩

theorem rebase (h : Laid n p segments stop) : Laid n (p - n) segments (stop - n) := by
  induction h with
  | nil p => exact .nil _
  | @cons p q stop first rest hplace hfits hbehind hlaid ih =>
    apply Laid.cons
    · rw [Int.sub_emod_right]
      exact hplace
    · rw [Int.sub_emod_right]
      exact hfits
    · show p - n + first.size ≤ q - n
      omega
    · exact ih

end Laid

end VllmCore.Support
