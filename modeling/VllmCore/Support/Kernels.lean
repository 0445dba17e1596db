import VllmCore.Support.Columns
/-!
# Kernel launches

A kernel is a function of its program id and of the memory, and a launch runs its programs
one after the other.  Programs that write in different places do not see each other: what one
of them does to its own place is what the launch does there.
-/

namespace VllmCore.Support

variable {σ : Type}

/-- `kernel[(n,)](..)`. -/
def launch (n : Nat) (kernel : Nat → σ → σ) (mem : σ) : σ :=
  (List.range n).foldl (fun mem pid => kernel pid mem) mem

/-! ## Launches -/

theorem launch_succ (n : Nat) (kernel : Nat → σ → σ) (mem : σ) :
    launch (n + 1) kernel mem = kernel n (launch n kernel mem) := by
  unfold launch
  rw [List.range_succ, List.foldl_append]
  rfl

variable {n : Nat} {kernel : Nat → σ → σ} {g : σ → β}

theorem launch_frame (h : ∀ pid < n, ∀ mem, g (kernel pid mem) = g mem) (mem : σ) :
    g (launch n kernel mem) = g mem := by
  induction n with
  | zero => rfl
  | succ n ih =>
    rw [launch_succ, h n (by omega)]
    exact ih fun pid hpid => h pid (by omega)

theorem launch_at {i : Nat} {F : β → β} (hi : i < n) (hself : ∀ mem, g (kernel i mem) = F (g mem))
    (hother : ∀ pid < n, pid ≠ i → ∀ mem, g (kernel pid mem) = g mem) (mem : σ) :
    g (launch n kernel mem) = F (g mem) := by
  induction n with
  | zero => omega
  | succ n ih =>
    rw [launch_succ]
    by_cases hlast : i = n
    · rw [← hlast, hself]
      congr 1
      apply launch_frame
      intro pid hpid
      exact hother pid (by omega) (by omega)
    · rw [hother n (by omega) (fun h => hlast h.symm)]
      exact ih (by omega) fun pid hpid => hother pid (by omega)

end VllmCore.Support
