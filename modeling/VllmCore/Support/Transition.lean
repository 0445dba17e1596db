import VllmCore.Support.Py
/-!
# Runs of a transition system

Reachability by a step relation, the invariant rule, and two ways to build a
step relation: from operations that may raise, and by keeping only the steps
that meet a side condition.
-/

namespace VllmCore.Support

variable {σ ι : Type}

/-- States reachable from `init` by steps of `step`. -/
inductive Reachable (init : σ → Prop) (step : σ → σ → Prop) : σ → Prop
  | start {s : σ} : init s → Reachable init step s
  | next {s t : σ} : Reachable init step s → step s t → Reachable init step t

variable {init : σ → Prop} {s t : σ} {guard : σ → ι → Prop} {ops : List ι} {run : σ → ι → Py σ}

/-- What holds initially and is preserved by every step holds in every
reachable state. -/
theorem Reachable.invariant {step : σ → σ → Prop} {P : σ → Prop} (hinit : ∀ s, init s → P s)
    (hstep : ∀ s t, P s → step s t → P t) (h : Reachable init step s) : P s := by
  induction h with
  | start hs => exact hinit _ hs
  | next _ hst ih => exact hstep _ _ ih hst

theorem Reachable.mono {init' : σ → Prop} {step step' : σ → σ → Prop}
    (hinit : ∀ s, init s → init' s) (hstep : ∀ s t, step s t → step' s t)
    (h : Reachable init step s) : Reachable init' step' s := by
  induction h with
  | start hs => exact .start (hinit _ hs)
  | next _ hst ih => exact .next ih (hstep _ _ hst)

/-- The steps of operations that may raise: an operation that raises takes no
step.  `guard` says which operations may be issued in a state. -/
def OpStep (guard : σ → ι → Prop) (run : σ → ι → Py σ) (s t : σ) : Prop :=
  ∃ op, guard s op ∧ run s op = .ok t

def runOps (run : σ → ι → Py σ) (s : σ) (ops : List ι) : Py σ := ops.foldlM run s

/-- An operation that also raises where it may not be issued. -/
def checked (guard : σ → ι → Prop) [∀ s op, Decidable (guard s op)] (run : σ → ι → Py σ)
    (s : σ) (op : ι) : Py σ := do
  require (guard s op) (.runtimeError "operation not allowed here")
  run s op

theorem Reachable.runOps [∀ s op, Decidable (guard s op)] (hs : Reachable init (OpStep guard run) s)
    (h : runOps (checked guard run) s ops = .ok t) : Reachable init (OpStep guard run) t := by
  refine foldlM_inv (P := Reachable init (OpStep guard run)) ?_ hs h
  intro u op v _ hu hrun
  simp only [checked, bind_ok, require_ok] at hrun
  obtain ⟨_, hguard, hrun⟩ := hrun
  exact hu.next ⟨op, hguard, hrun⟩

theorem Reachable.runOps_of_forall (hs : Reachable init (OpStep guard run) s)
    (hops : ∀ op ∈ ops, ∀ u, guard u op) (h : VllmCore.Support.runOps run s ops = .ok t) :
    Reachable init (OpStep guard run) t := by
  refine foldlM_inv (P := Reachable init (OpStep guard run)) ?_ hs h
  intro u op v hmem hu hrun
  exact hu.next ⟨op, hops op hmem u, hrun⟩

end VllmCore.Support
