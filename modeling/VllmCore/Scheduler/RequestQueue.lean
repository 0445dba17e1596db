import VllmCore.Request
import VllmCore.Support.Heap
/-!
# Request queues

The waiting requests are kept in a double-ended queue or, under the priority
policy, in a heap.  Requests are objects that are compared by identity, so that
the queues hold references; the heap also compares the requests themselves.
-/

namespace VllmCore

open Support

abbrev Ref := Nat

inductive SchedulingPolicy
  | fcfs
  | priority
  deriving DecidableEq, Repr

/-- `RequestQueue`: a deque, or the list of a heap. -/
abbrev RequestQueue := List Ref

namespace RequestQueue

variable (policy : SchedulingPolicy) (lt : Ref → Ref → Bool)

def addRequest (q : RequestQueue) (r : Ref) : RequestQueue :=
  match policy with
  | .fcfs => q ++ [r]
  | .priority => Heap.push lt q r

def popRequest (q : RequestQueue) : Py (Ref × RequestQueue) :=
  match policy, q with
  | .fcfs, [] => throw (.indexError "pop from an empty deque")
  | .fcfs, r :: rest => pure (r, rest)
  | .priority, q =>
    match Heap.pop lt q with
    | none => throw (.indexError "pop from empty heap")
    | some res => pure res

def peekRequest (q : RequestQueue) : Py Ref :=
  match policy, q with
  | .fcfs, [] => throw (.indexError "peek from an empty queue")
  | .priority, [] => throw (.indexError "peek from empty heap")
  | _, r :: _ => pure r

def prependRequest (q : RequestQueue) (r : Ref) : RequestQueue :=
  match policy with
  | .fcfs => r :: q
  | .priority => addRequest .priority lt q r

def iter (q : RequestQueue) : List Ref :=
  match policy with
  | .fcfs => q
  | .priority => Heap.inOrder lt q.length q

/-- `prepend_requests`: a deque receives them in reverse order. -/
def prependRequests (q requests : RequestQueue) : RequestQueue :=
  match policy with
  | .fcfs => (iter .fcfs lt requests).reverse ++ q
  | .priority => (iter .priority lt requests).foldl (addRequest .priority lt) q

def removeRequests (q : RequestQueue) (requests : List Ref) : RequestQueue :=
  let kept := q.filter fun r => decide (r ∉ requests)
  match policy with
  | .fcfs => kept
  | .priority => Heap.heapify lt kept

/-! ## What a queue holds -/

theorem addRequest_perm (q : RequestQueue) (r : Ref) :
    (addRequest policy lt q r).Perm (r :: q) := by
  cases policy with
  | fcfs => exact List.perm_append_comm
  | priority => exact Heap.push_perm lt q r

theorem prependRequest_perm (q : RequestQueue) (r : Ref) :
    (prependRequest policy lt q r).Perm (r :: q) := by
  cases policy with
  | fcfs => exact .refl _
  | priority => exact addRequest_perm .priority lt q r

variable {q rest : RequestQueue} {r : Ref}

theorem popRequest_perm (h : popRequest policy lt q = .ok (r, rest)) : q.Perm (r :: rest) := by
  cases policy with
  | fcfs =>
    cases q with
    | nil => cases h
    | cons first tail =>
      cases h
      exact .refl _
  | priority =>
    simp only [popRequest] at h
    cases hpop : Heap.pop lt q with
    | none => rw [hpop] at h; cases h
    | some res =>
      rw [hpop] at h
      cases h
      exact Heap.pop_perm lt hpop

theorem popRequest_peekRequest {r' : Ref}
    (hpeek : peekRequest policy q = .ok r) (h : popRequest policy lt q = .ok (r', rest)) :
    r' = r := by
  cases policy with
  | fcfs =>
    cases q with
    | nil => cases h
    | cons first tail =>
      cases h
      cases hpeek
      rfl
  | priority =>
    simp only [popRequest] at h
    cases hpop : Heap.pop lt q with
    | none => rw [hpop] at h; cases h
    | some res =>
      rw [hpop] at h
      cases h
      have hhead := Heap.pop_head lt hpop
      cases q with
      | nil => cases hhead
      | cons first tail =>
        cases hhead
        cases hpeek
        rfl

theorem peekRequest_mem (h : peekRequest policy q = .ok r) : r ∈ q := by
  cases q with
  | nil => cases policy <;> cases h
  | cons first tail =>
    cases policy <;> cases h <;> exact List.mem_cons_self

theorem iter_perm (q : RequestQueue) : (iter policy lt q).Perm q := by
  cases policy with
  | fcfs => exact .refl _
  | priority => exact Heap.inOrder_perm lt _ q le_rfl

theorem prependRequests_perm (q requests : RequestQueue) :
    (prependRequests policy lt q requests).Perm (requests ++ q) := by
  cases policy with
  | fcfs => exact (List.reverse_perm _).append_right q
  | priority =>
    have hpush : ∀ (rs : List Ref) (q : RequestQueue),
        (rs.foldl (addRequest .priority lt) q).Perm (rs ++ q) := by
      intro rs
      induction rs with
      | nil => exact fun q => .refl q
      | cons r rs ih =>
        intro q
        calc (rs.foldl (addRequest .priority lt) (addRequest .priority lt q r))
            |>.Perm (rs ++ addRequest .priority lt q r) := ih _
          _ |>.Perm (rs ++ r :: q) := (addRequest_perm .priority lt q r).append_left rs
          _ |>.Perm (r :: (rs ++ q)) := List.perm_middle
    exact (hpush _ q).trans ((iter_perm .priority lt requests).append_right q)

theorem removeRequests_perm (q : RequestQueue) (requests : List Ref) :
    (removeRequests policy lt q requests).Perm (q.filter fun r => decide (r ∉ requests)) := by
  cases policy with
  | fcfs => exact .refl _
  | priority => exact Heap.heapify_perm lt _

end RequestQueue

end VllmCore
