import Mathlib
/-!
# Taking items out of a queue

A demand takes some items of a queue by name, wherever they stand, and then a
number of items off the front.  Demands are met one after another.  Summing up in
advance what they will take is exact when no demand is disturbed by an earlier
one, that is, when what is taken off the front for one demand is not named by a
later demand.  Otherwise the sum is too large.
-/

namespace VllmCore.Support

open List

variable {α : Type} [DecidableEq α]

/-- Items to take by name, and the number of items to take off the front. -/
structure Demand (α : Type) where
  named : List α
  fresh : Nat

namespace Demand

/-- The queue after one demand is met. -/
def take (d : Demand α) (q : List α) : List α :=
  (q.filter (· ∉ d.named)).drop d.fresh

def popped (d : Demand α) (q : List α) : List α :=
  (q.filter (· ∉ d.named)).take d.fresh

/-- The items a demand takes, as counted before any of them is taken. -/
def size (d : Demand α) (q : List α) : Nat :=
  (d.named.filter (· ∈ q)).length + d.fresh

end Demand

/-- The queue after all demands are met in turn. -/
def drain (q : List α) : List (Demand α) → List α
  | [] => q
  | d :: ds => drain (d.take q) ds

/-- The sum of all demands, as counted before any of them is met. -/
def totalDemand (q : List α) (ds : List (Demand α)) : Nat :=
  (ds.map (·.size q)).sum

/-- No demand takes an item off the front that a later demand names. -/
def Undisturbed (q : List α) : List (Demand α) → Prop
  | [] => True
  | d :: ds => (∀ x ∈ d.popped q, ∀ e ∈ ds, x ∉ e.named) ∧ Undisturbed (d.take q) ds

instance decidableUndisturbed : (q : List α) → (ds : List (Demand α)) →
    Decidable (Undisturbed q ds)
  | _, [] => isTrue trivial
  | q, d :: ds =>
    let _ := decidableUndisturbed (d.take q) ds
    inferInstanceAs (Decidable ((∀ x ∈ d.popped q, ∀ e ∈ ds, x ∉ e.named) ∧
      Undisturbed (d.take q) ds))

/-- No queued item is named twice, in one demand or in two. -/
structure NamedOnce (q : List α) (ds : List (Demand α)) : Prop where
  nodup : ∀ d ∈ ds, (d.named.filter (· ∈ q)).Nodup
  disjoint : ds.Pairwise fun d e => ∀ x ∈ q, x ∈ d.named → x ∉ e.named

variable {d : Demand α} {q : List α} {x : α}

theorem Demand.mem_take (h : x ∈ d.take q) : x ∈ q ∧ x ∉ d.named := by
  have hmem := mem_of_mem_drop h
  simpa using hmem

theorem Demand.mem_cases (d : Demand α) (h : x ∈ q) :
    x ∈ d.named ∨ x ∈ d.popped q ∨ x ∈ d.take q := by
  by_cases hx : x ∈ d.named
  · exact .inl hx
  · right
    have hmem : x ∈ q.filter (· ∉ d.named) := by simpa using ⟨h, hx⟩
    rw [← take_append_drop d.fresh (q.filter (· ∉ d.named)), mem_append] at hmem
    exact hmem

theorem Demand.take_nodup (hq : q.Nodup) : (d.take q).Nodup :=
  (hq.filter _).sublist (drop_sublist _ _)

theorem Demand.popped_not_mem (hq : q.Nodup) (h : x ∈ d.popped q) : x ∉ d.take q := by
  have hsplit := take_append_drop d.fresh (q.filter (· ∉ d.named))
  have hnodup := hq.filter (· ∉ d.named)
  rw [← hsplit, nodup_append] at hnodup
  exact fun hx => hnodup.2.2 x h x hx rfl

theorem length_filter_mem_comm {xs : List α} (hq : q.Nodup) (hxs : (xs.filter (· ∈ q)).Nodup) :
    (q.filter (· ∈ xs)).length = (xs.filter (· ∈ q)).length := by
  apply List.Perm.length_eq
  rw [perm_ext_iff_of_nodup (hq.filter _) hxs]
  intro x
  simp [and_comm]

theorem Demand.length_unnamed (hq : q.Nodup) (hnodup : (d.named.filter (· ∈ q)).Nodup) :
    q.length = (d.named.filter (· ∈ q)).length + (q.filter (· ∉ d.named)).length := by
  have hnamed := length_filter_mem_comm hq hnodup
  have hsplit := length_eq_length_filter_add (l := q) (· ∈ d.named)
  have hnot : q.filter (fun x => !decide (x ∈ d.named)) = q.filter (· ∉ d.named) := by
    apply filter_congr
    simp
  rw [hnot] at hsplit
  omega

theorem Demand.length_take (hq : q.Nodup) (hnodup : (d.named.filter (· ∈ q)).Nodup)
    (hsize : d.size q ≤ q.length) : q.length = (d.take q).length + d.size q := by
  have hlen := Demand.length_unnamed hq hnodup
  unfold Demand.take Demand.size at *
  rw [length_drop]
  omega

variable {ds es : List (Demand α)}

theorem NamedOnce.tail (h : NamedOnce q (d :: ds)) : NamedOnce (d.take q) ds where
  nodup := by
    intro e he
    refine (h.nodup e (by simp [he])).sublist ?_
    apply monotone_filter_right
    intro x hx
    rw [decide_eq_true_eq] at hx ⊢
    exact (Demand.mem_take hx).1
  disjoint := (pairwise_cons.mp h.disjoint).2.imp
    fun hde x hx => hde x (Demand.mem_take hx).1

/-- Meeting one demand does not raise another one, and lowers it exactly when it
pops an item that the other one names. -/
theorem Demand.size_take {e : Demand α} (hq : q.Nodup)
    (hdisj : ∀ x ∈ q, x ∈ d.named → x ∉ e.named) :
    e.size (d.take q) ≤ e.size q ∧
      (e.size (d.take q) = e.size q ↔ ∀ x ∈ d.popped q, x ∉ e.named) := by
  have hsub : (e.named.filter (· ∈ d.take q)).Sublist (e.named.filter (· ∈ q)) := by
    apply monotone_filter_right
    intro x hx
    rw [decide_eq_true_eq] at hx ⊢
    exact (Demand.mem_take hx).1
  have hle := hsub.length_le
  refine ⟨Nat.add_le_add_right hle _, ?_⟩
  constructor
  · intro heq x hx hnamed
    have hsame : e.named.filter (· ∈ d.take q) = e.named.filter (· ∈ q) := by
      apply hsub.eq_of_length
      unfold Demand.size at heq
      omega
    have hxq : x ∈ q := mem_of_mem_filter (mem_of_mem_take hx)
    have hmem : x ∈ e.named.filter (· ∈ d.take q) := by
      rw [hsame]
      simpa using ⟨hnamed, hxq⟩
    exact Demand.popped_not_mem hq hx (by simpa using (mem_filter.mp hmem).2)
  · intro hpopped
    unfold Demand.size
    congr 2
    apply filter_congr
    intro x hx
    rw [decide_eq_decide]
    constructor
    · exact fun h => (Demand.mem_take h).1
    · intro hxq
      rcases d.mem_cases hxq with hd | hp | ht
      · exact absurd hx (hdisj x hxq hd)
      · exact absurd hx (hpopped x hp)
      · exact ht

theorem totalDemand_take (hq : q.Nodup) :
    ∀ {ds : List (Demand α)}, (∀ e ∈ ds, ∀ x ∈ q, x ∈ d.named → x ∉ e.named) →
      totalDemand (d.take q) ds ≤ totalDemand q ds ∧
        (totalDemand (d.take q) ds = totalDemand q ds ↔
          ∀ x ∈ d.popped q, ∀ e ∈ ds, x ∉ e.named) := by
  intro ds
  induction ds with
  | nil => intro _; simp [totalDemand]
  | cons e ds ih =>
    intro hdisj
    obtain ⟨hle, hiff⟩ := Demand.size_take hq (hdisj e (by simp))
    obtain ⟨hle', hiff'⟩ := ih fun e' he' => hdisj e' (by simp [he'])
    unfold totalDemand at hle' hiff' ⊢
    simp only [map_cons, sum_cons]
    refine ⟨Nat.add_le_add hle hle', ?_⟩
    constructor
    · intro heq x hx e' he'
      rcases mem_cons.mp he' with rfl | he'
      · exact hiff.mp (by omega) x hx
      · exact hiff'.mp (by omega) x hx e' he'
    · intro hpopped
      have h1 := hiff.mpr fun x hx => hpopped x hx e (by simp)
      have h2 := hiff'.mpr fun x hx e' he' => hpopped x hx e' (by simp [he'])
      omega

theorem totalDemand_tail_le (hq : q.Nodup) (honce : NamedOnce q (d :: ds))
    (hle : totalDemand q (d :: ds) ≤ q.length) : totalDemand (d.take q) ds ≤ (d.take q).length := by
  have hdisj := (pairwise_cons.mp honce.disjoint).1
  obtain ⟨htail, _⟩ := totalDemand_take hq hdisj
  have hsum : totalDemand q (d :: ds) = d.size q + totalDemand q ds := by
    simp [totalDemand]
  have hlen := Demand.length_take hq (honce.nodup d (by simp)) (by omega)
  omega

/-- The demands take no more than their sum, and they take exactly that many items
if and only if they are undisturbed. -/
theorem length_drain : ∀ {ds : List (Demand α)} {q : List α}, q.Nodup → NamedOnce q ds →
    totalDemand q ds ≤ q.length →
      q.length ≤ (drain q ds).length + totalDemand q ds ∧
        (q.length = (drain q ds).length + totalDemand q ds ↔ Undisturbed q ds) := by
  intro ds
  induction ds with
  | nil => intro q _ _ _; simp [drain, totalDemand, Undisturbed]
  | cons d ds ih =>
    intro q hq honce hle
    have hdisj := (pairwise_cons.mp honce.disjoint).1
    obtain ⟨htail, hiff⟩ := totalDemand_take hq hdisj
    have hsum : totalDemand q (d :: ds) = d.size q + totalDemand q ds := by
      simp [totalDemand]
    have hlen := Demand.length_take hq (honce.nodup d (by simp)) (by omega)
    obtain ⟨hrest, hrestIff⟩ := ih (Demand.take_nodup hq) honce.tail
      (totalDemand_tail_le hq honce hle)
    have hdrain : drain q (d :: ds) = drain (d.take q) ds := rfl
    have hundisturbed : Undisturbed q (d :: ds) ↔
        (∀ x ∈ d.popped q, ∀ e ∈ ds, x ∉ e.named) ∧ Undisturbed (d.take q) ds := Iff.rfl
    rw [hdrain, hundisturbed, ← hiff, ← hrestIff]
    refine ⟨by omega, ?_⟩
    constructor
    · intro heq
      constructor <;> omega
    · rintro ⟨h1, h2⟩
      omega

theorem totalDemand_drain_le : ∀ {ds es : List (Demand α)} {q : List α}, q.Nodup →
    NamedOnce q (ds ++ es) → totalDemand q (ds ++ es) ≤ q.length →
      (drain q ds).Nodup ∧ NamedOnce (drain q ds) es ∧
        totalDemand (drain q ds) es ≤ (drain q ds).length := by
  intro ds
  induction ds with
  | nil => exact fun hq honce hle => ⟨hq, honce, hle⟩
  | cons d ds ih =>
    intro es q hq honce hle
    exact ih (Demand.take_nodup hq) honce.tail (totalDemand_tail_le hq honce hle)

theorem totalDemand_append (q : List α) (ds es : List (Demand α)) :
    totalDemand q (ds ++ es) = totalDemand q ds + totalDemand q es := by
  simp [totalDemand]

/-! ## Demands that name nothing -/

def popDemand (n : Nat) : Demand α := ⟨[], n⟩

@[simp] theorem popDemand_take (n : Nat) (q : List α) : (popDemand n).take q = q.drop n := by
  unfold Demand.take popDemand
  simp

@[simp] theorem popDemand_size (n : Nat) (q : List α) : (popDemand n).size q = n := by
  simp [Demand.size, popDemand]

theorem drain_append (q : List α) (ds es : List (Demand α)) :
    drain q (ds ++ es) = drain (drain q ds) es := by
  induction ds generalizing q with
  | nil => rfl
  | cons d ds ih => exact ih (d.take q)

theorem NamedOnce.append_pops (h : NamedOnce q ds)
    (hes : ∀ e ∈ es, e.named = []) : NamedOnce q (ds ++ es) where
  nodup := by
    intro d hd
    rcases mem_append.mp hd with hd | hd
    · exact h.nodup d hd
    · rw [hes d hd]
      exact nodup_nil
  disjoint := by
    rw [pairwise_append]
    refine ⟨h.disjoint, pairwise_of_forall_mem_list ?_, ?_⟩
    · intro d hd e _ x _ hx
      rw [hes d hd] at hx
      cases hx
    · intro d _ e he x _ _
      rw [hes e he]
      exact not_mem_nil

theorem namedOnce_nil (q : List α) : NamedOnce q ([] : List (Demand α)) :=
  ⟨by simp, .nil⟩

theorem undisturbed_append_pops (hes : ∀ e ∈ es, e.named = [])
    (q : List α) : Undisturbed q (ds ++ es) ↔ Undisturbed q ds := by
  induction ds generalizing q with
  | nil =>
    simp only [nil_append, Undisturbed, iff_true]
    induction es generalizing q with
    | nil => trivial
    | cons e es ih =>
      refine ⟨fun x _ e' he' => ?_, ih (fun e' he' => hes e' (by simp [he'])) _⟩
      rw [hes e' (by simp [he'])]
      exact not_mem_nil
  | cons d ds ih =>
    have hsame : (∀ x ∈ d.popped q, ∀ e ∈ ds ++ es, x ∉ e.named) ↔
        ∀ x ∈ d.popped q, ∀ e ∈ ds, x ∉ e.named := by
      constructor
      · exact fun h x hx e he => h x hx e (by simp [he])
      · intro h x hx e he
        rcases mem_append.mp he with he | he
        · exact h x hx e he
        · rw [hes e he]
          exact not_mem_nil
    rw [cons_append]
    simp only [Undisturbed]
    rw [hsame, ih]

end VllmCore.Support
