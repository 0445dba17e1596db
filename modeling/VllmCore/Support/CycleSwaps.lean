import VllmCore.Support.Columns
import VllmCore.Support.Dict
/-!
# Rearranging rows by following cycles

A map sends the index of a row to the index where it shall stand.  Following the
map from one index, and exchanging the row there with the row at each destination,
puts all rows of the cycle in place; the destinations that were served are marked in
the map itself, so that the indices of a finished cycle are passed over later.
-/

namespace VllmCore.Support

open Function List Dict

variable {α : Type}

/-- The cycle through `src`: exchange until the row that stands at `src` belongs there. -/
def followCycle (src : Nat) : Nat → Nat → Dict Nat Nat → Option (Dict Nat Nat × List (Nat × Nat))
  | 0, dst, m => if src = dst then some (m, []) else none
  | fuel + 1, dst, m =>
    if src = dst then some (m, [])
    else
      (followCycle src fuel ((m.get? dst).getD dst) (m.set dst dst)).map fun r =>
        (r.1, (src, dst) :: r.2)

/-- All cycles, from the keys of the map in turn.  `none` when a cycle does not end. -/
def cycleSwaps (fuel : Nat) : List Nat → Dict Nat Nat → Option (List (Nat × Nat))
  | [], _ => some []
  | src :: srcs, m =>
    (followCycle src fuel ((m.get? src).getD src) m).bind fun r =>
      (cycleSwaps fuel srcs r.1).map fun rest => r.2 ++ rest

def applySwaps (col : Nat → α) (swaps : List (Nat × Nat)) : Nat → α :=
  swaps.foldl (fun c p => swapEntries c p.1 p.2) col

/-- Where every row has still to go: the rows settled, and those out of range, stay. -/
structure Routing (n : Nat) (settled : List Nat) (g : Nat → Nat) : Prop where
  inj : Injective g
  beyond : ∀ x, n ≤ x → g x = x
  stays : ∀ x ∈ settled, g x = x

def misplaced (n : Nat) (g : Nat → Nat) : Finset Nat := (Finset.range n).filter fun x => g x ≠ x

theorem card_misplaced_le (n : Nat) (g : Nat → Nat) : (misplaced n g).card ≤ n := by
  calc (misplaced n g).card ≤ (Finset.range n).card := Finset.card_filter_le _ _
    _ = n := Finset.card_range n

/-- The routes after the rows at `src` and `g src` are exchanged. -/
def exchanged (g : Nat → Nat) (src : Nat) : Nat → Nat :=
  update (update g (g src) (g src)) src (g (g src))

variable {g : Nat → Nat} {src x n j y : Nat} {β : Type} {xs ys : List Nat}

theorem exchanged_eq (hne : src ≠ g src) :
    exchanged g src = fun x => g (swapEntries id src (g src) x) := by
  funext x
  unfold exchanged
  rw [swapEntries_apply, update_apply, update_apply]
  by_cases hs : x = src
  · rw [if_pos hs, if_neg (by omega), if_pos hs]
    rfl
  · rw [if_neg hs]
    by_cases hd : x = g src
    · rw [if_pos hd, if_pos hd]
      rfl
    · rw [if_neg hd, if_neg hd, if_neg hs]
      rfl

theorem swapEntries_id_involutive (i j x : Nat) :
    swapEntries id i j (swapEntries id i j x) = x := by
  simp only [swapEntries_apply, id]
  split_ifs <;> omega

namespace Routing

variable {n : Nat} {settled : List Nat} {g : Nat → Nat}

section

variable (h : Routing n settled g)

include h

theorem lt (hne : g x ≠ x) : x < n := by
  by_contra hx
  exact hne (h.beyond x (by omega))

theorem next_ne (hne : g x ≠ x) : g (g x) ≠ g x :=
  fun heq => hne (h.inj heq)

theorem exchanged (hne : src ≠ g src) :
    Routing n settled (exchanged g src) := by
  have hsrc := h.lt (x := src) (by omega)
  have hdst := h.lt (h.next_ne (x := src) (by omega))
  refine ⟨?_, ?_, ?_⟩
  · rw [exchanged_eq hne]
    intro x y hxy
    have := h.inj hxy
    calc x = swapEntries id src (g src) (swapEntries id src (g src) x) :=
          (swapEntries_id_involutive _ _ _).symm
      _ = swapEntries id src (g src) (swapEntries id src (g src) y) := by rw [this]
      _ = y := swapEntries_id_involutive _ _ _
  · intro x hx
    unfold Support.exchanged
    rw [update_apply, if_neg (by omega), update_apply, if_neg (by omega)]
    exact h.beyond x hx
  · intro x hx
    have hfix := h.stays x hx
    have hxs : x ≠ src := by
      intro heq
      rw [heq] at hfix
      omega
    unfold Support.exchanged
    rw [update_apply, if_neg hxs, update_apply]
    split
    next hxd => exact hxd.symm
    · exact hfix

theorem misplaced_exchanged (hne : src ≠ g src) :
    (misplaced n (Support.exchanged g src)).card < (misplaced n g).card := by
  have hdst := h.next_ne (x := src) (by omega)
  apply Finset.card_lt_card
  refine Finset.ssubset_iff_of_subset ?_ |>.mpr ⟨g src, ?_, ?_⟩
  · intro x hx
    rcases Finset.mem_filter.mp hx with ⟨hxn, hxne⟩
    refine Finset.mem_filter.mpr ⟨hxn, ?_⟩
    unfold Support.exchanged at hxne
    rw [update_apply, update_apply] at hxne
    by_cases hs : x = src
    · rw [hs]
      omega
    · rw [if_neg hs] at hxne
      by_cases hd : x = g src
      · rw [if_pos hd] at hxne
        omega
      · rwa [if_neg hd] at hxne
  · exact Finset.mem_filter.mpr ⟨Finset.mem_range.mpr (h.lt hdst), hdst⟩
  · intro hx
    apply (Finset.mem_filter.mp hx).2
    unfold Support.exchanged
    rw [update_apply, if_neg (by omega), update_apply, if_pos rfl]

end

end Routing

theorem goal_exchanged {goal col : Nat → α} (hne : src ≠ g src)
    (h : ∀ x, goal (g x) = col x) (x : Nat) :
    goal (exchanged g src x) = swapEntries col src (g src) x := by
  rw [exchanged_eq hne]
  rw [h, swapEntries_apply, swapEntries_apply]
  split
  · rfl
  · split <;> rfl

@[simp] theorem exchanged_src (g : Nat → Nat) (src : Nat) : exchanged g src src = g (g src) := by
  unfold exchanged
  rw [update_self]

theorem exchanged_dst (hne : src ≠ g src) : exchanged g src (g src) = g src := by
  unfold exchanged
  rw [update_apply, if_neg (Ne.symm hne), update_self]

theorem exchanged_of_ne (hs : x ≠ src) (hd : x ≠ g src) : exchanged g src x = g x := by
  unfold exchanged
  rw [update_apply, if_neg hs, update_apply, if_neg hd]

/-- What a cycle leaves: the routes of the rows still to be settled, `src` among those that are,
and the keys of the map as they were. -/
structure CycleDone (n : Nat) (settled : List Nat) (goal col : Nat → α) (m m' : Dict Nat Nat)
    (swaps : List (Nat × Nat)) : Prop where
  keys : m'.keys = m.keys
  inRange : ∀ p ∈ swaps, p.1 < n ∧ p.2 < n
  routes : ∃ g, Routing n settled g ∧ (∀ x ∉ settled, (m'.get? x).getD x = g x) ∧
    ∀ x, goal (g x) = applySwaps col swaps x

theorem Routing.settle {settled : List Nat} (h : Routing n settled g)
    (hsrc : g src = src) : Routing n (src :: settled) g := by
  refine ⟨h.inj, h.beyond, ?_⟩
  intro x hx
  rcases mem_cons.mp hx with hxs | hxs
  · rw [hxs]
    exact hsrc
  · exact h.stays x hxs

theorem followCycle_spec {n : Nat} {settled : List Nat} {goal : Nat → α} {src fuel : Nat}
    (hsrc : src ∉ settled) : ∀ {g : Nat → Nat} {col : Nat → α} {m : Dict Nat Nat},
    Routing n settled g → (∀ x ∉ src :: settled, (m.get? x).getD x = g x) →
    (∀ x, goal (g x) = col x) → (misplaced n g).card ≤ fuel →
    ∃ m' swaps, followCycle src fuel (g src) m = some (m', swaps) ∧
      CycleDone n (src :: settled) goal col m m' swaps := by
  induction fuel with
  | zero =>
    intro g col m hroute hread hgoal hfuel
    have hfix : g src = src := by
      by_contra hne
      have hmem : src ∈ misplaced n g :=
        Finset.mem_filter.mpr ⟨Finset.mem_range.mpr (hroute.lt hne), hne⟩
      have := Finset.card_pos.mpr ⟨src, hmem⟩
      omega
    refine ⟨m, [], ?_, rfl, by simp, g, hroute.settle hfix, hread, hgoal⟩
    unfold followCycle
    rw [if_pos hfix.symm]
  | succ fuel ih =>
    intro g col m hroute hread hgoal hfuel
    by_cases hfix : src = g src
    · refine ⟨m, [], ?_, rfl, by simp, g, hroute.settle hfix.symm, hread, hgoal⟩
      unfold followCycle
      rw [if_pos hfix]
    · have hne := hroute.next_ne (x := src) (by omega)
      have hnot : g src ∉ src :: settled := by
        intro hmem
        rcases mem_cons.mp hmem with heq | hset
        · exact hfix heq.symm
        · exact hne (hroute.stays _ hset)
      have hnext := hread _ hnot
      have hkey : g src ∈ m.keys := by
        rw [mem_keys_iff]
        intro hnone
        rw [hnone, Option.getD_none] at hnext
        exact hne hnext.symm
      have hless := hroute.misplaced_exchanged hfix
      have hread' : ∀ x ∉ src :: settled,
          ((m.set (g src) (g src)).get? x).getD x = exchanged g src x := by
        intro x hx
        rw [get?_set]
        split
        next hxd =>
          rw [hxd, exchanged_dst hfix]
          rfl
        next hxd =>
          have hxs : x ≠ src := by
            intro heq
            rw [heq] at hx
            exact hx mem_cons_self
          rw [exchanged_of_ne hxs hxd]
          exact hread x hx
      rcases ih (hroute.exchanged hfix) hread' (goal_exchanged hfix hgoal) (by omega)
        with ⟨m', swaps, hrun, hdone⟩
      rw [exchanged_src] at hrun
      refine ⟨m', (src, g src) :: swaps, ?_, ?_, ?_, hdone.routes⟩
      · unfold followCycle
        rw [if_neg hfix, hnext, hrun]
        rfl
      · rw [hdone.keys, keys_set_of_mem _ hkey]
      · intro p hp
        rcases mem_cons.mp hp with hp | hp
        · rw [hp]
          exact ⟨hroute.lt (Ne.symm hfix), hroute.lt hne⟩
        · exact hdone.inRange p hp

theorem cycleSwaps_spec {n fuel : Nat} {goal : Nat → α} (hfuel : n ≤ fuel) {srcs : List Nat} :
    ∀ {settled : List Nat} {g : Nat → Nat} {col : Nat → α} {m : Dict Nat Nat},
    (settled ++ srcs).Nodup → Routing n settled g → (∀ x ∉ settled, (m.get? x).getD x = g x) →
    (∀ x, goal (g x) = col x) → (∀ x ∈ m.keys, x ∈ settled ++ srcs) →
    ∃ swaps, cycleSwaps fuel srcs m = some swaps ∧ (∀ p ∈ swaps, p.1 < n ∧ p.2 < n) ∧
      ∀ x, goal x = applySwaps col swaps x := by
  induction srcs with
  | nil =>
    intro settled g col m _ hroute hread hgoal hkeys
    refine ⟨[], rfl, by simp, ?_⟩
    intro x
    have hfix : g x = x := by
      by_cases hx : x ∈ settled
      · exact hroute.stays x hx
      · have hnone : m.get? x = none := by
          rw [get?_eq_none_iff]
          intro hmem
          exact hx (by simpa using hkeys x hmem)
        rw [← hread x hx, hnone]
        rfl
    have := hgoal x
    rw [hfix] at this
    exact this
  | cons src srcs ih =>
    intro settled g col m hnodup hroute hread hgoal hkeys
    have hsrc : src ∉ settled := by
      intro hmem
      exact (nodup_append.mp hnodup).2.2 _ hmem _ mem_cons_self rfl
    rcases @followCycle_spec _ n settled goal src fuel hsrc _ _ _ hroute
      (fun x hx => hread x fun hmem => hx (mem_cons_of_mem _ hmem)) hgoal
      ((card_misplaced_le n g).trans hfuel) with ⟨m', swaps, hrun, hdone⟩
    rcases hdone.routes with ⟨g', hroute', hread', hgoal'⟩
    have hperm : (settled ++ src :: srcs).Perm (src :: settled ++ srcs) := perm_middle
    have hkeys' : ∀ x ∈ m'.keys, x ∈ src :: settled ++ srcs := by
      intro x hx
      rw [hdone.keys] at hx
      exact hperm.mem_iff.mp (hkeys x hx)
    rcases ih (hperm.nodup_iff.mp hnodup) hroute' hread' hgoal' hkeys'
      with ⟨rest, hrest, hrange, hend⟩
    refine ⟨swaps ++ rest, ?_, ?_, ?_⟩
    · unfold cycleSwaps
      rw [hread src hsrc, hrun, Option.bind_some, hrest]
      rfl
    · intro p hp
      rcases mem_append.mp hp with hp | hp
      · exact hdone.inRange p hp
      · exact hrange p hp
    · intro x
      rw [hend x]
      unfold applySwaps
      rw [foldl_append]

/-! ## Rearranging by two lists of indices -/

theorem swapEntries_map (f : α → β) (col : Nat → α) (i j : Nat) :
    swapEntries (fun x => f (col x)) i j = fun x => f (swapEntries col i j x) := by
  funext x
  rw [swapEntries_apply, swapEntries_apply]
  split_ifs <;> rfl

theorem applySwaps_map (f : α → β) (col : Nat → α) (swaps : List (Nat × Nat)) :
    applySwaps (fun x => f (col x)) swaps = fun x => f (applySwaps col swaps x) := by
  induction swaps generalizing col with
  | nil => rfl
  | cons p swaps ih =>
    show applySwaps (swapEntries (fun x => f (col x)) p.1 p.2) swaps =
      fun x => f (applySwaps (swapEntries col p.1 p.2) swaps x)
    rw [swapEntries_map, ih]

theorem rowPrefix_swapEntries_perm (col : Nat → α) {i : Nat} (hi : i < n) (hj : j < n) :
    (rowPrefix (swapEntries col i j) n).Perm (rowPrefix col n) := by
  have hinj : Injective (swapEntries id i j) :=
    Involutive.injective (swapEntries_id_involutive i j)
  have hnodup : ((List.range n).map (swapEntries id i j)).Nodup :=
    List.Nodup.map hinj nodup_range
  have hsub : (List.range n).map (swapEntries id i j) ⊆ List.range n := by
    intro y hy
    rcases mem_map.mp hy with ⟨x, hx, hxy⟩
    rw [mem_range] at hx ⊢
    rw [← hxy, swapEntries_apply]
    simp only [id]
    split_ifs <;> omega
  have hperm : ((List.range n).map (swapEntries id i j)).Perm (List.range n) := by
    apply (subperm_of_subset hnodup hsub).perm_of_length_le
    rw [length_map]
  have hcol : swapEntries col i j = col ∘ swapEntries id i j := swapEntries_map col id i j
  unfold rowPrefix
  rw [hcol, ← map_map]
  exact hperm.map col

theorem rowPrefix_applySwaps_perm {swaps : List (Nat × Nat)}
    (h : ∀ p ∈ swaps, p.1 < n ∧ p.2 < n) (col : Nat → α) :
    (rowPrefix (applySwaps col swaps) n).Perm (rowPrefix col n) := by
  induction swaps generalizing col with
  | nil => exact List.Perm.refl _
  | cons p swaps ih =>
    have hp := h p mem_cons_self
    exact (ih (fun q hq => h q (mem_cons_of_mem _ hq)) (swapEntries col p.1 p.2)).trans
      (rowPrefix_swapEntries_perm col hp.1 hp.2)

/-- The index that the lists pair with `x`, and `x` itself where they pair none. -/
def relabel (xs ys : List Nat) (x : Nat) : Nat := ((xs.zip ys).lookup x).getD x

theorem lookup_zip_of_nodup (hnodup : xs.Nodup)
    (hlen : xs.length ≤ ys.length) (hx : xs[j]? = some x) (hy : ys[j]? = some y) :
    (xs.zip ys).lookup x = some y := by
  apply (lookup_eq_some ?_).mpr
  · exact mem_of_getElem? (getElem?_zip_eq_some.mpr ⟨hx, hy⟩)
  · rwa [map_fst_zip hlen]

theorem relabel_of_getElem? (hnodup : xs.Nodup)
    (hlen : xs.length ≤ ys.length) (hx : xs[j]? = some x) (hy : ys[j]? = some y) :
      relabel xs ys x = y := by
  unfold relabel
  rw [lookup_zip_of_nodup hnodup hlen hx hy]
  rfl

theorem relabel_of_not_mem (hx : x ∉ xs) : relabel xs ys x = x := by
  unfold relabel
  rw [lookup_eq_none.mpr ?_]
  · rfl
  · intro hmem
    rcases mem_map.mp hmem with ⟨e, he, heq⟩
    rw [← heq] at hx
    exact hx (of_mem_zip he).1

theorem relabel_mem (hnodup : xs.Nodup) (hlen : xs.length ≤ ys.length)
    (hx : x ∈ xs) : relabel xs ys x ∈ ys := by
  rcases mem_iff_getElem?.mp hx with ⟨j, hj⟩
  have hlt := (List.getElem?_eq_some_iff.mp hj).1
  have hlt' : j < ys.length := hlt.trans_le hlen
  have hy : ys[j]? = some ys[j] := getElem?_eq_getElem hlt'
  rw [relabel_of_getElem? hnodup hlen hj hy]
  exact getElem_mem _

theorem relabel_relabel (hperm : xs.Perm ys) (hnodup : xs.Nodup) (x : Nat) :
    relabel ys xs (relabel xs ys x) = x := by
  have hnodup' := hperm.nodup_iff.mp hnodup
  by_cases hx : x ∈ xs
  · rcases mem_iff_getElem?.mp hx with ⟨j, hj⟩
    have hlt : j < xs.length := by
      by_contra hge
      rw [getElem?_eq_none (by omega)] at hj
      cases hj
    have hlt' : j < ys.length := hlt.trans_eq hperm.length_eq
    have hy : ys[j]? = some ys[j] := getElem?_eq_getElem hlt'
    rw [relabel_of_getElem? hnodup (le_of_eq hperm.length_eq) hj hy,
      relabel_of_getElem? hnodup' (le_of_eq hperm.length_eq.symm) hy hj]
  · rw [relabel_of_not_mem hx, relabel_of_not_mem]
    intro hmem
    exact hx (hperm.mem_iff.mpr hmem)

/-- The exchanges along the cycles of `srcs` to `dsts` put at each destination what stood at its
source, and leave the other rows. -/
theorem cycleSwaps_zip {srcs dsts : List Nat} {n fuel : Nat} (hperm : srcs.Perm dsts)
    (hnodup : srcs.Nodup) (hlt : ∀ x ∈ srcs, x < n) (hfuel : n ≤ fuel) {m : Dict Nat Nat}
    (hm : m.entries = srcs.zip dsts) :
    ∃ swaps, cycleSwaps fuel m.keys m = some swaps ∧ (∀ p ∈ swaps, p.1 < n ∧ p.2 < n) ∧
      ∀ (col : Nat → α) x, applySwaps col swaps x = col (relabel dsts srcs x) := by
  have hread : ∀ x, (m.get? x).getD x = relabel srcs dsts x := by
    intro x
    unfold Dict.get? relabel
    rw [hm]
  have hkeys : m.keys = srcs := by
    unfold Dict.keys
    rw [hm]
    exact map_fst_zip (le_of_eq hperm.length_eq)
  have hroute : Routing n [] (relabel srcs dsts) := by
    refine ⟨?_, ?_, by simp⟩
    · exact Function.LeftInverse.injective (relabel_relabel hperm hnodup)
    · intro x hx
      apply relabel_of_not_mem
      intro hmem
      have := hlt x hmem
      omega
  rcases @cycleSwaps_spec _ n fuel (relabel dsts srcs) hfuel m.keys [] _ id m
    (by rwa [hkeys]) hroute (fun x _ => hread x) (relabel_relabel hperm hnodup)
    (fun x hx => hx) with ⟨swaps, hrun, hrange, hend⟩
  refine ⟨swaps, hrun, hrange, ?_⟩
  intro col x
  have hcol : applySwaps col swaps x = col (applySwaps id swaps x) :=
    congrFun (applySwaps_map col id swaps) x
  rw [hcol, ← hend x]

end VllmCore.Support
