import Mathlib.Data.List.Perm.Subperm
import Mathlib.Data.List.Sort
/-!
# Greedy search for items in a list

Items of several keys are searched for in a list from left to right, those of one key one
after the other.  Where the next item of some key begins it is taken, whole, and of several
keys the first one wins.  A list that was put together from these items is taken apart
again exactly when the search meets none of them too early.
-/

namespace VllmCore.Support

open Function List Nat

variable {K β α : Type} [DecidableEq K] [DecidableEq α]

/-- What is searched for: under every key items in order, each with some options. -/
structure Search (K β α : Type) where
  keys : List K
  options : K → Nat → List β
  content : β → List α

structure Hit (K β : Type) where
  key : K
  idx : Nat
  pos : Nat
  item : β

/-- A part of a list that was put together: what stands before the item, and the item. -/
structure Segment (K β α : Type) where
  gap : List α
  key : K
  idx : Nat
  item : β

namespace Search

/-- One more item of a key was found. -/
def bump (count : K → Nat) (k : K) : K → Nat := update count k (count k + 1)

variable (s : Search K β α)

/-- The option that begins the list; an empty one is not found. -/
def hit (count : K → Nat) (xs : List α) : Option (K × β) :=
  s.keys.findSome? fun k =>
    ((s.options k (count k)).find? fun b => s.content b ≠ [] ∧ s.content b <+: xs).map
      fun b => (k, b)

/-- The search, at a position where the list `xs` is left. -/
inductive Scans : (K → Nat) → Nat → List α → List (Hit K β) → Prop
  | done (count : K → Nat) (pos : Nat) : Scans count pos [] []
  | hit {count : K → Nat} {pos : Nat} {xs : List α} {k : K} {b : β} {hits : List (Hit K β)} :
      s.hit count xs = some (k, b) →
      Scans (bump count k) (pos + (s.content b).length) (xs.drop (s.content b).length) hits →
      Scans count pos xs (⟨k, count k, pos, b⟩ :: hits)
  | skip {count : K → Nat} {pos : Nat} {x : α} {xs : List α} {hits : List (Hit K β)} :
      s.hit count (x :: xs) = none → Scans count (pos + 1) xs hits →
      Scans count pos (x :: xs) hits

variable {s}

variable {count : K → Nat} {xs : List α} {h : Hit K β} {hits : List (Hit K β)} {pos : Nat}

theorem hit_eq_some {k : K} {b : β} (h : s.hit count xs = some (k, b)) :
    k ∈ s.keys ∧ b ∈ s.options k (count k) ∧ s.content b ≠ [] ∧ s.content b <+: xs := by
  obtain ⟨k', hk', hfind⟩ := exists_of_findSome?_eq_some h
  obtain ⟨b', hb', heq⟩ := Option.map_eq_some_iff.mp hfind
  obtain ⟨rfl, rfl⟩ := Prod.mk.inj heq
  have hfound := find?_some hb'
  rw [decide_eq_true_eq] at hfound
  exact ⟨hk', mem_of_find?_eq_some hb', hfound⟩

theorem hit_of_exhausted (h : ∀ k ∈ s.keys, s.options k (count k) = []) (xs : List α) :
    s.hit count xs = none := by
  apply findSome?_eq_none_iff.mpr
  intro k hk
  rw [h k hk]
  rfl

theorem hit_nil (count : K → Nat) : s.hit count [] = none := by
  cases h : s.hit count [] with
  | none => rfl
  | some r =>
    obtain ⟨_, _, hne, hprefix⟩ := hit_eq_some (k := r.1) (b := r.2) h
    exact absurd (prefix_nil.mp hprefix) hne

theorem Scans.of_exhausted (h : ∀ k ∈ s.keys, s.options k (count k) = []) (pos : Nat)
    (xs : List α) : s.Scans count pos xs [] := by
  induction xs generalizing pos with
  | nil => exact .done count pos
  | cons x xs ih => exact .skip (hit_of_exhausted h _) (ih (pos + 1))

/-! ## What a search finds -/

/-- Where an option that was found ends. -/
def stop (s : Search K β α) (h : Hit K β) : Nat := h.pos + (s.content h.item).length

section

variable (hscan : s.Scans count pos xs hits)

include hscan

theorem Scans.at (hh : h ∈ hits) :
    pos ≤ h.pos ∧ s.stop h ≤ pos + xs.length ∧ s.content h.item ≠ [] ∧
      s.content h.item <+: xs.drop (h.pos - pos) := by
  induction hscan with
  | done => cases hh
  | @hit count pos xs k b hits hhit _ ih =>
    obtain ⟨_, _, hne, hprefix⟩ := hit_eq_some hhit
    have hlength := hprefix.length_le
    rcases mem_cons.mp hh with rfl | hh
    · refine ⟨le_rfl, ?_, hne, ?_⟩
      · show pos + (s.content b).length ≤ _
        omega
      · show s.content b <+: xs.drop (pos - pos)
        rw [Nat.sub_self]
        exact hprefix
    · obtain ⟨hle, hstop, hne', hat⟩ := ih hh
      rw [length_drop] at hstop
      rw [drop_drop] at hat
      refine ⟨by omega, by omega, hne', ?_⟩
      rw [show h.pos - pos =
        (s.content b).length + (h.pos - (pos + (s.content b).length)) by omega]
      exact hat
  | @skip count pos x xs hits _ _ ih =>
    obtain ⟨hle, hstop, hne, hat⟩ := ih hh
    rw [length_cons]
    refine ⟨by omega, by omega, hne, ?_⟩
    rw [show h.pos - pos = (h.pos - (pos + 1)) + 1 by omega]
    exact hat

theorem Scans.disjoint :
    hits.Pairwise fun g h => s.stop g ≤ h.pos := by
  induction hscan with
  | done => exact .nil
  | hit hhit hrest ih => exact .cons (fun h hh => (hrest.at hh).1) ih
  | skip _ _ ih => exact ih

theorem Scans.apart {g : Hit K β} (hg : g ∈ hits)
    (hh : h ∈ hits) : g = h ∨ s.stop g ≤ h.pos ∨ s.stop h ≤ g.pos := by
  have hdisjoint := hscan.disjoint
  clear hscan
  induction hdisjoint with
  | nil => cases hg
  | @cons f hits hbefore _ ih =>
    rcases mem_cons.mp hg with rfl | hg' <;> rcases mem_cons.mp hh with rfl | hh'
    · exact .inl rfl
    · exact .inr (.inl (hbefore h hh'))
    · exact .inr (.inr (hbefore g hg'))
    · exact ih hg' hh'

theorem Scans.numbered (k : K) :
    ((hits.filter (·.key = k)).map (·.idx)) =
      List.range' (count k) (hits.filter (·.key = k)).length := by
  induction hscan with
  | done => rfl
  | @hit count pos xs k' b hits hhit hrest ih =>
    by_cases hk : k' = k
    · rw [filter_cons_of_pos (by simpa using hk), map_cons, ih, length_cons,
        List.range'_succ, hk, bump, update_self]
    · rw [filter_cons_of_neg (by simpa using hk), ih, bump,
        update_of_ne (Ne.symm hk)]
  | skip _ _ ih => exact ih

theorem Scans.idx_eq {k : K} {j : Nat}
    (hj : (hits.filter (·.key = k))[j]? = some h) : h.idx = count k + j := by
  have hlt := (List.getElem?_eq_some_iff.mp hj).1
  have hnumbered := congrArg (·[j]?) (hscan.numbered k)
  rw [getElem?_map, hj, getElem?_range' hlt, Nat.one_mul] at hnumbered
  exact Option.some.inj hnumbered

theorem Scans.option (hh : h ∈ hits) :
    h.key ∈ s.keys ∧ h.item ∈ s.options h.key h.idx := by
  induction hscan with
  | done => cases hh
  | hit hhit _ ih =>
    obtain ⟨hkey, hoption, _⟩ := hit_eq_some hhit
    rcases mem_cons.mp hh with rfl | hh
    · exact ⟨hkey, hoption⟩
    · exact ih hh
  | skip _ _ ih => exact ih hh

theorem Scans.nodup :
    (hits.map fun h => (h.key, h.idx)).Nodup := by
  have hlt : ∀ {count pos xs hits}, s.Scans count pos xs hits → ∀ h ∈ hits,
      count h.key ≤ h.idx := by
    intro count pos xs hits hscan h hh
    have hmem : h.idx ∈ (hits.filter (·.key = h.key)).map (·.idx) :=
      mem_map.mpr ⟨h, mem_filter.mpr ⟨hh, by simp⟩, rfl⟩
    rw [hscan.numbered h.key, mem_range'_1] at hmem
    exact hmem.1
  induction hscan with
  | done => exact nodup_nil
  | @hit count pos xs k b hits _ hrest ih =>
    rw [map_cons, nodup_cons]
    refine ⟨?_, ih⟩
    intro hmem
    obtain ⟨h, hh, heq⟩ := mem_map.mp hmem
    obtain ⟨hkey, hidx⟩ := Prod.mk.inj heq
    have hle := hlt hrest h hh
    rw [hkey, hidx, bump, update_self] at hle
    exact not_succ_le_self _ hle
  | skip _ _ ih => exact ih

end

theorem Scans.unique {hits' : List (Hit K β)} (hscan : s.Scans count pos xs hits)
    (hscan' : s.Scans count pos xs hits') : hits = hits' := by
  induction hscan generalizing hits' with
  | done =>
    cases hscan' with
    | done => rfl
    | hit hhit _ =>
      rw [hit_nil] at hhit
      cases hhit
  | hit hhit _ ih =>
    cases hscan' with
    | done =>
      rw [hit_nil] at hhit
      cases hhit
    | hit hhit' hrest' =>
      rw [hhit] at hhit'
      obtain ⟨rfl, rfl⟩ := Prod.mk.inj (Option.some.inj hhit')
      rw [ih hrest']
    | skip hnone _ =>
      rw [hhit] at hnone
      cases hnone
  | skip hnone _ ih =>
    cases hscan' with
    | hit hhit' _ =>
      rw [hnone] at hhit'
      cases hhit'
    | skip _ hrest' => exact ih hrest'

/-! ## Lists that were put together -/

def assemble (s : Search K β α) : List (Segment K β α) → List α → List α
  | [], rest => rest
  | seg :: segs, rest => seg.gap ++ (s.content seg.item ++ s.assemble segs rest)

def placed (s : Search K β α) : Nat → List (Segment K β α) → List (Hit K β)
  | _, [] => []
  | pos, seg :: segs =>
    ⟨seg.key, seg.idx, pos + seg.gap.length, seg.item⟩ ::
      s.placed (pos + seg.gap.length + (s.content seg.item).length) segs

/-- At every segment its item is the next one of its key, no next item of any key begins in
the gap before it, and where it begins the search takes it. -/
def Recoverable (s : Search K β α) : (K → Nat) → List (Segment K β α) → List α → Prop
  | _, [], _ => True
  | count, seg :: segs, rest =>
    seg.idx = count seg.key ∧
      (∀ j < seg.gap.length,
        s.hit count ((s.assemble (seg :: segs) rest).drop j) = none) ∧
      s.hit count (s.content seg.item ++ s.assemble segs rest) = some (seg.key, seg.item) ∧
      s.Recoverable (bump count seg.key) segs rest

theorem Scans.skip_all {gap : List α}
    (hnone : ∀ j < gap.length, s.hit count ((gap ++ xs).drop j) = none)
    (hscan : s.Scans count (pos + gap.length) xs hits) : s.Scans count pos (gap ++ xs) hits := by
  induction gap generalizing pos with
  | nil => exact hscan
  | cons x gap ih =>
    rw [length_cons] at hnone hscan
    apply Scans.skip
    · exact hnone 0 (by omega)
    · apply ih
      · intro j hj
        exact hnone (j + 1) (by omega)
      · rw [show pos + 1 + gap.length = pos + (gap.length + 1) by omega]
        exact hscan

theorem Scans.first (hscan : s.Scans count pos xs (h :: hits)) :
    ∃ j, h.pos = pos + j ∧ h.idx = count h.key ∧ (∀ i < j, s.hit count (xs.drop i) = none) ∧
      s.hit count (xs.drop j) = some (h.key, h.item) ∧
      s.Scans (bump count h.key) (s.stop h) (xs.drop (j + (s.content h.item).length)) hits := by
  induction xs generalizing pos with
  | nil =>
    cases hscan with
    | hit hhit _ =>
      rw [hit_nil] at hhit
      cases hhit
  | cons x xs ih =>
    cases hscan with
    | hit hhit hrest =>
      refine ⟨0, rfl, rfl, ?_, hhit, ?_⟩
      · intro i hi
        omega
      · rw [Nat.zero_add]
        exact hrest
    | skip hnone hrest =>
      obtain ⟨j, hpos, hidx, hbefore, hat, hafter⟩ := ih hrest
      refine ⟨j + 1, by omega, hidx, ?_, hat, ?_⟩
      · intro i hi
        cases i with
        | zero => exact hnone
        | succ i => exact hbefore i (by omega)
      · rw [show j + 1 + (s.content h.item).length = j + (s.content h.item).length + 1 by
          omega]
        exact hafter

/-- No key has items left behind the segments. -/
def Exhausts (s : Search K β α) (count : K → Nat) (segs : List (Segment K β α)) : Prop :=
  ∀ k ∈ s.keys, s.options k (count k + (segs.filter (·.key = k)).length) = []

theorem Exhausts.tail {seg : Segment K β α} {segs : List (Segment K β α)}
    (h : s.Exhausts count (seg :: segs)) : s.Exhausts (bump count seg.key) segs := by
  intro k hk
  have hall := h k hk
  by_cases hkey : seg.key = k
  · rw [filter_cons_of_pos (by simpa using hkey), length_cons] at hall
    rw [bump, hkey, update_self, ← hall]
    congr 1
    omega
  · rw [filter_cons_of_neg (by simpa using hkey)] at hall
    rw [bump, update_of_ne (Ne.symm hkey)]
    exact hall

/-- The search finds the items of the segments where they stand exactly when they are
recoverable. -/
theorem scans_placed_iff {count : K → Nat} {pos : Nat} {segs : List (Segment K β α)}
    {rest : List α} (hexhausts : s.Exhausts count segs) :
    s.Scans count pos (s.assemble segs rest) (s.placed pos segs) ↔
      s.Recoverable count segs rest := by
  induction segs generalizing count pos with
  | nil =>
    constructor
    · exact fun _ => trivial
    · exact fun _ => .of_exhausted hexhausts pos rest
  | cons seg segs ih =>
    have hdrop : (s.assemble (seg :: segs) rest).drop seg.gap.length =
        s.content seg.item ++ s.assemble segs rest := drop_left
    have hafter : (s.assemble (seg :: segs) rest).drop
        (seg.gap.length + (s.content seg.item).length) = s.assemble segs rest := by
      rw [← drop_drop, hdrop]
      exact drop_left
    constructor
    · intro hscan
      obtain ⟨j, hpos, hidx, hbefore, hat, hscans⟩ := hscan.first
      obtain rfl : j = seg.gap.length := by
        have : pos + seg.gap.length = pos + j := hpos
        omega
      rw [hdrop] at hat
      rw [hafter] at hscans
      exact ⟨hidx, hbefore, hat, (ih hexhausts.tail).mp hscans⟩
    · rintro ⟨hidx, hbefore, hat, hrest⟩
      apply Scans.skip_all hbefore
      have hscans := (@ih _ (pos + seg.gap.length + (s.content seg.item).length)
        hexhausts.tail).mpr hrest
      show s.Scans count (pos + seg.gap.length) _
        (⟨seg.key, seg.idx, pos + seg.gap.length, seg.item⟩ :: s.placed _ segs)
      rw [hidx]
      apply Scans.hit hat
      rw [drop_left]
      exact hscans

theorem placed_disjoint (pos : Nat) (segs : List (Segment K β α)) :
    (∀ h ∈ s.placed pos segs, pos ≤ h.pos) ∧
      (s.placed pos segs).Pairwise fun g h => s.stop g ≤ h.pos := by
  induction segs generalizing pos with
  | nil => exact ⟨nofun, .nil⟩
  | cons seg segs ih =>
    obtain ⟨hle, hdisjoint⟩ := ih (pos + seg.gap.length + (s.content seg.item).length)
    refine ⟨?_, .cons hle hdisjoint⟩
    intro h hh
    rcases mem_cons.mp hh with rfl | hh
    · exact le_add_right _ _
    · have := hle h hh
      omega

/-- A search that finds every item of the segments where it stands, and no more of them,
finds them in their order. -/
theorem Scans.eq_placed {pos' : Nat} {segs : List (Segment K β α)}
    (hscan : s.Scans count pos xs hits) (hdistinct : (segs.map fun seg => (seg.key, seg.idx)).Nodup)
    (hfound : ∀ h ∈ s.placed pos' segs, h ∈ hits) (hlength : hits.length ≤ segs.length) :
    hits = s.placed pos' segs := by
  have hkeys : ∀ (pos : Nat) (segs : List (Segment K β α)),
      (s.placed pos segs).map (fun h => (h.key, h.idx)) =
        segs.map fun seg => (seg.key, seg.idx) := by
    intro pos segs
    induction segs generalizing pos with
    | nil => rfl
    | cons seg segs ih => exact congrArg _ (ih _)
  have hnodup : (s.placed pos' segs).Nodup := by
    apply List.Nodup.of_map
    rw [hkeys]
    exact hdistinct
  have hsub : (s.placed pos' segs).Subperm hits := subperm_of_subset hnodup hfound
  have hplaced : (s.placed pos' segs).length = segs.length := by
    rw [← length_map (f := fun h => (h.key, h.idx)), hkeys, length_map]
  have hperm : (s.placed pos' segs).Perm hits := hsub.perm_of_length_le (by omega)
  refine @List.Perm.eq_of_pairwise _ (fun g h => s.stop g ≤ h.pos) _ _ ?_ hscan.disjoint
    (placed_disjoint pos' segs).2 hperm.symm
  intro g h hg _ hgh hhg
  have hne := length_pos_iff.mpr (hscan.at hg).2.2.1
  unfold stop at hgh hhg
  omega

end Search

end VllmCore.Support
