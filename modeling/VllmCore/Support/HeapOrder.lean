import VllmCore.Support.Heap
/-!
# The order of a heap

Over a comparison that orders the keys, no item of a heap is smaller than its parent.
The functions of `heapq` keep this, and `heapify` makes it.  While an item moves, the
order holds except around its position.
-/

namespace VllmCore.Support.Heap

open List Nat

variable {α : Type} {lt : α → α → Bool}

/-- A strict comparison of keys: two items may have equal keys. -/
structure Comparison (lt : α → α → Bool) : Prop where
  asymm : ∀ a b, lt a b = true → lt b a = false
  trans : ∀ a b c, lt b a = false → lt c b = false → lt c a = false

theorem Comparison.irrefl (hlt : Comparison lt) (a : α) : lt a a = false := by
  cases hcmp : lt a a with
  | false => rfl
  | true => exact (hlt.asymm a a hcmp ▸ hcmp).symm

/-- The item at one position is not smaller than the one at another. -/
def LeAt (lt : α → α → Bool) (h : List α) (i j : Nat) : Prop :=
  ∀ a b, h[i]? = some a → h[j]? = some b → lt b a = false

theorem LeAt.refl (hlt : Comparison lt) (h : List α) (i : Nat) : LeAt lt h i i := by
  intro a b ha hb
  rw [ha] at hb
  cases hb
  exact hlt.irrefl a

variable {h : List α} {i j start pos : Nat}

theorem LeAt.trans (hlt : Comparison lt) {k : Nat} (hj : j < h.length) (hij : LeAt lt h i j)
    (hjk : LeAt lt h j k) : LeAt lt h i k := by
  intro a c ha hc
  have hb : h[j]? = some h[j] := getElem?_eq_getElem hj
  exact hlt.trans a h[j] c (hij a h[j] ha hb) (hjk h[j] c hb hc)

theorem LeAt.congr {h' : List α} {i' j' : Nat} (hij : LeAt lt h i j) (hi : h'[i']? = h[i]?)
    (hj : h'[j']? = h[j]?) : LeAt lt h' i' j' := by
  intro a b ha hb
  rw [hi] at ha
  rw [hj] at hb
  exact hij a b ha hb

/-- The order below a position: nodes whose parent stands at `start` or behind it. -/
def OrderedFrom (lt : α → α → Bool) (start : Nat) (h : List α) : Prop :=
  ∀ j, 0 < j → start ≤ (j - 1) / 2 → LeAt lt h ((j - 1) / 2) j

abbrev Ordered (lt : α → α → Bool) (h : List α) : Prop := OrderedFrom lt 0 h

theorem Ordered.first_le (hlt : Comparison lt) (hord : Ordered lt h) {first : α}
    (hfirst : h.head? = some first) : ∀ x ∈ h, lt x first = false := by
  have hroot : ∀ n j, j < n → j < h.length → LeAt lt h 0 j := by
    intro n
    induction n with
    | zero =>
      intro j hj
      omega
    | succ n ih =>
      intro j hj hlen
      by_cases hzero : j = 0
      · subst hzero
        exact .refl hlt h 0
      · have hparent : (j - 1) / 2 < j := by omega
        exact (ih ((j - 1) / 2) (by omega) (by omega)).trans hlt (by omega)
          (hord j (by omega) (zero_le _))
  intro x hx
  obtain ⟨j, hj, hget⟩ := getElem_of_mem hx
  apply hroot (j + 1) j (lt_succ_self j) hj first x
  · rw [← hfirst, head?_eq_getElem?]
  · rw [getElem?_eq_getElem hj, hget]

variable {lt' : α → α → Bool} {fuel child : Nat}

theorem OrderedFrom.congr (hord : OrderedFrom lt start h)
    (heq : ∀ a ∈ h, ∀ b ∈ h, lt' a b = lt a b) : OrderedFrom lt' start h := by
  intro j hj hstart a b ha hb
  rw [heq b (mem_of_getElem? hb) a (mem_of_getElem? ha)]
  exact hord j hj hstart a b ha hb

theorem Ordered.of_item {x : α} (hord : Ordered lt h)
    (heq : ∀ a b, a ≠ x → b ≠ x → lt' a b = lt a b)
    (hx : ∀ j, 0 < j → h[j]? = some x ∨ h[(j - 1) / 2]? = some x → LeAt lt' h ((j - 1) / 2) j) :
    Ordered lt' h := by
  intro j hj hstart a b ha hb
  by_cases hitem : h[j]? = some x ∨ h[(j - 1) / 2]? = some x
  · exact hx j hj hitem a b ha hb
  · rw [not_or, ha, hb, Option.some.injEq, Option.some.injEq] at hitem
    rw [heq b a hitem.1 hitem.2]
    exact hord j hj hstart a b ha hb

theorem length_swapAt (h : List α) (i j : Nat) : (swapAt h i j).length = h.length :=
  (swapAt_perm h i j).length_eq

theorem getElem?_swapAt (hi : i < h.length) (hj : j < h.length) (k : Nat) :
    (swapAt h i j)[k]? = if k = j then h[i]? else if k = i then h[j]? else h[k]? := by
  unfold swapAt
  rw [getElem?_eq_getElem hi, getElem?_eq_getElem hj]
  rw [getElem?_set, getElem?_set, length_set]
  by_cases hkj : j = k
  · rw [if_pos hkj, if_pos hkj.symm, if_pos hj]
  · rw [if_neg hkj, if_neg (Ne.symm hkj)]
    by_cases hki : i = k
    · rw [if_pos hki, if_pos hki.symm, if_pos hi]
    · rw [if_neg hki, if_neg (Ne.symm hki)]

/-! ## Towards the root -/

inductive Below (start : Nat) : Nat → Prop
  | refl : Below start start
  | child {j : Nat} : 0 < j → Below start ((j - 1) / 2) → Below start j

theorem Below.le (h : Below start j) : start ≤ j := by
  induction h with
  | refl => exact Nat.le_refl start
  | child hpos _ ih => omega

theorem Below.parent (h : Below start j) (hlt : start < j) : Below start ((j - 1) / 2) := by
  cases h with
  | refl => omega
  | child _ hparent => exact hparent

theorem below_zero (j : Nat) : Below 0 j := by
  induction j using Nat.strongRecOn with
  | _ j ih =>
    by_cases hj : j = 0
    · subst hj
      exact .refl
    · exact .child (by omega) (ih ((j - 1) / 2) (by omega))

/-- The order while an item moves towards `start`: only the item itself may be smaller
than its parent, and its children are not smaller than that parent. -/
structure Rising (lt : α → α → Bool) (start pos : Nat) (h : List α) : Prop where
  others : ∀ j, 0 < j → j ≠ pos → start ≤ (j - 1) / 2 → LeAt lt h ((j - 1) / 2) j
  children : ∀ j, 0 < j → (j - 1) / 2 = pos → start < pos → LeAt lt h ((pos - 1) / 2) j

theorem Rising.finish (hrise : Rising lt start pos h)
    (hstop : start < pos → LeAt lt h ((pos - 1) / 2) pos) : OrderedFrom lt start h := by
  intro j hj hstart
  by_cases hpos : j = pos
  · subst hpos
    exact hstop (by omega)
  · exact hrise.others j hj hpos hstart

theorem Rising.swap (hlt : Comparison lt) (hrise : Rising lt start pos h) (hpos : start < pos)
    (hbelow : Below start pos) (hlen : pos < h.length)
    (hsmaller : ∀ a b, h[(pos - 1) / 2]? = some a → h[pos]? = some b →
      lt b a = true) : Rising lt start ((pos - 1) / 2) (swapAt h pos ((pos - 1) / 2)) := by
  have hparent : (pos - 1) / 2 < h.length := by omega
  have hstart := (hbelow.parent hpos).le
  have hget := getElem?_swapAt hlen hparent
  generalize hp : (pos - 1) / 2 = parent at hparent hstart hget hsmaller hrise ⊢
  have hne : pos ≠ parent := by omega
  have hatParent : (swapAt h pos parent)[parent]? = h[pos]? := by rw [hget, if_pos rfl]
  have hatPos : (swapAt h pos parent)[pos]? = h[parent]? := by
    rw [hget, if_neg hne, if_pos rfl]
  have hother : ∀ k, k ≠ parent → k ≠ pos → (swapAt h pos parent)[k]? = h[k]? := by
    intro k hk hk'
    rw [hget, if_neg hk, if_neg hk']
  have hmoved : LeAt lt h pos parent := fun a b ha hb => hlt.asymm a b (hsmaller b a hb ha)
  constructor
  · intro j hj hjparent hjstart
    by_cases hjpos : j = pos
    · subst hjpos
      rw [hp]
      exact hmoved.congr hatParent hatPos
    · have hold := hrise.others j hj hjpos hjstart
      by_cases hsibling : (j - 1) / 2 = parent
      · rw [hsibling] at hold ⊢
        exact (hmoved.trans hlt hparent hold).congr hatParent (hother j hjparent hjpos)
      · by_cases hchild : (j - 1) / 2 = pos
        · rw [hchild]
          have hbelow := hrise.children j hj hchild hpos
          rw [hp] at hbelow
          exact hbelow.congr hatPos (hother j hjparent hjpos)
        · exact hold.congr (hother _ hsibling hchild) (hother j hjparent hjpos)
  · intro j hj hjparent hinner
    have hgrand : LeAt lt h ((parent - 1) / 2) parent :=
      hrise.others parent (by omega) (Ne.symm hne) (by
        have := ((hbelow.parent hpos)).parent (hp ▸ hinner)
        rw [hp] at this
        exact this.le)
    have hgrandparent : (swapAt h pos parent)[(parent - 1) / 2]? = h[(parent - 1) / 2]? :=
      hother _ (by omega) (by omega)
    by_cases hjpos : j = pos
    · subst hjpos
      exact hgrand.congr hgrandparent hatPos
    · have hold := hrise.others j hj hjpos (by omega)
      rw [hjparent] at hold
      exact (hgrand.trans hlt hparent hold).congr hgrandparent (hother j (by omega) hjpos)

theorem siftDown_ordered (hlt : Comparison lt) (hfuel : pos ≤ fuel)
    (hbelow : Below start pos) (hlen : pos < h.length) (hrise : Rising lt start pos h) :
    OrderedFrom lt start (siftDown lt start fuel pos h) := by
  induction fuel generalizing pos h with
  | zero =>
    apply hrise.finish
    omega
  | succ fuel ih =>
    unfold siftDown
    split
    next hpos =>
      have hparent : (pos - 1) / 2 < h.length := by omega
      rw [getElem?_eq_getElem hlen, getElem?_eq_getElem hparent]
      dsimp only
      split
      next hsmaller =>
        apply ih
        · omega
        · exact hbelow.parent hpos
        · rw [length_swapAt]
          omega
        · apply hrise.swap hlt hpos hbelow hlen
          intro a b ha hb
          rw [getElem?_eq_getElem hparent] at ha
          rw [getElem?_eq_getElem hlen] at hb
          cases ha
          cases hb
          exact hsmaller
      next hnot =>
        apply hrise.finish
        intro _ a b ha hb
        rw [getElem?_eq_getElem hparent] at ha
        rw [getElem?_eq_getElem hlen] at hb
        cases ha
        cases hb
        simpa using hnot
    next hnot =>
      apply hrise.finish
      omega

/-! ## Towards the leaves -/

/-- The order while an item sinks from `start`: it holds away from the item, and the
children of the item are not smaller than its parent. -/
structure Sinking (lt : α → α → Bool) (start pos : Nat) (h : List α) : Prop where
  others : ∀ j, 0 < j → j ≠ pos → (j - 1) / 2 ≠ pos → start ≤ (j - 1) / 2 →
    LeAt lt h ((j - 1) / 2) j
  children : ∀ j, 0 < j → (j - 1) / 2 = pos → start < pos → LeAt lt h ((pos - 1) / 2) j

section

variable (hlt : Comparison lt)

include hlt

theorem smallerChild_spec (hchild : smallerChild lt h pos = some child) :
    child < h.length ∧ (child - 1) / 2 = pos ∧ 0 < child ∧
      ∀ j, 0 < j → (j - 1) / 2 = pos → LeAt lt h child j := by
  have hchildren : ∀ j, 0 < j → (j - 1) / 2 = pos → j = 2 * pos + 1 ∨ j = 2 * pos + 2 := by
    intro j hj hparent
    omega
  have hself : ∀ i, LeAt lt h i i := fun i => .refl hlt h i
  unfold smallerChild at hchild
  split at hchild
  · cases hchild
  next left hleft =>
    have hleftLen := (List.getElem?_eq_some_iff.mp hleft).1
    split at hchild
    next hright =>
      cases hchild
      refine ⟨hleftLen, by omega, by omega, ?_⟩
      intro j hj hparent
      rcases hchildren j hj hparent with rfl | rfl
      · exact hself _
      · intro a b _ hb
        rw [hright] at hb
        cases hb
    next right hright =>
      have hrightLen := (List.getElem?_eq_some_iff.mp hright).1
      cases hchild
      split
      next hless =>
        refine ⟨hleftLen, by omega, by omega, ?_⟩
        intro j hj hparent
        rcases hchildren j hj hparent with rfl | rfl
        · exact hself _
        · intro a b ha hb
          rw [hleft] at ha
          rw [hright] at hb
          cases ha
          cases hb
          exact hlt.asymm _ _ hless
      next hnot =>
        refine ⟨hrightLen, by omega, by omega, ?_⟩
        intro j hj hparent
        rcases hchildren j hj hparent with rfl | rfl
        · intro a b ha hb
          rw [hright] at ha
          rw [hleft] at hb
          cases ha
          cases hb
          simpa using hnot
        · exact hself _

theorem Sinking.swap (hsink : Sinking lt start pos h)
    (hstart : start ≤ pos) (hlen : pos < h.length) (hchild : smallerChild lt h pos = some child) :
    Sinking lt start child (swapAt h pos child) := by
  obtain ⟨hchildLen, hparent, hchildPos, hsmaller⟩ := smallerChild_spec hlt hchild
  have hne : pos ≠ child := by omega
  have hget := getElem?_swapAt hlen hchildLen
  have hatPos : (swapAt h pos child)[pos]? = h[child]? := by rw [hget, if_neg hne, if_pos rfl]
  have hother : ∀ k, k ≠ child → k ≠ pos → (swapAt h pos child)[k]? = h[k]? := by
    intro k hk hk'
    rw [hget, if_neg hk, if_neg hk']
  constructor
  · intro j hj hjchild hjparent hjstart
    by_cases hjpos : j = pos
    · subst hjpos
      have hup := hsink.children child hchildPos hparent (by omega)
      exact hup.congr (hother _ hjparent (by omega)) hatPos
    · by_cases hsibling : (j - 1) / 2 = pos
      · rw [hsibling]
        exact (hsmaller j hj hsibling).congr hatPos (hother j hjchild hjpos)
      · exact (hsink.others j hj hjpos hsibling hjstart).congr (hother _ hjparent hsibling)
          (hother j hjchild hjpos)
  · intro j hj hjparent _
    rw [hparent]
    have hdown := hsink.others j hj (by omega) (by omega) (by omega)
    rw [hjparent] at hdown
    exact hdown.congr hatPos (hother j (by omega) (by omega))

theorem sinkToLeaf_rising (hfuel : h.length ≤ pos + fuel)
    (hbelow : Below start pos) (hlen : pos < h.length) (hsink : Sinking lt start pos h) :
    Below start (sinkToLeaf lt fuel pos h).1 ∧
      (sinkToLeaf lt fuel pos h).1 < (sinkToLeaf lt fuel pos h).2.length ∧
      Rising lt start (sinkToLeaf lt fuel pos h).1 (sinkToLeaf lt fuel pos h).2 := by
  induction fuel generalizing pos h with
  | zero => omega
  | succ fuel ih =>
    unfold sinkToLeaf
    split
    next hnone =>
      refine ⟨hbelow, hlen, ?_, hsink.children⟩
      intro j hj hpos hstart
      by_cases hparent : (j - 1) / 2 = pos
      · -- There is no item below a leaf.
        intro a b _ hb
        have hleft : h[2 * pos + 1]? = none := by
          unfold smallerChild at hnone
          split at hnone
          next hleft => exact hleft
          · split at hnone <;> cases hnone
        have hlong := getElem?_eq_none_iff.mp hleft
        have hshort : j < h.length := (List.getElem?_eq_some_iff.mp hb).1
        omega
      · exact hsink.others j hj hpos hparent hstart
    next child hchild =>
      obtain ⟨hchildLen, hparent, hchildPos, _⟩ := smallerChild_spec hlt hchild
      apply ih
      · rw [length_swapAt]
        omega
      · exact .child hchildPos (hparent ▸ hbelow)
      · rw [length_swapAt]
        exact hchildLen
      · exact hsink.swap hlt hbelow.le hlen hchild

theorem siftUp_ordered (hlen : pos < h.length)
    (hord : OrderedFrom lt (pos + 1) h) : OrderedFrom lt pos (siftUp lt h pos) := by
  have hsink : Sinking lt pos pos h := by
    constructor
    · intro j hj _ hparent hstart
      exact hord j hj (by omega)
    · intro j _ _ hself
      omega
  obtain ⟨hbelow, hleaf, hrise⟩ := sinkToLeaf_rising hlt (le_add_left h.length pos) .refl hlen
    hsink
  exact siftDown_ordered hlt (Nat.le_refl _) hbelow hleaf hrise

theorem push_ordered (hord : Ordered lt h) (item : α) :
    Ordered lt (push lt h item) := by
  have hnew : (h ++ [item]).length = h.length + 1 := length_append
  apply siftDown_ordered hlt (Nat.le_refl h.length) (below_zero h.length)
  · omega
  · have hnone : ∀ j, h.length < j → (h ++ [item])[j]? = none := by
      intro j hj
      apply getElem?_eq_none
      omega
    constructor
    · intro j hj hne hstart
      by_cases hlong : h.length < j
      · intro a b _ hb
        rw [hnone j hlong] at hb
        cases hb
      · apply (hord j hj hstart).congr
        · exact getElem?_append_left (by omega)
        · exact getElem?_append_left (by omega)
    · intro j hj hparent _ a b _ hb
      rw [hnone j (by omega)] at hb
      cases hb

theorem pop_ordered {rest : List α} {item : α} (hord : Ordered lt h)
    (hpop : pop lt h = some (item, rest)) : Ordered lt rest := by
  unfold pop at hpop
  split at hpop
  · cases hpop
  next first tail =>
    split at hpop
    · cases hpop
      intro j _ _ a b ha
      cases ha
    next last hlast =>
      cases hpop
      apply siftUp_ordered hlt
      · exact zero_lt_succ _
      · have hsame : ∀ k, 0 < k → ∀ x, (last :: tail.dropLast)[k]? = some x →
            (item :: tail)[k]? = some x := by
          intro k hk x hx
          obtain ⟨k, rfl⟩ : ∃ m, k = m + 1 := ⟨k - 1, by omega⟩
          rw [getElem?_cons_succ] at hx ⊢
          rw [getElem?_dropLast] at hx
          split at hx
          · exact hx
          · cases hx
        intro j hj hstart a b ha hb
        exact hord j hj (zero_le _) a b (hsame ((j - 1) / 2) (by omega) a ha) (hsame j hj b hb)

theorem heapify_ordered (h : List α) : Ordered lt (heapify lt h) := by
  have hloop : ∀ n (h : List α), n ≤ h.length → OrderedFrom lt n h →
      Ordered lt ((List.range n).reverse.foldl (siftUp lt) h) := by
    intro n
    induction n with
    | zero => exact fun h _ hord => hord
    | succ n ih =>
      intro h hlen hord
      rw [range_succ, reverse_append, reverse_singleton, singleton_append,
        foldl_cons]
      apply ih
      · rw [(siftUp_perm lt h n).length_eq]
        omega
      · exact siftUp_ordered hlt (by omega) hord
  apply hloop
  · omega
  · -- The second half of the list has no children.
    intro j hj hstart a b _ hb
    have hshort := (List.getElem?_eq_some_iff.mp hb).1
    omega

end

end VllmCore.Support.Heap
