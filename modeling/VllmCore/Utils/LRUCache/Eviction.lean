import Mathlib.Algebra.BigOperators.Group.List.Basic
import VllmCore.Utils.LRUCache
/-!
# Consistency and eviction in `LRUCache`

The order map and the data keep the same keys as long as `touch` is only given keys that
are there.  Every eviction then removes an entry, and the eviction loops end.
-/

namespace VllmCore.Utils.LRUCache

open List Option Support Dict

variable {K V : Type} [DecidableEq K] {getsizeof : V → Nat} {c : LRUCache K V} {key : K}

/-! ## Sizes -/

def sizeSum (getsizeof : V → Nat) (d : Dict K V) : Nat := (d.values.map getsizeof).sum

variable {value : V}

theorem sizeSum_erase {d : Dict K V} (h : d.get? key = some value) :
    sizeSum getsizeof d = getsizeof value + sizeSum getsizeof (d.erase key) := by
  have hperm := ((entries_perm_erase d h).map Prod.snd).map getsizeof
  have hsum := hperm.sum_eq
  exact hsum

theorem sizeSum_set (d : Dict K V) (value : V) :
    sizeSum getsizeof (d.set key value) = getsizeof value + sizeSum getsizeof (d.erase key) := by
  have hperm := ((entries_set_perm d key value).map Prod.snd).map getsizeof
  have hsum := hperm.sum_eq
  exact hsum

theorem sizeSum_sizeAt (c : LRUCache K V) (key : K) :
    sizeSum getsizeof c.data = c.sizeAt getsizeof key + sizeSum getsizeof (c.data.erase key) := by
  unfold sizeAt
  cases h : c.data.get? key with
  | some value => exact sizeSum_erase h
  | none =>
    have hnot := (get?_eq_none_iff c.data key).mp h
    have hentries := erase_of_not_mem c.data hnot
    unfold sizeSum Dict.values
    rw [hentries]
    simp

theorem length_erase (h : c.data.get? key = some value) :
    (c.data.erase key).entries.length + 1 = c.data.entries.length := by
  have hlen := (entries_perm_erase c.data h).length_eq
  rw [length_cons] at hlen
  omega

/-! ## The pieces of the operations -/

@[simp] theorem touch_data : (c.touch key).data = c.data := by
  unfold touch
  split <;> rfl

@[simp] theorem touch_currsize : (c.touch key).currsize = c.currsize := by
  unfold touch
  split <;> rfl

@[simp] theorem touch_maxsize : (c.touch key).maxsize = c.maxsize := by
  unfold touch
  split <;> rfl

theorem mem_order_touch (j : K) :
    j ∈ (c.touch key).order.keys ↔ j = key ∨ j ∈ c.order.keys := by
  unfold touch
  split
  · rename_i hmem
    have hperm := (moveToEnd_perm c.order key).map Prod.fst
    have hiff : j ∈ (c.order.moveToEnd key).keys ↔ j ∈ c.order.keys := hperm.mem_iff
    rw [hiff]
    constructor
    · exact .inr
    · rintro (rfl | hj)
      · exact hmem
      · exact hj
  · exact mem_keys_set c.order key () j

namespace Consistent

theorem congr {d : LRUCache K V} (h : c.Consistent getsizeof) (hdata : d.data = c.data)
    (hcurr : d.currsize = c.currsize) (horder : d.order = c.order) :
    d.Consistent getsizeof := by
  constructor
  · rw [horder, hdata]
    exact h.keys
  · rw [hcurr, hdata]
    exact h.currsize

theorem touch (h : c.Consistent getsizeof) (hmem : key ∈ c.data.keys) :
    (c.touch key).Consistent getsizeof := by
  constructor
  · intro j
    rw [mem_order_touch, touch_data, ← h.keys j]
    constructor
    · rintro (rfl | hj)
      · exact (h.keys j).mpr hmem
      · exact hj
    · exact .inr
  · rw [touch_currsize, touch_data]
    exact h.currsize

theorem removed (h : c.Consistent getsizeof) :
    (c.removed getsizeof key).Consistent getsizeof := by
  constructor
  · intro j
    show j ∈ (c.order.erase key).keys ↔ j ∈ (c.data.erase key).keys
    rw [mem_keys_erase, mem_keys_erase, h.keys j]
  · have hcurr : c.currsize = sizeSum getsizeof c.data := h.currsize
    have hsum := @sizeSum_sizeAt K V _ getsizeof c key
    show c.currsize - c.sizeAt getsizeof key = sizeSum getsizeof (c.data.erase key)
    omega

theorem store (h : c.Consistent getsizeof) (value : V) :
    (c.store getsizeof key value).Consistent getsizeof := by
  constructor
  · intro j
    show j ∈ (c.touch key).order.keys ↔ j ∈ (c.data.set key value).keys
    rw [mem_order_touch, mem_keys_set, h.keys j]
  · have hcurr : c.currsize = sizeSum getsizeof c.data := h.currsize
    have hsum := @sizeSum_sizeAt K V _ getsizeof c key
    have hset := @sizeSum_set K V _ getsizeof key c.data value
    show c.currsize + getsizeof value - c.sizeAt getsizeof key =
      sizeSum getsizeof (c.data.set key value)
    omega

end Consistent

/-! ## The methods -/

variable {I : CacheItems (K := K) getsizeof}

/-- What `__delitem__` leaves of a cache that has the key. -/
def deleted (getsizeof : V → Nat) (c : LRUCache K V) (key : K) : LRUCache K V :=
  let c := (c.touch key).removed getsizeof key
  if key ∈ c.pinnedItems then c.unpin key else c

theorem getItem_of_mem (h : c.data.get? key = some value) :
    getItem I.toCacheToolsOps c key false = (c.touch key, .ok value) := by
  unfold getItem
  rw [I.getItem_present c key value h]
  rfl

theorem delItem_of_mem (h : c.data.get? key = some value) :
    delItem I.toCacheToolsOps c key = (c.deleted getsizeof key, .ok ()) := by
  have hmem : key ∈ (c.touch key).data.keys := by
    rw [touch_data, mem_keys_iff, h]
    exact some_ne_none value
  unfold delItem
  rw [getItem_of_mem h]
  dsimp only
  rw [I.delItem_present _ key hmem]
  rfl

theorem pop_of_mem {value : V} (h : c.data.get? key = some value) :
    pop I.toCacheToolsOps c key = ((c.touch key).deleted getsizeof key, .ok (some value)) := by
  have hmem : c.contains key = true := by
    unfold contains Dict.contains
    rw [h]
    rfl
  have htouch : (c.touch key).data.get? key = some value := by
    rw [touch_data]
    exact h
  unfold pop
  rw [if_pos hmem, getItem_of_mem h]
  dsimp only
  rw [delItem_of_mem htouch]

theorem pop_of_not_mem (h : key ∉ c.data.keys) :
    pop I.toCacheToolsOps c key = (c, .ok none) := by
  have hmem : ¬c.contains key = true := by
    rw [contains, Dict.contains_iff]
    exact h
  unfold pop
  rw [if_neg hmem]

theorem deleted_data : (c.deleted getsizeof key).data = c.data.erase key := by
  unfold deleted unpin removed
  dsimp only
  split <;> simp

theorem Consistent.deleted (h : c.Consistent getsizeof) (hmem : key ∈ c.data.keys) :
    (c.deleted getsizeof key).Consistent getsizeof := by
  unfold LRUCache.deleted
  dsimp only
  split
  · exact (h.touch hmem).removed.congr rfl rfl rfl
  · exact (h.touch hmem).removed

theorem mem_order_of_lruKey {removePinned : Bool} (h : c.lruKey removePinned = .ok key) :
    key ∈ c.order.keys := by
  unfold lruKey at h
  split at h
  · split at h
    · rename_i j keys hkeys
      cases h
      rw [hkeys]
      exact mem_cons_self
    · cases h
  · split at h
    · rename_i j hfind
      cases h
      exact mem_of_find?_eq_some hfind
    · cases h

theorem popitem_cases (I : CacheItems (K := K) getsizeof) (h : c.Consistent getsizeof)
    (removePinned : Bool) :
    (∃ e, c.lruKey removePinned = .error e ∧
        popitem I.toCacheToolsOps c removePinned = (c, .error e)) ∨
      ∃ key value, c.data.get? key = some value ∧
        popitem I.toCacheToolsOps c removePinned =
          ((c.touch key).deleted getsizeof key, .ok (key, some value)) := by
  unfold popitem
  cases hkey : c.lruKey removePinned with
  | error e => exact .inl ⟨e, rfl, rfl⟩
  | ok key =>
    have hmem := (h.keys key).mp (mem_order_of_lruKey hkey)
    obtain ⟨value, hvalue⟩ := exists_of_mem_keys hmem
    refine .inr ⟨key, value, hvalue, ?_⟩
    dsimp only
    rw [pop_of_mem hvalue]

theorem Consistent.popped (h : c.Consistent getsizeof) (hvalue : c.data.get? key = some value) :
    ((c.touch key).deleted getsizeof key).Consistent getsizeof ∧
      ((c.touch key).deleted getsizeof key).data.entries.length + 1 = c.data.entries.length := by
  have hmem : key ∈ c.data.keys := by
    rw [mem_keys_iff, hvalue]
    exact some_ne_none value
  constructor
  · apply (h.touch hmem).deleted
    rw [touch_data]
    exact hmem
  · rw [deleted_data, touch_data]
    exact length_erase hvalue

theorem popitem_spec (I : CacheItems (K := K) getsizeof) (h : c.Consistent getsizeof)
    (removePinned : Bool) :
    (popitem I.toCacheToolsOps c removePinned).1.Consistent getsizeof ∧
      ∀ item, (popitem I.toCacheToolsOps c removePinned).2 = .ok item →
        (popitem I.toCacheToolsOps c removePinned).1.data.entries.length + 1 =
          c.data.entries.length := by
  obtain ⟨e, _, heq⟩ | ⟨key, value, hvalue, heq⟩ := popitem_cases I h removePinned
  · rw [heq]
    refine ⟨h, ?_⟩
    intro item hitem
    cases hitem
  · rw [heq]
    exact ⟨(h.popped hvalue).1, fun _ _ => (h.popped hvalue).2⟩

/-! ## The eviction loops -/

variable {T : CacheTools (K := K) getsizeof}

theorem setItem_ends (h : c.Consistent getsizeof) (key : K) (value : V) :
    ∃ r, T.setItem c key value = some r ∧ r.1.Consistent getsizeof := by
  induction hn : c.data.entries.length using Nat.strong_induction_on generalizing c with
  | _ n ih =>
    by_cases hlarge : c.maxsize < getsizeof value
    · exact ⟨_, T.setItem_large c key value hlarge, h⟩
    · have hfits : getsizeof value ≤ c.maxsize := Nat.not_lt.mp hlarge
      by_cases hev : c.evicts getsizeof key value
      · cases hpop : popitem T.toCacheToolsOps c false with
        | mk c' r =>
          have hspec := popitem_spec T.toCacheItems h false
          rw [hpop] at hspec
          cases r with
          | error e => exact ⟨_, T.setItem_raise c c' key value e hfits hev hpop, hspec.1⟩
          | ok item =>
            have hlen : c'.data.entries.length + 1 = c.data.entries.length :=
              hspec.2 item rfl
            rw [T.setItem_pop c c' key value item hfits hev hpop]
            exact ih _ (by omega) hspec.1 rfl
      · exact ⟨_, T.setItem_room c key value hfits hev, h.store value⟩

theorem removeOldest_pinned (h : c.Consistent getsizeof) (hne : c.data.keys ≠ []) :
    ∃ c', removeOldest I.toCacheToolsOps c true = (c', .ok ()) ∧ c'.Consistent getsizeof ∧
      c'.data.entries.length + 1 = c.data.entries.length := by
  unfold removeOldest
  rw [if_neg hne]
  obtain ⟨e, hkey, _⟩ | ⟨key, value, hvalue, heq⟩ := popitem_cases I h true
  · obtain ⟨j, hj⟩ := exists_mem_of_ne_nil _ hne
    have horder := (h.keys j).mpr hj
    unfold lruKey at hkey
    rw [if_pos rfl] at hkey
    split at hkey
    · cases hkey
    · rename_i hnil
      rw [hnil] at horder
      cases horder
  · rw [heq]
    exact ⟨_, rfl, h.popped hvalue⟩

theorem clearLoop_ends (h : c.Consistent getsizeof) :
    ∃ r, clearLoop I.toCacheToolsOps (c.data.entries.length + 1) c = some r ∧
      r.1.Consistent getsizeof := by
  induction hn : c.data.entries.length generalizing c with
  | zero =>
    have hnil : c.data.keys = [] := by
      rw [Dict.keys, length_eq_zero_iff.mp hn]
      rfl
    unfold clearLoop
    rw [if_pos hnil]
    exact ⟨_, rfl, h.congr rfl rfl rfl⟩
  | succ n ih =>
    have hne : c.data.keys ≠ [] := by
      intro hnil
      have hlen := congrArg List.length hnil
      rw [Dict.keys, length_map, hn] at hlen
      cases hlen
    obtain ⟨c', hremove, hc', hlen⟩ := removeOldest_pinned (I := I) h hne
    unfold clearLoop
    rw [if_neg hne, hremove]
    exact ih hc' (by omega)

theorem clearLoop_mono {T : CacheToolsOps K V} {fuel more : Nat} (hle : fuel ≤ more)
    {r : LRUCache K V × Except (CacheError K) Unit}
    (h : clearLoop T fuel c = some r) : clearLoop T more c = some r := by
  induction fuel generalizing c more with
  | zero => cases h
  | succ fuel ih =>
    obtain ⟨more, rfl⟩ : ∃ m, more = m + 1 := ⟨more - 1, by omega⟩
    unfold clearLoop at h ⊢
    split
    · rename_i hnil
      rw [if_pos hnil] at h
      exact h
    · rename_i hne
      rw [if_neg hne] at h
      split at h
      · exact h
      · exact ih (by omega) h

end VllmCore.Utils.LRUCache
