import VllmCore.Utils.LRUCache.Eviction
/-!
# Runs of `LRUCache`

A run keeps the cache consistent and its eviction loops end exactly if `touch` is only given
keys that are in the cache.  A key that was touched and never stored is chosen again and
again once it is the least recently used.
-/

namespace VllmCore.Utils.LRUCache

open Option Support Dict

variable {K V : Type} [DecidableEq K] {getsizeof : V → Nat} {c : LRUCache K V}
  {T : CacheTools (K := K) getsizeof}

/-! ## One call -/

theorem Ends.functional {T : CacheToolsOps K V} {op : Op K V}
    {r s : LRUCache K V × Except (CacheError K) Unit} (hr : Ends T c op r) (hs : Ends T c op s) :
    r = s := by
  obtain ⟨fuel, hr⟩ := hr
  obtain ⟨more, hs⟩ := hs
  cases op
  case clear =>
    have hr : clearLoop T (max fuel more) c = some r := clearLoop_mono (Nat.le_max_left _ _) hr
    have hs : clearLoop T (max fuel more) c = some s := clearLoop_mono (Nat.le_max_right _ _) hs
    rw [hr] at hs
    exact Option.some.inj hs
  all_goals
    have h := hr.symm.trans hs
    exact Option.some.inj h

section

variable (I : CacheItems (K := K) getsizeof)

include I

theorem getItem_consistent (h : c.Consistent getsizeof)
    (key : K) (updateInfo : Bool) :
    (getItem I.toCacheToolsOps c key updateInfo).1.Consistent getsizeof := by
  unfold getItem
  by_cases hmem : key ∈ c.data.keys
  · obtain ⟨value, hvalue⟩ := exists_of_mem_keys hmem
    rw [I.getItem_present c key value hvalue]
    cases updateInfo
    · exact h.touch hmem
    · exact (h.touch hmem).congr rfl rfl rfl
  · rw [I.getItem_absent c key hmem]
    exact h

theorem delItem_consistent (h : c.Consistent getsizeof)
    (key : K) : (delItem I.toCacheToolsOps c key).1.Consistent getsizeof := by
  by_cases hmem : key ∈ c.data.keys
  · obtain ⟨value, hvalue⟩ := exists_of_mem_keys hmem
    rw [delItem_of_mem hvalue]
    exact h.deleted hmem
  · unfold delItem getItem
    rw [I.getItem_absent c key hmem]
    exact h

theorem get_consistent (h : c.Consistent getsizeof)
    (key : K) : (get I.toCacheToolsOps c key).1.Consistent getsizeof := by
  unfold get
  split
  · have hitem := getItem_consistent I h key false
    split
    · rename_i heq
      rw [heq] at hitem
      exact hitem
    · rename_i heq
      rw [heq] at hitem
      exact hitem.congr rfl rfl rfl
  · exact h.congr rfl rfl rfl

theorem pop_consistent (h : c.Consistent getsizeof)
    (key : K) : (pop I.toCacheToolsOps c key).1.Consistent getsizeof := by
  by_cases hmem : key ∈ c.data.keys
  · obtain ⟨value, hvalue⟩ := exists_of_mem_keys hmem
    rw [pop_of_mem hvalue]
    exact (h.popped hvalue).1
  · rw [pop_of_not_mem hmem]
    exact h

theorem removeOldest_consistent (h : c.Consistent getsizeof) (removePinned : Bool) :
    (removeOldest I.toCacheToolsOps c removePinned).1.Consistent getsizeof := by
  unfold removeOldest
  split
  · exact h
  · have hspec := popitem_spec I h removePinned
    split
    · rename_i heq
      rw [heq] at hspec
      exact hspec.1
    · rename_i heq
      rw [heq] at hspec
      exact hspec.1

end

theorem call_spec (h : c.Consistent getsizeof) (op : Op K V)
    (htouch : ∀ key, op = .touch key → key ∈ c.data.keys) :
    ∃ r, Ends T.toCacheToolsOps c op r ∧ r.1.Consistent getsizeof ∧
      ((∃ removePinned, op = .popitem removePinned) → r.2 = .ok () →
        r.1.data.entries.length + 1 = c.data.entries.length) := by
  have hother : (∀ removePinned, op ≠ .popitem removePinned) →
      ∀ (r : LRUCache K V × Except (CacheError K) Unit),
        (∃ removePinned, op = .popitem removePinned) → r.2 = .ok () →
        r.1.data.entries.length + 1 = c.data.entries.length := by
    intro hne r hpop
    obtain ⟨removePinned, hpop⟩ := hpop
    exact absurd hpop (hne removePinned)
  cases op with
  | setItem key value =>
    obtain ⟨r, hrun, hr⟩ := setItem_ends (T := T) h key value
    exact ⟨r, ⟨0, hrun⟩, hr, hother (by simp) r⟩
  | getItem key =>
    exact ⟨_, ⟨0, rfl⟩, getItem_consistent T.toCacheItems h key true, hother (by simp) _⟩
  | delItem key =>
    exact ⟨_, ⟨0, rfl⟩, delItem_consistent T.toCacheItems h key, hother (by simp) _⟩
  | get key => exact ⟨_, ⟨0, rfl⟩, get_consistent T.toCacheItems h key, hother (by simp) _⟩
  | touch key => exact ⟨_, ⟨0, rfl⟩, h.touch (htouch key rfl), hother (by simp) _⟩
  | pop key => exact ⟨_, ⟨0, rfl⟩, pop_consistent T.toCacheItems h key, hother (by simp) _⟩
  | pin key =>
    refine ⟨_, ⟨0, rfl⟩, ?_, hother (by simp) _⟩
    unfold pin
    split
    · exact h.congr rfl rfl rfl
    · exact h
  | stat delta =>
    refine ⟨_, ⟨0, rfl⟩, ?_, hother (by simp) _⟩
    cases delta
    · exact h
    · exact h.congr rfl rfl rfl
  | popitem removePinned =>
    have hspec := popitem_spec T.toCacheItems h removePinned
    refine ⟨_, ⟨0, rfl⟩, hspec.1, ?_⟩
    intro _ hok
    cases hres : (popitem T.toCacheToolsOps c removePinned).2 with
    | error e =>
      unfold outcome at hok
      rw [hres] at hok
      cases hok
    | ok item => exact hspec.2 item hres
  | removeOldest removePinned =>
    exact ⟨_, ⟨0, rfl⟩, removeOldest_consistent T.toCacheItems h removePinned,
      hother (by simp) _⟩
  | clear =>
    obtain ⟨r, hrun, hr⟩ := clearLoop_ends (I := T.toCacheItems) h
    exact ⟨r, ⟨c.data.entries.length + 1, hrun⟩, hr, hother (by simp) r⟩

/-! ## Runs -/

theorem Keeps.consistent {T : CacheToolsOps K V} {ops : List (Op K V)}
    (h : Keeps T getsizeof c ops) : c.Consistent getsizeof := by
  cases ops with
  | nil => exact h
  | cons op ops => exact h.1

/-- From a consistent cache a run keeps it so exactly if its touches name keys that are
there. -/
theorem keeps_iff_of_consistent (h : c.Consistent getsizeof) (ops : List (Op K V)) :
    Keeps T.toCacheToolsOps getsizeof c ops ↔ TouchesPresent T.toCacheToolsOps c ops := by
  induction ops generalizing c with
  | nil => exact ⟨fun _ => trivial, fun _ => h⟩
  | cons op ops ih =>
    constructor
    · intro hkeeps
      obtain ⟨_, r, hends, _, hrest⟩ := hkeeps
      refine ⟨?_, ?_⟩
      · rintro key rfl
        -- the touched key is in the order map, and so in the data
        have hr : r = (c.touch key, .ok ()) := hends.functional ⟨0, rfl⟩
        have hcons := hrest.consistent
        rw [hr] at hcons
        have hmem := (hcons.keys key).mp ((mem_order_touch key).mpr (.inl rfl))
        rw [touch_data] at hmem
        exact hmem
      · intro s hs
        rw [← hends.functional hs]
        exact (ih hrest.consistent).mp hrest
    · intro htouches
      obtain ⟨r, hends, hr, hpop⟩ := call_spec (T := T) h op htouches.1
      exact ⟨h, r, hends, hpop, (ih hr).mpr (htouches.2 r hends)⟩

def empty (maxsize : Nat) : LRUCache K V := { maxsize := maxsize }

theorem empty_consistent (maxsize : Nat) :
    (empty maxsize : LRUCache K V).Consistent getsizeof := by
  constructor
  · intro key
    exact Iff.rfl
  · rfl

variable {ghost : K} {keys : List K}

theorem popitem_ghost {I : CacheItems (K := K) getsizeof} (horder : c.order.keys = ghost :: keys)
    (hghost : ghost ∉ c.data.keys) (hpinned : ghost ∉ c.pinnedItems) (removePinned : Bool) :
    popitem I.toCacheToolsOps c removePinned = (c, .ok (ghost, none)) := by
  have hkey : c.lruKey removePinned = .ok ghost := by
    unfold lruKey
    rw [horder]
    cases removePinned
    · simp [hpinned]
    · rfl
  unfold popitem
  rw [hkey]
  dsimp only
  rw [pop_of_not_mem hghost]

theorem clear_ghost {I : CacheItems (K := K) getsizeof} (horder : c.order.keys = ghost :: keys)
    (hghost : ghost ∉ c.data.keys) (hpinned : ghost ∉ c.pinnedItems) (hne : c.data.keys ≠ [])
    (fuel : Nat) : clearLoop I.toCacheToolsOps fuel c = none := by
  induction fuel with
  | zero => rfl
  | succ fuel ih =>
    unfold clearLoop removeOldest
    rw [if_neg hne, if_neg hne, popitem_ghost horder hghost hpinned]
    exact ih

theorem setItem_ghost (horder : c.order.keys = ghost :: keys) (hghost : ghost ∉ c.data.keys)
    (hpinned : ghost ∉ c.pinnedItems) {key : K} {value : V} (hfits : getsizeof value ≤ c.maxsize)
    (hev : c.evicts getsizeof key value) : T.setItem c key value = none :=
  T.setItem_stuck c key value _ hfits hev (popitem_ghost horder hghost hpinned false)

/-! ## A base class that behaves as documented -/

section Documented

variable (getsizeof)

/-- `__getitem__`. -/
def baseGetItem (c : LRUCache K V) (key : K) : LRUCache K V × Except (CacheError K) V :=
  match c.data.get? key with
  | some value => (c.touch key, .ok value)
  | none => (c, .error (.keyError key))

/-- `__delitem__`. -/
def baseDelItem (c : LRUCache K V) (key : K) : LRUCache K V × Except (CacheError K) Unit :=
  if key ∈ c.data.keys then (c.removed getsizeof key, .ok ()) else (c, .error (.keyError key))

/-- What `popitem` uses of the base class. -/
def popOps : CacheToolsOps K V where
  getItem := baseGetItem
  delItem := baseDelItem getsizeof
  setItem c _ _ := some (c, .ok ())

/-- The loop of `__setitem__`; an eviction that removes nothing is repeated for ever. -/
def evictLoop : Nat → LRUCache K V → K → V →
    Option (LRUCache K V × Except (CacheError K) Unit)
  | 0, _, _, _ => none
  | n + 1, c, key, value =>
    if c.evicts getsizeof key value then
      match popitem (popOps getsizeof) c false with
      | (c', .error e) => some (c', .error e)
      | (c', .ok _) =>
        if c'.data.entries.length < c.data.entries.length then evictLoop n c' key value
        else none
    else some (c.store getsizeof key value, .ok ())

/-- `__setitem__`. -/
def baseSetItem (c : LRUCache K V) (key : K) (value : V) :
    Option (LRUCache K V × Except (CacheError K) Unit) :=
  if c.maxsize < getsizeof value then some (c, .error .valueTooLarge)
  else evictLoop getsizeof (c.data.entries.length + 1) c key value

def baseOps : CacheToolsOps K V where
  getItem := baseGetItem
  delItem := baseDelItem getsizeof
  setItem := baseSetItem getsizeof

variable {getsizeof}

theorem baseGetItem_present (c : LRUCache K V) (key : K) (value : V)
    (h : c.data.get? key = some value) : baseGetItem c key = (c.touch key, .ok value) := by
  unfold baseGetItem
  rw [h]

theorem baseGetItem_absent (c : LRUCache K V) (key : K) (h : key ∉ c.data.keys) :
    baseGetItem c key = (c, .error (.keyError key)) := by
  unfold baseGetItem
  rw [(get?_eq_none_iff c.data key).mpr h]

theorem baseDelItem_present (c : LRUCache K V) (key : K) (h : key ∈ c.data.keys) :
    baseDelItem getsizeof c key = (c.removed getsizeof key, .ok ()) := if_pos h

theorem baseDelItem_absent (c : LRUCache K V) (key : K) (h : key ∉ c.data.keys) :
    baseDelItem getsizeof c key = (c, .error (.keyError key)) := if_neg h

variable (getsizeof)

/-- Reading and removing are as documented. -/
def baseItems : CacheItems (K := K) getsizeof where
  toCacheToolsOps := baseOps getsizeof
  getItem_present := baseGetItem_present
  getItem_absent := baseGetItem_absent
  delItem_present := baseDelItem_present
  delItem_absent := baseDelItem_absent

variable {getsizeof}

@[simp] theorem deleted_maxsize {key : K} : (c.deleted getsizeof key).maxsize = c.maxsize := by
  unfold deleted unpin removed
  dsimp only
  split <;> simp

theorem popitem_ok {c' : LRUCache K V} {item : K × Option V}
    (h : popitem (baseOps getsizeof) c false = (c', .ok item)) :
    c' = c ∨ c'.data.entries.length < c.data.entries.length ∧ c'.maxsize = c.maxsize := by
  unfold popitem at h
  split at h
  · cases h
  · rename_i key _
    by_cases hmem : key ∈ c.data.keys
    · obtain ⟨value, hvalue⟩ := exists_of_mem_keys hmem
      have hpop := @pop_of_mem K V _ getsizeof c key (baseItems getsizeof) value hvalue
      have hlen := length_erase hvalue
      rw [show pop (baseOps getsizeof) c key = _ from hpop] at h
      cases h
      right
      rw [deleted_data, deleted_maxsize, touch_data, touch_maxsize]
      exact ⟨by omega, rfl⟩
    · have hpop := @pop_of_not_mem K V _ getsizeof c key (baseItems getsizeof) hmem
      rw [show pop (baseOps getsizeof) c key = _ from hpop] at h
      cases h
      exact .inl rfl

theorem evictLoop_pop {c' : LRUCache K V} {key : K} {value : V} {item : K × Option V}
    (hev : c.evicts getsizeof key value)
    (hpop : popitem (baseOps getsizeof) c false = (c', .ok item)) (n : Nat) :
    evictLoop getsizeof (n + 1) c key value =
      if c'.data.entries.length < c.data.entries.length then evictLoop getsizeof n c' key value
      else none := by
  have hpop : popitem (popOps getsizeof) c false = (c', .ok item) := hpop
  rw [evictLoop, if_pos hev, hpop]

theorem evictLoop_fuel {key : K} {value : V} {n m : Nat} (hn : c.data.entries.length < n)
    (hm : c.data.entries.length < m) :
    evictLoop getsizeof n c key value = evictLoop getsizeof m c key value := by
  induction n generalizing c m with
  | zero => omega
  | succ n ih =>
    cases m with
    | zero => omega
    | succ m =>
      unfold evictLoop
      by_cases hev : c.evicts getsizeof key value
      · rw [if_pos hev, if_pos hev]
        split
        · rfl
        · split
          · exact ih (by omega) (by omega)
          · rfl
      · rw [if_neg hev, if_neg hev]

theorem baseSetItem_room (c : LRUCache K V) (key : K) (value : V)
    (hfits : getsizeof value ≤ c.maxsize) (hev : ¬c.evicts getsizeof key value) :
    baseSetItem getsizeof c key value = some (c.store getsizeof key value, .ok ()) := by
  unfold baseSetItem
  rw [if_neg (Nat.not_lt.mpr hfits), evictLoop, if_neg hev]

theorem baseSetItem_pop (c c' : LRUCache K V) (key : K) (value : V) (item : K × Option V)
    (hfits : getsizeof value ≤ c.maxsize) (hev : c.evicts getsizeof key value)
    (hpop : popitem (baseOps getsizeof) c false = (c', .ok item)) :
    baseSetItem getsizeof c key value = baseSetItem getsizeof c' key value := by
  obtain rfl | ⟨hlen, hmax⟩ := popitem_ok hpop
  · rfl
  · unfold baseSetItem
    rw [hmax, if_neg (Nat.not_lt.mpr hfits), if_neg (Nat.not_lt.mpr hfits),
      evictLoop_pop hev hpop, if_pos hlen]
    exact evictLoop_fuel hlen (Nat.lt_succ_self _)

theorem baseSetItem_raise (c c' : LRUCache K V) (key : K) (value : V) (e : CacheError K)
    (hfits : getsizeof value ≤ c.maxsize) (hev : c.evicts getsizeof key value)
    (hpop : popitem (baseOps getsizeof) c false = (c', .error e)) :
    baseSetItem getsizeof c key value = some (c', .error e) := by
  have hpop : popitem (popOps getsizeof) c false = (c', .error e) := hpop
  unfold baseSetItem
  rw [if_neg (Nat.not_lt.mpr hfits), evictLoop, if_pos hev, hpop]

theorem baseSetItem_stuck (c : LRUCache K V) (key : K) (value : V) (item : K × Option V)
    (hfits : getsizeof value ≤ c.maxsize) (hev : c.evicts getsizeof key value)
    (hpop : popitem (baseOps getsizeof) c false = (c, .ok item)) :
    baseSetItem getsizeof c key value = none := by
  unfold baseSetItem
  rw [if_neg (Nat.not_lt.mpr hfits), evictLoop_pop hev hpop, if_neg (Nat.lt_irrefl _)]

theorem baseSetItem_large (c : LRUCache K V) (key : K) (value : V)
    (h : c.maxsize < getsizeof value) :
    baseSetItem getsizeof c key value = some (c, .error .valueTooLarge) := if_pos h

variable (getsizeof)

def baseTools : CacheTools (K := K) getsizeof where
  toCacheItems := baseItems getsizeof
  setItem_large := baseSetItem_large
  setItem_room := baseSetItem_room
  setItem_pop := baseSetItem_pop
  setItem_raise := baseSetItem_raise
  setItem_stuck := baseSetItem_stuck

end Documented

/-! ## All runs -/

/-- Runs keep the order map, the size and the eviction loops right exactly if every touch
names a key that is in the cache. -/
theorem keeps_iff_touchesPresent (T : CacheTools (K := K) getsizeof) (maxsize : Nat)
    (ops : List (Op K V)) :
    Keeps T.toCacheToolsOps getsizeof (empty maxsize) ops ↔
      TouchesPresent T.toCacheToolsOps (empty maxsize) ops :=
  keeps_iff_of_consistent (empty_consistent maxsize) ops

theorem touchesPresent_of_forall {T : CacheToolsOps K V} {ops : List (Op K V)}
    (h : ∀ op ∈ ops, ∀ key, op ≠ .touch key) : TouchesPresent T c ops := by
  induction ops generalizing c with
  | nil => trivial
  | cons op ops ih =>
    refine ⟨?_, ?_⟩
    · intro key hop
      exact absurd hop (h op List.mem_cons_self key)
    · intro r _
      exact ih fun o ho => h o (List.mem_cons_of_mem _ ho)

/-- Two values in a cache that has no room for both. -/
theorem keeps_two_values :
    Keeps (baseOps id) id (empty 2)
      [.setItem 0 2, .touch 0, .setItem 1 1, .popitem false, (.clear : Op Nat Nat)] := by
  apply (keeps_iff_touchesPresent (baseTools id) 2 _).mpr
  refine ⟨?_, ?_⟩
  · intro key hop
    cases hop
  intro r hr
  have hroom : (baseOps id).setItem (empty 2) 0 2 = some ((empty 2).store id 0 2, .ok ()) :=
    (baseTools id).setItem_room (empty 2) 0 2 (by decide) (by decide +kernel)
  rw [hr.functional ⟨0, hroom⟩]
  refine ⟨?_, ?_⟩
  · intro key hop
    cases hop
    decide +kernel
  · intro r _
    apply touchesPresent_of_forall
    simp

/-- A key is touched, its value is too large, and the cache fills up: then neither another
value can be stored nor the cache be cleared. -/
theorem ghost_stops_eviction : ∃ c₁ c₂ c₃ : LRUCache Nat Nat,
    Ends (baseOps id) (empty 2) (.touch 1) (c₁, .ok ()) ∧
      Ends (baseOps id) c₁ (.setItem 1 3) (c₂, .error .valueTooLarge) ∧
      Ends (baseOps id) c₂ (.setItem 0 2) (c₃, .ok ()) ∧
      popitem (baseOps id) c₃ false = (c₃, .ok (1, none)) ∧
      (∀ r, ¬Ends (baseOps id) c₃ (.setItem 2 1) r) ∧ (∀ r, ¬Ends (baseOps id) c₃ .clear r) ∧
      ¬Keeps (baseOps id) id (empty 2)
        [.touch 1, .setItem 1 3, .setItem 0 2, (.setItem 2 1 : Op Nat Nat)] := by
  have horder : (((empty 2 : LRUCache Nat Nat).touch 1).store id 0 2).order.keys = [1, 0] := by
    decide +kernel
  have hghost : 1 ∉ (((empty 2 : LRUCache Nat Nat).touch 1).store id 0 2).data.keys := by
    decide +kernel
  refine ⟨(empty 2).touch 1, (empty 2).touch 1, ((empty 2).touch 1).store id 0 2, ⟨0, rfl⟩,
    ⟨0, rfl⟩, ⟨0, ?_⟩, ?_, ?_, ?_, ?_⟩
  · exact (baseTools id).setItem_room ((empty 2).touch 1) 0 2 (by decide) (by decide +kernel)
  · exact popitem_ghost (I := baseItems id) horder hghost (by decide +kernel) false
  · intro r hr
    obtain ⟨fuel, hr⟩ := hr
    have hstuck := @setItem_ghost Nat Nat _ id _ (baseTools id) _ _ horder hghost
      (by decide +kernel) 2 1 (by decide) (by decide +kernel)
    have h := hstuck.symm.trans hr
    cases h
  · intro r hr
    obtain ⟨fuel, hr⟩ := hr
    have hstuck := clear_ghost (I := baseItems id) horder hghost (by decide +kernel)
      (by decide +kernel) fuel
    have h := hstuck.symm.trans hr
    cases h
  · intro hkeeps
    have htouches := (keeps_iff_of_consistent (T := baseTools id) (empty_consistent 2) _).mp hkeeps
    have hmem := htouches.1 1 rfl
    cases hmem

end VllmCore.Utils.LRUCache
