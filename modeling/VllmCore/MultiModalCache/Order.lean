import Mathlib.Algebra.Order.BigOperators.Group.Finset
import VllmCore.MultiModalCache
/-!
# A request whose items fit

The items of a request are touched first, so that they stand behind all others in the order
of the cache.  While they are stored only others are evicted, as long as the distinct items
fit into the cache together; then P0 finds every item where it expects it.
-/

namespace VllmCore.MultiModalCache

open List Support Dict

/-! ## The order of a cache -/

theorem zip_flags (items : List Item) (flag : Item → Bool) :
    items.zip (items.map flag) = items.map fun x => (x, flag x) := by
  have h := @zip_map' _ _ _ id flag items
  rwa [map_id] at h

/-- The room that is needed for the items of a request. -/
def roomFor (need : MmHash → Nat) (K : List MmHash) : Nat := (K.dedup.map need).sum

theorem sum_need_le (need : MmHash → Nat) {K keys : List MmHash} (hnodup : keys.Nodup)
    (hsubset : ∀ k ∈ keys, k ∈ K) : (keys.map need).sum ≤ roomFor need K := by
  have hsubperm : keys.Subperm K.dedup :=
    List.Nodup.subperm hnodup fun k hk => mem_dedup.mpr (hsubset k hk)
  obtain ⟨l, hperm, hsublist⟩ := hsubperm
  rw [← (hperm.map need).sum_eq]
  exact (hsublist.map need).sum_le_sum (fun _ _ => Nat.zero_le _)

namespace LRUCache

variable {key : MmHash} {v : Option Nat}

theorem contains_iff {c : LRUCache} :
    c.contains key = true ↔ ∃ size, (key, some size) ∈ c.order.entries := by
  unfold contains
  constructor
  · intro h
    split at h
    next size heq => exact ⟨size, (get?_eq_some_iff c.order key _).mp heq⟩
    · cases h
  · rintro ⟨size, hmem⟩
    rw [(get?_eq_some_iff c.order key _).mpr hmem]

theorem erase_head {c : LRUCache}
    {rest : List (MmHash × Option Nat)} (h : c.order.entries = (key, v) :: rest) :
    (c.order.erase key).entries = rest := by
  have hnodup := c.order.nodup
  rw [h, map_cons, nodup_cons] at hnodup
  have herase : (c.order.erase key).entries = c.order.entries.filter fun e => e.1 ≠ key := rfl
  rw [herase, h, filter_cons_of_neg (by simp)]
  apply filter_eq_self.mpr
  intro e he
  apply decide_eq_true
  intro heq
  exact hnodup.1 (mem_map.mpr ⟨e, he, heq⟩)

theorem entries_touch (c : LRUCache) (key : MmHash) :
    ∃ v, (c.touch key).order.entries = (c.order.erase key).entries ++ [(key, v)] ∧
      ∀ size, v = some size ↔ c.order.get? key = some (some size) := by
  have hnew : key ∉ (c.order.erase key).keys := by
    rw [mem_keys_erase]
    intro h
    exact h.1 rfl
  unfold touch
  by_cases hin : key ∈ c.order.keys
  · rw [if_pos hin]
    rw [mem_keys_iff] at hin
    cases hget : c.order.get? key with
    | none => exact absurd hget hin
    | some v =>
      refine ⟨v, ?_, ?_⟩
      · simp only [Dict.moveToEnd, hget]
        exact entries_set_new _ hnew v
      · intro size
        rw [Option.some.injEq]
  · rw [if_neg hin]
    refine ⟨none, ?_, ?_⟩
    · dsimp only
      rw [entries_set_new _ hin, erase_of_not_mem _ hin]
    · intro size
      rw [(get?_eq_none_iff c.order key).mpr hin]
      constructor <;> intro h <;> cases h

theorem entries_store (c : LRUCache) (key : MmHash) (size : Nat) :
    (c.store key size).order.entries = (c.order.erase key).entries ++ [(key, some size)] := by
  apply entries_set_new
  rw [mem_keys_erase]
  intro h
  exact h.1 rfl

/-- The keys of `K` that were touched stand behind all others, which are in the cache; a
touched key that is in the cache has the size that is needed for it. -/
structure Protected (need : MmHash → Nat) (K : List MmHash) (c : LRUCache)
    (old touched : List (MmHash × Option Nat)) : Prop where
  entries : c.order.entries = old ++ touched
  old : ∀ e ∈ old, e.1 ∉ K ∧ ∃ size, e.2 = some size
  touched : ∀ e ∈ touched, e.1 ∈ K ∧ ∀ size, e.2 = some size → size = need e.1

variable {need : MmHash → Nat} {K : List MmHash} {c c' : LRUCache}
  {old touched : List (MmHash × Option Nat)}

section

variable (h : Protected need K c old touched)

include h

theorem Protected.toEnd (hkey : key ∈ K)
    (hv : ∀ size, v = some size → size = need key)
    (hentries : c'.order.entries = (c.order.erase key).entries ++ [(key, v)]) :
    Protected need K c' old ((touched.filter fun e => e.1 ≠ key) ++ [(key, v)]) := by
  constructor
  · have hold : (old.filter fun e => e.1 ≠ key) = old := by
      apply filter_eq_self.mpr
      intro e he
      apply decide_eq_true
      intro heq
      exact (h.old e he).1 (heq ▸ hkey)
    have herase : (c.order.erase key).entries = c.order.entries.filter fun e => e.1 ≠ key := rfl
    rw [hentries, herase, h.entries, filter_append, hold, append_assoc]
  · exact h.old
  · intro e he
    rw [mem_append, mem_singleton] at he
    rcases he with he | rfl
    · exact h.touched e (mem_of_mem_filter he)
    · exact ⟨hkey, hv⟩

theorem Protected.store (hkey : key ∈ K) :
    Protected need K (c.store key (need key)) old
      ((touched.filter fun e => e.1 ≠ key) ++ [(key, some (need key))]) := by
  apply h.toEnd hkey _ (c.entries_store key (need key))
  intro size hsize
  exact (Option.some.inj hsize).symm

theorem Protected.contains_iff (hkey : key ∈ K) :
    c.contains key = true ↔ ∃ size, (key, some size) ∈ touched := by
  rw [LRUCache.contains_iff, h.entries]
  apply exists_congr
  intro size
  rw [mem_append]
  constructor
  · rintro (hold | htouched)
    · exact absurd hkey (h.old _ hold).1
    · exact htouched
  · exact Or.inr

end

/-- A key that moves to the end with a value is in the cache, and the others are where they
were. -/
theorem Protected.contains_toEnd {old' : List (MmHash × Option Nat)} {size : Nat}
    (h : Protected need K c old touched)
    (h' : Protected need K c' old' ((touched.filter fun e => e.1 ≠ key) ++ [(key, some size)]))
    {k : MmHash} (hk : k ∈ K) : c'.contains k = true ↔ k = key ∨ c.contains k = true := by
  rw [h'.contains_iff hk, h.contains_iff hk]
  by_cases heq : k = key
  · subst heq
    simp
  · simp [heq]

theorem sum_present_le {entries : List (MmHash × Option Nat)}
    (h : ∀ e ∈ entries, ∀ size, e.2 = some size → size = need e.1) :
    (entries.map fun e => e.2.getD 0).sum ≤
      (((entries.filter fun e => e.2.isSome).map Prod.fst).map need).sum := by
  induction entries with
  | nil => exact Nat.le_refl _
  | cons e rest ih =>
    have ih := ih fun e he => h e (mem_cons_of_mem _ he)
    obtain ⟨key, v⟩ := e
    cases v with
    | none => simpa using ih
    | some size =>
      have hsize := h _ mem_cons_self size rfl
      dsimp only at hsize
      simp only [map_cons, sum_cons, Option.getD_some, Option.isSome_some,
        filter_cons_of_pos]
      omega

theorem Protected.fits (h : Protected need K c [] touched) (hkey : key ∈ K)
    (hout : c.contains key = false) : c.currsize + need key ≤ roomFor need K := by
  have hpresent : (touched.map fun e => e.2.getD 0).sum ≤ _ :=
    sum_present_le fun e he => (h.touched e he).2
  have hnodup : ((touched.filter fun e => e.2.isSome).map Prod.fst).Nodup := by
    have hkeys := c.order.nodup
    rw [h.entries, nil_append] at hkeys
    exact hkeys.sublist (filter_sublist.map _)
  have hnew : key ∉ (touched.filter fun e => e.2.isSome).map Prod.fst := by
    intro hin
    obtain ⟨e, he, rfl⟩ := mem_map.mp hin
    obtain ⟨hmem, hsome⟩ := mem_filter.mp he
    obtain ⟨size, hsize⟩ := Option.isSome_iff_exists.mp hsome
    have hcontains := (h.contains_iff hkey).mpr ⟨size, hsize ▸ hmem⟩
    rw [hout] at hcontains
    cases hcontains
  have hroom := @sum_need_le need K (key :: (touched.filter fun e => e.2.isSome).map Prod.fst)
    (nodup_cons.mpr ⟨hnew, hnodup⟩) (by
      intro k hk
      rcases mem_cons.mp hk with rfl | hk
      · exact hkey
      · obtain ⟨e, he, rfl⟩ := mem_map.mp hk
        exact (h.touched e (mem_of_mem_filter he)).1)
  rw [map_cons, sum_cons] at hroom
  have hsize : c.currsize = (touched.map fun e => e.2.getD 0).sum := by
    unfold LRUCache.currsize
    rw [h.entries, nil_append]
  omega

theorem Protected.congr (h : Protected need K c old touched) {K' : List MmHash}
    (hkeys : ∀ k, k ∈ K' ↔ k ∈ K) : Protected need K' c old touched := by
  constructor
  · exact h.entries
  · intro e he
    rw [hkeys]
    exact h.old e he
  · intro e he
    rw [hkeys]
    exact h.touched e he

theorem get?_touch (c : LRUCache) (key k : MmHash) (size : Nat) :
    (c.touch key).order.get? k = some (some size) ↔ c.order.get? k = some (some size) := by
  obtain ⟨v, hentries, hv⟩ := c.entries_touch key
  rw [get?_eq_some_iff, hentries, mem_append, mem_singleton, Prod.mk.injEq,
    ← get?_eq_some_iff, get?_erase]
  by_cases heq : k = key
  · subst heq
    rw [← hv size]
    simp [eq_comm]
  · simp [heq]

theorem contains_touch (c : LRUCache) (key k : MmHash) :
    (c.touch key).contains k = c.contains k := by
  apply Bool.eq_iff_iff.mpr
  rw [LRUCache.contains_iff, LRUCache.contains_iff]
  apply exists_congr
  intro size
  rw [← get?_eq_some_iff, ← get?_eq_some_iff, get?_touch]

theorem maxsize_touch (c : LRUCache) (key : MmHash) : (c.touch key).maxsize = c.maxsize := by
  unfold touch
  split <;> rfl

theorem Protected.touch (h : Protected need K c old touched) {key : MmHash}
    (hneed : ∀ size, c.order.get? key = some (some size) → size = need key) :
    ∃ old' touched', Protected need (key :: K) (c.touch key) old' touched' := by
  obtain ⟨v, hentries, hv⟩ := c.entries_touch key
  have herase : (c.order.erase key).entries = c.order.entries.filter fun e => e.1 ≠ key := rfl
  refine ⟨old.filter fun e => e.1 ≠ key, (touched.filter fun e => e.1 ≠ key) ++ [(key, v)],
    ?_, ?_, ?_⟩
  · rw [hentries, herase, h.entries, filter_append, append_assoc]
  · intro e he
    obtain ⟨hmem, hne⟩ := mem_filter.mp he
    obtain ⟨hout, hsize⟩ := h.old e hmem
    have hne := of_decide_eq_true hne
    refine ⟨?_, hsize⟩
    rw [mem_cons]
    rintro (heq | hin)
    · exact hne heq
    · exact hout hin
  · intro e he
    rw [mem_append, mem_singleton] at he
    rcases he with he | rfl
    · have h := h.touched e (mem_of_mem_filter he)
      exact ⟨mem_cons_of_mem _ h.1, h.2⟩
    · exact ⟨mem_cons_self, fun size hsize => hneed size ((hv size).mp hsize)⟩

def Complete (c : LRUCache) : Prop := ∀ e ∈ c.order.entries, ∃ size, e.2 = some size

theorem Complete.protected (h : c.Complete) : Protected need [] c c.order.entries [] := by
  constructor
  · rw [append_nil]
  · intro e he
    exact ⟨not_mem_nil, h e he⟩
  · intro e he
    cases he

theorem Protected.complete (h : Protected need K c old touched)
    (hin : ∀ k ∈ K, c.contains k = true) : c.Complete := by
  intro e he
  rw [h.entries, mem_append] at he
  rcases he with he | he
  · exact (h.old e he).2
  · have hkey := (h.touched e he).1
    obtain ⟨size, hmem⟩ := (h.contains_iff hkey).mp (hin e.1 hkey)
    refine ⟨size, ?_⟩
    have hget := (get?_eq_some_iff c.order e.1 (some size)).mpr
      (h.entries ▸ mem_append_right _ hmem)
    have hget' := (get?_eq_some_iff c.order e.1 e.2).mpr
      (h.entries ▸ mem_append_right _ he)
    rw [hget] at hget'
    exact (Option.some.inj hget').symm

end LRUCache

/-! ## Storing an item -/

namespace CacheTools

open LRUCache

variable (T : CacheTools) {need : MmHash → Nat} {K : List MmHash} {c c' : LRUCache}
  {old touched : List (MmHash × Option Nat)}
variable {key : MmHash}

theorem getItem_eq_touch (h : c.contains key = true) : T.getItem c key = c.touch key := by
  rw [T.getItem_eq c key h, LRUCache.touch, if_pos]
  obtain ⟨size, hmem⟩ := contains_iff.mp h
  exact mem_map.mpr ⟨_, hmem, rfl⟩

theorem entries_erase_touch (c : LRUCache) (key : MmHash) :
    ((c.touch key).order.erase key).entries = (c.order.erase key).entries := by
  obtain ⟨v, hentries, _⟩ := c.entries_touch key
  have herase : ∀ d : Dict MmHash (Option Nat),
      (d.erase key).entries = d.entries.filter fun e => e.1 ≠ key := fun _ => rfl
  rw [herase, hentries, filter_append, herase, filter_filter]
  simp

theorem popitem_eq {size : Nat} {rest : List (MmHash × Option Nat)}
    (h : c.order.entries = (key, some size) :: rest) :
    ∃ c', T.popitem c = .ok c' ∧ c'.order.entries = rest ∧ c'.maxsize = c.maxsize := by
  have hin : c.contains key = true :=
    contains_iff.mpr ⟨size, h ▸ mem_cons_self⟩
  have hin₁ : (c.touch key).contains key = true := by rw [contains_touch, hin]
  have hin₂ : ((c.touch key).touch key).contains key = true := by rw [contains_touch, hin₁]
  have hpop : T.popitem c = .ok (T.pop c key) := by
    unfold CacheToolsOps.popitem
    rw [h]
    rfl
  refine ⟨_, hpop, ?_⟩
  rw [CacheToolsOps.pop, if_pos hin, T.getItem_eq_touch hin, T.getItem_eq_touch hin₁,
    T.delItem_eq _ _ hin₂]
  constructor
  · dsimp only
    rw [entries_erase_touch, entries_erase_touch]
    exact LRUCache.erase_head h
  · dsimp only
    rw [maxsize_touch, maxsize_touch]

theorem setItem_spec (h : Protected need K c old touched) (hkey : key ∈ K)
    (hout : c.contains key = false) (hroom : roomFor need K ≤ c.maxsize) :
    ∃ c' old', T.setItem c key (need key) = some (c', none) ∧ c'.maxsize = c.maxsize ∧
      Protected need K c' old'
        ((touched.filter fun e => e.1 ≠ key) ++ [(key, some (need key))]) := by
  induction old generalizing c with
  | nil =>
    have hfits := h.fits hkey hout
    exact ⟨_, [], T.setItem_room c key (need key) hout (by omega), rfl, h.store hkey⟩
  | cons e rest ih =>
    by_cases hfits : c.currsize + need key ≤ c.maxsize
    · exact ⟨_, _, T.setItem_room c key (need key) hout hfits, rfl, h.store hkey⟩
    · obtain ⟨k, v⟩ := e
      obtain ⟨hnot, size, hsize⟩ := h.old _ mem_cons_self
      subst hsize
      obtain ⟨c₁, hpop, hentries, hmax⟩ := T.popitem_eq h.entries
      have hprotected : Protected need K c₁ rest touched := by
        constructor
        · exact hentries
        · intro e he
          exact h.old e (mem_cons_of_mem _ he)
        · exact h.touched
      have hout₁ : c₁.contains key = false := by
        rw [Bool.eq_false_iff] at hout ⊢
        intro hin
        exact hout ((h.contains_iff hkey).mpr ((hprotected.contains_iff hkey).mp hin))
      have hsingle : need key ≤ c.maxsize := by
        have hle := @sum_need_le need K [key] (nodup_singleton key) (by
          intro k hk
          rwa [mem_singleton.mp hk])
        simp only [map_cons, map_nil, sum_singleton] at hle
        omega
      rw [T.setItem_pop c c₁ key (need key) hout hsingle (by omega) hpop]
      rw [← hmax]
      apply ih hprotected hout₁
      omega

/-- An item of the request that is in the cache, or whose size is as needed, is taken over;
the other items of the request stay. -/
theorem sender_spec (h : Protected need K c old touched) (hkey : key ∈ K)
    (hroom : roomFor need K ≤ c.maxsize) {item : Option Nat}
    (hitem : c.contains key = false → item = some (need key)) :
    ∃ c' data old' touched',
      getAndUpdateSender T.toCacheToolsOps c item key = some (c', .ok data) ∧
      c'.maxsize = c.maxsize ∧ Protected need K c' old' touched' ∧
      ∀ k ∈ K, c'.contains k = true ↔ k = key ∨ c.contains k = true := by
  unfold getAndUpdateSender CacheToolsOps.get
  by_cases hin : c.contains key = true
  · rw [if_pos hin, T.getItem_eq_touch hin]
    obtain ⟨v, hentries, hv⟩ := c.entries_touch key
    obtain ⟨size, hmem⟩ := (h.contains_iff hkey).mp hin
    have hget : c.order.get? key = some (some size) :=
      (get?_eq_some_iff c.order key _).mpr (h.entries ▸ mem_append_right _ hmem)
    have hsize : size = need key := (h.touched _ hmem).2 size rfl
    refine ⟨c.touch key, none, old, _, rfl, maxsize_touch c key, h.toEnd hkey ?_ hentries, ?_⟩
    · intro size' hsize'
      have hget' := (hv size').mp hsize'
      rw [hget, Option.some.injEq, Option.some.injEq] at hget'
      omega
    · intro k _
      rw [contains_touch]
      constructor
      · exact Or.inr
      · rintro (rfl | hk)
        · exact hin
        · exact hk
  · rw [if_neg hin]
    rw [Bool.not_eq_true] at hin
    obtain ⟨c', old', hset, hmax, hprotected⟩ := T.setItem_spec h hkey hin hroom
    refine ⟨c', some (need key), old', _, ?_, hmax, hprotected, ?_⟩
    · rw [hitem hin]
      simp only [hset]
    · intro k hk
      exact h.contains_toEnd hprotected hk

/-- What is left of the items of a request: an item that was cached is in the cache, and
the first of a hash that is not has the size that is needed. -/
structure Ready (need : MmHash → Nat) (c : LRUCache) (items : List (Item × Bool)) : Prop where
  cached : ∀ x ∈ items, x.2 = true → c.contains x.1.hash = true
  first : ∀ key x, c.contains key = false → items.find? (fun x => x.1.hash = key) = some x →
    x.1.size = need key

theorem Ready.tail {item : Item} {isCached : Bool} {rest : List (Item × Bool)}
    (h : Ready need c ((item, isCached) :: rest)) (hkeep : ∀ x ∈ (item, isCached) :: rest,
      c'.contains x.1.hash = true ↔ x.1.hash = item.hash ∨ c.contains x.1.hash = true) :
    Ready need c' rest := by
  constructor
  · intro x hx hcached
    have hmem := mem_cons_of_mem (item, isCached) hx
    exact (hkeep x hmem).mpr (.inr (h.cached x hmem hcached))
  · intro key x hout hfind
    have hmem := mem_cons_of_mem (item, isCached) (mem_of_find?_eq_some hfind)
    have hhash : x.1.hash = key := by
      have h := find?_some hfind
      exact of_decide_eq_true h
    subst hhash
    rw [Bool.eq_false_iff, ne_eq, hkeep x hmem, not_or] at hout
    apply h.first _ x (Bool.eq_false_iff.mpr hout.2)
    rw [find?_cons_of_neg]
    · exact hfind
    · intro heq
      exact hout.1 (of_decide_eq_true heq).symm

theorem mergeItems_spec {items : List (Item × Bool)} (h : Protected need K c old touched)
    (hroom : roomFor need K ≤ c.maxsize) (hready : Ready need c items)
    (hkeys : ∀ x ∈ items, x.1.hash ∈ K) :
    ∃ c' features old' touched',
      mergeItems T.toCacheToolsOps c items = some (c', .ok features) ∧
      c'.maxsize = c.maxsize ∧ Protected need K c' old' touched' ∧
      ∀ k ∈ K, c'.contains k = true ↔ (∃ x ∈ items, x.1.hash = k) ∨ c.contains k = true := by
  induction items generalizing c old touched with
  | nil =>
    refine ⟨c, [], old, touched, rfl, rfl, h, ?_⟩
    intro k _
    simp
  | cons x rest ih =>
    obtain ⟨item, isCached⟩ := x
    have hkey := hkeys _ mem_cons_self
    have hitem : c.contains item.hash = false →
        (if isCached then none else some item.size) = some (need item.hash) := by
      intro hout
      have hnot : isCached = false := by
        rw [Bool.eq_false_iff]
        intro hcached
        have hin := hready.cached _ mem_cons_self hcached
        rw [hout] at hin
        cases hin
      have hsize := hready.first item.hash (item, isCached) hout
        (find?_cons_of_pos (decide_eq_true rfl))
      rw [hnot, ← hsize]
      rfl
    obtain ⟨c₁, data, old₁, touched₁, hget, hmax₁, hprotected₁, hkeep₁⟩ :=
      T.sender_spec h hkey hroom hitem
    obtain ⟨c', features, old', touched', hmerge, hmax, hprotected, hkeep⟩ :=
      ih hprotected₁ (by omega)
        (hready.tail fun x hx => hkeep₁ _ (hkeys x hx))
        fun x hx => hkeys x (mem_cons_of_mem _ hx)
    refine ⟨c', ⟨item.hash, item.offset, data⟩ :: features, old', touched', ?_, ?_,
      hprotected, ?_⟩
    · rw [mergeItems]
      simp only [hget, hmerge]
    · omega
    · intro k hk
      rw [hkeep k hk, hkeep₁ k hk]
      simp only [mem_cons, exists_eq_or_imp]
      rw [← or_assoc, @eq_comm _ item.hash k]
      constructor
      · rintro ((hex | heq) | hin)
        · exact .inl (.inr hex)
        · exact .inl (.inl heq)
        · exact .inr hin
      · rintro ((heq | hex) | hin)
        · exact .inl (.inr heq)
        · exact .inl (.inl hex)
        · exact .inr hin

end CacheTools

/-! ## A request that fits -/

/-- The size of a hash in the cache, or else of the first item that has it. -/
def needed (c : LRUCache) (items : List Item) (key : MmHash) : Nat :=
  match c.order.get? key with
  | some (some size) => size
  | _ => ((items.find? fun x => x.hash = key).map Item.size).getD 0

def Fits (c : LRUCache) (items : List Item) : Prop :=
  roomFor (needed c items) (items.map Item.hash) ≤ c.maxsize

instance (c : LRUCache) (items : List Item) : Decidable (Fits c items) :=
  inferInstanceAs (Decidable (_ ≤ _))

namespace LRUCache

theorem Protected.touchItems {need : MmHash → Nat} {K : List MmHash} {c : LRUCache}
    {old touched : List (MmHash × Option Nat)} (h : Protected need K c old touched)
    (items : List Item)
    (hneed : ∀ key size, c.order.get? key = some (some size) → size = need key) :
    ∃ old' touched', Protected need (items.map Item.hash ++ K)
      (items.foldl (fun c x => c.touch x.hash) c) old' touched' := by
  induction items generalizing c K old touched with
  | nil => exact ⟨old, touched, h⟩
  | cons x rest ih =>
    obtain ⟨old₁, touched₁, h₁⟩ := @Protected.touch need K c old touched h x.hash (hneed x.hash)
    obtain ⟨old', touched', h'⟩ := ih h₁ fun key size hget =>
      hneed key size ((c.get?_touch x.hash key size).mp hget)
    refine ⟨old', touched', h'.congr ?_⟩
    intro k
    simp only [map_cons, cons_append, mem_cons, mem_append]
    constructor
    · rintro (heq | hin | hin)
      · exact .inr (.inl heq)
      · exact .inl hin
      · exact .inr (.inr hin)
    · rintro (hin | heq | hin)
      · exact .inr (.inl hin)
      · exact .inl heq
      · exact .inr (.inr hin)

theorem contains_touchItems (items : List Item) (c : LRUCache) (k : MmHash) :
    (items.foldl (fun c x => c.touch x.hash) c).contains k = c.contains k := by
  induction items generalizing c with
  | nil => rfl
  | cons x rest ih => rw [foldl_cons, ih, contains_touch]

theorem maxsize_touchItems (items : List Item) (c : LRUCache) :
    (items.foldl (fun c x => c.touch x.hash) c).maxsize = c.maxsize := by
  induction items generalizing c with
  | nil => rfl
  | cons x rest ih => rw [foldl_cons, ih, maxsize_touch]

end LRUCache

theorem needed_of_get? {c : LRUCache} (items : List Item) {key : MmHash} {size : Nat}
    (h : c.order.get? key = some (some size)) : size = needed c items key := by
  unfold needed
  rw [h]

variable {c : LRUCache} {items : List Item}

theorem needed_of_find? {key : MmHash} {x : Item}
    (hout : c.contains key = false) (hfind : items.find? (fun x => x.hash = key) = some x) :
    x.size = needed c items key := by
  unfold needed
  split
  next size hget =>
    have hin : c.contains key = true := by
      unfold LRUCache.contains
      rw [hget]
    rw [hout] at hin
    cases hin
  · rw [hfind]
    rfl

theorem ready_start (c : LRUCache) (items : List Item) :
    CacheTools.Ready (needed c items) (items.foldl (fun c x => c.touch x.hash) c)
      (items.zip (items.map fun item => c.contains item.hash)) := by
  rw [zip_flags]
  constructor
  · intro x hx hcached
    rw [LRUCache.contains_touchItems]
    obtain ⟨y, _, rfl⟩ := mem_map.mp hx
    exact hcached
  · intro key x hout hfind
    rw [LRUCache.contains_touchItems] at hout
    rw [find?_map] at hfind
    obtain ⟨y, hy, rfl⟩ := Option.map_eq_some_iff.mp hfind
    exact needed_of_find? hout hy

theorem processRequest_spec (T : CacheTools) (hcomplete : c.Complete) (hfits : Fits c items) :
    ∃ c' features, processRequest T.toCacheToolsOps c items = some (c', .ok features) ∧
      c'.Complete ∧ c'.maxsize = c.maxsize := by
  obtain ⟨old, touched, htouched⟩ := hcomplete.protected.touchItems items
    fun key size hget => @needed_of_get? c items key size hget
  rw [append_nil] at htouched
  have hmax := LRUCache.maxsize_touchItems items c
  have hready := ready_start c items
  unfold processRequest
  dsimp only
  rw [zip_flags] at hready ⊢
  obtain ⟨c', features, old', touched', hmerge, hmax', hprotected, hkeep⟩ :=
    T.mergeItems_spec htouched (by rw [hmax]; exact hfits) hready (by
      intro y hy
      obtain ⟨x, hx, rfl⟩ := mem_map.mp hy
      exact mem_map_of_mem hx)
  refine ⟨c', features, hmerge, ?_, hmax'.trans hmax⟩
  apply hprotected.complete
  intro k hk
  rw [hkeep k hk]
  obtain ⟨x, hx, rfl⟩ := mem_map.mp hk
  exact .inl ⟨_, mem_map_of_mem hx, rfl⟩

end VllmCore.MultiModalCache
