import VllmCore.EncoderCacheManager
import Mathlib.Algebra.Order.BigOperators.Group.Finset
/-!
# The slots of the encoder cache

The size of an item is determined by its hash.  The entries use the slots that are not
free, and the entries without references are exactly those that may be evicted.  No call
breaks this, and none raises: an eviction is only started when the space is there.
-/

namespace VllmCore.EncoderCacheManager

open List Support Dict

variable {D V : Type} {size : MmHash → Nat} {m m' : EncoderCacheManager} {r : Request D}
  {i : Nat} {f : MultiModalFeatureSpec}

def slots (size : MmHash → Nat) (keys : List MmHash) : Int :=
  ∑ h ∈ keys.toFinset, (size h : Int)

variable {d : Dict MmHash V} {h : MmHash} {ks js : List MmHash} {m₁ m₂ m₃ : EncoderCacheManager}
  {ids : List ReqId} {n : Int}

theorem slots_set_new (hnew : h ∉ d.keys) (v : V) :
    slots size (d.set h v).keys = slots size d.keys + size h := by
  have hkeys : (d.set h v).keys.toFinset = insert h d.keys.toFinset := by
    ext j
    simp [mem_keys_set]
  unfold slots
  rw [hkeys, Finset.sum_insert (by simpa using hnew), add_comm]

theorem slots_erase (hmem : h ∈ d.keys) :
    slots size (d.erase h).keys = slots size d.keys - size h := by
  have hkeys : (d.erase h).keys.toFinset = d.keys.toFinset.erase h := by
    ext j
    simp [mem_keys_erase]
  unfold slots
  rw [hkeys, eq_sub_iff_add_eq, Finset.sum_erase_add _ _ (by simpa using hmem)]

theorem slots_mono (h : ks ⊆ js) : slots size ks ≤ slots size js :=
  Finset.sum_le_sum_of_subset_of_nonneg
    (fun _ hk => mem_toFinset.mpr (h (mem_toFinset.mp hk)))
    fun _ _ _ => Int.natCast_nonneg _

theorem slots_perm (h : ks.Perm js) : slots size ks = slots size js := by
  unfold slots
  rw [toFinset_eq_of_perm _ _ h]

theorem slots_nonneg (ks : List MmHash) : 0 ≤ slots size ks := slots_mono (nil_subset ks)

structure SlotInv (size : MmHash → Nat) (m : EncoderCacheManager) : Prop where
  unreferenced : ∀ h, m.cached.get? h = some [] ↔ h ∈ m.freeable.keys
  freeable_size : ∀ h n, m.freeable.get? h = some n → n = size h
  used : slots size m.cached.keys = m.cacheSize - m.numFreeSlots
  freeable : m.numFreeableSlots = m.numFreeSlots + slots size m.freeable.keys
  free_nonneg : 0 ≤ m.numFreeSlots

theorem SlotInv.cached_of_freeable (hm : SlotInv size m) (hmem : h ∈ m.freeable.keys) :
    h ∈ m.cached.keys := by
  rw [mem_keys_iff, (hm.unreferenced h).mpr hmem]
  simp

theorem SlotInv.bounds (hm : SlotInv size m) :
    m.numFreeSlots ≤ m.numFreeableSlots ∧ m.numFreeableSlots ≤ m.cacheSize := by
  have hsub : slots size m.freeable.keys ≤ slots size m.cached.keys :=
    slots_mono fun _ => hm.cached_of_freeable
  have hnonneg : 0 ≤ slots size m.freeable.keys := slots_nonneg _
  rw [hm.freeable]
  rw [hm.used] at hsub
  omega

theorem create_slotInv (cacheSize : Nat) : SlotInv size (create cacheSize) where
  unreferenced h := by simp [create, Dict.keys, Dict.empty, Dict.get?]
  freeable_size h n hn := by cases hn
  used := by simp [create, slots, Dict.keys, Dict.empty]
  freeable := by simp [create, slots, Dict.keys, Dict.empty]
  free_nonneg := Int.natCast_nonneg cacheSize

/-- No entry is added and no slot is taken. -/
structure NoNew (m m' : EncoderCacheManager) : Prop where
  absent : ∀ h, m.cached.get? h = none → m'.cached.get? h = none
  free_le : m.numFreeSlots ≤ m'.numFreeSlots
  size_eq : m'.cacheSize = m.cacheSize

/-- Entries with references stay, with their references. -/
def KeepsReferenced (m m' : EncoderCacheManager) : Prop :=
  ∀ h ids, m.cached.get? h = some ids → ids ≠ [] → ∃ ids', m'.cached.get? h = some ids' ∧ ids ⊆ ids'

theorem NoNew.refl (m : EncoderCacheManager) : NoNew m m := ⟨fun _ h => h, le_rfl, rfl⟩

theorem NoNew.trans (h : NoNew m₁ m₂) (h' : NoNew m₂ m₃) : NoNew m₁ m₃ :=
  ⟨fun k hk => h'.absent k (h.absent k hk), h.free_le.trans h'.free_le, h'.size_eq.trans h.size_eq⟩

theorem KeepsReferenced.refl (m : EncoderCacheManager) : KeepsReferenced m m :=
  fun _ ids h _ => ⟨ids, h, List.Subset.refl ids⟩

theorem KeepsReferenced.trans (h : KeepsReferenced m₁ m₂)
    (h' : KeepsReferenced m₂ m₃) : KeepsReferenced m₁ m₃ := by
  intro k ids hk hne
  obtain ⟨ids₂, h₂, hsub⟩ := h k ids hk hne
  have hne₂ : ids₂ ≠ [] := by
    rintro rfl
    exact hne (subset_nil.mp hsub)
  obtain ⟨ids₃, h₃, hsub'⟩ := h' k ids₂ h₂ hne₂
  exact ⟨ids₃, h₃, List.Subset.trans hsub hsub'⟩

theorem mem_addReference {i j : ReqId} : i ∈ addReference ids j ↔ i ∈ ids ∨ i = j := by
  unfold addReference
  split
  next hmem => exact ⟨.inl, fun h => h.elim id fun heq => heq ▸ hmem⟩
  · simp

theorem subset_addReference (ids : List ReqId) (j : ReqId) : ids ⊆ addReference ids j :=
  fun _ hi => mem_addReference.mpr (.inl hi)

theorem mmHash_ok (hf : r.mmFeatures[i]? = some f) : r.mmHash i = .ok f.identifier := by
  unfold Request.mmHash
  rw [hf]
  rfl

theorem getNumEncoderEmbeds_ok (hf : r.mmFeatures[i]? = some f) :
    r.getNumEncoderEmbeds i = .ok f.mmPosition.getNumEmbeds := by
  unfold Request.getNumEncoderEmbeds
  rw [hf]

theorem SlotInv.refer (hm : SlotInv size m)
    (hget : m.cached.get? h = some ids) (j : ReqId) {freeable : Dict MmHash Nat}
    (hkeys : ∀ k, k ∈ freeable.keys ↔ k ≠ h ∧ k ∈ m.freeable.keys)
    (hsize : ∀ k v, freeable.get? k = some v → v = size k)
    (hn : n = m.numFreeSlots + slots size freeable.keys) :
    SlotInv size { m with
      cached := m.cached.set h (addReference ids j)
      freeable := freeable
      numFreeableSlots := n } where
  unreferenced k := by
    have hne : addReference ids j ≠ [] := ne_nil_of_mem (mem_addReference.mpr (.inr rfl))
    rw [get?_set, hkeys, ← hm.unreferenced k]
    by_cases hk : k = h <;> simp [hk, hne]
  freeable_size := hsize
  used := by
    have hmem : h ∈ m.cached.keys := by simp [mem_keys_iff, hget]
    rw [keys_set_of_mem _ hmem]
    exact hm.used
  freeable := hn
  free_nonneg := hm.free_nonneg

structure LookedUp (size : MmHash → Nat) (m : EncoderCacheManager) (requestId : ReqId)
    (h : MmHash) (hit : Bool) (m' : EncoderCacheManager) : Prop where
  inv : SlotInv size m'
  noNew : NoNew m m'
  referenced : KeepsReferenced m m'
  of_hit : hit = true → ∃ ids, m'.cached.get? h = some ids ∧ requestId ∈ ids
  of_miss : hit = false → m'.cached.get? h = none

theorem checkAndUpdateCache_ok (hm : SlotInv size m) (hf : r.mmFeatures[i]? = some f) :
    ∃ hit m', m.checkAndUpdateCache r i = .ok (hit, m') ∧
      LookedUp size m r.requestId f.identifier hit m' := by
  unfold checkAndUpdateCache
  rw [mmHash_ok hf, ok_bind]
  cases hget : m.cached.get? f.identifier with
  | none =>
    exact ⟨false, m, rfl, hm, .refl m, .refl m, fun h => Bool.noConfusion h, fun _ => hget⟩
  | some ids =>
    -- The entry and its references stay in both cases.
    have hkeep : ∀ {m' : EncoderCacheManager}, m'.cacheSize = m.cacheSize →
        m'.numFreeSlots = m.numFreeSlots →
        m'.cached = m.cached.set f.identifier (addReference ids r.requestId) →
        SlotInv size m' → LookedUp size m r.requestId f.identifier true m' := by
      intro m' hsize hfree hcached hinv
      have hset : ∀ k, m'.cached.get? k =
          if k = f.identifier then some (addReference ids r.requestId) else m.cached.get? k := by
        intro k
        rw [hcached, get?_set]
      refine ⟨hinv, ⟨fun k hk => ?_, hfree.ge, hsize⟩, fun k ids₀ hk _ => ?_,
        fun _ => ⟨_, by rw [hset, if_pos rfl], mem_addReference.mpr (.inr rfl)⟩,
        fun h => Bool.noConfusion h⟩
      · have hne : k ≠ f.identifier := by
          rintro rfl
          rw [hget] at hk
          cases hk
        rw [hset, if_neg hne, hk]
      · rw [hset]
        split
        next heq =>
          rw [heq, hget] at hk
          cases hk
          exact ⟨_, rfl, subset_addReference _ r.requestId⟩
        · exact ⟨ids₀, hk, List.Subset.refl ids₀⟩
    by_cases hids : ids = []
    · subst hids
      have hmem := (hm.unreferenced f.identifier).mp hget
      obtain ⟨n, hn⟩ := exists_of_mem_keys hmem
      have hsize := hm.freeable_size _ _ hn
      simp only [isEmpty_nil, if_true, get_ok.mpr hn, ok_bind]
      refine ⟨true, _, rfl, hkeep rfl rfl rfl (hm.refer hget r.requestId
        (mem_keys_erase m.freeable f.identifier) ?_ ?_)⟩
      · intro k v hv
        rw [get?_erase] at hv
        split at hv
        · cases hv
        · exact hm.freeable_size k v hv
      · change m.numFreeableSlots - (n : Int) = m.numFreeSlots + _
        rw [slots_erase hmem, hm.freeable, hsize]
        omega
    · have hnot : f.identifier ∉ m.freeable.keys := by
        rw [← hm.unreferenced, hget]
        simpa using hids
      have hempty : ids.isEmpty = false := by simpa using hids
      simp only [hempty, Bool.false_eq_true, if_false]
      refine ⟨true, _, rfl, hkeep rfl rfl rfl (hm.refer hget r.requestId ?_
        hm.freeable_size hm.freeable)⟩
      intro k
      constructor
      · intro hk
        exact ⟨fun heq => hnot (heq ▸ hk), hk⟩
      · exact And.right

theorem evict_ok : ∀ {entries : List (MmHash × Nat)} {m : EncoderCacheManager},
    SlotInv size m → m.freeable.entries = entries → n ≤ m.numFreeableSlots →
    ∃ m', evict n entries m = .ok m' ∧ SlotInv size m' ∧ NoNew m m' ∧ KeepsReferenced m m' ∧
      n ≤ m'.numFreeSlots := by
  intro entries
  induction entries with
  | nil =>
    intro m hm hentries hn
    have hfits : n ≤ m.numFreeSlots := by
      rw [hm.freeable, Dict.keys, hentries] at hn
      simpa [slots] using hn
    exact ⟨m, if_pos hfits, hm, .refl m, .refl m, hfits⟩
  | cons e rest ih =>
    intro m hm hentries hn
    obtain ⟨h, v⟩ := e
    by_cases hfits : n ≤ m.numFreeSlots
    · exact ⟨m, if_pos hfits, hm, .refl m, .refl m, hfits⟩
    · have hv : m.freeable.get? h = some v :=
        (get?_eq_some_iff _ _ _).mpr (hentries ▸ mem_cons_self)
      have hmem : h ∈ m.freeable.keys := by simp [mem_keys_iff, hv]
      have hcached := hm.cached_of_freeable hmem
      have hrest : (m.freeable.erase h).entries = rest := by
        have hnd := m.freeable.nodup
        rw [hentries, map_cons, nodup_cons] at hnd
        change m.freeable.entries.filter _ = rest
        rw [hentries, filter_cons_of_neg (by simp)]
        refine filter_eq_self.mpr fun e he => ?_
        have hne : e.1 ≠ h := fun heq => hnd.1 (mem_map.mpr ⟨e, he, heq⟩)
        simpa using hne
      have hstep : SlotInv size { m with
          freeable := m.freeable.erase h
          cached := m.cached.erase h
          freed := m.freed ++ [h]
          numFreeSlots := m.numFreeSlots + v } := by
        have hsize := hm.freeable_size h v hv
        refine ⟨fun k => ?_, fun k w hw => ?_, ?_, ?_, ?_⟩
        · rw [get?_erase, mem_keys_erase, ← hm.unreferenced k]
          by_cases hk : k = h <;> simp [hk]
        · rw [get?_erase] at hw
          split at hw
          · cases hw
          · exact hm.freeable_size k w hw
        · change slots size (m.cached.erase h).keys = m.cacheSize - (m.numFreeSlots + (v : Int))
          rw [slots_erase hcached, hm.used, hsize]
          omega
        · change m.numFreeableSlots = m.numFreeSlots + v + _
          rw [slots_erase hmem, hm.freeable, hsize]
          omega
        · have hpos := hm.free_nonneg
          change 0 ≤ m.numFreeSlots + (v : Int)
          omega
      obtain ⟨m', hrun, hm', hnew, hkeep, hle⟩ := ih hstep hrest hn
      refine ⟨m', ?_, hm', NoNew.trans ?_ hnew, KeepsReferenced.trans ?_ hkeep, hle⟩
      · unfold evict
        rw [if_neg hfits, require_pos ((contains_iff _ _).mpr hcached), ok_bind, hrun]
      · refine ⟨fun k hk => ?_, Int.le_add_of_nonneg_right (Int.natCast_nonneg v), rfl⟩
        rw [get?_erase, hk, ite_self]
      · intro k ids hk hne
        refine ⟨ids, ?_, List.Subset.refl ids⟩
        have hkh : k ≠ h := by
          rintro rfl
          rw [(hm.unreferenced k).mpr hmem] at hk
          cases hk
          exact hne rfl
        exact (get?_erase_ne _ hkh).trans hk

theorem canAllocate_ok (hm : SlotInv size m) (hf : r.mmFeatures[i]? = some f) (budget n : Int) :
    ∃ fits m', m.canAllocate r i budget n = .ok (fits, m') ∧ SlotInv size m' ∧ NoNew m m' ∧
      KeepsReferenced m m' ∧ (fits = true → (f.mmPosition.getNumEmbeds : Int) ≤ budget ∧
        f.mmPosition.getNumEmbeds + n ≤ m'.numFreeSlots) := by
  unfold canAllocate
  rw [getNumEncoderEmbeds_ok hf, ok_bind]
  split
  · exact ⟨false, m, rfl, hm, .refl m, .refl m, fun h => Bool.noConfusion h⟩
  next hbudget =>
    dsimp only
    split
    next hfits => exact ⟨true, m, rfl, hm, .refl m, .refl m, fun _ => ⟨by omega, hfits⟩⟩
    · split
      · exact ⟨false, m, rfl, hm, .refl m, .refl m, fun h => Bool.noConfusion h⟩
      next hroom =>
        obtain ⟨m', hrun, hm', hnew, hkeep, hle⟩ := evict_ok hm rfl (Int.not_lt.mp hroom)
        rw [hrun, ok_bind]
        exact ⟨true, m', rfl, hm', hnew, hkeep, fun _ => ⟨by omega, hle⟩⟩

theorem allocate_ok (hm : SlotInv size m) (hf : r.mmFeatures[i]? = some f)
    (hsize : f.mmPosition.getNumEmbeds = size f.identifier)
    (hnew : m.cached.get? f.identifier = none)
    (hfits : (size f.identifier : Int) ≤ m.numFreeSlots) :
    ∃ m', m.allocate r i = .ok m' ∧ SlotInv size m' ∧
      m'.numFreeSlots = m.numFreeSlots - size f.identifier ∧
      ∀ k, k ≠ f.identifier → m'.cached.get? k = m.cached.get? k := by
  have hbounds := hm.bounds
  unfold allocate
  rw [mmHash_ok hf, ok_bind, getNumEncoderEmbeds_ok hf, ok_bind, hsize, pyAssert_pos hfits, ok_bind,
    pyAssert_pos (hfits.trans hbounds.1), ok_bind]
  refine ⟨_, rfl, ⟨fun k => ?_, hm.freeable_size, ?_, ?_, Int.sub_nonneg.mpr hfits⟩, rfl,
    fun k hk => get?_set_ne _ _ hk⟩
  · have hne : addReference [] r.requestId ≠ [] :=
      ne_nil_of_mem (mem_addReference.mpr (.inr rfl))
    rw [get?_set, ← hm.unreferenced k]
    by_cases hk : k = f.identifier
    · simp [hk, hnew, hne]
    · rw [if_neg hk]
  · change slots size (m.cached.set _ _).keys = m.cacheSize - (m.numFreeSlots - _)
    rw [slots_set_new ((get?_eq_none_iff _ _).mp hnew), hm.used]
    omega
  · change m.numFreeableSlots - _ = m.numFreeSlots - _ + slots size m.freeable.keys
    rw [hm.freeable]
    omega

theorem freeEncoderInput_ok (hm : SlotInv size m) (hf : r.mmFeatures[i]? = some f)
    (hsize : f.mmPosition.getNumEmbeds = size f.identifier) :
    ∃ m', freeEncoderInput r m i = .ok m' ∧ SlotInv size m' ∧ NoNew m m' := by
  unfold freeEncoderInput
  rw [mmHash_ok hf, ok_bind]
  cases hget : m.cached.get? f.identifier with
  | none => exact ⟨m, rfl, hm, .refl m⟩
  | some ids =>
    by_cases hids : ids = []
    · subst hids
      exact ⟨m, rfl, hm, .refl m⟩
    · have hmem : f.identifier ∈ m.cached.keys := by simp [mem_keys_iff, hget]
      have hnot : f.identifier ∉ m.freeable.keys := by
        rw [← hm.unreferenced, hget]
        simpa using hids
      have hused : ∀ ids', slots size (m.cached.set f.identifier ids').keys =
          m.cacheSize - m.numFreeSlots := by
        intro ids'
        rw [keys_set_of_mem _ hmem]
        exact hm.used
      have habsent : ∀ ids' k, m.cached.get? k = none →
          (m.cached.set f.identifier ids').get? k = none := by
        intro ids' k hk
        have hne : k ≠ f.identifier := by
          rintro rfl
          rw [hget] at hk
          cases hk
        rw [get?_set_ne _ _ hne, hk]
      rw [Option.getD_some, if_neg (by simpa using hids)]
      cases hrest : ids.filter (· ≠ r.requestId) with
      | nil =>
        simp only [isEmpty_nil, if_true, getNumEncoderEmbeds_ok hf, ok_bind]
        refine ⟨_, rfl, ⟨fun k => ?_, fun k n hn => ?_, hused [], ?_, hm.free_nonneg⟩,
          habsent [], le_rfl, rfl⟩
        · rw [get?_set, mem_keys_set, ← hm.unreferenced k]
          by_cases hk : k = f.identifier <;> simp [hk]
        · rw [get?_set] at hn
          split at hn
          next hk =>
            rw [hk, ← hsize]
            exact (Option.some.inj hn).symm
          · exact hm.freeable_size k n hn
        · change m.numFreeableSlots + _ = m.numFreeSlots + slots size (m.freeable.set _ _).keys
          rw [slots_set_new hnot, hm.freeable, hsize]
          omega
      | cons j rest =>
        refine ⟨_, rfl, ⟨fun k => ?_, hm.freeable_size, hused _, hm.freeable,
          hm.free_nonneg⟩, habsent _, le_rfl, rfl⟩
        rw [get?_set, ← hm.unreferenced k]
        by_cases hk : k = f.identifier
        · simp [hk, hget, hids]
        · rw [if_neg hk]

theorem foldlM_freeEncoderInput_ok (ids : List Nat)
    (hr : ∀ f ∈ r.mmFeatures, f.mmPosition.getNumEmbeds = size f.identifier)
    (hm : SlotInv size m) (hids : ∀ i ∈ ids, i < r.mmFeatures.length) :
    ∃ m', ids.foldlM (freeEncoderInput r) m = .ok m' ∧ SlotInv size m' ∧ NoNew m m' := by
  induction ids generalizing m with
  | nil => exact ⟨m, rfl, hm, .refl m⟩
  | cons i ids ih =>
    have hf := getElem?_eq_getElem (hids i mem_cons_self)
    obtain ⟨m₁, hone, hm₁, hnew₁⟩ :=
      freeEncoderInput_ok hm hf (hr _ (mem_of_getElem? hf))
    obtain ⟨m', hrun, hm', hnew'⟩ := ih hm₁ fun j hj => hids j (mem_cons_of_mem _ hj)
    refine ⟨m', ?_, hm', hnew₁.trans hnew'⟩
    rw [foldlM_cons, hone, ok_bind, hrun]

theorem free_ok (hm : SlotInv size m)
    (hr : ∀ f ∈ r.mmFeatures, f.mmPosition.getNumEmbeds = size f.identifier) :
    ∃ m', m.free r = .ok m' ∧ SlotInv size m' ∧ NoNew m m' :=
  foldlM_freeEncoderInput_ok _ hr hm fun _ hi =>
    mem_range.mp (mem_filter.mp hi).1

def mmHashes (r : Request D) (ids : List Nat) : List MmHash :=
  ids.filterMap fun i => r.mmFeatures[i]?.map (·.identifier)

theorem mmHashes_cons (hf : r.mmFeatures[i]? = some f) (ids : List Nat) :
    mmHashes r (i :: ids) = f.identifier :: mmHashes r ids :=
  filterMap_cons_some (by rw [hf]; rfl)

theorem foldlM_allocate_ok
    (hr : ∀ f ∈ r.mmFeatures, f.mmPosition.getNumEmbeds = size f.identifier) :
    ∀ {ids : List Nat} {m : EncoderCacheManager}, SlotInv size m →
      (∀ i ∈ ids, i < r.mmFeatures.length) → (mmHashes r ids).Nodup →
      (∀ h ∈ mmHashes r ids, m.cached.get? h = none) →
      slots size (mmHashes r ids) ≤ m.numFreeSlots →
      ∃ m', ids.foldlM (fun m i => m.allocate r i) m = .ok m' ∧ SlotInv size m' := by
  intro ids
  induction ids with
  | nil => exact fun {m} hm _ _ _ _ => ⟨m, rfl, hm⟩
  | cons i ids ih =>
    intro m hm hids hnd habsent hfits
    obtain ⟨f, hf⟩ : ∃ f, r.mmFeatures[i]? = some f :=
      ⟨_, getElem?_eq_getElem (hids i mem_cons_self)⟩
    rw [mmHashes_cons hf] at hnd habsent hfits
    rw [nodup_cons] at hnd
    have hsplit : slots size (f.identifier :: mmHashes r ids) =
        size f.identifier + slots size (mmHashes r ids) := by
      unfold slots
      rw [toFinset_cons, Finset.sum_insert (by simpa using hnd.1)]
    have hnonneg : 0 ≤ slots size (mmHashes r ids) := slots_nonneg _
    obtain ⟨m₁, hone, hm₁, hfree, hsame⟩ := allocate_ok hm hf (hr f (mem_of_getElem? hf))
      (habsent _ mem_cons_self) (by omega)
    obtain ⟨m', hrun, hm'⟩ := ih hm₁ (fun j hj => hids j (mem_cons_of_mem _ hj)) hnd.2
      (fun k hk => by
        have hne : k ≠ f.identifier := fun heq => hnd.1 (heq ▸ hk)
        rw [hsame k hne]
        exact habsent k (mem_cons_of_mem _ hk)) (by omega)
    refine ⟨m', ?_, hm'⟩
    rw [foldlM_cons, hone, ok_bind, hrun]

theorem reset_slotInv (hm : SlotInv size m) : SlotInv size m.reset := by
  have hnonneg : 0 ≤ m.cacheSize := hm.free_nonneg.trans (hm.bounds.1.trans hm.bounds.2)
  refine ⟨fun h => ?_, fun h n hn => ?_, ?_, ?_, hnonneg⟩
  · simp [reset, Dict.keys, Dict.empty, Dict.get?]
  · cases hn
  · simp [reset, slots, Dict.keys, Dict.empty]
  · simp [reset, slots, Dict.keys, Dict.empty]

end VllmCore.EncoderCacheManager
