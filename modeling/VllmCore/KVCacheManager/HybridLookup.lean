import VllmCore.KVCacheManager.HitLength
import VllmCore.SingleTypeKVCacheManager.Lookup
/-!
# The search of hybrid models

The groups of a hybrid model agree on a length by turns: each accepts the current length or
reduces it to the longest hit of its own.  What no group may exceed is never given up, so the
length that all accept is the longest hit common to all groups.
-/

namespace VllmCore

open List Support

variable {D : Type} [DecidableEq D]

open SingleTypeKVCacheManager (CachedRow CachedAt RowsOk LongestRows Lookup lookupNeeds columns
  Aligned)

theorem convertBlockHashes_of_dvd {hashBlockSize blockSize : Nat} (blockHashes : List D)
    (h : blockSize % hashBlockSize = 0) :
    ∃ hashes, convertBlockHashes blockHashes hashBlockSize blockSize = .ok hashes := by
  unfold convertBlockHashes BlockHashListWithBlockSize.create
  split
  · exact ⟨_, rfl⟩
  · rw [pyAssert_pos h]
    exact ⟨_, rfl⟩

namespace KVCacheCoordinator

/-! ## Hybrid coordinators -/

structure IsHybrid (c : KVCacheCoordinator D) : Prop where
  groups : c.attentionGroups = splitKVCacheGroups c.kvCacheConfig.kvCacheGroups
  two : 1 < c.attentionGroups.length
  lcm : c.lcmBlockSize = (c.attentionGroups.map (·.1.blockSize)).foldl Nat.lcm 1
  divides : ∀ s ∈ c.kvCacheConfig.kvCacheGroups, s.blockSize % c.hashBlockSize = 0
variable {c : KVCacheCoordinator D}

theorem create_isHybrid {config : KVCacheConfig} {useEagle caching events : Bool}
    {dcp pcp hashBlockSize : Nat}
    (h : create config useEagle caching events dcp pcp hashBlockSize = .ok c)
    (hkind : c.kind = .hybrid) : c.IsHybrid := by
  unfold create at h
  simp only [bind_ok] at h
  obtain ⟨p, _, ⟨ms, p'⟩, _, h⟩ := h
  split at h
  · cases h
    cases hkind
  · split at h
    · simp only [bind_ok, pyAssert_ok, pure_ok] at h
      obtain ⟨_, _, rfl⟩ := h
      cases hkind
    · simp only [bind_ok, pyAssert_ok, pure_ok] at h
      obtain ⟨_, hdivides, _, _, _, _, _, htwo, rfl⟩ := h
      exact ⟨rfl, htwo, rfl, hdivides⟩

theorem dvd_foldl_lcm : ∀ {sizes : List Nat} {n : Nat},
    n ∣ sizes.foldl Nat.lcm n ∧ ∀ k ∈ sizes, k ∣ sizes.foldl Nat.lcm n := by
  intro sizes
  induction sizes with
  | nil => intro n; exact ⟨dvd_rfl, fun k hk => (by cases hk)⟩
  | cons size sizes ih =>
    intro n
    obtain ⟨hstart, hall⟩ := @ih (Nat.lcm n size)
    refine ⟨(Nat.dvd_lcm_left n size).trans hstart, ?_⟩
    intro k hk
    rcases mem_cons.mp hk with rfl | hk
    · exact (Nat.dvd_lcm_right n k).trans hstart
    · exact hall k hk

variable {g : AttentionGroup} {i : Nat} {ids : List Nat}

theorem IsHybrid.blockSize_dvd (hc : c.IsHybrid)
    (hg : g ∈ c.attentionGroups) : g.1.blockSize ∣ c.lcmBlockSize := by
  rw [hc.lcm]
  exact dvd_foldl_lcm.2 _ (mem_map_of_mem hg)

theorem mem_addAttentionGroup (groups : List AttentionGroup) (e : KVCacheSpec × Nat) :
    (∀ s i, (∃ ids, (s, ids) ∈ groups ∧ i ∈ ids) →
      ∃ ids, (s, ids) ∈ addAttentionGroup groups e ∧ i ∈ ids) ∧
    ∃ ids, (e.1, ids) ∈ addAttentionGroup groups e ∧ e.2 ∈ ids := by
  unfold addAttentionGroup
  split
  next hany =>
    refine ⟨?_, ?_⟩
    · rintro s i ⟨ids, hmem, hi⟩
      by_cases hs : s = e.1
      · refine ⟨ids ++ [e.2], mem_map.mpr ⟨(s, ids), hmem, by rw [if_pos hs]⟩, ?_⟩
        exact mem_append_left _ hi
      · exact ⟨ids, mem_map.mpr ⟨(s, ids), hmem, by rw [if_neg hs]⟩, hi⟩
    · obtain ⟨⟨s, ids⟩, hmem, hs⟩ := any_eq_true.mp hany
      have hse : s = e.1 := by simpa using hs
      refine ⟨ids ++ [e.2], mem_map.mpr ⟨(s, ids), hmem, ?_⟩, by simp⟩
      rw [if_pos hse, hse]
  · refine ⟨?_, [e.2], by simp, by simp⟩
    rintro s i ⟨ids, hmem, hi⟩
    exact ⟨ids, mem_append_left _ hmem, hi⟩

theorem mem_splitKVCacheGroups {specs : List KVCacheSpec} {s : KVCacheSpec}
    (h : specs[i]? = some s) : ∃ ids, (s, ids) ∈ splitKVCacheGroups specs ∧ i ∈ ids := by
  have hfold : ∀ (es : List (KVCacheSpec × Nat)) (groups : List AttentionGroup),
      ((∃ ids, (s, ids) ∈ groups ∧ i ∈ ids) ∨ (s, i) ∈ es) →
      ∃ ids, (s, ids) ∈ es.foldl addAttentionGroup groups ∧ i ∈ ids := by
    intro es
    induction es with
    | nil =>
      rintro groups (hmem | hmem)
      · exact hmem
      · cases hmem
    | cons e es ih =>
      intro groups hmem
      obtain ⟨hkeep, hnew⟩ := mem_addAttentionGroup groups e
      apply ih
      rcases hmem with hmem | hmem
      · exact .inl (hkeep s i hmem)
      · rcases mem_cons.mp hmem with rfl | hmem
        · exact .inl hnew
        · exact .inr hmem
  obtain ⟨ids, hmem, hi⟩ := hfold specs.zipIdx [] (.inr (mem_zipIdx_iff_getElem?.mpr h))
  refine ⟨ids, ?_, hi⟩
  unfold splitKVCacheGroups
  rw [mem_append, mem_filter, mem_filter]
  cases hfull : s.isFullAttention with
  | true => exact .inl ⟨hmem, rfl⟩
  | false => exact .inr ⟨hmem, rfl⟩

theorem IsHybrid.mem_spec (hc : c.IsHybrid)
    (hg : g ∈ c.attentionGroups) (hi : i ∈ g.2) : c.kvCacheConfig.kvCacheGroups[i]? = some g.1 :=
  splitKVCacheGroups_ok _ _ (hc.groups ▸ hg) i hi

theorem IsHybrid.distinct (hc : c.IsHybrid) :
    GroupsDistinct c.attentionGroups :=
  hc.groups ▸ splitKVCacheGroups_distinct c.kvCacheConfig.kvCacheGroups

theorem IsHybrid.spec_mem (hc : c.IsHybrid)
    (hg : g ∈ c.attentionGroups) : g.1 ∈ c.kvCacheConfig.kvCacheGroups := by
  obtain ⟨i, ids, hids⟩ := exists_cons_of_ne_nil (hc.distinct.2 g hg)
  exact mem_of_getElem? (hc.mem_spec hg (show i ∈ g.2 by rw [hids]; simp))

/-! ## Stored lists -/

section

variable (c : KVCacheCoordinator D) (blockHashes : List D)

def storeRows (ids : List Nat) (rows : List (List BlockId)) (hits : HitBlocks) : HitBlocks :=
  (ids.zip (columns ids.length c.blockPool.nullBlock rows)).foldl
    (fun hits e => hits.set e.1 (some e.2)) hits

def HoldsRows (ids : List Nat) (rows : List (List BlockId)) (hits : HitBlocks) : Prop :=
  ∀ i ∈ ids, ∃ j : Nat, ids[j]? = some i ∧
    hits[i]? = some (some (rows.map fun row => row.getD j c.blockPool.nullBlock))

end

theorem foldl_set_congr : ∀ {es : List (Nat × List BlockId)} {hits hits' : HitBlocks},
    hits.length = hits'.length →
    (∀ i, i ∉ es.map Prod.fst → hits[i]? = hits'[i]?) →
    es.foldl (fun hits e => hits.set e.1 (some e.2)) hits =
      es.foldl (fun hits e => hits.set e.1 (some e.2)) hits' := by
  intro es
  induction es with
  | nil =>
    intro hits hits' _ hout
    exact ext_getElem? fun i => hout i (by simp)
  | cons e es ih =>
    intro hits hits' hlen hout
    apply ih
    · rw [length_set, length_set, hlen]
    · intro i hi
      rw [getElem?_set, getElem?_set, hlen]
      split
      · rfl
      next hne =>
        apply hout
        rw [map_cons, mem_cons, not_or]
        exact ⟨Ne.symm hne, hi⟩

variable {c : KVCacheCoordinator D} {blockHashes : List D}

theorem storeRows_keys (ids : List Nat) (rows : List (List BlockId)) :
    (ids.zip (columns ids.length c.blockPool.nullBlock rows)).map Prod.fst = ids := by
  apply map_fst_zip
  unfold SingleTypeKVCacheManager.columns
  rw [length_map, length_range]

theorem length_storeRows (ids : List Nat) (rows : List (List BlockId)) (hits : HitBlocks) :
    (c.storeRows ids rows hits).length = hits.length := foldl_set_spec.1

theorem storeRows_of_notMem (hi : i ∉ ids) (rows : List (List BlockId)) (hits : HitBlocks) :
    (c.storeRows ids rows hits)[i]? = hits[i]? := by
  apply foldl_set_spec.2.1
  rwa [storeRows_keys]

theorem storeRows_holds (rows : List (List BlockId)) {hits : HitBlocks}
    (hlt : ∀ i ∈ ids, i < hits.length) : c.HoldsRows ids rows (c.storeRows ids rows hits) := by
  intro i hi
  obtain ⟨hit, hmem, hget⟩ := (@foldl_set_spec _ hits).2.2 i
    (by rw [storeRows_keys (c := c) ids rows]; exact hi) (hlt i hi)
  obtain ⟨j, hj⟩ := getElem?_of_mem hmem
  rw [getElem?_zip_eq_some] at hj
  obtain ⟨_, hcol⟩ := SingleTypeKVCacheManager.columns_getElem? hj.2
  exact ⟨j, hj.1, hcol ▸ hget⟩

theorem storeRows_idem (ids : List Nat) (rows : List (List BlockId)) (hits : HitBlocks) :
    c.storeRows ids rows (c.storeRows ids rows hits) = c.storeRows ids rows hits := by
  apply foldl_set_congr (length_storeRows ids rows hits)
  intro i hi
  rw [storeRows_keys] at hi
  exact storeRows_of_notMem hi rows hits

end KVCacheCoordinator

end VllmCore
