import VllmCore.BlockHash.Chain
import VllmCore.KVCacheManager.CacheHits
import VllmCore.SingleTypeKVCacheManager.Frame
/-!
# The configuration of a coordinator

What the constructor of a coordinator establishes, and no call changes: the
managers belong to the configured groups, in order, and the coordinator class
fits the block sizes.  It follows that a hit found for a group was looked up by
the hashes at the granularity of the manager of that group.
-/

namespace VllmCore

open List Option Support

variable {D : Type} [DecidableEq D]

namespace KVCacheCoordinator

structure Wf (c : KVCacheCoordinator D) : Prop where
  specs : c.singleTypeManagers.map (·.spec) = c.kvCacheConfig.kvCacheGroups
  groupId : ∀ (i : Nat) (m : SingleTypeKVCacheManager D),
    c.singleTypeManagers[i]? = some m → m.kvCacheGroupId = i
  blockSize : ∀ m ∈ c.singleTypeManagers,
    m.blockSize = m.spec.blockSize * (c.dcpWorldSize * c.pcpWorldSize)
  worldSize : 0 < c.dcpWorldSize * c.pcpWorldSize
  caching : c.enableCaching = c.blockPool.enableCaching
  managerCaching : ∀ m ∈ c.singleTypeManagers, m.enableCaching = c.enableCaching
  hashBlockSize : c.hashBlockSize = c.blockPool.hashBlockSize
  noPrefixCache : c.kind = .noPrefixCache ↔ c.enableCaching = false
  unitary : c.kind = .unitary → ∃ spec, c.kvCacheConfig.kvCacheGroups = [spec] ∧
    c.hashBlockSize = spec.blockSize * c.dcpWorldSize * c.pcpWorldSize
  hybrid : c.kind = .hybrid → c.dcpWorldSize * c.pcpWorldSize = 1 ∧
    c.attentionGroups = splitKVCacheGroups c.kvCacheConfig.kvCacheGroups ∧
    1 < c.attentionGroups.length

structure SameConfig (c c' : KVCacheCoordinator D) : Prop where
  kind : c'.kind = c.kind
  kvCacheConfig : c'.kvCacheConfig = c.kvCacheConfig
  enableCaching : c'.enableCaching = c.enableCaching
  useEagle : c'.useEagle = c.useEagle
  dcpWorldSize : c'.dcpWorldSize = c.dcpWorldSize
  pcpWorldSize : c'.pcpWorldSize = c.pcpWorldSize
  hashBlockSize : c'.hashBlockSize = c.hashBlockSize
  attentionGroups : c'.attentionGroups = c.attentionGroups
  lcmBlockSize : c'.lcmBlockSize = c.lcmBlockSize
  managers : List.Forall₂ SingleTypeKVCacheManager.SameConfig c.singleTypeManagers
    c'.singleTypeManagers
  pool : c.blockPool.SameShape c'.blockPool

theorem forall₂_getElem?_right {α β : Type} {R : α → β → Prop} {xs : List α} {ys : List β}
    (h : List.Forall₂ R xs ys) {i : Nat} {y : β} (hy : ys[i]? = some y) :
    ∃ x, xs[i]? = some x ∧ R x y := by
  induction h generalizing i with
  | nil => simp at hy
  | cons hxy _ ih =>
    cases i with
    | zero =>
      cases hy
      exact ⟨_, rfl, hxy⟩
    | succ i => exact ih hy

theorem managers_refl (ms : List (SingleTypeKVCacheManager D)) :
    List.Forall₂ SingleTypeKVCacheManager.SameConfig ms ms :=
  forall₂_same.mpr fun m _ => .refl m

theorem managers_trans {ms₁ ms₂ ms₃ : List (SingleTypeKVCacheManager D)}
    (h : List.Forall₂ SingleTypeKVCacheManager.SameConfig ms₁ ms₂)
    (h' : List.Forall₂ SingleTypeKVCacheManager.SameConfig ms₂ ms₃) :
    List.Forall₂ SingleTypeKVCacheManager.SameConfig ms₁ ms₃ := by
  induction h generalizing ms₃ with
  | nil => exact h'
  | cons hm _ ih =>
    cases h' with
    | cons hm' htail => exact .cons (hm.trans hm') (ih htail)

theorem SameConfig.refl (c : KVCacheCoordinator D) : c.SameConfig c :=
  ⟨rfl, rfl, rfl, rfl, rfl, rfl, rfl, rfl, rfl, managers_refl _, .refl _⟩

theorem SameConfig.trans {c₁ c₂ c₃ : KVCacheCoordinator D} (h : c₁.SameConfig c₂)
    (h' : c₂.SameConfig c₃) : c₁.SameConfig c₃ where
  kind := h'.kind.trans h.kind
  kvCacheConfig := h'.kvCacheConfig.trans h.kvCacheConfig
  enableCaching := h'.enableCaching.trans h.enableCaching
  useEagle := h'.useEagle.trans h.useEagle
  dcpWorldSize := h'.dcpWorldSize.trans h.dcpWorldSize
  pcpWorldSize := h'.pcpWorldSize.trans h.pcpWorldSize
  hashBlockSize := h'.hashBlockSize.trans h.hashBlockSize
  attentionGroups := h'.attentionGroups.trans h.attentionGroups
  lcmBlockSize := h'.lcmBlockSize.trans h.lcmBlockSize
  managers := managers_trans h.managers h'.managers
  pool := h.pool.trans h'.pool

theorem map_spec_eq {ms ms' : List (SingleTypeKVCacheManager D)}
    (h : List.Forall₂ SingleTypeKVCacheManager.SameConfig ms ms') :
    ms'.map (·.spec) = ms.map (·.spec) := by
  induction h with
  | nil => rfl
  | cons hm _ ih => simp [hm.spec, ih]

variable {c : KVCacheCoordinator D} {P : Nat → List BlockId → Prop} {blockHashes : List D} {g : Nat}
  {hit : List BlockId}

theorem Wf.congr {c' : KVCacheCoordinator D} (hc : c.Wf) (h : c.SameConfig c') : c'.Wf := by
  have hback : ∀ m' ∈ c'.singleTypeManagers, ∃ m ∈ c.singleTypeManagers, m.SameConfig m' := by
    intro m' hm'
    obtain ⟨i, hi⟩ := getElem?_of_mem hm'
    obtain ⟨m, hm, hsame⟩ := forall₂_getElem?_right h.managers hi
    exact ⟨m, mem_of_getElem? hm, hsame⟩
  refine ⟨?_, ?_, ?_, ?_, ?_, ?_, ?_, ?_, ?_, ?_⟩
  · rw [map_spec_eq h.managers, h.kvCacheConfig]
    exact hc.specs
  · intro i m' hi
    obtain ⟨m, hm, hsame⟩ := forall₂_getElem?_right h.managers hi
    rw [hsame.kvCacheGroupId]
    exact hc.groupId i m hm
  · intro m' hm'
    obtain ⟨m, hm, hsame⟩ := hback m' hm'
    rw [hsame.blockSize, hsame.spec, h.dcpWorldSize, h.pcpWorldSize]
    exact hc.blockSize m hm
  · rw [h.dcpWorldSize, h.pcpWorldSize]
    exact hc.worldSize
  · rw [h.enableCaching, h.pool.enableCaching]
    exact hc.caching
  · intro m' hm'
    obtain ⟨m, hm, hsame⟩ := hback m' hm'
    rw [hsame.enableCaching, h.enableCaching]
    exact hc.managerCaching m hm
  · rw [h.hashBlockSize, h.pool.hashBlockSize]
    exact hc.hashBlockSize
  · rw [h.kind, h.enableCaching]
    exact hc.noPrefixCache
  · rw [h.kind, h.kvCacheConfig, h.hashBlockSize, h.dcpWorldSize, h.pcpWorldSize]
    exact hc.unitary
  · rw [h.kind, h.kvCacheConfig, h.attentionGroups, h.dcpWorldSize, h.pcpWorldSize]
    exact hc.hybrid

/-- Every listed group has the specification it is listed under. -/
def GroupsOk (specs : List KVCacheSpec) (groups : List AttentionGroup) : Prop :=
  ∀ e ∈ groups, ∀ g ∈ e.2, specs[g]? = some e.1

theorem addAttentionGroup_ok {specs : List KVCacheSpec} {groups : List AttentionGroup}
    {e : KVCacheSpec × Nat} (hgroups : GroupsOk specs groups) (he : specs[e.2]? = some e.1) :
    GroupsOk specs (addAttentionGroup groups e) := by
  unfold addAttentionGroup
  split
  · intro x hx g hg
    obtain ⟨y, hy, rfl⟩ := mem_map.mp hx
    split at hg
    · rename_i heq
      rw [if_pos heq]
      rcases mem_append.mp hg with hg | hg
      · exact hgroups y hy g hg
      · rw [mem_singleton.mp hg, heq]
        exact he
    · rename_i hne
      rw [if_neg hne]
      exact hgroups y hy g hg
  · intro x hx g hg
    rcases mem_append.mp hx with hx | hx
    · exact hgroups x hx g hg
    · rw [mem_singleton.mp hx] at hg ⊢
      rw [mem_singleton.mp hg]
      exact he

theorem splitKVCacheGroups_ok (specs : List KVCacheSpec) :
    GroupsOk specs (splitKVCacheGroups specs) := by
  have hfold : ∀ (es : List (KVCacheSpec × Nat)) (groups : List AttentionGroup),
      (∀ e ∈ es, specs[e.2]? = some e.1) → GroupsOk specs groups →
      GroupsOk specs (es.foldl addAttentionGroup groups) := by
    intro es
    induction es with
    | nil => intro groups _ hgroups; exact hgroups
    | cons e es ih =>
      intro groups hes hgroups
      exact ih _ (fun x hx => hes x (by simp [hx]))
        (addAttentionGroup_ok hgroups (hes e (by simp)))
  have hall := hfold specs.zipIdx [] (fun e he => mem_zipIdx_iff_getElem?.mp he)
    (by intro e he; cases he)
  intro e he
  rcases mem_append.mp he with he | he
  · exact hall e (mem_of_mem_filter he)
  · exact hall e (mem_of_mem_filter he)

/-! ## The hits of all groups -/

/-- The hit of group `g` was looked up by the hashes at the granularity of the
manager of the group. -/
def GroupHitOk (c : KVCacheCoordinator D) (blockHashes : List D) (g : Nat)
    (hit : List BlockId) : Prop :=
  ∀ m, c.singleTypeManagers[g]? = some m → hit ≠ [] →
    ∃ hashes, convertBlockHashes blockHashes c.hashBlockSize m.blockSize = .ok hashes ∧
      SingleTypeKVCacheManager.HitOk c.blockPool hashes g hit

theorem foldl_set_hits :
    ∀ {es : List (Nat × List BlockId)} {hits : HitBlocks},
      (∀ e ∈ es, P e.1 e.2) → (∀ g hit, hits[g]? = some (some hit) → P g hit) →
      ∀ g hit, (es.foldl (fun hits e => hits.set e.1 (some e.2)) hits)[g]? = some (some hit) →
        P g hit := by
  intro es
  induction es with
  | nil => intro hits _ h; exact h
  | cons e es ih =>
    intro hits hes h
    refine ih (fun x hx => hes x (by simp [hx])) ?_
    intro g hit hg
    rw [getElem?_set] at hg
    split at hg
    · rename_i heq
      split at hg
      · simp only [Option.some.injEq] at hg
        subst heq hg
        exact hes e (by simp)
      · cases hg
    · exact h g hit hg

/-- What holds of every hit that the lookup of a manager finds, of the empty hit and of the
beginnings of hits. -/
structure HoldsOfFound (c : KVCacheCoordinator D) (blockHashes : List D)
    (P : Nat → List BlockId → Prop) : Prop where
  nil : ∀ g, P g []
  take : ∀ g hit n, P g hit → P g (hit.take n)
  found : ∀ g m, c.singleTypeManagers[g]? = some m → ∀ hashes,
    convertBlockHashes blockHashes c.hashBlockSize m.blockSize = .ok hashes →
    ∀ maxLength groupIds alignmentTokens dcp pcp hitBlocks,
      SingleTypeKVCacheManager.findLongestCacheHit c.blockPool hashes maxLength groupIds m.spec
        c.useEagle alignmentTokens dcp pcp = .ok hitBlocks →
      ∀ (j : Nat) hit, groupIds[j]? = some g → hitBlocks[j]? = some hit → P g hit

theorem searchGroup_hits (hc : c.Wf) (hkind : c.kind = .hybrid) (hP : c.HoldsOfFound blockHashes P)
    {g : AttentionGroup} (hg : g ∈ c.attentionGroups) {st st' : Nat × HitBlocks}
    (hst : ∀ i hit, st.2[i]? = some (some hit) → P i hit)
    (h : c.searchGroup blockHashes st g = .ok st') :
    ∀ i hit, st'.2[i]? = some (some hit) → P i hit := by
  obtain ⟨curr, hits⟩ := st
  obtain ⟨spec, groupIds⟩ := g
  obtain ⟨hworld, hgroups, _⟩ := hc.hybrid hkind
  unfold searchGroup at h
  dsimp only at h
  split at h
  · cases h
    exact hst
  · simp only [bind_ok, pure_ok] at h
    obtain ⟨hashes, hconv, hitBlocks, hfind, length, _, rfl⟩ := h
    refine foldl_set_hits ?_ hst
    intro e he
    obtain ⟨j, hj⟩ := getElem?_of_mem he
    rw [getElem?_zip_eq_some] at hj
    have hspec := splitKVCacheGroups_ok _ _ (hgroups ▸ hg) e.1 (mem_of_getElem? hj.1)
    rw [← hc.specs, getElem?_map, map_eq_some_iff] at hspec
    obtain ⟨m, hm, rfl⟩ := hspec
    have hsize : m.blockSize = m.spec.blockSize := by
      rw [hc.blockSize m (mem_of_getElem? hm), hworld, Nat.mul_one]
    exact hP.found e.1 m hm hashes (hsize ▸ hconv) curr groupIds c.lcmBlockSize 1 1 hitBlocks
      hfind j e.2 hj.1 hj.2

theorem searchLoop_invariant {simple : Bool} {I : HitBlocks → Prop}
    (hturn : ∀ g ∈ c.attentionGroups, ∀ st st', I st.2 →
      c.searchGroup blockHashes st g = .ok st' → I st'.2) :
    ∀ {fuel hitLength : Nat} {hits : HitBlocks} {res : Nat × HitBlocks}, I hits →
      c.searchLoop blockHashes simple fuel hitLength hits = .ok res → I res.2 := by
  intro fuel
  induction fuel with
  | zero =>
    intro hitLength hits res hhits h
    cases h
    exact hhits
  | succ fuel ih =>
    intro hitLength hits res hhits h
    unfold searchLoop at h
    simp only [bind_ok] at h
    obtain ⟨⟨curr, hits'⟩, hfold, h⟩ := h
    have hhits' : I (curr, hits').2 :=
      foldlM_inv (P := fun st => I st.2) (fun _ _ _ hg hst hx => hturn _ hg _ _ hst hx)
        (show I (hitLength, hits).2 from hhits) hfold
    split at h
    · cases h
      exact hhits'
    · split at h
      · cases h
        exact hhits'
      · exact ih hhits' h

theorem truncateFullAttention_invariant (htake : ∀ g hit n, P g hit → P g (hit.take n))
    {hits : HitBlocks} (hhits : ∀ g hit, hits[g]? = some (some hit) → P g hit) (hitLength : Nat) :
    ∀ g hit, (c.truncateFullAttention hitLength hits)[g]? = some (some hit) → P g hit := by
  unfold truncateFullAttention
  split
  · exact hhits
  · rename_i spec groupIds _ _
    split
    · clear * - htake hhits
      induction groupIds generalizing hits with
      | nil => exact hhits
      | cons g groupIds ih =>
        refine ih ?_
        intro i hit hi
        rw [getElem?_modify] at hi
        cases ho : hits[i]? with
        | none => simp [ho] at hi
        | some o =>
          cases o with
          | none => split at hi <;> simp [ho] at hi
          | some hit' =>
            have hok := hhits i hit' ho
            split at hi
            · rw [ho] at hi
              cases hi
              exact htake i hit' _ hok
            · rw [ho] at hi
              cases hi
              exact hok
    · exact hhits

theorem hitOk_take {p : BlockPool D} {hashes : BlockHashListWithBlockSize D}
    (h : SingleTypeKVCacheManager.HitOk p hashes g hit) (n : Nat) :
    SingleTypeKVCacheManager.HitOk p hashes g (hit.take n) := by
  intro i b hi
  rw [getElem?_take] at hi
  split at hi
  · exact h i b hi
  · cases hi

theorem GroupHitOk.take (h : c.GroupHitOk blockHashes g hit) (n : Nat) :
    c.GroupHitOk blockHashes g (hit.take n) := by
  intro m hm hne
  obtain ⟨hashes, hconv, hok⟩ := h m hm (fun h0 => hne (by rw [h0, take_nil]))
  exact ⟨hashes, hconv, hitOk_take hok n⟩

theorem findLongestCacheHit_hits (hc : c.Wf) (hP : c.HoldsOfFound blockHashes P) {maxLength n : Nat}
    {hits : KVCacheBlocks} (h : c.findLongestCacheHit blockHashes maxLength = .ok (hits, n)) :
    ∀ g hit, hits[g]? = some hit → P g hit := by
  intro g hit hg
  unfold findLongestCacheHit at h
  split at h
  · -- Without prefix caching all hits are empty.
    cases h
    rw [getElem?_map, map_eq_some_iff] at hg
    obtain ⟨_, _, rfl⟩ := hg
    exact hP.nil g
  · rename_i hkind
    obtain ⟨spec, hconfig, hsize⟩ := hc.unitary hkind
    rw [hconfig] at h
    simp only [bind_ok] at h
    obtain ⟨hitBlocks, hfind, h⟩ := h
    obtain ⟨rows, rfl, _, _⟩ := SingleTypeKVCacheManager.findLongestCacheHit_rows hfind
    split at h
    · cases h
    · cases h
      have hlt : g < [0].length := by
        have hlen := (List.getElem?_eq_some_iff.mp hg).1
        simpa [SingleTypeKVCacheManager.columns] using hlen
      obtain rfl : g = 0 := by simpa using hlt
      have hspecs := hc.specs
      rw [hconfig, map_eq_cons_iff] at hspecs
      obtain ⟨m, rest, hms, rfl, _⟩ := hspecs
      have hm : c.singleTypeManagers[0]? = some m := by rw [hms]; rfl
      have hmsize : m.blockSize = c.hashBlockSize := by
        rw [hc.blockSize m (mem_of_getElem? hm), hsize, Nat.mul_assoc]
      have hconv : convertBlockHashes blockHashes c.hashBlockSize m.blockSize =
          .ok ⟨blockHashes, 1⟩ := by rw [convertBlockHashes, if_pos hmsize]
      exact hP.found 0 m hm _ hconv _ [0] _ _ _ _ hfind 0 hit rfl hg
  · rename_i hkind
    unfold findLongestCacheHitHybrid at h
    simp only [bind_ok, pure_ok] at h
    obtain ⟨⟨hitLength, hits'⟩, hloop, hres⟩ := h
    cases hres
    have hempty : ∀ i hit', (List.replicate c.kvCacheConfig.kvCacheGroups.length none :
        HitBlocks)[i]? = some (some hit') → P i hit' := by
      intro i hit' hi
      rw [getElem?_replicate] at hi
      split at hi <;> cases hi
    have hsearch : ∀ i hit', hits'[i]? = some (some hit') → P i hit' :=
      searchLoop_invariant (I := fun hits => ∀ i hit, hits[i]? = some (some hit) → P i hit)
        (fun _ hg _ _ hst hx => searchGroup_hits hc hkind hP hg hst hx) hempty hloop
    rw [getElem?_map, map_eq_some_iff] at hg
    obtain ⟨o, ho, rfl⟩ := hg
    cases o with
    | none => exact hP.nil g
    | some hit' => exact truncateFullAttention_invariant hP.take hsearch hitLength g hit' ho

theorem findLongestCacheHit_ok (hc : c.Wf) {maxLength n : Nat} {hits : KVCacheBlocks}
    (h : c.findLongestCacheHit blockHashes maxLength = .ok (hits, n)) (hg : hits[g]? = some hit) :
    c.GroupHitOk blockHashes g hit := by
  refine findLongestCacheHit_hits hc (P := fun g hit => c.GroupHitOk blockHashes g hit)
    ⟨?_, fun _ _ n hhit => hhit.take n, ?_⟩ h g hit hg
  · intro i m _ hne
    exact absurd rfl hne
  · intro i m hm hashes hconv _ _ _ _ _ _ hfind j hit hj hhit m' hm' _
    rw [hm, Option.some.injEq] at hm'
    subst hm'
    obtain ⟨rows, rfl, hrows, _⟩ := SingleTypeKVCacheManager.findLongestCacheHit_rows hfind
    exact ⟨hashes, hconv, SingleTypeKVCacheManager.columns_hitOk hrows hj hhit⟩

end KVCacheCoordinator

theorem KVCacheManager.getComputedBlocks_ok {kv : KVCacheManager D} (hc : kv.coordinator.Wf)
    {r : Request D} {hits : KVCacheBlocks} {n : Nat}
    (h : kv.getComputedBlocks r = .ok (hits, n)) {g : Nat} {hit : List BlockId}
    (hg : hits[g]? = some hit) : kv.coordinator.GroupHitOk r.blockHashes g hit := by
  have hempty : ∀ {g : Nat} {hit : List BlockId}, kv.emptyKVCacheBlocks[g]? = some hit →
      kv.coordinator.GroupHitOk r.blockHashes g hit := by
    intro g hit hg
    unfold emptyKVCacheBlocks at hg
    rw [getElem?_map, map_eq_some_iff] at hg
    obtain ⟨_, _, rfl⟩ := hg
    intro m _ hne
    exact absurd rfl hne
  unfold getComputedBlocks at h
  split at h
  · cases h
    exact hempty hg
  · simp only [bind_ok, pure_ok] at h
    obtain ⟨⟨blocks, k⟩, hfind, hres⟩ := h
    cases hres
    unfold createKVCacheBlocks at hg
    split at hg
    · exact KVCacheCoordinator.findLongestCacheHit_ok hc hfind hg
    · exact hempty hg

end VllmCore
