import VllmCore.KVCacheUtils.Groups
import Mathlib.Algebra.BigOperators.Ring.Finset
/-!
# The layout of the KV cache

The configuration of each worker has each of its layers in one group and in one tensor, no
two layers of a group in one tensor, and tensors that fit into the memory of the worker.
-/

namespace VllmCore.KVCacheUtils

open List Support Dict

variable {N : Type} [DecidableEq N]

/-- The page size of a layer of the group: that of the group, or where the group keeps a
specification for each layer, that of the layer. -/
def KVCacheGroupSpec.layerPageSize (g : KVCacheGroupSpec N) (layerName : N) : Py Nat :=
  match g.kvCacheSpec with
  | .single spec => spec.pageSizeBytes
  | .uniformType _ specs => do
    let spec ← specs.get layerName
    spec.pageSizeBytes

def TensorSizes (config : KVCacheConfig N) : Prop :=
  ∀ t ∈ config.kvCacheTensors, t.sharedBy ≠ [] ∧
    ∃ pageSize : Nat, t.size = pageSize * config.numBlocks ∧
      ∀ layerName ∈ t.sharedBy, ∀ g ∈ config.kvCacheGroups, layerName ∈ g.layerNames →
        g.layerPageSize layerName = .ok pageSize

/-- The layout of a worker's configuration, for the layers `spec` and the memory of the
worker.  The layers of the groups, and those of the tensors, are a permutation of the layers
of the worker, which are distinct: each is in exactly one group and one tensor. -/
structure Layout (spec : Dict N KVCacheSpec) (memory : Int) (config : KVCacheConfig N) :
    Prop where
  memory : (config.kvCacheTensors.map fun t => t.size).sum ≤ memory
  groups : (layersOf config.kvCacheGroups).Perm spec.keys
  tensors : (config.kvCacheTensors.flatMap fun t => t.sharedBy).Perm spec.keys
  apart : ∀ t ∈ config.kvCacheTensors, ∀ g ∈ config.kvCacheGroups,
    ∀ a ∈ t.sharedBy, ∀ b ∈ t.sharedBy, a ∈ g.layerNames → b ∈ g.layerNames → a = b
  sizes : TensorSizes config

/-! ## Projection -/

variable {groups projected : List (KVCacheGroupSpec N)} {workerSpec specs : Dict N KVCacheSpec}
  {pageSize : Nat} {memory : Int} {c : VllmConfig} {config : KVCacheConfig N}

theorem projectKvCacheGroupsToWorker_ok
    (h : projectKvCacheGroupsToWorker groups workerSpec = .ok projected) :
    projected.map (fun g => g.layerNames) =
      groups.map fun g => g.layerNames.filter fun n => workerSpec.contains n := by
  refine map_of_mapM h fun g _ g' hg => ?_
  dsimp only at hg
  split at hg
  · simp only [bind_ok, pure_ok] at hg
    obtain ⟨specs, _, rfl⟩ := hg
    rfl
  · rw [pure_ok] at hg
    rw [← hg]

theorem layersOf_project (h : projectKvCacheGroupsToWorker groups workerSpec = .ok projected) :
    layersOf projected = (layersOf groups).filter fun n => workerSpec.contains n := by
  unfold layersOf
  rw [flatMap_def, projectKvCacheGroupsToWorker_ok h, filter_flatMap, flatMap_def]

theorem keys_foldlM_get :
    ∀ {names : List N} {d d' : Dict N KVCacheSpec}, (d.keys ++ names).Nodup →
      names.foldlM (fun d n => do
        let spec ← specs.get n
        return d.set n spec) d = .ok d' → d'.keys = d.keys ++ names := by
  intro names
  induction names with
  | nil =>
    intro d d' _ h
    rw [foldlM_nil, pure_ok] at h
    rw [← h, append_nil]
  | cons n names ih =>
    intro d d' hnd h
    have hnew : n ∉ d.keys := fun hmem =>
      (nodup_append.mp hnd).2.2 n hmem n mem_cons_self rfl
    simp only [foldlM_cons, bind_ok, pure_ok] at h
    obtain ⟨d₁, ⟨spec, _, rfl⟩, hrest⟩ := h
    have hkeys := keys_set_of_not_mem d hnew spec
    rw [append_cons, ← hkeys] at hnd
    rw [ih hnd hrest, hkeys, append_assoc]
    rfl

theorem Grouped.project (hg : Grouped groups) (hnd : (layersOf groups).Nodup)
    (h : projectKvCacheGroupsToWorker groups workerSpec = .ok projected) : Grouped projected := by
  cases hg with
  | single hsingle =>
    refine .single fun g' hg' => ?_
    obtain ⟨g, hmem, hproject⟩ := exists_of_mem_mapM h hg'
    obtain ⟨spec, hspec⟩ := hsingle g hmem
    dsimp only at hproject
    split at hproject
    next hother =>
      rw [hspec] at hother
      cases hother
    · rw [pure_ok] at hproject
      rw [← hproject]
      exact ⟨spec, hspec⟩
  | uniformType layerNames blockSize specs hgroups hkeys =>
    subst hgroups
    unfold layersOf at hnd
    rw [flatMap_singleton] at hnd
    unfold projectKvCacheGroupsToWorker at h
    simp only [mapM_cons, mapM_nil, bind_ok, pure_ok] at h
    obtain ⟨g, hg, _, rfl, rfl⟩ := h
    split at hg
    next n ns blockSize' specs' hnames hspec =>
      simp only [bind_ok, pure_ok] at hg
      obtain ⟨workerSpecs, hfold, rfl⟩ := hg
      refine .uniformType _ _ workerSpecs rfl fun _ => ?_
      have hfilter := hnd.filter fun n => workerSpec.contains n
      rw [keys_foldlM_get hfilter hfold]
      exact .refl _
    next hother =>
      rw [pure_ok] at hg
      refine .uniformType _ blockSize specs (by rw [← hg]) fun hne => ?_
      obtain ⟨n, ns, hcons⟩ := exists_cons_of_ne_nil hne
      exact absurd rfl (hother n ns blockSize specs hcons)

/-! ## The configuration from the groups -/

theorem eq_of_mem_layers (hnd : (layersOf groups).Nodup) {g g' : KVCacheGroupSpec N}
    (hg : g ∈ groups) (hg' : g' ∈ groups) {n : N} (hn : n ∈ g.layerNames)
    (hn' : n ∈ g'.layerNames) : g = g' := by
  obtain ⟨_, hpair⟩ := nodup_flatMap.mp hnd
  by_contra hne
  have hsymm : Std.Symm (fun a b : KVCacheGroupSpec N => List.Disjoint a.layerNames b.layerNames) :=
    ⟨fun _ _ h => h.symm⟩
  exact (List.Pairwise.forall hpair hg hg' hne) hn hn'

theorem length_le_maxGroupSize {g : KVCacheGroupSpec N} (hg : g ∈ groups) :
    g.layerNames.length ≤ maxGroupSize groups :=
  (le_foldl_max _ 0).1 _ (mem_map_of_mem hg)

theorem getUniformPageSize_ok {specs : List (GroupSpec N)}
    (h : getUniformPageSize specs = .ok pageSize) :
    ∀ spec ∈ specs, spec.pageSizeBytes = .ok pageSize := by
  intro spec hspec
  unfold getUniformPageSize at h
  simp only [bind_ok] at h
  obtain ⟨pageSizes, hsizes, h⟩ := h
  obtain ⟨size, hmem, hsize⟩ := exists_mem_of_mapM hsizes hspec
  split at h
  next p hdedup =>
    rw [pure_ok] at h
    have hp := mem_dedup.mpr hmem
    rw [hdedup, mem_singleton] at hp
    rw [hsize, hp, h]
  · cases h

/-- The size of each tensor, where the configuration has the blocks that it has before the
workers agree.  The tensors of a configuration fit into the memory. -/
structure WorkerLayout (groups : List (KVCacheGroupSpec N)) (memory : Int)
    (config : KVCacheConfig N) : Prop where
  fits : (config.kvCacheTensors.map fun t => t.size).sum ≤ memory
  same : config.kvCacheGroups = groups
  tensors : (config.kvCacheTensors.flatMap fun t => t.sharedBy).Perm (layersOf groups)
  apart : ∀ t ∈ config.kvCacheTensors, ∀ g ∈ config.kvCacheGroups,
    ∀ a ∈ t.sharedBy, ∀ b ∈ t.sharedBy, a ∈ g.layerNames → b ∈ g.layerNames → a = b
  sizes : TensorSizes config
  nonneg : 0 ≤ config.numBlocks

theorem mul_fdiv_le (hmemory : 0 < memory) (size : Nat) (hsize : size ≠ 0) :
    (size : Int) * memory.fdiv size ≤ memory ∧ 0 ≤ memory.fdiv size := by
  rw [Int.fdiv_eq_ediv_of_nonneg _ (by omega)]
  exact ⟨Int.mul_ediv_self_le (by omega), Int.ediv_nonneg (by omega) (by omega)⟩

def pageSizeOf (spec : KVCacheSpec) : Int :=
  match spec.pageSizeBytes with
  | .ok pageSize => pageSize
  | .error _ => 0

theorem sum_pageSizeOf {blockSize : Nat}
    (h : (GroupSpec.uniformType blockSize specs).pageSizeBytes = .ok pageSize) :
    (specs.keys.map fun n => (specs.get? n).elim 0 pageSizeOf).sum = pageSize := by
  unfold GroupSpec.pageSizeBytes at h
  simp only [bind_ok, pure_ok] at h
  obtain ⟨sizes, hsizes, rfl⟩ := h
  have hvalues : sizes.map (fun p : Nat => (p : Int)) = specs.values.map pageSizeOf := by
    refine map_of_mapM hsizes fun s _ p hp => ?_
    unfold pageSizeOf
    rw [hp]
  have hkeys : specs.keys.map (fun n => (specs.get? n).elim 0 pageSizeOf) =
      specs.values.map pageSizeOf := by
    unfold Dict.keys Dict.values
    rw [map_map, map_map]
    apply map_congr_left
    intro e he
    have hget : specs.get? e.1 = some e.2 := (get?_eq_some_iff specs e.1 e.2).mpr he
    show (specs.get? e.1).elim 0 pageSizeOf = pageSizeOf e.2
    rw [hget]
    rfl
  rw [hkeys, ← hvalues]
  exact (Nat.cast_list_sum sizes).symm

theorem getKvCacheConfigFromGroups_uniformType {layerNames : List N} {blockSize : Nat}
    (hkeys : layerNames ≠ [] → layerNames.Perm specs.keys) (hover : c.numGpuBlocksOverride = none)
    (hmemory : 0 < memory)
    (h : getKvCacheConfigFromGroups c [⟨layerNames, .uniformType blockSize specs⟩] memory =
      .ok config) : WorkerLayout [⟨layerNames, .uniformType blockSize specs⟩] memory config := by
  unfold getKvCacheConfigFromGroups at h
  simp only [bind_ok, pure_ok, floorDiv_ok] at h
  obtain ⟨pageSize, hpage, numBlocks, ⟨hne, rfl⟩, tensors, htensors, rfl⟩ := h
  have hblocks : mayOverrideNumBlocks c (memory.fdiv pageSize) = memory.fdiv pageSize := by
    unfold mayOverrideNumBlocks
    rw [hover]
    rfl
  rw [hblocks] at htensors ⊢
  obtain ⟨hfits, hnonneg⟩ := mul_fdiv_le hmemory pageSize (by omega)
  -- what a tensor is
  have htensor : ∀ n t, (do
      let spec ← specs.get n
      let layerPageSize ← spec.pageSizeBytes
      return { size := layerPageSize * memory.fdiv pageSize, sharedBy := [n] } :
        Py (KVCacheTensor N)) = .ok t → t.sharedBy = [n] ∧ ∃ spec p, specs.get n = .ok spec ∧
          spec.pageSizeBytes = .ok p ∧ t.size = p * memory.fdiv pageSize := by
    intro n t ht
    simp only [bind_ok, pure_ok] at ht
    obtain ⟨spec, hspec, p, hp, rfl⟩ := ht
    exact ⟨rfl, spec, p, hspec, hp, rfl⟩
  have hshared : tensors.map (fun t => t.sharedBy) = layerNames.map fun n => [n] :=
    map_of_mapM htensors fun n _ t ht => (htensor n t ht).1
  refine ⟨?_, ?_, ?_, ?_, ?_, hnonneg⟩
  · have hsizes : tensors.map (fun t => t.size) =
        layerNames.map fun n => (specs.get? n).elim 0 pageSizeOf * memory.fdiv pageSize := by
      refine map_of_mapM htensors fun n _ t ht => ?_
      obtain ⟨_, spec, p, hspec, hp, hsize⟩ := htensor n t ht
      rw [get_ok] at hspec
      rw [hsize, hspec]
      show _ = pageSizeOf spec * _
      unfold pageSizeOf
      rw [hp]
    rw [hsizes, sum_map_mul_right]
    by_cases hempty : layerNames = []
    · rw [hempty]
      simp only [map_nil, sum_nil, Int.zero_mul]
      omega
    · rw [((hkeys hempty).map _).sum_eq, sum_pageSizeOf hpage]
      exact hfits
  · rfl
  · unfold layersOf
    rw [flatMap_def, hshared, ← flatMap_def, flatMap_singleton',
      flatMap_singleton]
  · intro t ht _ _ a ha b hb _ _
    obtain ⟨n, _, hn⟩ := exists_of_mem_mapM htensors ht
    rw [(htensor n t hn).1, mem_singleton] at ha hb
    rw [ha, hb]
  · intro t ht
    obtain ⟨n, _, hn⟩ := exists_of_mem_mapM htensors ht
    obtain ⟨hby, spec, p, hspec, hp, hsize⟩ := htensor n t hn
    refine ⟨by rw [hby]; simp, p, hsize, ?_⟩
    intro m hm g hg _
    rw [hby, mem_singleton] at hm
    rw [mem_singleton] at hg
    rw [hm, hg]
    unfold KVCacheGroupSpec.layerPageSize
    dsimp only
    rw [hspec]
    exact hp

theorem getKvCacheConfigFromGroups_single (hne : groups ≠ [])
    (hsingle : ∀ g ∈ groups, ∃ spec, g.kvCacheSpec = .single spec) (hnd : (layersOf groups).Nodup)
    (hover : c.numGpuBlocksOverride = none) (hmemory : 0 < memory)
    (h : getKvCacheConfigFromGroups c groups memory = .ok config) :
    WorkerLayout groups memory config := by
  unfold getKvCacheConfigFromGroups at h
  split at h
  · exact absurd rfl hne
  next hgroups =>
    obtain ⟨spec, hspec⟩ := hsingle _ mem_cons_self
    cases hspec
  · simp only [bind_ok, pure_ok, pyAssert_ok] at h
    obtain ⟨pageSize, hpage, _, hsize, numBlocks, hblocks, rfl⟩ := h
    have huniform := getUniformPageSize_ok hpage
    -- the number of blocks
    unfold getNumBlocks at hblocks
    simp only [bind_ok, pure_ok, floorDiv_ok] at hblocks
    obtain ⟨pages, ⟨hpne, rfl⟩, blocks, ⟨hsne, rfl⟩, rfl⟩ := hblocks
    have hover' : ∀ n, mayOverrideNumBlocks c n = n := by
      intro n
      unfold mayOverrideNumBlocks
      rw [hover]
      rfl
    rw [hover']
    obtain ⟨hpages, hpnonneg⟩ := mul_fdiv_le hmemory pageSize (by omega)
    have hdiv : (memory.fdiv pageSize).fdiv (maxGroupSize groups : Int) =
        memory.fdiv pageSize / (maxGroupSize groups : Int) :=
      Int.fdiv_eq_ediv_of_nonneg _ (by omega)
    have hnonneg : 0 ≤ memory.fdiv pageSize / (maxGroupSize groups : Int) :=
      Int.ediv_nonneg hpnonneg (by omega)
    rw [hdiv, max_eq_left hnonneg]
    refine ⟨?_, rfl, ?_, ?_, ?_, hnonneg⟩
    · have hmul : (maxGroupSize groups : Int) *
          (memory.fdiv pageSize / (maxGroupSize groups : Int)) ≤ memory.fdiv pageSize :=
        Int.mul_ediv_self_le (by omega)
      have hle := Int.mul_le_mul_of_nonneg_left hmul (Int.natCast_nonneg pageSize)
      rw [map_map, Function.comp_def, map_const', sum_replicate, length_range,
        nsmul_eq_mul, mul_left_comm]
      exact hle.trans hpages
    · dsimp only
      rw [flatMap_map]
      exact flatMap_column_perm _ groups fun g hg => length_le_maxGroupSize hg
    · intro t ht g hg a ha b hb hag hbg
      obtain ⟨i, _, rfl⟩ := mem_map.mp ht
      obtain ⟨ga, hga, hia⟩ := mem_filterMap.mp ha
      obtain ⟨gb, hgb, hib⟩ := mem_filterMap.mp hb
      have hsame : ga = g := eq_of_mem_layers hnd hga hg (mem_of_getElem? hia) hag
      have hsame' : gb = g := eq_of_mem_layers hnd hgb hg (mem_of_getElem? hib) hbg
      rw [hsame] at hia
      rw [hsame', hia] at hib
      exact Option.some.inj hib
    · intro t ht
      obtain ⟨i, hi, rfl⟩ := mem_map.mp ht
      rw [mem_range] at hi
      refine ⟨?_, pageSize, rfl, ?_⟩
      · -- the largest group has a layer for each tensor
        have hmax : maxGroupSize groups ∈ groups.map fun g => g.layerNames.length := by
          rcases le_foldl_max (groups.map fun g => g.layerNames.length) 0 with
            ⟨_, _, hzero | hmem⟩
          · have : maxGroupSize groups = 0 := hzero
            omega
          · exact hmem
        obtain ⟨g, hg, hlength⟩ := mem_map.mp hmax
        have hlt : i < g.layerNames.length := by omega
        apply ne_nil_of_mem
        exact mem_filterMap.mpr ⟨g, hg, getElem?_eq_getElem hlt⟩
      · intro n _ g hg _
        obtain ⟨spec, hspec⟩ := hsingle g hg
        have hsize := huniform _ (mem_map_of_mem hg)
        unfold KVCacheGroupSpec.layerPageSize
        rw [hspec] at hsize ⊢
        exact hsize

theorem getKvCacheConfigFromGroups_ok (hg : Grouped groups) (hnd : (layersOf groups).Nodup)
    (hover : c.numGpuBlocksOverride = none) (hmemory : groups ≠ [] → 0 < memory)
    (hfree : groups = [] → 0 ≤ memory)
    (h : getKvCacheConfigFromGroups c groups memory = .ok config) :
    WorkerLayout groups memory config := by
  by_cases hne : groups = []
  · subst hne
    cases h
    refine ⟨hfree rfl, rfl, .refl _, ?_, ?_, Int.one_nonneg⟩
    · exact fun t ht => absurd ht not_mem_nil
    · exact fun t ht => absurd ht not_mem_nil
  · cases hg with
    | single hsingle =>
      exact getKvCacheConfigFromGroups_single hne hsingle hnd hover (hmemory hne) h
    | uniformType layerNames blockSize specs hgroups hkeys =>
      subst hgroups
      exact getKvCacheConfigFromGroups_uniformType hkeys hover (hmemory hne) h

theorem shrinkTensor_ok {numBlocksOld minNumBlocks : Int} {t t' : KVCacheTensor N}
    (hsize : t.size = pageSize * numBlocksOld)
    (h : shrinkTensor numBlocksOld minNumBlocks t = .ok t') :
    t'.size = pageSize * minNumBlocks ∧ t'.sharedBy = t.sharedBy := by
  unfold shrinkTensor at h
  simp only [bind_ok, pure_ok, floorDiv_ok] at h
  obtain ⟨perBlock, ⟨hne, rfl⟩, _, _, rfl⟩ := h
  refine ⟨?_, rfl⟩
  rw [hsize, Int.mul_fdiv_cancel _ hne]

theorem WorkerLayout.shrink {config' : KVCacheConfig N} {minNumBlocks : Int}
    (hw : WorkerLayout groups memory config) (hle : minNumBlocks ≤ config.numBlocks)
    (hpos : 0 ≤ minNumBlocks) (h : shrinkConfig c minNumBlocks config = .ok config') :
    WorkerLayout groups memory config' ∧ config'.numBlocks = minNumBlocks := by
  unfold shrinkConfig at h
  simp only [bind_ok, pure_ok] at h
  obtain ⟨tensors, htensors, _, hreport, rfl⟩ := h
  clear hreport
  have hshrunk : ∀ t ∈ config.kvCacheTensors, ∀ t',
      shrinkTensor config.numBlocks minNumBlocks t = .ok t' →
        t'.sharedBy = t.sharedBy ∧ t'.size ≤ t.size := by
    intro t ht t' ht'
    obtain ⟨_, pageSize, hsize, _⟩ := hw.sizes t ht
    obtain ⟨hsize', hshared⟩ := shrinkTensor_ok hsize ht'
    refine ⟨hshared, ?_⟩
    rw [hsize, hsize']
    exact Int.mul_le_mul_of_nonneg_left hle (Int.natCast_nonneg pageSize)
  have hshared : tensors.map (fun t => t.sharedBy) =
      config.kvCacheTensors.map fun t => t.sharedBy :=
    map_of_mapM htensors fun t ht t' ht' => (hshrunk t ht t' ht').1
  have hback : ∀ t' ∈ tensors, ∃ t ∈ config.kvCacheTensors, t'.sharedBy = t.sharedBy ∧
      ∃ pageSize : Nat, t'.size = pageSize * minNumBlocks ∧ t.size = pageSize * config.numBlocks ∧
        ∀ n ∈ t.sharedBy, ∀ g ∈ config.kvCacheGroups, n ∈ g.layerNames →
          g.layerPageSize n = .ok pageSize := by
    intro t' ht'
    obtain ⟨t, ht, hshrink⟩ := exists_of_mem_mapM htensors ht'
    obtain ⟨_, pageSize, hsize, hlayers⟩ := hw.sizes t ht
    obtain ⟨hsize', hshared'⟩ := shrinkTensor_ok hsize hshrink
    exact ⟨t, ht, hshared', pageSize, hsize', hsize, hlayers⟩
  refine ⟨⟨?_, hw.same, ?_, ?_, ?_, hpos⟩, rfl⟩
  · refine Int.le_trans ?_ hw.fits
    rw [mapM_ok_iff] at htensors
    dsimp only
    generalize config.kvCacheTensors = old at htensors hshrunk
    clear hback hshared
    induction htensors with
    | nil => exact Int.le_refl _
    | cons hfirst _ ih =>
      have hhead := (hshrunk _ mem_cons_self _ hfirst).2
      have htail := ih fun t ht => hshrunk t (mem_cons_of_mem _ ht)
      rw [map_cons, map_cons, sum_cons, sum_cons]
      omega
  · have hperm := hw.tensors
    rw [flatMap_def] at hperm ⊢
    rw [hshared]
    exact hperm
  · intro t' ht' g hg a ha b hb
    obtain ⟨t, ht, hsame, _⟩ := hback t' ht'
    rw [hsame] at ha hb
    exact hw.apart t ht g hg a ha b hb
  · intro t' ht'
    obtain ⟨t, ht, hsame, pageSize, hsize', _, hlayers⟩ := hback t' ht'
    rw [hsame]
    exact ⟨(hw.sizes t ht).1, pageSize, hsize', hlayers⟩

/-! ## All workers -/

theorem mergeLayerSpec_ok {d d' : Dict N KVCacheSpec} {layer : N × KVCacheSpec}
    (h : mergeLayerSpec d layer = .ok d') : (∀ n ∈ d.keys, n ∈ d'.keys) ∧ layer.1 ∈ d'.keys := by
  unfold mergeLayerSpec at h
  split at h
  · cases h
    refine ⟨fun n hn => ?_, ?_⟩
    · exact (mem_keys_set d layer.1 layer.2 n).mpr (.inr hn)
    · exact (mem_keys_set d layer.1 layer.2 layer.1).mpr (.inl rfl)
  next spec hspec =>
    simp only [bind_ok, pure_ok] at h
    obtain ⟨_, _, rfl⟩ := h
    refine ⟨fun _ hn => hn, ?_⟩
    rw [mem_keys_iff, hspec]
    exact Option.some_ne_none spec

theorem mergeKvCacheSpecs_ok {specs : List (Dict N KVCacheSpec)} {merged : Dict N KVCacheSpec}
    (h : mergeKvCacheSpecs specs = .ok merged) :
    ∀ spec ∈ specs, ∀ n ∈ spec.keys, n ∈ merged.keys := by
  refine foldlM_establishes (P := fun spec d => ∀ n ∈ spec.keys, n ∈ d.keys) ?_ ?_ h
  · intro spec other d d' hd hother n hn
    refine foldlM_inv (P := fun d => n ∈ d.keys) ?_ (hd n hn) hother
    exact fun _ _ _ _ hmem hlayer => (mergeLayerSpec_ok hlayer).1 n hmem
  · intro spec d d' hspec n hn
    obtain ⟨e, he, rfl⟩ := mem_map.mp hn
    refine foldlM_establishes (P := fun e d => e.1 ∈ d.keys) ?_ ?_ hspec e he
    · exact fun _ _ _ _ hmem hlayer => (mergeLayerSpec_ok hlayer).1 _ hmem
    · exact fun _ _ _ hlayer => (mergeLayerSpec_ok hlayer).2

/-- The configurations of all workers: each has the layout of its worker, with the groups of
the model projected to its layers, and all have the same number of blocks and of groups. -/
structure ConfigsLayout (kvCacheSpecs : List (Dict N KVCacheSpec)) (availableMemory : List Int)
    (configs : List (KVCacheConfig N)) : Prop where
  length : configs.length = min kvCacheSpecs.length availableMemory.length
  workers : ∃ groups, ∀ (i : Nat) (config : KVCacheConfig N), configs[i]? = some config →
    ∃ spec memory, kvCacheSpecs[i]? = some spec ∧ availableMemory[i]? = some memory ∧
      projectKvCacheGroupsToWorker groups spec = .ok config.kvCacheGroups ∧
      Layout spec memory config
  numBlocks : ∀ config ∈ configs, ∀ config' ∈ configs, config.numBlocks = config'.numBlocks
  numGroups : ∀ config ∈ configs, ∀ config' ∈ configs,
    config.kvCacheGroups.length = config'.kvCacheGroups.length

theorem minPy_le {xs : List Int} {m : Int} (h : minPy xs = .ok m) :
    (∀ x ∈ xs, m ≤ x) ∧ ((∀ x ∈ xs, 0 ≤ x) → 0 ≤ m) := by
  have hfold : ∀ (xs : List Int) (x : Int), (∀ y ∈ xs, xs.foldl min x ≤ y) ∧
      xs.foldl min x ≤ x ∧ ((∀ y ∈ xs, 0 ≤ y) → 0 ≤ x → 0 ≤ xs.foldl min x) := by
    intro xs
    induction xs with
    | nil => simp
    | cons y ys ih =>
      intro x
      obtain ⟨hmem, hle, hnonneg⟩ := ih (min x y)
      rw [foldl_cons]
      refine ⟨?_, by omega, ?_⟩
      · intro z hz
        rcases mem_cons.mp hz with rfl | hz
        · omega
        · exact hmem z hz
      · intro hall hx
        have hy := hall y mem_cons_self
        exact hnonneg (fun z hz => hall z (mem_cons_of_mem y hz)) (by omega)
  unfold minPy at h
  split at h
  · cases h
  next x xs =>
    cases h
    obtain ⟨hmem, hle, hnonneg⟩ := hfold xs x
    refine ⟨fun y hy => ?_, fun hall => ?_⟩
    · rcases mem_cons.mp hy with rfl | hy
      · exact hle
      · exact hmem y hy
    · exact hnonneg (fun y hy => hall y (mem_cons_of_mem x hy)) (hall x mem_cons_self)

theorem workerConfig_ok {layers : List N} {spec : Dict N KVCacheSpec}
    (hgroups : GroupsOf layers groups) (hnd : layers.Nodup)
    (hproject : projectKvCacheGroupsToWorker groups spec = .ok projected)
    (hover : c.numGpuBlocksOverride = none) (hmemory : projected ≠ [] → 0 < memory)
    (hfree : projected = [] → 0 ≤ memory)
    (h : workerConfig c (projected, spec, memory) = .ok config) :
    WorkerLayout projected memory config ∧ (layersOf projected).Perm spec.keys := by
  unfold workerConfig at h
  simp only [bind_ok, pyAssert_ok] at h
  obtain ⟨_, hlength, hconfig⟩ := h
  have hndg : (layersOf groups).Nodup := hgroups.perm.nodup_iff.mpr hnd
  have hndp : (layersOf projected).Nodup := by
    rw [layersOf_project hproject]
    exact hndg.filter _
  have hsub : layersOf projected ⊆ spec.keys := by
    intro n hn
    rw [layersOf_project hproject, mem_filter, Dict.contains_iff] at hn
    exact hn.2
  have hperm : (layersOf projected).Perm spec.keys := by
    refine (hndp.subperm hsub).perm_of_length_le ?_
    unfold layersOf Dict.keys
    rw [length_flatMap, length_map, hlength]
  exact ⟨getKvCacheConfigFromGroups_ok (hgroups.grouped.project hndg hproject) hndp hover hmemory
    hfree hconfig, hperm⟩

theorem autoFitMaxModelLen_override {c' : VllmConfig} {projected : List (List (KVCacheGroupSpec N))}
    {availableMemory : List Int} (h : autoFitMaxModelLen c projected availableMemory = .ok c') :
    c'.numGpuBlocksOverride = c.numGpuBlocksOverride := by
  unfold autoFitMaxModelLen at h
  split at h
  · rw [pure_ok] at h
    rw [h]
  · simp only [bind_ok] at h
    obtain ⟨autoFitMax, _, h⟩ := h
    split at h
    · cases h
    · rw [pure_ok] at h
      rw [← h]

/-- The configurations that `get_kv_cache_configs` returns have the layout of their workers.
A model without KV cache is given memory that is not negative. -/
theorem getKvCacheConfigs_layout {c c' : VllmConfig} {kvCacheSpecs : List (Dict N KVCacheSpec)}
    {availableMemory : List Int} {configs : List (KVCacheConfig N)}
    (hover : c.numGpuBlocksOverride = none)
    (hfree : (∀ spec ∈ kvCacheSpecs, spec.entries = []) → ∀ memory ∈ availableMemory, 0 ≤ memory)
    (h : getKvCacheConfigs c kvCacheSpecs availableMemory = .ok (c', configs)) :
    ConfigsLayout kvCacheSpecs availableMemory configs := by
  unfold getKvCacheConfigs at h
  simp only [bind_ok, pure_ok, Prod.mk.injEq] at h
  obtain ⟨merged, hmerged, groups, hgroups, projected, hprojected, c₁, hfit, _, hcheck, before,
    hbefore, minNumBlocks, hmin, after, hafter, rfl, rfl⟩ := h
  have hover₁ : c₁.numGpuBlocksOverride = none := by
    split at hfit
    · rw [autoFitMaxModelLen_override hfit, hover]
    · cases hfit
      exact hover
  have hgroupsOf := getKvCacheGroups_ok hgroups
  -- the configuration that each worker has first
  have hworker : ∀ (i : Nat) (config : KVCacheConfig N), before[i]? = some config →
      ∃ spec memory p, kvCacheSpecs[i]? = some spec ∧ availableMemory[i]? = some memory ∧
        projectKvCacheGroupsToWorker groups spec = .ok p ∧ WorkerLayout p memory config ∧
        (layersOf p).Perm spec.keys := by
    intro i config hi
    obtain ⟨⟨p, spec, memory⟩, hzip, hconfig⟩ := getElem?_of_mapM hbefore hi
    obtain ⟨hp, hrest⟩ := getElem?_zip_eq_some.mp hzip
    obtain ⟨hspec, hmemory⟩ := getElem?_zip_eq_some.mp hrest
    obtain ⟨spec', hspec', hproject⟩ := getElem?_of_mapM hprojected hp
    have hsame : spec' = spec := Option.some.inj (hspec'.symm.trans hspec)
    subst hsame
    have hpositive : p ≠ [] → 0 < memory := by
      intro hne
      have hmem : (p, memory) ∈ projected.zip availableMemory :=
        mem_of_getElem? (getElem?_zip_eq_some.mpr ⟨hp, hmemory⟩)
      have henough := forM_ok hcheck hmem
      rw [if_neg (by simpa using hne)] at henough
      unfold checkEnoughKvCacheMemory at henough
      split at henough
      · cases henough
      · omega
    have hempty : p = [] → 0 ≤ memory := by
      intro hnil
      have hlength := congrArg List.length (projectKvCacheGroupsToWorker_ok hproject)
      rw [length_map, length_map, hnil, length_nil] at hlength
      have hno : groups = [] := length_eq_zero_iff.mp hlength.symm
      have hkeys : merged.keys = [] := by
        have hperm := hgroupsOf.perm
        rw [hno] at hperm
        exact hperm.symm.eq_nil
      refine hfree (fun spec hmem => ?_) memory (mem_of_getElem? hmemory)
      rw [eq_nil_iff_forall_not_mem]
      intro e he
      have hn := mergeKvCacheSpecs_ok hmerged spec hmem e.1 (mem_map_of_mem he)
      rw [hkeys] at hn
      cases hn
    obtain ⟨hlayout, hperm⟩ := workerConfig_ok hgroupsOf merged.nodup hproject hover₁ hpositive
      hempty hconfig
    exact ⟨spec', memory, p, hspec, hmemory, hproject, hlayout, hperm⟩
  obtain ⟨hle, hnonneg⟩ := minPy_le hmin
  have hmin0 : 0 ≤ minNumBlocks := by
    apply hnonneg
    intro n hn
    obtain ⟨config, hconfig, rfl⟩ := mem_map.mp hn
    obtain ⟨i, hi⟩ := mem_iff_getElem?.mp hconfig
    obtain ⟨_, _, _, _, _, _, hlayout, _⟩ := hworker i config hi
    exact hlayout.nonneg
  -- and the one it has in the end
  have hfinal : ∀ (i : Nat) (config : KVCacheConfig N), after[i]? = some config →
      ∃ spec memory p, kvCacheSpecs[i]? = some spec ∧ availableMemory[i]? = some memory ∧
        projectKvCacheGroupsToWorker groups spec = .ok p ∧ WorkerLayout p memory config ∧
        (layersOf p).Perm spec.keys ∧ config.numBlocks = minNumBlocks := by
    intro i config hi
    obtain ⟨old, hold, hshrink⟩ := getElem?_of_mapM hafter hi
    obtain ⟨spec, memory, p, hspec, hmemory, hproject, hlayout, hperm⟩ := hworker i old hold
    have hmem := mem_map_of_mem (f := fun config : KVCacheConfig N => config.numBlocks)
      (mem_of_getElem? hold)
    obtain ⟨hlayout', hblocks⟩ := hlayout.shrink (hle _ hmem) hmin0 hshrink
    exact ⟨spec, memory, p, hspec, hmemory, hproject, hlayout', hperm, hblocks⟩
  have hlengths : ∀ config ∈ after, config.numBlocks = minNumBlocks ∧
      config.kvCacheGroups.length = groups.length := by
    intro config hconfig
    obtain ⟨i, hi⟩ := mem_iff_getElem?.mp hconfig
    obtain ⟨_, _, p, _, _, hproject, hlayout, _, hblocks⟩ := hfinal i config hi
    have hlength := congrArg List.length (projectKvCacheGroupsToWorker_ok hproject)
    rw [length_map, length_map] at hlength
    exact ⟨hblocks, by rw [hlayout.same, hlength]⟩
  refine ⟨?_, ⟨groups, fun i config hi => ?_⟩, ?_, ?_⟩
  · have h₁ := (mapM_ok_iff.mp hprojected).length_eq
    have h₂ := (mapM_ok_iff.mp hbefore).length_eq
    have h₃ := (mapM_ok_iff.mp hafter).length_eq
    rw [length_zip, length_zip] at h₂
    omega
  · obtain ⟨spec, memory, p, hspec, hmemory, hproject, hlayout, hperm, _⟩ := hfinal i config hi
    refine ⟨spec, memory, hspec, hmemory, by rw [hlayout.same, hproject], hlayout.fits, ?_, ?_,
      hlayout.apart, hlayout.sizes⟩
    · rw [hlayout.same]
      exact hperm
    · exact hlayout.tensors.trans hperm
  · intro config hconfig config' hconfig'
    rw [(hlengths config hconfig).1, (hlengths config' hconfig').1]
  · intro config hconfig config' hconfig'
    rw [(hlengths config hconfig).2, (hlengths config' hconfig').2]

/-- The shape of the layers below, whose pages have 128 bytes. -/
def exampleShape : AttentionShape where
  numKvHeads := 1
  headSize := 2
  dtype := ⟨"float16", 2⟩

def exampleFull : KVCacheSpec := ⟨16, .fullAttention exampleShape 2 none none, by decide⟩

def exampleWindow : KVCacheSpec := ⟨16, .slidingWindow exampleShape 8 (by decide), by decide⟩

/-- Two stages of a pipeline: the second one has a sliding window layer less. -/
def exampleStages : List (Dict Nat KVCacheSpec) :=
  [⟨[(0, exampleFull), (1, exampleWindow), (2, exampleWindow)], by decide⟩,
    ⟨[(3, exampleFull), (4, exampleWindow)], by decide⟩]

def exampleVllmConfig : VllmConfig where
  maxModelLen := 16
  maxNumBatchedTokens := 16

theorem getKvCacheConfigs_layout_stages : ∃ configs : List (KVCacheConfig Nat),
    configs.map (fun config => (config.numBlocks, config.kvCacheTensors)) =
      [(6, [⟨768, [0, 1, 2]⟩]), (6, [⟨768, [3, 4]⟩])] ∧
      ConfigsLayout exampleStages [1000, 800] configs := by
  have hcheck : okWith (getKvCacheConfigs exampleVllmConfig exampleStages [1000, 800])
      (fun result => result.2.map (fun config => (config.numBlocks, config.kvCacheTensors)) =
        [(6, [⟨768, [0, 1, 2]⟩]), (6, [⟨768, [3, 4]⟩])]) = true := by decide +kernel
  obtain ⟨⟨c, configs⟩, hrun, htensors⟩ := okWith_iff.mp hcheck
  refine ⟨configs, of_decide_eq_true htensors, getKvCacheConfigs_layout rfl ?_ hrun⟩
  intro _ memory hmemory
  simp at hmemory
  omega

end VllmCore.KVCacheUtils
