import VllmCore.KVCacheUtils
/-!
# The groups of the layers

Whichever way the layers of all workers are grouped, each is in one group.  The groups have
one specification each, or there is one group of layers of one type.
-/

namespace VllmCore.KVCacheUtils

open List Support Dict

variable {N : Type} [DecidableEq N]

def layersOf (groups : List (KVCacheGroupSpec N)) : List N :=
  groups.flatMap fun g => g.layerNames

/-- How the groups may be: each with one specification, or one group of layers of one type,
whose specifications are kept for each layer. -/
inductive Grouped (groups : List (KVCacheGroupSpec N)) : Prop
  | single (h : ∀ g ∈ groups, ∃ spec, g.kvCacheSpec = .single spec)
  | uniformType (layerNames : List N) (blockSize : Nat) (specs : Dict N KVCacheSpec)
      (h : groups = [⟨layerNames, .uniformType blockSize specs⟩])
      (keys : layerNames ≠ [] → layerNames.Perm specs.keys)

structure GroupsOf (layers : List N) (groups : List (KVCacheGroupSpec N)) : Prop where
  perm : (layersOf groups).Perm layers
  grouped : Grouped groups

variable {groups : List (KVCacheGroupSpec N)} {kvCacheSpec : Dict N KVCacheSpec}

theorem createKvCacheGroupSpecs_ok {names : List (List N)}
    (h : createKvCacheGroupSpecs kvCacheSpec names = .ok groups) :
    layersOf groups = names.flatten ∧ ∀ g ∈ groups, ∃ spec, g.kvCacheSpec = .single spec := by
  have hgroup : ∀ ns g, (do
      let layerSpecs ← List.mapM kvCacheSpec.get ns
      let merged ← KVCacheSpec.merge layerSpecs
      return { layerNames := ns, kvCacheSpec := .single merged } : Py (KVCacheGroupSpec N)) =
        .ok g → g.layerNames = ns ∧ ∃ spec, g.kvCacheSpec = .single spec := by
    intro ns g hg
    simp only [bind_ok, pure_ok] at hg
    obtain ⟨specs, _, merged, _, rfl⟩ := hg
    exact ⟨rfl, merged, rfl⟩
  constructor
  · have hnames : groups.map (fun g => g.layerNames) = names.map id :=
      map_of_mapM h fun ns _ g hg => (hgroup ns g hg).1
    unfold layersOf
    rw [flatMap_def, hnames, map_id]
  · intro g hg
    obtain ⟨ns, _, hns⟩ := exists_of_mem_mapM h hg
    exact (hgroup ns g hns).2

/-! ## Layers of one specification -/

omit [DecidableEq N] in
theorem sameTypeLayers_perm (kvCacheSpec : Dict N KVCacheSpec) :
    (sameTypeLayers kvCacheSpec).values.flatten.Perm kvCacheSpec.keys := by
  have hitems : ∀ (entries : List (N × KVCacheSpec)) (d : Dict KVCacheSpec (List N)),
      (entries.foldl (fun d e => d.set e.2 ((d.get? e.2).getD [] ++ [e.1])) d).items =
        d.items + ↑(entries.map Prod.fst) := by
    intro entries
    induction entries with
    | nil => exact fun d => (Multiset.add_zero d.items).symm
    | cons e entries ih =>
      intro d
      have hset : (d.set e.2 ((d.get? e.2).getD [] ++ [e.1])).items = d.items + {e.1} := by
        rw [items_set, items_eq_add_erase d e.2, ← Multiset.coe_add,
          Multiset.coe_singleton, add_right_comm]
      rw [foldl_cons, ih, hset, map_cons, ← Multiset.cons_coe,
        ← Multiset.singleton_add, add_assoc]
  have hall := hitems kvCacheSpec.entries Dict.empty
  rw [items_empty, Multiset.zero_add] at hall
  unfold Dict.items at hall
  rw [Multiset.coe_eq_coe] at hall
  unfold Dict.values Dict.keys
  rw [← flatMap_def]
  exact hall

theorem cdivPy_ok {a q : Int} {b : Nat} (h : cdivPy a b = .ok q) : 0 < b ∧ q = cdiv a b := by
  unfold cdivPy at h
  simp only [bind_ok, pure_ok, floorDiv_ok] at h
  obtain ⟨r, ⟨hne, rfl⟩, rfl⟩ := h
  refine ⟨by omega, ?_⟩
  have hneg : a.fdiv (-(b : Int)) = (-a).fdiv b := by
    rw [← Int.neg_fdiv_neg (-a) b, Int.neg_neg]
  unfold cdiv
  rw [hneg, Int.fdiv_eq_ediv_of_nonneg _ (by omega)]

omit [DecidableEq N] in
theorem splitLayers_perm {groupSize : Nat} {layers : List N} {groups : List (List N)}
    (h : splitLayers groupSize layers = .ok groups) : groups.flatten.Perm layers := by
  unfold splitLayers at h
  simp only [bind_ok, pure_ok] at h
  obtain ⟨numGroups, hdiv, rfl⟩ := h
  obtain ⟨hsize, rfl⟩ := cdivPy_ok hdiv
  by_cases hempty : layers = []
  · rw [hempty]
    simp [stride]
  · have hlength : (0 : Int) < layers.length := by
      have := length_pos_of_ne_nil hempty
      omega
    have hgroups := cdiv_pos hsize hlength
    exact flatten_stride_perm layers (by omega)

theorem getKvCacheGroupsUniformPageSize_ok
    (h : getKvCacheGroupsUniformPageSize kvCacheSpec = .ok groups) :
    GroupsOf kvCacheSpec.keys groups := by
  unfold getKvCacheGroupsUniformPageSize at h
  simp only [bind_ok] at h
  obtain ⟨minNum, _, maxNum, _, grouped, hgrouped, hcreate⟩ := h
  obtain ⟨hnames, hsingle⟩ := createKvCacheGroupSpecs_ok hcreate
  refine ⟨?_, .single hsingle⟩
  rw [hnames]
  refine List.Perm.trans ?_ (sameTypeLayers_perm kvCacheSpec)
  rw [mapM_ok_iff] at hgrouped
  generalize (sameTypeLayers kvCacheSpec).values = layers at hgrouped
  clear hnames hcreate
  induction hgrouped with
  | nil => exact .refl _
  | cons hsplit _ ih =>
    rw [flatten_cons, flatten_append, flatten_cons]
    exact (splitLayers_perm hsplit).append ih

/-! ## Unified specifications -/

theorem keys_set_of_not_mem {V : Type} (d : Dict N V) {k : N} (h : k ∉ d.keys) (v : V) :
    (d.set k v).keys = d.keys ++ [k] := by
  unfold Dict.keys
  rw [entries_set_new d h, map_append]
  rfl

theorem keys_foldlM_set {V W : Type} {f : N × V → Py W} :
    ∀ {entries : List (N × V)} {d d' : Dict N W},
      (d.keys ++ entries.map Prod.fst).Nodup →
      entries.foldlM (fun d e => do
        let w ← f e
        return d.set e.1 w) d = .ok d' → d'.keys = d.keys ++ entries.map Prod.fst := by
  intro entries
  induction entries with
  | nil =>
    intro d d' _ h
    rw [foldlM_nil, pure_ok] at h
    rw [← h]
    exact (append_nil _).symm
  | cons e entries ih =>
    intro d d' hnd h
    rw [map_cons] at hnd
    have hnew : e.1 ∉ d.keys := fun hmem =>
      (nodup_append.mp hnd).2.2 e.1 hmem e.1 mem_cons_self rfl
    simp only [foldlM_cons, bind_ok, pure_ok] at h
    obtain ⟨d₁, ⟨w, _, rfl⟩, hrest⟩ := h
    have hkeys := keys_set_of_not_mem d hnew w
    rw [append_cons, ← hkeys] at hnd
    rw [ih hnd hrest, hkeys, map_cons, append_assoc]
    rfl

theorem unifyKvCacheSpecPageSize_keys {unified : Dict N KVCacheSpec}
    (h : unifyKvCacheSpecPageSize kvCacheSpec = .ok unified) : unified.keys = kvCacheSpec.keys := by
  unfold unifyKvCacheSpecPageSize at h
  simp only [bind_ok] at h
  obtain ⟨pageSizes, _, h⟩ := h
  split at h
  · rw [pure_ok] at h
    rw [h]
  · exact keys_foldlM_set (d := Dict.empty) kvCacheSpec.nodup h

omit [DecidableEq N] in
theorem unifyHybridKvCacheSpecs_keys {unified : Dict N KVCacheSpec}
    (h : unifyHybridKvCacheSpecs kvCacheSpec = .ok unified) : unified.keys = kvCacheSpec.keys := by
  have hmap : (kvCacheSpec.mapValues asFullAttention).keys = kvCacheSpec.keys := by
    unfold Dict.mapValues Dict.keys
    rw [map_map]
    rfl
  unfold unifyHybridKvCacheSpecs at h
  simp only [bind_ok] at h
  obtain ⟨uniform, _, h⟩ := h
  split at h
  · rw [pure_ok] at h
    rw [h]
  · simp only [bind_ok] at h
    obtain ⟨uniform', _, h⟩ := h
    split at h
    · rw [pure_ok] at h
      rw [← h]
      split
      · exact hmap
      · rfl
    · cases h

theorem getKvCacheGroups_ok {c : VllmConfig} (h : getKvCacheGroups c kvCacheSpec = .ok groups) :
    GroupsOf kvCacheSpec.keys groups := by
  unfold getKvCacheGroups at h
  rw [bind_ok] at h
  obtain ⟨spec, hspec, h⟩ := h
  have hkeys : spec.keys = kvCacheSpec.keys := by
    split at hspec
    · exact unifyHybridKvCacheSpecs_keys hspec
    · cases hspec
      rfl
  rw [← hkeys]
  split at h
  next hnil =>
    rw [pure_ok] at h
    have hentries : spec.entries = [] := map_eq_nil_iff.mp hnil
    rw [← h]
    refine ⟨?_, .single fun g hg => absurd hg not_mem_nil⟩
    unfold Dict.keys
    rw [hentries]
    exact .refl _
  next first rest _ =>
    rw [bind_ok] at h
    obtain ⟨uniform, _, h⟩ := h
    split at h
    · -- one specification
      obtain ⟨hnames, hsingle⟩ := createKvCacheGroupSpecs_ok h
      refine ⟨?_, .single hsingle⟩
      rw [hnames, flatten_singleton]
    · rw [bind_ok] at h
      obtain ⟨uniformType, _, h⟩ := h
      split at h
      · -- one type
        rw [pure_ok] at h
        rw [← h]
        refine ⟨?_, .uniformType spec.keys first.blockSize spec rfl fun _ => .refl _⟩
        unfold layersOf
        rw [flatMap_singleton]
      · -- one page size
        rw [bind_ok] at h
        obtain ⟨unified, hunified, h⟩ := h
        rw [← unifyKvCacheSpecPageSize_keys hunified]
        exact getKvCacheGroupsUniformPageSize_ok h

end VllmCore.KVCacheUtils
