import VllmCore.KVCacheManager.Coordinator
/-!
# Reference counts over runs of the KV cache manager

Every call of the KV cache manager keeps the references of the pool equal to the
entries of the block tables of all groups.  A call that allocates slots for
external tokens must not come with a cache hit longer than the computed tokens;
the lookup of hybrid models can return one, since it only cuts the hit of the
first full attention group to the common length.
-/

namespace VllmCore

open Support

variable {D : Type} [DecidableEq D]

open SingleTypeKVCacheManager (PoolOk TableInv Kept)

def allItems (ms : List (SingleTypeKVCacheManager D)) : Multiset BlockId :=
  (ms.map (·.items)).sum

theorem allItems_eq_zero {ms : List (SingleTypeKVCacheManager D)}
    (h : ∀ m ∈ ms, m.items = 0) : allItems ms = 0 := by
  induction ms with
  | nil => rfl
  | cons m ms ih =>
    have hrest := ih fun m' hm' => h m' (by simp [hm'])
    unfold allItems at hrest ⊢
    rw [List.map_cons, List.sum_cons, h m (by simp), hrest, add_zero]

/-- What a call to one group keeps of the pool and does to the group, the calls to all groups
keep and do. -/
theorem forEachManager_rule {α : Type} {P : BlockPool D → Prop}
    {Q : SingleTypeKVCacheManager D → SingleTypeKVCacheManager D → Prop}
    {f : Nat → SingleTypeKVCacheManager D → BlockPool D →
      Py (α × SingleTypeKVCacheManager D × BlockPool D)} :
    ∀ {ms ms' : List (SingleTypeKVCacheManager D)} {i : Nat} {p p' : BlockPool D} {as : List α},
      (∀ j m, ms[j]? = some m → ∀ q a m' q', P q → f (i + j) m q = .ok (a, m', q') →
        P q' ∧ Q m m') →
      P p → forEachManager f i ms p = .ok (as, ms', p') → P p' ∧ List.Forall₂ Q ms ms' := by
  intro ms
  induction ms with
  | nil =>
    intro ms' i p p' as _ hp h
    cases h
    exact ⟨hp, .nil⟩
  | cons m ms ih =>
    intro ms' i p p' as hf hp h
    unfold forEachManager at h
    simp only [bind_ok, pure_ok] at h
    obtain ⟨⟨a, m₁, p₁⟩, hm, ⟨as₁, ms₁, p₂⟩, hms, hres⟩ := h
    cases hres
    obtain ⟨hp₁, hm₁⟩ := hf 0 m rfl p a m₁ p₁ hp hm
    obtain ⟨hp₂, hall⟩ := ih
      (fun j m' hj => by
        rw [Nat.add_assoc, Nat.add_comm 1]
        exact hf (j + 1) m' hj) hp₁ hms
    exact ⟨hp₂, .cons hm₁ hall⟩

theorem forEachManager_kept {α : Type} {R : Set BlockId}
    {f : Nat → SingleTypeKVCacheManager D → BlockPool D →
      Py (α × SingleTypeKVCacheManager D × BlockPool D)} :
    ∀ {ms ms' : List (SingleTypeKVCacheManager D)} {i : Nat} {p p' : BlockPool D}
      {rest : Multiset BlockId} {as : List α},
      (∀ j m, ms[j]? = some m → ∀ q rest a m' q', p.SameShape q →
        PoolOk R q (m.items + rest) → TableInv q.nullBlock m → f (i + j) m q = .ok (a, m', q') →
        Kept R rest q m' q' ∧ m.SameConfig m') →
      PoolOk R p (allItems ms + rest) → (∀ m ∈ ms, TableInv p.nullBlock m) →
      forEachManager f i ms p = .ok (as, ms', p') →
      PoolOk R p' (allItems ms' + rest) ∧ (∀ m ∈ ms', TableInv p'.nullBlock m) ∧
        p.SameShape p' ∧ List.Forall₂ SingleTypeKVCacheManager.SameConfig ms ms' := by
  intro ms
  induction ms with
  | nil =>
    intro ms' i p p' rest as _ hp _ h
    cases h
    exact ⟨hp, by simp, .refl p, .nil⟩
  | cons m ms ih =>
    intro ms' i p p' rest as hf hp htables h
    unfold forEachManager at h
    simp only [bind_ok, pure_ok] at h
    obtain ⟨⟨a, m₁, p₁⟩, hm, ⟨as₁, ms₁, p₂⟩, hms, hres⟩ := h
    cases hres
    have hsum : allItems (m :: ms) + rest = m.items + (allItems ms + rest) := by
      simp [allItems, add_assoc]
    rw [hsum] at hp
    obtain ⟨hkept, hsame⟩ := hf 0 m rfl p _ a m₁ p₁ (.refl p) hp (htables m (by simp)) hm
    have hpool : PoolOk R p₁ (allItems ms + (m₁.items + rest)) := by
      have hk := hkept.pool
      rwa [add_left_comm] at hk
    obtain ⟨hpool', htables', hshape, hall⟩ := ih
      (fun j m' hj q rest' a' m'' q' hq => by
        have hnext := hf (j + 1) m' (by simpa using hj) q rest' a' m'' q'
          (hkept.shape.trans hq)
        rwa [show i + (j + 1) = i + 1 + j by omega] at hnext)
      hpool
      (fun m' hm' => hkept.shape.nullBlock.symm ▸ htables m' (by simp [hm'])) hms
    refine ⟨?_, ?_, hkept.shape.trans hshape, .cons hsame hall⟩
    · have hsum' : allItems (m₁ :: ms₁) + rest = allItems ms₁ + (m₁.items + rest) := by
        simp only [allItems, List.map_cons, List.sum_cons, add_assoc]
        exact add_left_comm _ _ _
      rwa [hsum']
    · intro m' hm'
      rcases List.mem_cons.mp hm' with rfl | hm'
      · exact hshape.nullBlock.symm ▸ hkept.table
      · exact htables' m' hm'

namespace KVCacheCoordinator

def references (c : KVCacheCoordinator D) : Multiset BlockId := allItems c.singleTypeManagers

def reserved (c : KVCacheCoordinator D) : Set BlockId :=
  {b | ∃ m ∈ c.singleTypeManagers, b ∈ m.sinkBlocks}

structure RefInv (c : KVCacheCoordinator D) : Prop where
  wf : c.Wf
  pool : PoolOk c.reserved c.blockPool c.references
  tables : ∀ m ∈ c.singleTypeManagers, TableInv c.blockPool.nullBlock m

theorem reserved_congr {ms ms' : List (SingleTypeKVCacheManager D)}
    (h : List.Forall₂ SingleTypeKVCacheManager.SameConfig ms ms') (b : BlockId) :
    (∃ m ∈ ms', b ∈ m.sinkBlocks) ↔ ∃ m ∈ ms, b ∈ m.sinkBlocks := by
  induction h with
  | nil => simp
  | cons hm _ ih => simp [hm.sinkBlocks, ih]

variable {c c' : KVCacheCoordinator D} {rid : ReqId} {n : Int}

theorem RefInv.forEachManager {α : Type} (hc : c.RefInv)
    {f : Nat → SingleTypeKVCacheManager D → BlockPool D →
      Py (α × SingleTypeKVCacheManager D × BlockPool D)}
    (hf : ∀ i m, c.singleTypeManagers[i]? = some m → ∀ q rest a m' q',
      c.blockPool.SameShape q → PoolOk c.reserved q (m.items + rest) →
      TableInv q.nullBlock m → f i m q = .ok (a, m', q') →
      Kept c.reserved rest q m' q' ∧ m.SameConfig m')
    {res : List α × List (SingleTypeKVCacheManager D) × BlockPool D}
    (h : VllmCore.forEachManager f 0 c.singleTypeManagers c.blockPool = .ok res) :
    (c.update res.2).RefInv ∧ c.SameConfig (c.update res.2) := by
  obtain ⟨as, ms', p'⟩ := res
  have hpool₀ : PoolOk c.reserved c.blockPool (allItems c.singleTypeManagers + 0) := by
    rw [add_zero]
    exact hc.pool
  obtain ⟨hpool, htables, hshape, hall⟩ := forEachManager_kept
    (fun j m hj => by rw [Nat.zero_add]; exact hf j m hj) hpool₀ hc.tables h
  have hsame : c.SameConfig (c.update (ms', p')) :=
    ⟨rfl, rfl, rfl, rfl, rfl, rfl, rfl, rfl, rfl, hall, hshape⟩
  have hreserved : (c.update (ms', p')).reserved = c.reserved :=
    Set.ext fun b => reserved_congr hall b
  refine ⟨⟨hc.wf.congr hsame, ?_, htables⟩, hsame⟩
  rw [hreserved]
  rw [add_zero] at hpool
  exact hpool

/-! ## The calls of the coordinator -/

theorem RefInv.free (hc : c.RefInv) (h : c.free rid = .ok c') : c'.RefInv ∧ c.SameConfig c' := by
  unfold KVCacheCoordinator.free at h
  simp only [bind_ok, pure_ok] at h
  obtain ⟨res, hres, rfl⟩ := h
  refine hc.forEachManager ?_ hres
  intro i m _ q rest a m' q' _ hq hm hf
  cases hf
  exact ⟨SingleTypeKVCacheManager.free_kept hq hm rid, m.free_sameConfig q rid⟩

theorem RefInv.removeSkippedBlocks (hc : c.RefInv) (h : c.removeSkippedBlocks rid n = .ok c') :
    c'.RefInv ∧ c.SameConfig c' := by
  unfold KVCacheCoordinator.removeSkippedBlocks at h
  simp only [bind_ok, pure_ok] at h
  obtain ⟨res, hres, rfl⟩ := h
  refine hc.forEachManager ?_ hres
  intro i m _ q rest a m' q' _ hq hm hf
  simp only [bind_ok, pure_ok] at hf
  obtain ⟨⟨m₁, q₁⟩, hrun, hpair⟩ := hf
  cases hpair
  exact ⟨SingleTypeKVCacheManager.removeSkippedBlocks_kept hq hm hrun,
    SingleTypeKVCacheManager.removeSkippedBlocks_sameConfig hrun⟩

theorem RefInv.allocateNewBlocks (hc : c.RefInv) {n' e : Int} (hn' : 0 < n')
    {blocks : KVCacheBlocks} (h : c.allocateNewBlocks rid n n' e = .ok (blocks, c')) :
    c'.RefInv ∧ c.SameConfig c' := by
  unfold KVCacheCoordinator.allocateNewBlocks at h
  simp only [bind_ok, pure_ok] at h
  obtain ⟨res, hres, hpair⟩ := h
  cases hpair
  refine hc.forEachManager ?_ hres
  intro i m _ q rest a m' q' _ hq hm hf
  exact ⟨SingleTypeKVCacheManager.allocateNewBlocks_kept hq hm hn' hf,
    SingleTypeKVCacheManager.allocateNewBlocks_sameConfig hf⟩

theorem RefInv.cacheBlocks {fns : HashFns D} (hc : c.RefInv) (hcaching : c.enableCaching = true)
    {r : Request D} (h : c.cacheBlocks fns r n = .ok c') : c'.RefInv ∧ c.SameConfig c' := by
  unfold KVCacheCoordinator.cacheBlocks at h
  simp only [bind_ok, pure_ok] at h
  obtain ⟨res, hres, rfl⟩ := h
  refine hc.forEachManager ?_ hres
  intro i m _ q rest a m' q' hshape hq hm hf
  simp only [bind_ok, pure_ok] at hf
  obtain ⟨⟨m₁, q₁⟩, hrun, hpair⟩ := hf
  cases hpair
  have hq' : q.enableCaching = true := by
    rw [hshape.enableCaching, ← hc.wf.caching, hcaching]
  exact ⟨SingleTypeKVCacheManager.cacheBlocks_kept hq hm hq' hrun,
    SingleTypeKVCacheManager.cacheBlocks_sameConfig hrun⟩

/-- The hits of the groups contain no real block twice, and leave room for the
external tokens. -/
structure HitsFit (c : KVCacheCoordinator D) (hits : KVCacheBlocks)
    (numLocal numExternal : Int) : Prop where
  nodup : ∀ (g : Nat) (hit : List BlockId) (m : SingleTypeKVCacheManager D),
    hits[g]? = some hit → c.singleTypeManagers[g]? = some m →
    RealNodup c.blockPool.nullBlock hit
  covered : 0 < numExternal → ∀ (g : Nat) (hit : List BlockId)
    (m : SingleTypeKVCacheManager D), hits[g]? = some hit →
    c.singleTypeManagers[g]? = some m →
    (hit.length : Int) ≤ cdiv (numLocal + numExternal) m.blockSize

variable {hits : KVCacheBlocks} {numLocal numExternal : Int}

theorem HitsFit.congr (h : c.HitsFit hits numLocal numExternal)
    (hsame : c.SameConfig c') : c'.HitsFit hits numLocal numExternal where
  nodup := by
    intro g hit m hg hm
    obtain ⟨m₀, hm₀, _⟩ := forall₂_getElem?_right hsame.managers hm
    rw [hsame.pool.nullBlock]
    exact h.nodup g hit m₀ hg hm₀
  covered := by
    intro hext g hit m hg hm
    obtain ⟨m₀, hm₀, hcfg⟩ := forall₂_getElem?_right hsame.managers hm
    rw [hcfg.blockSize]
    exact h.covered hext g hit m₀ hg hm₀

theorem RefInv.allocateNewComputedBlocks (hc : c.RefInv)
    (hhits : c.HitsFit hits numLocal numExternal) (htotal : 0 ≤ numLocal + numExternal)
    (h : c.allocateNewComputedBlocks rid hits numLocal numExternal = .ok c') :
    c'.RefInv ∧ c.SameConfig c' := by
  unfold KVCacheCoordinator.allocateNewComputedBlocks at h
  simp only [bind_ok, pure_ok] at h
  obtain ⟨res, hres, rfl⟩ := h
  refine hc.forEachManager ?_ hres
  intro i m hi q rest a m' q' hshape hq hm hf
  simp only [bind_ok, pure_ok] at hf
  obtain ⟨hit, hget, ⟨m₁, q₁⟩, hrun, hpair⟩ := hf
  cases hpair
  rw [pyGet_natCast_ok] at hget
  have hnodup : RealNodup q.nullBlock hit := by
    rw [hshape.nullBlock]
    exact hhits.nodup i hit m hget hi
  exact ⟨SingleTypeKVCacheManager.allocateNewComputedBlocks_kept hq hm hnodup htotal
      (fun hext => hhits.covered hext i hit m hget hi) hrun,
    SingleTypeKVCacheManager.allocateNewComputedBlocks_sameConfig hrun⟩

end KVCacheCoordinator

end VllmCore
