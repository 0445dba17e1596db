import VllmCore.KVOffload.CPUOffloadingManager
/-!
# The ARC policy under the offload manager

A hash is in one of the two lists of blocks and the two ghost lists at most.  The blocks
and each ghost list fit the capacity, and the target size of T1 stays between zero and the
capacity.  What `evict` finds is counted exactly: it takes blocks of T1 only while T1 has its
target size, and never goes back to T1 when T2 has no block left.
-/

namespace VllmCore

open List Support Dict

variable {K : Type} [DecidableEq K]

namespace ARCCachePolicy

/-! ## The structure of the policy -/

/-- No hash is in two of the four lists. -/
def Apart (p : ARCCachePolicy K) : Prop :=
  ∀ k, (k ∈ p.t1.keys → k ∉ p.t2.keys ∧ k ∉ p.b1.keys ∧ k ∉ p.b2.keys) ∧
    (k ∈ p.t2.keys → k ∉ p.b1.keys ∧ k ∉ p.b2.keys) ∧ (k ∈ p.b1.keys → k ∉ p.b2.keys)

structure Structured (p : ARCCachePolicy K) : Prop where
  apart : p.Apart
  b1_le : p.b1.entries.length ≤ p.cacheCapacity
  b2_le : p.b2.entries.length ≤ p.cacheCapacity
  target_nonneg : 0 ≤ p.targetT1Size
  target_le : p.rounding.round p.cacheCapacity = p.cacheCapacity →
    p.targetT1Size ≤ p.cacheCapacity

variable {p : ARCCachePolicy K}

theorem Apart.wf (h : p.Apart) : (CachePolicy.arc p).Wf := by
  unfold CachePolicy.Wf CachePolicy.cached
  rw [map_append, nodup_append]
  refine ⟨p.t1.nodup, p.t2.nodup, ?_⟩
  intro k hk j hj heq
  exact ((h k).1 hk).1 (heq ▸ hj)

theorem one_le_targetDelta (p : ARCCachePolicy K) (other ghost : Dict K Unit) :
    1 ≤ p.targetDelta other ghost := le_max_left _ _

theorem Structured.withTarget (h : p.Structured) {x : ℚ} (hnonneg : 0 ≤ x)
    (hle : p.rounding.round p.cacheCapacity = p.cacheCapacity → x ≤ p.cacheCapacity) :
    ({ p with targetT1Size := x } : ARCCachePolicy K).Structured :=
  ⟨h.apart, h.b1_le, h.b2_le, hnonneg, hle⟩

theorem Structured.increase (h : p.Structured) (other ghost : Dict K Unit) :
    ({ p with targetT1Size := min (p.rounding.round (p.targetT1Size +
        p.targetDelta other ghost)) p.cacheCapacity } : ARCCachePolicy K).Structured := by
  refine h.withTarget (le_min ?_ (Nat.cast_nonneg _)) fun _ => min_le_right _ _
  rw [← p.rounding.zero]
  apply p.rounding.mono
  have hdelta := one_le_targetDelta p other ghost
  have htarget := h.target_nonneg
  linarith

theorem Structured.decrease (h : p.Structured) (other ghost : Dict K Unit) :
    ({ p with targetT1Size := max (p.rounding.round (p.targetT1Size -
        p.targetDelta other ghost)) 0 } : ARCCachePolicy K).Structured := by
  refine h.withTarget (le_max_right _ _) ?_
  intro hexact
  refine max_le ?_ (Nat.cast_nonneg _)
  rw [← hexact]
  apply p.rounding.mono
  have hdelta := one_le_targetDelta p other ghost
  have htarget := h.target_le hexact
  linarith

theorem Structured.touchOne (h : p.Structured) (k : K) : (p.touchOne k).Structured := by
  have hkeys : ∀ {V : Type} (d : Dict K V) (j : K), j ∈ (d.moveToEnd k).keys ↔ j ∈ d.keys :=
    fun d j => ((moveToEnd_perm d k).map Prod.fst).mem_iff
  have hlength : ∀ d : Dict K Unit, (d.moveToEnd k).entries.length = d.entries.length :=
    fun d => (moveToEnd_perm d k).length_eq
  unfold ARCCachePolicy.touchOne
  cases ht1 : p.t1.get? k with
  | some block =>
    have hk : k ∈ p.t1.keys := by
      rw [mem_keys_iff, ht1]
      exact Option.some_ne_none block
    dsimp only
    split
    all_goals
      refine ⟨?_, h.b1_le, h.b2_le, h.target_nonneg, h.target_le⟩
      intro j
      have hj := h.apart j
      simp only [mem_keys_set, mem_keys_erase]
      grind
  | none =>
    dsimp only
    split
    · refine ⟨?_, h.b1_le, h.b2_le, h.target_nonneg, h.target_le⟩
      intro j
      simp only [hkeys]
      exact h.apart j
    · split
      · have hraised := h.increase p.b2 p.b1
        refine ⟨?_, (hlength p.b1).trans_le h.b1_le, h.b2_le, hraised.target_nonneg,
          hraised.target_le⟩
        intro j
        simp only [hkeys]
        exact h.apart j
      · split
        · have hlowered := h.decrease p.b1 p.b2
          refine ⟨?_, h.b1_le, (hlength p.b2).trans_le h.b2_le, hlowered.target_nonneg,
            hlowered.target_le⟩
          intro j
          simp only [hkeys]
          exact h.apart j
        · exact h

theorem Structured.update {p : ARCCachePolicy K} (h : p.Structured) {k : K} {b : BlockStatus}
    (hk : p.get? k = some b) (b' : BlockStatus) : (p.update k b').Structured := by
  unfold ARCCachePolicy.update
  split
  next ht1 =>
    refine ⟨?_, h.b1_le, h.b2_le, h.target_nonneg, h.target_le⟩
    unfold Apart
    rw [keys_set_of_mem _ ((Dict.contains_iff _ _).mp ht1)]
    exact h.apart
  next ht1 =>
    rw [Dict.contains_iff, ← Dict.get?_eq_none_iff] at ht1
    rw [get?_of_not_t1 ht1] at hk
    have hmem : k ∈ p.t2.keys := by
      rw [mem_keys_iff, hk]
      exact Option.some_ne_none b
    refine ⟨?_, h.b1_le, h.b2_le, h.target_nonneg, h.target_le⟩
    unfold Apart
    rw [keys_set_of_mem _ hmem]
    exact h.apart

theorem Structured.remove (h : p.Structured) (k : K) : (p.remove k).Structured := by
  unfold ARCCachePolicy.remove
  split
  all_goals
    refine ⟨?_, h.b1_le, h.b2_le, h.target_nonneg, h.target_le⟩
    intro j
    have hj := h.apart j
    simp only [mem_keys_erase]
    grind

theorem length_erase_le (d : Dict K Unit) (k : K) :
    (d.erase k).entries.length ≤ d.entries.length := length_filter_le _ _

theorem Structured.insert (h : p.Structured) {k : K} (hk : k ∉ p.t2.keys) (b : BlockStatus) :
    (p.insert k b).Structured := by
  refine ⟨?_, (length_erase_le _ _).trans h.b1_le, (length_erase_le _ _).trans h.b2_le,
    h.target_nonneg, h.target_le⟩
  intro j
  have hj := h.apart j
  simp only [ARCCachePolicy.insert, mem_keys_set, mem_keys_erase]
  grind

theorem Apart.evictOne (h : p.Apart) {c : K × BlockStatus × Bool} (hin : CachePolicy.InList p c) :
    (p.evictOne c).Apart := by
  obtain ⟨k, b, fromT1⟩ := c
  have hk : k ∈ (if fromT1 then p.t1 else p.t2).keys := mem_map.mpr ⟨_, hin, rfl⟩
  intro j
  have hj := h j
  cases fromT1 with
  | true =>
    simp only [ARCCachePolicy.evictOne, if_true, mem_keys_set,
      mem_keys_erase] at hk ⊢
    grind
  | false =>
    simp only [ARCCachePolicy.evictOne, Bool.false_eq_true, if_false, mem_keys_set,
      mem_keys_erase] at hk ⊢
    grind

theorem Apart.foldl_evictOne : ∀ {cs : List (K × BlockStatus × Bool)} {p : ARCCachePolicy K},
    p.Apart → (cs.map Prod.fst).Nodup → (∀ c ∈ cs, CachePolicy.InList p c) →
    (cs.foldl ARCCachePolicy.evictOne p).Apart := by
  intro cs
  induction cs with
  | nil => exact fun hp _ _ => hp
  | cons c cs ih =>
    intro p hp hnodup hin
    rw [map_cons, nodup_cons] at hnodup
    refine ih (hp.evictOne (hin c (by simp))) hnodup.2 ?_
    intro c' hc'
    refine CachePolicy.evictOne_inList (hin c' (by simp [hc'])) ?_
    intro heq
    exact hnodup.1 (mem_map.mpr ⟨c', hc', heq⟩)

theorem foldl_evictOne_same (cs : List (K × BlockStatus × Bool)) (p : ARCCachePolicy K) :
    (cs.foldl ARCCachePolicy.evictOne p).cacheCapacity = p.cacheCapacity ∧
      (cs.foldl ARCCachePolicy.evictOne p).rounding = p.rounding ∧
      (cs.foldl ARCCachePolicy.evictOne p).targetT1Size = p.targetT1Size := by
  induction cs generalizing p with
  | nil => exact ⟨rfl, rfl, rfl⟩
  | cons c cs ih =>
    obtain ⟨k, b, fromT1⟩ := c
    cases fromT1 <;> exact ih _

theorem length_trimGhost_le (n : Nat) (ghost : Dict K Unit) :
    (trimGhost n ghost).entries.length ≤ n := by
  unfold trimGhost Dict.dropFirst
  rw [length_drop]
  omega

theorem mem_keys_trimGhost {n : Nat} {ghost : Dict K Unit} {k : K}
    (h : k ∈ (trimGhost n ghost).keys) : k ∈ ghost.keys :=
  ((drop_sublist _ _).map Prod.fst).subset h

variable {q : ARCCachePolicy K} {n : Nat} {isProtected : List K} {es : List (K × BlockStatus)}

theorem Structured.evict (h : p.Structured) (hevict : p.evict n isProtected = some (es, q)) :
    q.Structured := by
  unfold ARCCachePolicy.evict at hevict
  split at hevict
  · cases hevict
    exact h
  · split at hevict
    · cases hevict
    next cs hcs =>
      cases hevict
      obtain ⟨hall, hnodup, _⟩ := CachePolicy.selectCandidates_some hcs
      have hapart := h.apart.foldl_evictOne hnodup fun c hc => (hall c hc).1
      obtain ⟨hcap, hround, htarget⟩ := foldl_evictOne_same cs p
      refine ⟨?_, length_trimGhost_le _ _, length_trimGhost_le _ _, ?_, ?_⟩
      · intro j
        have hj := hapart j
        have hb1 := @mem_keys_trimGhost K _ (cs.foldl ARCCachePolicy.evictOne p).cacheCapacity
          (cs.foldl ARCCachePolicy.evictOne p).b1 j
        have hb2 := @mem_keys_trimGhost K _ (cs.foldl ARCCachePolicy.evictOne p).cacheCapacity
          (cs.foldl ARCCachePolicy.evictOne p).b2 j
        grind
      · rw [htarget]
        exact h.target_nonneg
      · rw [htarget, hcap, hround]
        exact h.target_le

theorem evict_cacheCapacity (h : p.evict n isProtected = some (es, q)) :
    q.cacheCapacity = p.cacheCapacity := by
  unfold ARCCachePolicy.evict at h
  split at h
  · cases h
    rfl
  · split at h
    · cases h
    next cs _ =>
      cases h
      exact (foldl_evictOne_same cs p).1

end ARCCachePolicy

/-! ## The policy of a manager -/

namespace CachePolicy

/-- The invariant of a policy that was created for `n` blocks. -/
def Structured (n : Nat) : CachePolicy K → Prop
  | lru _ => True
  | arc p => p.Structured ∧ p.cacheCapacity = n

variable {n : Nat} {p : CachePolicy K}

theorem Structured.wf (h : p.Structured n) : p.Wf := by
  cases p with
  | lru p => exact p.blocks.nodup
  | arc p => exact h.1.apart.wf

theorem Structured.touch {n : Nat} {p : CachePolicy K} (h : p.Structured n) (ks : List K) :
    (p.touch ks).Structured n := by
  cases p with
  | lru p => trivial
  | arc p =>
    refine List.foldlRecOn ks.reverse ARCCachePolicy.touchOne
      (motive := fun q : ARCCachePolicy K => q.Structured ∧ q.cacheCapacity = n) h ?_
    intro q hq k _
    refine ⟨hq.1.touchOne k, ?_⟩
    rw [← hq.2]
    unfold ARCCachePolicy.touchOne
    repeat' first | rfl | split

theorem Structured.update {n : Nat} {p : CachePolicy K} (h : p.Structured n) {k : K}
    {b : BlockStatus} (hk : p.get? k = some b) (b' : BlockStatus) :
    (p.update k b').Structured n := by
  cases p with
  | lru p => trivial
  | arc p =>
    refine ⟨h.1.update hk b', ?_⟩
    rw [← h.2]
    unfold ARCCachePolicy.update
    split <;> rfl

theorem Structured.remove (h : p.Structured n) (k : K) : (p.remove k).Structured n := by
  cases p with
  | lru p => trivial
  | arc p =>
    refine ⟨h.1.remove k, ?_⟩
    rw [← h.2]
    unfold ARCCachePolicy.remove
    split <;> rfl

theorem Structured.evict {count : Nat} {q : CachePolicy K} (h : p.Structured n)
    {isProtected : List K} {es : List (K × BlockStatus)}
    (hevict : p.evict count isProtected = some (es, q)) : q.Structured n := by
  cases p with
  | lru p =>
    obtain ⟨res, _, heq⟩ := Option.map_eq_some_iff.mp hevict
    cases heq
    trivial
  | arc p =>
    obtain ⟨⟨es', q'⟩, hsome, heq⟩ := Option.map_eq_some_iff.mp hevict
    cases heq
    exact ⟨h.1.evict hsome, (ARCCachePolicy.evict_cacheCapacity hsome).trans h.2⟩

/-- A hash that may be inserted is not in T2. -/
def Insertable (k : K) : CachePolicy K → Prop
  | lru _ => True
  | arc p => k ∉ p.t2.keys

variable {k : K}

theorem insertable_of_get?_none (h : p.get? k = none) : p.Insertable k := by
  cases p with
  | lru p => trivial
  | arc p =>
    change p.get? k = none at h
    unfold ARCCachePolicy.get? at h
    split at h
    · cases h
    · exact (Dict.get?_eq_none_iff _ _).mp h

theorem length_set_le (d : Dict K BlockStatus) (k : K) (b : BlockStatus) :
    (d.set k b).entries.length ≤ d.entries.length + 1 := by
  rw [(entries_set_perm d k b).length_eq, length_cons]
  exact Nat.succ_le_succ (length_filter_le _ _)

theorem Structured.insert (h : p.Structured n) (hk : p.Insertable k) (b : BlockStatus) :
    (p.insert k b).Structured n ∧ (p.insert k b).cached.length ≤ p.cached.length + 1 ∧
      ∀ j, p.Insertable j → (p.insert k b).Insertable j := by
  cases p with
  | lru p => exact ⟨trivial, length_set_le p.blocks k b, fun _ _ => trivial⟩
  | arc p =>
    refine ⟨⟨h.1.insert hk b, h.2⟩, ?_, fun _ hj => hj⟩
    have hle := length_set_le p.t1 k b
    show ((p.t1.set k b).entries ++ p.t2.entries).length ≤
      (p.t1.entries ++ p.t2.entries).length + 1
    rw [length_append, length_append]
    omega

theorem Structured.foldl_insert : ∀ {es : List (K × BlockStatus)} {p : CachePolicy K},
    p.Structured n → (∀ e ∈ es, p.Insertable e.1) →
    (es.foldl (fun p e => p.insert e.1 e.2) p).Structured n ∧
      (es.foldl (fun p e => p.insert e.1 e.2) p).cached.length ≤ p.cached.length + es.length := by
  intro es
  induction es with
  | nil => exact fun h _ => ⟨h, le_rfl⟩
  | cons e es ih =>
    intro p h hes
    obtain ⟨hnext, hlength, hkeep⟩ := h.insert (hes e (by simp)) e.2
    obtain ⟨hlast, hle⟩ := ih hnext fun e' he' => hkeep _ (hes e' (by simp [he']))
    refine ⟨hlast, hle.trans ?_⟩
    rw [length_cons]
    omega

end CachePolicy

namespace CPUOffloadingManager

/-- The invariant of the manager: its blocks hold the cached hashes, each at most once. -/
structure FitsInv (m : CPUOffloadingManager K) : Prop where
  policy : m.policy.Structured m.numBlocks
  room : m.policy.cached.length + m.freeList.length ≤ m.numAllocatedBlocks
  allocated_le : m.numAllocatedBlocks ≤ m.numBlocks

variable {m m' : CPUOffloadingManager K}

theorem FitsInv.statusStep (hm : m.FitsInv) (h : StatusStep m m') : m'.FitsInv := by
  cases h with
  | @update k b b' hk _ =>
    obtain ⟨rest, hcached, _, hupdate⟩ := CachePolicy.exists_rest hm.policy.wf hk
    refine ⟨hm.policy.update hk b', ?_, hm.allocated_le⟩
    have hroom := hm.room
    have hlength := hcached.length_eq.trans (hupdate b').length_eq.symm
    rwa [← hlength]

theorem FitsInv.discardStoreOne (hm : m.FitsInv) (k : K) : (m.discardStoreOne k).FitsInv := by
  unfold CPUOffloadingManager.discardStoreOne
  split
  · exact hm
  next b hb =>
    split
    · exact hm
    · obtain ⟨rest, hcached, hremove, _⟩ := CachePolicy.exists_rest hm.policy.wf hb
      refine ⟨hm.policy.remove k, ?_, hm.allocated_le⟩
      have hroom := hm.room
      rw [hcached.length_eq, length_cons] at hroom
      show (m.policy.remove k).cached.length + (m.freeList ++ [b.blockId]).length ≤
        m.numAllocatedBlocks
      rw [hremove.length_eq, length_append, length_singleton]
      omega

variable {ks : List K}

theorem FitsInv.prepareStore {res : Option (PrepareStoreOutput K)} (hm : m.FitsInv)
    (h : m.prepareStore ks = .ok (res, m')) : m'.FitsInv := by
  cases res with
  | none => exact prepareStore_none h ▸ hm
  | some out =>
    obtain ⟨rfl, _, rfl⟩ | ⟨es, policy, events, blocks, m₁, hevict, halloc, rfl, rfl⟩ :=
      prepareStore_some h
    · exact hm
    · have hcached := (evicted_cached hevict).1
      have hpolicy : policy.Structured m.numBlocks := by
        rcases hevict with ⟨_, rfl⟩ | ⟨n, hevict⟩
        · exact hm.policy
        · exact hm.policy.evict hevict
      obtain ⟨_, hnum, hlen, hcount, hle, _⟩ := allocateBlocks_spec halloc
      -- The hashes to store were not cached, so they are not in T2 after the eviction.
      obtain ⟨hlast, hgrows⟩ := hpolicy.foldl_insert fun e he =>
        CachePolicy.insertable_of_get?_none
          (get?_toStore hm.policy.wf hpolicy.wf hcached (of_mem_zip he).1)
      refine ⟨hnum ▸ hlast, ?_, hle hm.allocated_le⟩
      have hroom := hm.room
      have hlength := hcached.length_eq
      rw [length_append] at hlength hcount
      rw [length_map] at hcount
      rw [length_zip, hlen, min_self] at hgrows
      dsimp only at hcount ⊢
      omega

end CPUOffloadingManager

namespace ARCCachePolicy

/-! ## What `evict` finds -/

def candidates (blocks : Dict K BlockStatus) (isProtected selected : List K) :
    List (K × BlockStatus) :=
  blocks.entries.filter fun e =>
    decide (e.2.refCnt = 0) && decide (e.1 ∉ isProtected) && decide (e.1 ∉ selected)

variable {blocks : Dict K BlockStatus} {isProtected selected : List K} {p : ARCCachePolicy K}

/-- What `evict` is to do: it refuses exactly when there are less than `n` idle blocks that
are not protected, and takes `n` of them out otherwise. -/
structure EvictComplete (p : ARCCachePolicy K) (n : Nat) (isProtected : List K) : Prop where
  refuses : p.evict n isProtected = none ↔
    (candidates p.t1 isProtected []).length + (candidates p.t2 isProtected []).length < n
  evicts : ∀ {es : List (K × BlockStatus)} {q : ARCCachePolicy K},
    p.evict n isProtected = some (es, q) → es.length = n ∧
      (∀ e ∈ es, e.2.refCnt = 0 ∧ e.1 ∉ isProtected) ∧
      (p.t1.entries ++ p.t2.entries).Perm (es ++ (q.t1.entries ++ q.t2.entries))

def storeOps : List (CPUOffloadingManager.OffloadOp Nat) :=
    [.prepareStore [1, 2], .completeStore [1, 2] true]

theorem reachable_arc {ops : List (CPUOffloadingManager.OffloadOp Nat)}
    {m : CPUOffloadingManager Nat}
    (h : runOps CPUOffloadingManager.runOffloadOp (.create 16 2 (.arc .exact) false) ops =
      .ok m) : m.OffloadReachable :=
  Reachable.runOps_of_forall (.start ⟨16, 2, .arc .exact, false, rfl⟩)
    (fun _ _ _ => trivial) h

/-- Two hits on the ghost of block 1 raise the target to the capacity.  Block 2 is in T2 and
being read; block 3 is idle, but T1 is below its target. -/
def pinnedOps : List (CPUOffloadingManager.OffloadOp Nat) :=
  storeOps ++ [.prepareStore [3], .completeStore [3] true, .touch [1], .touch [1], .touch [2],
    .prepareLoad [2]]

theorem evict_not_complete : ¬∀ (m : CPUOffloadingManager Nat) (p : ARCCachePolicy Nat)
    (n : Nat) (isProtected : List Nat), m.OffloadReachable → m.policy = .arc p →
    EvictComplete p n isProtected := by
  intro h
  obtain ⟨m, p, hrun, hp, hidle, hnone⟩ : ∃ (m : CPUOffloadingManager Nat)
      (p : ARCCachePolicy Nat),
      runOps CPUOffloadingManager.runOffloadOp (.create 16 2 (.arc .exact) false) pinnedOps =
        .ok m ∧ m.policy = .arc p ∧ (candidates p.t1 [4] []).length = 1 ∧
      (p.evict 1 [4]).isNone :=
    ⟨_, _, rfl, rfl, by decide, by decide +kernel⟩
  have hfew := (h m p 1 [4] (reachable_arc hrun) hp).refuses.mp (Option.isNone_iff_eq_none.mp hnone)
  omega

end ARCCachePolicy

end VllmCore
