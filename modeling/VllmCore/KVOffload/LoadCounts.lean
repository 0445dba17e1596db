import VllmCore.KVOffload.CPUOffloadingManager
/-!
# Loads under way

A load is prepared and later completed.  A stored block counts the loads that read it and
are not completed, whatever is stored, touched and evicted meanwhile.
-/

namespace VllmCore.CPUOffloadingManager

open List Support

variable {K : Type} [DecidableEq K]

/-- The stored blocks count the loads under way, and what these read is stored. -/
structure Counted (m : CPUOffloadingManager K) (loading : Multiset K) : Prop where
  inv : m.BlockInv
  count : ∀ k b, m.policy.get? k = some b → b.isReady = true → b.refCnt = loading.count k
  stored : ∀ k ∈ loading, ∃ b, m.policy.get? k = some b ∧ b.isReady = true
  bound : ∀ k, loading.count k < 2 ^ 31

variable {m m' : CPUOffloadingManager K} {loading loading' : Multiset K} {k : K} {b : BlockStatus}
  {ks : List K} {op : OffloadOp K}

/-- No block became ready, and no block that is read was dropped. -/
theorem Counted.keep (h : m.Counted loading) (hinv : m'.BlockInv)
    (hold : ∀ k b, m'.policy.get? k = some b → b.isReady = true → m.policy.get? k = some b)
    (hkept : ∀ k b, m.policy.get? k = some b → 0 < b.refCnt → m'.policy.get? k = some b) :
    m'.Counted loading := by
  refine ⟨hinv, fun k b hk hready => h.count k b (hold k b hk hready) hready, ?_, h.bound⟩
  intro k hk
  obtain ⟨b, hb, hready⟩ := h.stored k hk
  have hpos := Multiset.count_pos.mpr hk
  have hcount := h.count k b hb hready
  exact ⟨b, hkept k b hb (by omega), hready⟩

theorem withRefCnt_natCast (b : BlockStatus) {n : Nat} (hn : n < 2 ^ 31) :
    (b.withRefCnt n).refCnt = n := by
  simp only [BlockStatus.withRefCnt]
  apply Int.bmod_eq_of_le_mul_two
  · simp
    omega
  · simp
    omega

/-- One block gets the count of the loads that read it then. -/
theorem Counted.setCount (h : m.Counted loading) (hk : m.policy.get? k = some b)
    (hbound : loading'.count k < 2 ^ 31)
    (hothers : ∀ j, j ≠ k → loading'.count j = loading.count j) :
    Counted { m with policy := m.policy.update k (b.withRefCnt (loading'.count k)) } loading' := by
  have hcount := withRefCnt_natCast b hbound
  have hid : (b.withRefCnt (loading'.count k)).blockId = b.blockId := by
    rw [BlockStatus.withRefCnt]
  refine ⟨h.inv.update hk hid, ?_, ?_, ?_⟩
  · intro j c hj hready
    rw [update_get? h.inv.wf hk] at hj
    split at hj
    next hjk =>
      rw [Option.some.injEq] at hj
      rw [← hj, hcount, hjk]
    next hjk =>
      rw [hothers j hjk]
      exact h.count j c hj hready
  · intro j hj
    rw [update_get? h.inv.wf hk]
    split
    · refine ⟨_, rfl, decide_eq_true ?_⟩
      rw [hcount]
      exact Int.natCast_nonneg _
    next hjk =>
      rw [← Multiset.count_pos, hothers j hjk, Multiset.count_pos] at hj
      exact h.stored j hj
  · intro j
    by_cases hjk : j = k
    · exact hjk ▸ hbound
    · exact hothers j hjk ▸ h.bound j

theorem Counted.countLoad (h : m.Counted loading) (hk : m.policy.get? k = some b)
    (hready : b.isReady = true) (hbound : ∀ j, (loading + (k :: ks)).count j < 2 ^ 31) :
    Counted { m with policy := m.policy.update k (b.withRefCnt (b.refCnt + 1)) }
      (k ::ₘ loading) := by
  have hcount : b.refCnt + 1 = ((k ::ₘ loading).count k : Nat) := by
    rw [h.count k b hk hready, Multiset.count_cons_self]
    rfl
  rw [hcount]
  apply h.setCount hk
  · refine (Multiset.count_le_of_le k ?_).trans_lt (hbound k)
    rw [← Multiset.cons_coe, Multiset.add_cons]
    exact Multiset.cons_le_cons k (Multiset.le_add_right _ _)
  · exact fun j hj => Multiset.count_cons_of_ne hj _

theorem Counted.prepareLoad (h : m.Counted loading) (hbound : ∀ k, (loading + ks).count k < 2 ^ 31)
    {ids ids' : List Nat} (hload : ks.foldlM prepareLoadOne (ids, m) = .ok (ids', m')) :
    m'.Counted (loading + ks) := by
  induction ks generalizing m loading ids with
  | nil =>
    cases hload
    rwa [Multiset.coe_nil, add_zero]
  | cons k ks ih =>
    rw [foldlM_cons] at hload
    obtain ⟨st, hone, hload⟩ := bind_ok.mp hload
    unfold prepareLoadOne at hone
    split at hone
    · cases hone
    next b hk =>
      simp only [bind_ok, pyAssert_ok, pure_ok] at hone
      obtain ⟨_, hready, rfl⟩ := hone
      have hnext := h.countLoad hk hready hbound
      rw [← Multiset.cons_coe, Multiset.add_cons, ← Multiset.cons_add] at hbound ⊢
      exact ih hnext hbound hload

/-- What is ready can be read. -/
theorem Counted.prepareLoad_ok (h : m.Counted loading)
    (hbound : ∀ k, (loading + ks).count k < 2 ^ 31)
    (hready : ∀ k ∈ ks, (m.policy.get? k).any (·.isReady) = true) (ids : List Nat) :
    ∃ res, ks.foldlM prepareLoadOne (ids, m) = .ok res := by
  induction ks generalizing m loading ids with
  | nil => exact ⟨_, rfl⟩
  | cons k ks ih =>
    obtain ⟨b, hk, hb⟩ := (Option.any_eq_true _ _).mp (hready k mem_cons_self)
    have hnext := h.countLoad hk hb hbound
    rw [← Multiset.cons_coe, Multiset.add_cons, ← Multiset.cons_add] at hbound
    obtain ⟨res, hrest⟩ := ih hnext hbound (fun j hj => by
      obtain ⟨c, hc, hcready⟩ := hnext.stored k (Multiset.mem_cons_self k _)
      rw [update_get? h.inv.wf hk] at hc ⊢
      split
      · rw [if_pos rfl] at hc
        rw [hc]
        exact hcready
      · exact hready j (mem_cons_of_mem k hj)) (ids ++ [b.blockId])
    refine ⟨res, ?_⟩
    rw [foldlM_cons, prepareLoadOne, hk]
    dsimp only
    rw [pyAssert, require, if_pos hb]
    exact hrest

/-- What was prepared can be completed. -/
theorem Counted.completeLoad (h : m.Counted (loading + ks)) :
    ∃ m', m.completeLoad ks = .ok m' ∧ m'.Counted loading := by
  induction ks generalizing m with
  | nil => exact ⟨m, rfl, by rwa [Multiset.coe_nil, add_zero] at h⟩
  | cons k ks ih =>
    rw [← Multiset.cons_coe, Multiset.add_cons] at h
    obtain ⟨b, hk, hready⟩ := h.stored k (Multiset.mem_cons_self k _)
    have hcount := h.count k b hk hready
    have hbound := h.bound k
    rw [Multiset.count_cons_self] at hcount hbound
    have hone : b.refCnt - 1 = ((loading + ks).count k : Nat) := by omega
    have hnext := h.setCount hk (by omega) fun j hj => (Multiset.count_cons_of_ne hj _).symm
    rw [← hone] at hnext
    obtain ⟨m', hrest, hm'⟩ := ih hnext
    refine ⟨m', ?_, hm'⟩
    unfold CPUOffloadingManager.completeLoad
    rw [foldlM_cons, completeLoadOne, hk]
    dsimp only
    rw [pyAssert, require, if_pos (by omega)]
    exact hrest

/-- A store adds blocks that are not ready. -/
theorem Counted.prepareStore (h : m.Counted loading) (honce : (m.blockHashesToStore ks).Nodup)
    {res : Option (PrepareStoreOutput K)} (hstore : m.prepareStore ks = .ok (res, m')) :
    m'.Counted loading := by
  cases res with
  | none => exact prepareStore_none hstore ▸ h
  | some out =>
    obtain ⟨hinv, es, stored, rest, hcached, hperm, _, _, hnew⟩ :=
      prepareStore_cached h.inv honce hstore
    apply h.keep hinv
    · intro k b hk hready
      rw [CachePolicy.get?_eq_some_iff hinv.wf, hperm.mem_iff, mem_append] at hk
      rw [CachePolicy.get?_eq_some_iff h.inv.wf, hcached.mem_iff, mem_append]
      refine .inr (hk.resolve_left fun hmem => ?_)
      rw [BlockStatus.isReady, hnew _ hmem] at hready
      cases hready
    · intro k b hk hpos
      have hkeep := (prepareStore_spec h.inv honce hstore).2.2 out rfl k b hk (.inl (by omega))
      exact hkeep.2

theorem Counted.completeStore (h : m.Counted loading) (success : Bool) :
    (m.completeStore ks success).Counted loading := by
  unfold CPUOffloadingManager.completeStore
  split
  · have hstored : (ks.foldl completeStoreOne ([], m)).2.Counted loading := by
      apply List.foldlRecOn ks completeStoreOne (motive := fun st => st.2.Counted loading) h
      intro st hst k _
      unfold completeStoreOne
      split
      · exact hst
      next b hk =>
        split
        · exact hst
        next hready =>
          -- A block that is not stored yet is not read.
          have hzero : loading.count k = 0 := by
            rw [Multiset.count_eq_zero]
            intro hmem
            obtain ⟨c, hc, hcready⟩ := hst.stored k hmem
            rw [hk] at hc
            cases hc
            exact hready hcready
          have hset := hst.setCount hk (by omega) fun _ _ => rfl
          rwa [hzero] at hset
    refine hstored.keep (hstored.inv.recordEvent _ _) ?_ ?_
    · rw [recordEvent_policy]
      exact fun _ _ hk _ => hk
    · rw [recordEvent_policy]
      exact fun _ _ hk _ => hk
  · apply List.foldlRecOn ks discardStoreOne (motive := fun m => m.Counted loading) h
    intro m hm k _
    have hinv := discardStoreOne_blockInv hm.inv k
    refine hm.keep hinv ?_ fun j b hj hpos =>
      discardStoreOne_get? hm.inv k hj (.inr (decide_eq_true (by omega)))
    intro j c hj _
    rw [CachePolicy.get?_eq_some_iff hinv.wf] at hj
    rw [CachePolicy.get?_eq_some_iff hm.inv.wf]
    unfold discardStoreOne at hj
    split at hj
    · exact hj
    next b hk =>
      split at hj
      · exact hj
      · obtain ⟨rest, hcached, hremove, _⟩ := CachePolicy.exists_rest hm.inv.wf hk
        exact hcached.mem_iff.mpr (mem_cons_of_mem _ (hremove.mem_iff.mp hj))

/-! ## Runs -/

/-- A call, with the loads that are under way after it. -/
def runLoading (st : CPUOffloadingManager K × Multiset K) (op : OffloadOp K) :
    Py (CPUOffloadingManager K × Multiset K) := do
  let m ← st.1.runOffloadOp op
  return (m, match op with
    | .prepareLoad ks => st.2 + ks
    | .completeLoad ks => st.2 - ks
    | _ => st.2)

/-- Only loads that were prepared are completed, and fewer than `2 ^ 31` read a block. -/
def LoadsPrepared (st : CPUOffloadingManager K × Multiset K) (op : OffloadOp K) : Prop :=
  st.1.StoresOnce op ∧ match op with
    | .prepareLoad ks => ∀ k ∈ st.2 + ks, (st.2 + ks).count k < 2 ^ 31
    | .completeLoad ks => ↑ks ≤ st.2
    | _ => True

instance (st : CPUOffloadingManager K × Multiset K) :
    (op : OffloadOp K) → Decidable (LoadsPrepared st op)
  | .lookup _ | .touch _ | .prepareLoad _ | .completeLoad _ | .prepareStore _
  | .completeStore .. | .takeEvents => instDecidableAnd

theorem count_lt_of_mem (h : ∀ k ∈ loading, loading.count k < 2 ^ 31) (k : K) :
    loading.count k < 2 ^ 31 := by
  by_cases hk : k ∈ loading
  · exact h k hk
  · rw [Multiset.count_eq_zero.mpr hk]
    exact Nat.two_pow_pos 31

theorem Counted.run {op : OffloadOp K} (h : m.Counted loading) (hop : LoadsPrepared (m, loading) op)
    {st : CPUOffloadingManager K × Multiset K} (hrun : runLoading (m, loading) op = .ok st) :
    st.1.Counted st.2 := by
  simp only [runLoading, bind_ok, pure_ok] at hrun
  obtain ⟨m', hrun, rfl⟩ := hrun
  obtain ⟨honce, hop⟩ := hop
  cases op with
  | lookup ks =>
    cases hrun
    exact h
  | touch ks =>
    cases hrun
    have hsame := (CachePolicy.get?_congr h.inv.wf (CachePolicy.touch_cached h.inv.wf ks)).2
    apply h.keep (runOffloadOp_blockInv h.inv honce rfl)
    · exact fun k b hk _ => (hsame k).symm.trans hk
    · exact fun k b hk _ => (hsame k).trans hk
  | prepareLoad ks =>
    obtain ⟨ids, hrun⟩ := map_snd_ok.mp hrun
    exact h.prepareLoad (count_lt_of_mem hop) hrun
  | completeLoad ks =>
    have hsplit : loading = loading - ks + ks := (tsub_add_cancel_of_le hop).symm
    obtain ⟨m₁, hcomplete, hm₁⟩ := (hsplit ▸ h : m.Counted (loading - ks + ks)).completeLoad
    cases hcomplete.symm.trans hrun
    exact hm₁
  | prepareStore ks =>
    obtain ⟨res, hrun⟩ := map_snd_ok.mp hrun
    exact h.prepareStore honce hrun
  | completeStore ks success =>
    cases hrun
    exact h.completeStore success
  | takeEvents =>
    cases hrun
    exact h.keep (runOffloadOp_blockInv h.inv honce rfl) (fun _ _ hk _ => hk) fun _ _ hk _ => hk

/-- In every run in which only prepared loads are completed, a stored block counts the loads
under way that read it; what they read stays stored, and they can be completed.  The blocks
that `lookup` counts can be loaded. -/
theorem loads_counted {st : CPUOffloadingManager K × Multiset K}
    (h : Reachable (fun st => st.1.IsInitial ∧ st.2 = 0) (OpStep LoadsPrepared runLoading) st) :
    (∀ k b, st.1.policy.get? k = some b → b.isReady = true → b.refCnt = st.2.count k) ∧
      (∀ k ∈ st.2, ∃ b, st.1.policy.get? k = some b ∧ b.isReady = true) ∧
      (∀ ks : List K, ↑ks ≤ st.2 → ∃ m', st.1.completeLoad ks = .ok m') ∧
      ∀ ks : List K, LoadsPrepared st (.prepareLoad (ks.take (st.1.lookup ks))) →
        ∃ res, st.1.prepareLoad (ks.take (st.1.lookup ks)) = .ok res := by
  have hcounted : st.1.Counted st.2 := by
    refine h.invariant (P := fun st => st.1.Counted st.2) ?_ ?_
    · rintro ⟨m, loading⟩ ⟨⟨blockSize, numBlocks, cachePolicy, enableEvents, rfl⟩, rfl⟩
      refine ⟨create_blockInv blockSize numBlocks cachePolicy enableEvents, ?_, ?_, ?_⟩
      · intro k b hk
        cases cachePolicy <;> cases hk
      · exact fun k hk => absurd hk (Multiset.notMem_zero k)
      · exact fun k => by simp
    · rintro ⟨m, loading⟩ st' hm ⟨op, hop, hrun⟩
      exact hm.run hop hrun
  refine ⟨hcounted.count, hcounted.stored, ?_, ?_⟩
  · intro ks hle
    rw [← tsub_add_cancel_of_le hle] at hcounted
    obtain ⟨m', hcomplete, _⟩ := hcounted.completeLoad
    exact ⟨m', hcomplete⟩
  · rintro ks ⟨_, hbound⟩
    have hprefix := takeWhile_prefix (l := ks) fun k => (st.1.policy.get? k).any (·.isReady)
    rw [lookup, ← prefix_iff_eq_take.mp hprefix] at hbound ⊢
    exact hcounted.prepareLoad_ok (count_lt_of_mem hbound) (all_eq_true.mp all_takeWhile) []

/-- Two loads read one block, and the first of them is completed. -/
def sharedLoads : List (OffloadOp Nat) :=
  [.prepareStore [1, 2], .completeStore [1, 2] true, .prepareLoad [1], .prepareLoad [2, 1],
    .completeLoad [1]]

theorem loads_counted_shared : ∃ st : CPUOffloadingManager Nat × Multiset Nat,
    runOps (checked LoadsPrepared runLoading) (create 16 2 .lru false, 0) sharedLoads = .ok st ∧
      st.2 = {1, 2} ∧ ∃ m', st.1.completeLoad [1, 2] = .ok m' := by
  obtain ⟨st, hrun, hst⟩ : ∃ st : CPUOffloadingManager Nat × Multiset Nat,
      runOps (checked LoadsPrepared runLoading) (create 16 2 .lru false, 0) sharedLoads = .ok st ∧
        st.2 = {1, 2} :=
    ⟨_, rfl, by decide⟩
  refine ⟨st, hrun, hst, (loads_counted ?_).2.2.1 [1, 2] (hst ▸ le_rfl)⟩
  exact Reachable.runOps (.start ⟨⟨16, 2, .lru, false, rfl⟩, rfl⟩) hrun

end VllmCore.CPUOffloadingManager
