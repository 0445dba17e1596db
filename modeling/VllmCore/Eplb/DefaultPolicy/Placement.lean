import VllmCore.Eplb.DefaultPolicy.Layout
/-!
# The placement of the hierarchical policy

The arrays that `rebalance_experts_hierarchical` computes are those of a layout.
-/

namespace VllmCore.Eplb.DefaultPolicy

open List Nat Support

section Arrays

theorem combine_tab (c n : Nat) (f g : Nat → Nat) :
    combine c (tab n fun i => (f i : Int)) (tab n fun i => (g i : Int)) =
      tab n fun i => ((f i * c + g i : Nat) : Int) := by
  unfold combine
  rw [zipWith_tab]
  apply tab_congr
  intro i hi
  rfl

theorem expertPositions_tab (groupsPerNode groupSize n : Nat) (node place : Nat → Nat) :
    expertPositions groupsPerNode groupSize (tab n fun g => (node g : Int))
        (tab n fun g => (place g : Int)) =
      tab (n * groupSize) fun e => (mlogOf groupSize groupsPerNode node place e : Int) := by
  unfold expertPositions
  rw [combine_tab]
  have hflat := flatMap_tab n groupSize fun g j =>
    (((node g * groupsPerNode + place g) * groupSize + j : Nat) : Int)
  unfold mlogOf
  rw [← hflat]
  unfold tab
  rw [flatMap_map]
  simp only [cast_add, cast_mul]

variable {α : Type} {k c n L : Nat}

theorem splitRow_tab (h : k * c = n) (f : Nat → α) :
    splitRow k c (tab n f) = tab k fun i => tab c fun j => f (i * c + j) := by
  apply tab_congr
  intro i hi
  apply slice_tab
  calc i * c + c = (i + 1) * c := (succ_mul i c).symm
    _ ≤ k * c := mul_le_mul_right c hi
    _ = n := h

theorem flatMap_splitRow (h : k * c = n) (L : Nat) (f : Nat → Nat → α) :
    (tab L fun l => tab n (f l)).flatMap (splitRow k c) =
      tab (L * k) fun r => tab c fun j => f (r / k) (r % k * c + j) := by
  rw [← flatMap_tab L k fun l i => tab c fun j => f l (i * c + j)]
  unfold tab
  rw [flatMap_map]
  apply flatMap_congr
  intro l hl
  exact splitRow_tab h (f l)

theorem perReplica_tab {W : Type} [Div W] [NatCast W] (n : Nat) (f : Nat → W) (g : Nat → Nat) :
    perReplica (tab n f) (tab n g) = tab n fun i => f i / ((g i : Nat) : W) :=
  zipWith_tab _ n f g

theorem joinNodes_tab (N C c L : Nat) (f : Nat → Nat → Nat) {l : Nat} (hl : l < L) :
    joinNodes N c (tab (L * N) fun r => tab C fun p => (f r p : Int)) l =
      tab (N * C) fun p => ((f (l * N + p / C) (p % C) + p / C * c : Nat) : Int) := by
  rw [← flatMap_tab N C fun node p => ((f (l * N + node) p + node * c : Nat) : Int)]
  apply flatMap_congr
  intro node hnode
  rw [getElem?_tab, if_pos (block_lt hl (mem_range.mp hnode)), Option.getD_some, map_tab]
  apply tab_congr
  intro p hp
  rfl

variable {W : Type}

theorem length_groupSums [Add W] [Zero W] (numGroups groupSize : Nat) (weight : List W) :
    (groupSums numGroups groupSize weight).length = numGroups := by
  unfold groupSums splitRow
  rw [length_map, length_tab]

theorem mapM_inverseRow {f : Nat → Nat → Nat} (h : ∀ l < L, PermBelow n (f l)) :
    ∃ g : Nat → Nat → Nat, (∀ l < L, PermBelow n (g l)) ∧ (∀ l < L, ∀ i < n, g l (f l i) = i) ∧
      (∀ l < L, ∀ i < n, f l (g l i) = i) ∧
      (tab L fun l => tab n fun i => (f l i : Int)).mapM inverseRow =
        .ok (tab L fun l => tab n fun i => (g l i : Int)) := by
  have hinverse := fun l (hl : l < L) => (h l hl).exists_inverse
  choose! g hg hleft hright using hinverse
  exact ⟨g, hg, hleft, hright, mapM_tab fun l hl => inverseRow_tab (h l hl) (hleft l hl)⟩

theorem mapM_takeAlong {m : Nat} {f : Nat → Nat → α} {g : Nat → Nat → Nat}
    (h : ∀ l < L, ∀ i < n, g l i < m) :
    (((tab L fun l => tab m (f l)).zip (tab L fun l => tab n fun i => (g l i : Int))).mapM
        fun e => takeAlong e.1 e.2) = .ok (tab L fun l => tab n fun i => f l (g l i)) := by
  rw [zip_tab]
  exact mapM_tab fun l hl => takeAlong_tab (h l hl)

end Arrays

variable {W : Type} [LinearOrder W] [Add W] [Zero W] [Neg W] [Div W] [NatCast W]

structure Hierarchy.Follows (sort : Argsort W) {L D P G N R : Nat} (h : Hierarchy W)
    (o : Layout L D P G N R) : Prop where
  packing : balancedPacking sort G h.tokensPerGroup N = .ok (h.groupPackIndex, h.groupRankInPack)
  replication : replicateExperts (D / N) h.tokensPerMlog (P / N) = .ok (h.phy2mlog, h.mlogcnt)
  groupPackIndex : h.groupPackIndex = tab L fun l => tab G fun g => (o.node l g : Int)
  log2mlog : h.log2mlog = tab L fun l => tab D fun e => (o.mlog l e : Int)
  mlogcnt : h.mlogcnt = tab (L * N) fun r => tab (D / N) (o.count r)
  pphy2log : h.pphy2log = tab L fun l => tab P fun p => (o.slotLog l p : Int)

theorem rebalanceHierarchy_spec (sort : Argsort W) {L D P G N R : Nat} (h : Asserted D P G N R)
    (hD : 0 < D) (hL : 0 < L) (weight : Nat → Nat → W) :
    ∃ (hierarchy : Hierarchy W) (o : Layout L D P G N R),
      rebalanceHierarchy sort D (tab L fun l => tab D (weight l)) P G N R = .ok hierarchy ∧
      hierarchy.Follows sort o := by
  have hN := h.nodes_pos hD
  have hB := h.mlogPerNode_pos hD
  -- groups onto nodes
  obtain ⟨node, place, hpacked, hpacking⟩ := balancedPacking_spec sort hN h.nodes L
    (fun l => groupSums G (D / G) (tab D (weight l))) fun l hl => length_groupSums _ _ _
  have hmlog : ∀ l < L, PermBelow D (mlogOf (D / G) (G / N) (node l) (place l)) := by
    intro l hl
    have hplaces := ((hpacked l hl).permBelow h.nodes).blocks (c := D / G)
    rw [h.groups_mul_groupSize] at hplaces
    exact hplaces
  obtain ⟨log, hlog, hleft, hright, hinverse⟩ := mapM_inverseRow hmlog
  have hreordered := mapM_takeAlong (f := weight) fun l hl i hi => (hlog l hl).lt hi
  -- replicas within the nodes
  obtain ⟨replica, count, hreplicated, hreplication⟩ := replicateExperts_spec hB h.redundant
    (L * N) (fun r => tab (D / N) fun j => weight (r / N) (log (r / N) (r % N * (D / N) + j)))
    fun r hr => length_tab _ _
  have hloads := mapM_takeAlong (f := fun r j =>
      weight (r / N) (log (r / N) (r % N * (D / N) + j)) / ((count r j : Nat) : W))
    fun r hr => (hreplicated r hr).lt
  -- replicas onto ranks
  obtain ⟨gpu, rank, hpackedPhy, hpackingPhy⟩ := balancedPacking_spec sort (h.gpusPerNode_pos hD)
    h.gpusPerNode_dvd (L * N) (fun r => tab (P / N) fun p =>
      weight (r / N) (log (r / N) (r % N * (D / N) + replica r p)) /
        ((count r (replica r p) : Nat) : W))
    fun r hr => length_tab _ _
  have hpphy : ∀ r < L * N, PermBelow (P / N) fun p => gpu r p * (P / R) + rank r p := by
    intro r hr
    have hplaces := (hpackedPhy r hr).permBelow h.gpusPerNode_dvd
    rw [h.phyPerGpu] at hplaces
    exact hplaces
  obtain ⟨phy, hphy, -, -, hinversePhy⟩ := mapM_inverseRow hpphy
  have hslots := mapM_takeAlong (f := fun r p => (replica r p : Int))
    fun r hr p hp => (hphy r hr).lt hp
  let o : Layout L D P G N R :=
    { node, place, log, replica, count, phy
      packed := hpacked
      log_lt := fun l hl q hq => (hlog l hl).lt hq
      mlog_log := hright
      log_mlog := hleft
      replicated := hreplicated
      packedPhy := hphy }
  have hfinal := mapM_takeAlong (f := fun l q => (log l q : Int)) (g := o.slotMlog)
    fun l hl p hp => Layout.slotMlog_lt h hl hp
  have htokens : (tab L fun l => tab D (weight l)).map (groupSums G (D / G)) =
      tab L fun l => groupSums G (D / G) (tab D (weight l)) := map_tab _ _ _
  have hpositions : List.zipWith (expertPositions (G / N) (D / G))
      (tab L fun l => tab G fun g => (node l g : Int))
      (tab L fun l => tab G fun g => (place l g : Int)) =
      tab L fun l => tab D fun e => (mlogOf (D / G) (G / N) (node l) (place l) e : Int) := by
    rw [zipWith_tab]
    apply tab_congr
    intro l hl
    rw [expertPositions_tab, h.groups_mul_groupSize]
  have hsplit := flatMap_splitRow h.nodes_mul_mlogPerNode L fun l i => weight l (log l i)
  have hper : List.zipWith perReplica (tab (L * N) fun r => tab (D / N) fun j =>
        weight (r / N) (log (r / N) (r % N * (D / N) + j)))
      (tab (L * N) fun r => tab (D / N) (count r)) =
      tab (L * N) fun r => tab (D / N) fun j =>
        weight (r / N) (log (r / N) (r % N * (D / N) + j)) / ((count r j : Nat) : W) := by
    rw [zipWith_tab]
    exact tab_congr fun r hr => perReplica_tab _ _ _
  have hphyPositions : List.zipWith (combine (P / R))
      (tab (L * N) fun r => tab (P / N) fun p => (gpu r p : Int))
      (tab (L * N) fun r => tab (P / N) fun p => (rank r p : Int)) =
      tab (L * N) fun r => tab (P / N) fun p => ((gpu r p * (P / R) + rank r p : Nat) : Int) := by
    rw [zipWith_tab]
    exact tab_congr fun r hr => combine_tab _ _ _ _
  have hjoin : tab L (joinNodes N (D / N)
      (tab (L * N) fun r => tab (P / N) fun p => (replica r (phy r p) : Int))) =
      tab L fun l => tab P fun p => (o.slotMlog l p : Int) := by
    apply tab_congr
    intro l hl
    rw [joinNodes_tab N (P / N) (D / N) L (fun r p => replica r (phy r p)) hl,
      h.nodes_mul_phyPerNode]
    rfl
  have hdivGroups : pyDivides G D = .ok true := by
    rw [pyDivides_ok (h.groups_pos hD), decide_eq_true h.groups]
  have hdivNodes : pyDivides N G = .ok true := by
    rw [pyDivides_ok hN, decide_eq_true h.nodes]
  have hdivGpus : pyDivides N R = .ok true := by
    rw [pyDivides_ok hN, decide_eq_true h.gpus]
  have hdivPhysical : pyDivides R P = .ok true := by
    rw [pyDivides_ok (h.gpus_pos hD), decide_eq_true h.physical]
  have hsizeMlog : requireSizes (D / N) = .ok () := require_pos (by omega)
  have hsizeRows : requireSizes (L * N) = .ok () := require_pos (mul_pos hL hN).ne'
  refine ⟨⟨tab L fun l => groupSums G (D / G) (tab D (weight l)),
    tab L fun l => tab G fun g => (node l g : Int),
    tab L fun l => tab G fun g => (place l g : Int),
    tab L fun l => tab D fun e => (mlogOf (D / G) (G / N) (node l) (place l) e : Int),
    tab L fun l => tab D fun q => (log l q : Int),
    tab (L * N) fun r => tab (D / N) fun j =>
      weight (r / N) (log (r / N) (r % N * (D / N) + j)),
    tab (L * N) fun r => tab (P / N) fun p => (replica r p : Int),
    tab (L * N) fun r => tab (D / N) (count r),
    tab (L * N) fun r => tab (P / N) fun p =>
      weight (r / N) (log (r / N) (r % N * (D / N) + replica r p)) /
        ((count r (replica r p) : Nat) : W),
    tab (L * N) fun r => tab (P / N) fun p => (gpu r p : Int),
    tab (L * N) fun r => tab (P / N) fun p => (rank r p : Int),
    tab (L * N) fun r => tab (P / N) fun p => (phy r p : Int),
    tab L fun l => tab P fun p => (o.slotMlog l p : Int),
    tab L fun l => tab P fun p => (o.slotLog l p : Int)⟩, o, ?_, ?_⟩
  · unfold rebalanceHierarchy
    rw [length_tab, hdivGroups, ok_bind, pyAssert_pos rfl, ok_bind, hdivNodes, ok_bind,
      pyAssert_pos rfl, ok_bind, hdivGpus, ok_bind, pyAssert_pos rfl, ok_bind, hdivPhysical,
      ok_bind, pyAssert_pos rfl, ok_bind]
    dsimp only
    rw [htokens, hpacking, ok_bind]
    rw [hpositions, hinverse, ok_bind, hreordered, ok_bind, hsizeMlog, ok_bind, hsplit,
      hreplication, ok_bind]
    rw [hper, hloads, ok_bind, hpackingPhy, ok_bind]
    rw [hphyPositions, hinversePhy, ok_bind, hslots, ok_bind, hsizeRows, ok_bind, hjoin, hfinal]
    rfl
  · exact ⟨hpacking, hreplication, rfl, rfl, rfl, rfl⟩

end VllmCore.Eplb.DefaultPolicy
