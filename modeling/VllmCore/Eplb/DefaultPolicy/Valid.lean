import VllmCore.Eplb.DefaultPolicy.Placement
import VllmCore.Eplb.DefaultPolicy.Slots
/-!
# Valid placements

A rebalancing gives every expert the replicas that were counted for it, all on the node of
its group, and where an old placement is given, the replicas that stay on a rank keep their
slots.
-/

namespace VllmCore.Eplb.DefaultPolicy

open List Nat Option Support

variable {W : Type}

/-- The replicas that `replicate_experts` counted for an expert. -/
def Hierarchy.replicaCount (h : Hierarchy W) (numNodes mlogPerNode layer e : Nat) : Option Nat := do
  let row ← h.log2mlog[layer]?
  let mlog ← row[e]?
  let counts ← h.mlogcnt[layer * numNodes + mlog.toNat / mlogPerNode]?
  counts[mlog.toNat % mlogPerNode]?

def Hierarchy.expertNode (h : Hierarchy W) (groupSize layer e : Nat) : Option Int := do
  let row ← h.groupPackIndex[layer]?
  row[e / groupSize]?

/-- A placement of `P` replicas of `D` experts in `L` layers on `N` nodes. -/
structure ValidPlacement (h : Hierarchy W) (L D P G N : Nat) (rows : List (List Int)) : Prop where
  layers : rows.length = L
  length : ∀ row ∈ rows, row.length = P
  expert : ∀ row ∈ rows, ∀ x ∈ row, 0 ≤ x ∧ x < D
  counted : ∀ (layer : Nat) (row : List Int) (e : Nat), rows[layer]? = some row → e < D →
    h.replicaCount N (D / N) layer e = some (row.count (e : Int)) ∧ 0 < row.count (e : Int)
  node : ∀ (layer : Nat) (row : List Int) (e p : Nat), rows[layer]? = some row →
    row[p]? = some (e : Int) → h.expertNode (D / G) layer e = some ((p / (P / N) : Nat) : Int)

section Hierarchical

variable [LinearOrder W] [Add W] [Zero W] [Neg W] [Div W] [NatCast W]

theorem Hierarchy.Follows.validPlacement {sort : Argsort W} {L D P G N R : Nat}
    {hierarchy : Hierarchy W} {o : Layout L D P G N R} (h : Asserted D P G N R) (hD : 0 < D)
    (hf : hierarchy.Follows sort o) : ValidPlacement hierarchy L D P G N hierarchy.pphy2log := by
  have hrow : ∀ (l : Nat) (row : List Int), hierarchy.pphy2log[l]? = some row →
      l < L ∧ row = tab P fun p => (o.slotLog l p : Int) := by
    intro l row hl
    rw [hf.pphy2log, getElem?_tab] at hl
    split at hl
    next hlt => exact ⟨hlt, (Option.some.inj hl).symm⟩
    · cases hl
  have hmem : ∀ row ∈ hierarchy.pphy2log,
      ∃ l < L, row = tab P fun p => (o.slotLog l p : Int) := by
    intro row hr
    obtain ⟨l, hl⟩ := mem_iff_getElem?.mp hr
    exact ⟨l, hrow l row hl⟩
  constructor
  · rw [hf.pphy2log, length_tab]
  · intro row hr
    obtain ⟨l, hl, rfl⟩ := hmem row hr
    exact length_tab _ _
  · intro row hr x hx
    obtain ⟨l, hl, rfl⟩ := hmem row hr
    obtain ⟨p, hp, rfl⟩ := mem_tab.mp hx
    have hlt := Layout.slotLog_lt (o := o) h hl hp
    omega
  · intro l row e hlayer he
    obtain ⟨hl, rfl⟩ := hrow l row hlayer
    have hnode : o.mlog l e / (D / N) < N := by
      rw [Layout.mlog_div h hl hD he]
      exact (o.packed l hl).pack_lt _ (h.group_lt he)
    have hoffset : o.mlog l e % (D / N) < D / N := mod_lt _ (h.mlogPerNode_pos hD)
    rw [count_tab_natCast, Layout.count_slotLog h hl hD he]
    refine ⟨?_, (o.replicated _ (block_lt hl hnode)).pos _ hoffset⟩
    unfold Hierarchy.replicaCount
    rw [hf.log2mlog, getElem?_tab, if_pos hl, bind_eq_bind, bind_some, getElem?_tab,
      if_pos he, bind_eq_bind, bind_some, Int.toNat_natCast, hf.mlogcnt, getElem?_tab,
      if_pos (block_lt hl hnode), bind_eq_bind, bind_some, getElem?_tab,
      if_pos hoffset]
  · intro l row e p hlayer hp
    obtain ⟨hl, rfl⟩ := hrow l row hlayer
    rw [getElem?_tab] at hp
    split at hp
    next hlt =>
      have hpe : o.slotLog l p = e := by exact_mod_cast Option.some.inj hp
      have he : e < D := hpe ▸ Layout.slotLog_lt h hl hlt
      unfold Hierarchy.expertNode
      rw [hf.groupPackIndex, getElem?_tab, if_pos hl, bind_eq_bind, bind_some,
        getElem?_tab, if_pos (h.group_lt he), Layout.node_slot h hl hD hlt he hpe]
    · cases hp

end Hierarchical

/-! ## After slots are kept -/

variable {S gpu j R D P G N : Nat} {old new post : List Int}

theorem getElem?_rankSlots {row : List Int} (hj : j < S) :
    (rankSlots S gpu row)[j]? = row[gpu * S + j]? := by
  unfold rankSlots
  rw [getElem?_take, if_pos hj, getElem?_drop]

theorem exists_rankSlot {p : Nat} (hp : p < R * S) : ∃ gpu < R, ∃ j < S, p = gpu * S + j := by
  have hS : 0 < S := Nat.pos_of_mul_pos_left (Nat.zero_lt_of_lt hp)
  have hgpu : p / S < R := Nat.div_lt_of_lt_mul (Nat.mul_comm R S ▸ hp)
  exact ⟨p / S, hgpu, p % S, mod_lt p hS, (div_add_mod' p S).symm⟩

theorem Preserves.perm_row (h : Preserves R S old new post)
    (hnew : new.length = R * S) : post.Perm new := by
  rw [← flatMap_rankSlots hnew, ← flatMap_rankSlots (h.length.trans hnew)]
  exact List.Perm.flatMap_left _ fun gpu hgpu => h.perm gpu (mem_range.mp hgpu)

theorem Preserves.exists_slot (h : Preserves R S old new post)
    (hgpu : gpu < R) (hj : j < S) {x : Int} (hx : post[gpu * S + j]? = some x) :
    ∃ i < S, new[gpu * S + i]? = some x := by
  rw [← getElem?_rankSlots hj] at hx
  have hmem := (h.perm gpu hgpu).mem_iff.mp (mem_of_getElem? hx)
  obtain ⟨i, hi⟩ := mem_iff_getElem?.mp hmem
  have hiS : i < S := by
    have hlt := (List.getElem?_eq_some_iff.mp hi).1
    rw [rankSlots, length_take] at hlt
    omega
  rw [getElem?_rankSlots hiS] at hi
  exact ⟨i, hiS, hi⟩

theorem Asserted.node_of_rank (h : Asserted D P G N R)
    (hj : j < P / R) : (gpu * (P / R) + j) / (P / N) = gpu / (R / N) := by
  have hsize : P / N = P / R * (R / N) := (div_mul_div h.physical h.gpus).symm
  rw [hsize, ← Nat.div_div_eq_div_mul, block_div hj]

theorem ValidPlacement.preserve {hierarchy : Hierarchy W} {L : Nat}
    (h : Asserted D P G N R) {rows old post : List (List Int)}
    (hv : ValidPlacement hierarchy L D P G N rows) (hold : old.length = L)
    (hlength : post.length = L)
    (hp : ∀ (layer : Nat) (o n p : List Int), old[layer]? = some o → rows[layer]? = some n →
      post[layer]? = some p → Preserves R (P / R) o n p) :
    ValidPlacement hierarchy L D P G N post := by
  have hsize : R * (P / R) = P := Nat.mul_div_cancel' h.physical
  have hrow : ∀ (layer : Nat) (p : List Int), post[layer]? = some p →
      ∃ o n, rows[layer]? = some n ∧ n.length = R * (P / R) ∧ Preserves R (P / R) o n p := by
    intro layer p hpl
    have hlt := (List.getElem?_eq_some_iff.mp hpl).1
    have ho := getElem?_eq_getElem (l := old) (i := layer) (by omega)
    have hn := getElem?_eq_getElem (l := rows) (i := layer) (by rw [hv.layers]; omega)
    exact ⟨_, _, hn, (hv.length _ (mem_of_getElem? hn)).trans hsize.symm,
      hp layer _ _ p ho hn hpl⟩
  constructor
  · exact hlength
  · intro p hmem
    obtain ⟨layer, hpl⟩ := mem_iff_getElem?.mp hmem
    obtain ⟨o, n, hn, hnl, hpres⟩ := hrow layer p hpl
    rw [hpres.length, hnl, hsize]
  · intro p hmem x hx
    obtain ⟨layer, hpl⟩ := mem_iff_getElem?.mp hmem
    obtain ⟨o, n, hn, hnl, hpres⟩ := hrow layer p hpl
    exact hv.expert n (mem_of_getElem? hn) x ((hpres.perm_row hnl).mem_iff.mp hx)
  · intro layer p e hpl he
    obtain ⟨o, n, hn, hnl, hpres⟩ := hrow layer p hpl
    rw [(hpres.perm_row hnl).count_eq]
    exact hv.counted layer n e hn he
  · intro layer p e slot hpl hslot
    obtain ⟨o, n, hn, hnl, hpres⟩ := hrow layer p hpl
    have hlt : slot < R * (P / R) := by
      have := (List.getElem?_eq_some_iff.mp hslot).1
      rw [hpres.length, hnl] at this
      exact this
    obtain ⟨gpu, hgpu, j, hj, rfl⟩ := exists_rankSlot hlt
    obtain ⟨i, hi, hni⟩ := hpres.exists_slot hgpu hj hslot
    have hnode := hv.node layer n e _ hn hni
    rw [h.node_of_rank hi] at hnode
    rw [h.node_of_rank hj]
    exact hnode

/-! ## Rebalancing -/

/-- The groups and nodes of the policy, which is global unless the nodes divide the groups. -/
def policySizes (numGroups numNodes : Nat) : Nat × Nat :=
  if numNodes ∣ numGroups then (numGroups, numNodes) else (1, 1)

section Rebalance

variable [LinearOrder W] [Add W] [Zero W] [Neg W] [Div W] [NatCast W]
variable {weight : List (List W)}

theorem rebalanceHierarchy_valid (sort : Argsort W) (h : Asserted D P G N R)
    (hD : 0 < D) (hlayers : weight ≠ []) (hweight : ∀ row ∈ weight, row.length = D) :
    ∃ hierarchy : Hierarchy W,
      rebalanceHierarchy sort D weight P G N R = .ok hierarchy ∧
      balancedPacking sort G hierarchy.tokensPerGroup N =
        .ok (hierarchy.groupPackIndex, hierarchy.groupRankInPack) ∧
      replicateExperts (D / N) hierarchy.tokensPerMlog (P / N) =
        .ok (hierarchy.phy2mlog, hierarchy.mlogcnt) ∧
      ValidPlacement hierarchy weight.length D P G N hierarchy.pphy2log := by
  have hrows : weight = tab weight.length fun l => tab D fun e =>
      ((weight[l]?.getD [])[e]?).getD 0 := by
    apply eq_tab rfl
    intro l hl
    have hrow := eq_tab_getD weight[l] 0
    rw [hweight _ (getElem_mem hl)] at hrow
    rw [getElem?_eq_getElem hl, getD_some, ← hrow]
  obtain ⟨hierarchy, o, hrun, hfollows⟩ := rebalanceHierarchy_spec sort h hD
    (length_pos_iff.mpr hlayers) fun l e => ((weight[l]?.getD [])[e]?).getD 0
  rw [← hrows] at hrun
  exact ⟨hierarchy, hrun, hfollows.packing, hfollows.replication, hfollows.validPlacement h hD⟩

theorem rebalanceExperts_eq (sort : Sorting W) (hN : 0 < N) {hierarchy : Hierarchy W}
    (hrun : rebalanceHierarchy sort.weights D weight P (policySizes G N).1 (policySizes G N).2 R =
      .ok hierarchy) (old : Option (List (List Int))) :
    rebalanceExperts sort D weight P G N R old = match old with
      | none => .ok hierarchy.pphy2log
      | some o => preserveIntragpuSlots sort.priorities P hierarchy.pphy2log R o := by
  have hphy : rebalanceExpertsHierarchical sort.weights D weight P (policySizes G N).1
      (policySizes G N).2 R = .ok hierarchy.pphy2log := by
    unfold rebalanceExpertsHierarchical
    rw [hrun]
    rfl
  unfold policySizes at hphy
  unfold rebalanceExperts
  rw [pyDivides_ok hN, ok_bind]
  by_cases hdvd : N ∣ G
  · rw [if_pos hdvd] at hphy
    rw [if_pos (decide_eq_true hdvd), hphy]
    rfl
  · rw [if_neg hdvd] at hphy
    rw [if_neg (by rw [decide_eq_true_eq]; exact hdvd), hphy]
    rfl

/-- `DefaultEplbPolicy` places every expert where its group is and as often as it was counted,
packs evenly, and lets the experts that stay on a rank keep their slots. -/
theorem rebalanceExperts_valid (sort : Sorting W) :
    (∀ (D P G N R : Nat) (weight : List (List W)) (old : Option (List (List Int))),
      0 < D → 0 < N → weight ≠ [] → (∀ row ∈ weight, row.length = D) →
      Asserted D P (policySizes G N).1 (policySizes G N).2 R →
      (∀ o, old = some o → o.length = weight.length ∧ ∀ row ∈ o, row.length = P) →
      ∃ hierarchy rows,
        rebalanceHierarchy sort.weights D weight P (policySizes G N).1 (policySizes G N).2 R =
          .ok hierarchy ∧
        balancedPacking sort.weights (policySizes G N).1 hierarchy.tokensPerGroup
          (policySizes G N).2 = .ok (hierarchy.groupPackIndex, hierarchy.groupRankInPack) ∧
        replicateExperts (D / (policySizes G N).2) hierarchy.tokensPerMlog
          (P / (policySizes G N).2) = .ok (hierarchy.phy2mlog, hierarchy.mlogcnt) ∧
        rebalanceExperts sort D weight P G N R old = .ok rows ∧
        ValidPlacement hierarchy weight.length D P (policySizes G N).1 (policySizes G N).2 rows) ∧
    (∀ (n m : Nat) (weight : List (List W)), 0 < m → m ∣ n → (∀ row ∈ weight, row.length = n) →
      ∃ packIndex rankInPack,
        balancedPacking sort.weights n weight m = .ok (packIndex, rankInPack) ∧
        packIndex.length = weight.length ∧ rankInPack.length = weight.length ∧
        ∀ (layer : Nat) (packs ranks : List Int), packIndex[layer]? = some packs →
          rankInPack[layer]? = some ranks → NumberedPacks n m packs ranks) ∧
    (∀ (P R : Nat) (phy2log old : List (List Int)), 0 < R → R ∣ P →
      old.length = phy2log.length → (∀ row ∈ phy2log, row.length = P) →
      (∀ row ∈ old, row.length = P) →
      ∃ post, preserveIntragpuSlots sort.priorities P phy2log R old = .ok post ∧
        post.length = phy2log.length ∧
        ∀ (layer : Nat) (o n p : List Int), old[layer]? = some o → phy2log[layer]? = some n →
          post[layer]? = some p → Preserves R (P / R) o n p) := by
  refine ⟨?_, ?_, ?_⟩
  · intro D P G N R weight old hD hN hlayers hweight h hold
    obtain ⟨hierarchy, hrun, hpacking, hreplication, hvalid⟩ :=
      rebalanceHierarchy_valid sort.weights h hD hlayers hweight
    have heq := rebalanceExperts_eq sort hN hrun old
    cases old with
    | none => exact ⟨hierarchy, _, hrun, hpacking, hreplication, heq, hvalid⟩
    | some o =>
      obtain ⟨holdLength, holdRows⟩ := hold o rfl
      obtain ⟨post, hpost, hpostLength, hpreserves⟩ :=
        preserveIntragpuSlots_spec sort.priorities (h.gpus_pos hD) h.physical
          (holdLength.trans hvalid.layers.symm) hvalid.length holdRows
      exact ⟨hierarchy, post, hrun, hpacking, hreplication, heq.trans hpost,
        hvalid.preserve h holdLength (hpostLength.trans hvalid.layers) hpreserves⟩
  · intro n m weight hm hdvd hweight
    exact balancedPacking_numbered sort.weights hm hdvd hweight
  · intro P R phy2log old hR hdvd hlength hnew hold
    exact preserveIntragpuSlots_spec sort.priorities hR hdvd hlength hnew hold

end Rebalance

/-- Two layers of two experts, with two replicas each on two ranks. -/
theorem rebalanceExperts_valid_twoLayers :
    (∃ hierarchy rows,
      rebalanceHierarchy (Argsort.stable Int) 2 [[90, 132], [3, 1]] 4 2 2 2 = .ok hierarchy ∧
      rebalanceExperts ⟨Argsort.stable Int, Argsort.stable Int⟩ 2 [[90, 132], [3, 1]] 4 2 2 2
        (some [[0, 1, 0, 1], [1, 1, 0, 0]]) = .ok rows ∧
      ValidPlacement hierarchy 2 2 4 2 2 rows) ∧
    (∃ packIndex rankInPack,
      balancedPacking (Argsort.stable Int) 4 [[1, 2, 3, 4]] 2 = .ok (packIndex, rankInPack)) ∧
    ∃ post, preserveIntragpuSlots (Argsort.stable Int) 4 [[0, 1, 2, 3]] 2 [[1, 5, 3, 2]] =
      .ok post := by
  have hvalid := rebalanceExperts_valid (W := Int) ⟨Argsort.stable Int, Argsort.stable Int⟩
  refine ⟨?_, ?_, ?_⟩
  · have hasserted : Asserted 2 4 (policySizes 2 2).1 (policySizes 2 2).2 2 :=
      ⟨by decide, by decide, by decide, by decide, by decide⟩
    obtain ⟨hierarchy, rows, hrun, -, -, hrows, hplaced⟩ := hvalid.1 2 4 2 2 2 [[90, 132], [3, 1]]
      (some [[0, 1, 0, 1], [1, 1, 0, 0]]) (by decide) (by decide) (by decide) (by decide)
      hasserted (by intro o ho; cases ho; decide)
    exact ⟨hierarchy, rows, hrun, hrows, hplaced⟩
  · obtain ⟨packIndex, rankInPack, hrun, -⟩ := hvalid.2.1 4 2 [[1, 2, 3, 4]] (by decide) (by decide)
      (by decide)
    exact ⟨packIndex, rankInPack, hrun⟩
  · obtain ⟨post, hrun, -⟩ := hvalid.2.2 4 2 [[0, 1, 2, 3]] [[1, 5, 3, 2]] (by decide) (by decide)
      (by decide) (by decide) (by decide)
    exact ⟨post, hrun⟩

end VllmCore.Eplb.DefaultPolicy
