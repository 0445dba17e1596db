import VllmCore.Eplb.DefaultPolicy.Packing
import VllmCore.Eplb.DefaultPolicy.Replication
import Mathlib.Data.Nat.GCD.Basic
/-!
# Layouts

What the steps of the hierarchical policy choose, as functions: a node and a place for each
group, replicas within each node, and a slot for each replica.  The experts are numbered in
three ways (as the model has them, along the nodes, as replicas), and the row of a node in a
layer is `layer * numNodes + node`.
-/

namespace VllmCore.Eplb.DefaultPolicy

open Nat Support

/-- The sizes for which `rebalance_experts_hierarchical` passes its assertions. -/
structure Asserted (numLogical numPhysical numGroups numNodes numGpus : Nat) : Prop where
  groups : numGroups ∣ numLogical
  nodes : numNodes ∣ numGroups
  gpus : numNodes ∣ numGpus
  physical : numGpus ∣ numPhysical
  redundant : numLogical / numNodes ≤ numPhysical / numNodes

namespace Asserted

variable {D P G N R : Nat} (h : Asserted D P G N R)
include h

theorem groups_pos (hD : 0 < D) : 0 < G := pos_of_dvd_of_pos h.groups hD

theorem nodes_pos (hD : 0 < D) : 0 < N := pos_of_dvd_of_pos h.nodes (h.groups_pos hD)

theorem nodes_dvd : N ∣ D := h.nodes.trans h.groups

theorem mlogPerNode_pos (hD : 0 < D) : 0 < D / N :=
  div_pos (le_of_dvd hD h.nodes_dvd) (h.nodes_pos hD)

theorem nodes_mul_mlogPerNode : N * (D / N) = D := Nat.mul_div_cancel' h.nodes_dvd

theorem groups_mul_groupSize : G * (D / G) = D := Nat.mul_div_cancel' h.groups

theorem groupSize_pos (hD : 0 < D) : 0 < D / G :=
  div_pos (le_of_dvd hD h.groups) (h.groups_pos hD)

theorem groupSize_mul_groupsPerNode : D / G * (G / N) = D / N := div_mul_div h.groups h.nodes

theorem nodes_mul_phyPerNode : N * (P / N) = P := Nat.mul_div_cancel' (h.gpus.trans h.physical)

theorem gpusPerNode_dvd : R / N ∣ P / N := div_dvd_div h.gpus h.physical

theorem phyPerGpu : P / N / (R / N) = P / R := by
  rw [Nat.div_div_eq_div_mul, Nat.mul_div_cancel' h.gpus]

theorem physical_pos (hD : 0 < D) : 0 < P := by
  have hnode : 0 < P / N := (h.mlogPerNode_pos hD).trans_le h.redundant
  exact pos_of_ne_zero fun hP => by simp [hP] at hnode

theorem gpus_pos (hD : 0 < D) : 0 < R := pos_of_dvd_of_pos h.physical (h.physical_pos hD)

theorem gpusPerNode_pos (hD : 0 < D) : 0 < R / N :=
  div_pos (le_of_dvd (h.gpus_pos hD) h.gpus) (h.nodes_pos hD)

theorem group_lt {e : Nat} (he : e < D) : e / (D / G) < G := by
  apply Nat.div_lt_of_lt_mul
  rw [Nat.mul_comm, h.groups_mul_groupSize]
  exact he

end Asserted

/-- The position of an expert along the nodes, where its group has a node and a place there. -/
def mlogOf (groupSize groupsPerNode : Nat) (node place : Nat → Nat) (e : Nat) : Nat :=
  (node (e / groupSize) * groupsPerNode + place (e / groupSize)) * groupSize + e % groupSize

/-- What the steps of the policy choose for `numLayers` layers. -/
structure Layout (L D P G N R : Nat) where
  node : Nat → Nat → Nat
  place : Nat → Nat → Nat
  log : Nat → Nat → Nat
  replica : Nat → Nat → Nat
  count : Nat → Nat → Nat
  phy : Nat → Nat → Nat
  packed : ∀ l < L, ValidPacking G N (node l) (place l)
  log_lt : ∀ l < L, ∀ q < D, log l q < D
  mlog_log : ∀ l < L, ∀ q < D, mlogOf (D / G) (G / N) (node l) (place l) (log l q) = q
  log_mlog : ∀ l < L, ∀ e < D, log l (mlogOf (D / G) (G / N) (node l) (place l) e) = e
  replicated : ∀ r < L * N, ValidReplication (D / N) (P / N) (replica r) (count r)
  packedPhy : ∀ r < L * N, PermBelow (P / N) (phy r)

namespace Layout

variable {L D P G N R : Nat} (o : Layout L D P G N R)

def mlog (l e : Nat) : Nat := mlogOf (D / G) (G / N) (o.node l) (o.place l) e

def slotMlog (l p : Nat) : Nat :=
  o.replica (l * N + p / (P / N)) (o.phy (l * N + p / (P / N)) (p % (P / N)))
    + p / (P / N) * (D / N)

def slotLog (l p : Nat) : Nat := o.log l (o.slotMlog l p)

variable {o} {l : Nat} (h : Asserted D P G N R) (hl : l < L)
include h hl

variable {e p : Nat}

theorem mlog_div (hD : 0 < D) (he : e < D) : o.mlog l e / (D / N) = o.node l (e / (D / G)) := by
  have hgroup := h.group_lt he
  have hoffset : e % (D / G) < D / G := mod_lt e (h.groupSize_pos hD)
  calc o.mlog l e / (D / N) = o.mlog l e / (D / G) / (G / N) := by
        rw [Nat.div_div_eq_div_mul, h.groupSize_mul_groupsPerNode]
    _ = (o.node l (e / (D / G)) * (G / N) + o.place l (e / (D / G))) / (G / N) :=
        congrArg (· / (G / N)) (block_div hoffset)
    _ = o.node l (e / (D / G)) := block_div ((o.packed l hl).rank_lt _ hgroup)

section

variable (hp : p < P)

include hp

theorem row_lt : l * N + p / (P / N) < L * N := by
  apply block_lt hl
  apply Nat.div_lt_of_lt_mul
  rw [Nat.mul_comm, h.nodes_mul_phyPerNode]
  exact hp

theorem replica_lt :
    o.replica (l * N + p / (P / N)) (o.phy (l * N + p / (P / N)) (p % (P / N))) < D / N := by
  have hrow := row_lt h hl hp
  have hC : 0 < P / N := by
    apply Nat.pos_of_mul_pos_left (a := N)
    rw [h.nodes_mul_phyPerNode]
    omega
  exact (o.replicated _ hrow).lt _ ((o.packedPhy _ hrow).lt (mod_lt p hC))

theorem slotMlog_div : o.slotMlog l p / (D / N) = p / (P / N) := by
  unfold slotMlog
  rw [add_comm]
  exact block_div (replica_lt h hl hp)

theorem slotMlog_mod : o.slotMlog l p % (D / N) =
    o.replica (l * N + p / (P / N)) (o.phy (l * N + p / (P / N)) (p % (P / N))) := by
  unfold slotMlog
  rw [add_comm]
  exact block_mod (replica_lt h hl hp)

theorem slotMlog_lt : o.slotMlog l p < D := by
  have hnode : p / (P / N) < N := by
    apply Nat.div_lt_of_lt_mul
    rw [Nat.mul_comm, h.nodes_mul_phyPerNode]
    exact hp
  unfold slotMlog
  rw [add_comm]
  calc p / (P / N) * (D / N) + _ < N * (D / N) := block_lt hnode (replica_lt h hl hp)
    _ = D := h.nodes_mul_mlogPerNode

theorem slotLog_lt : o.slotLog l p < D :=
  o.log_lt l hl _ (slotMlog_lt h hl hp)

theorem slotLog_eq (he : e < D) : o.slotLog l p = e ↔ o.slotMlog l p = o.mlog l e := by
  constructor
  · intro hpe
    rw [← hpe]
    exact (o.mlog_log l hl _ (slotMlog_lt h hl hp)).symm
  · intro hpe
    unfold slotLog
    rw [hpe]
    exact o.log_mlog l hl e he

end

theorem node_slot (hD : 0 < D) (hp : p < P) (he : e < D) (hpe : o.slotLog l p = e) :
    p / (P / N) = o.node l (e / (D / G)) := by
  rw [← slotMlog_div h hl hp, (slotLog_eq h hl hp he).mp hpe, mlog_div h hl hD he]

theorem count_slotLog (hD : 0 < D) (he : e < D) : (tab P (o.slotLog l)).count e =
      o.count (l * N + o.mlog l e / (D / N)) (o.mlog l e % (D / N)) := by
  have hnode : o.mlog l e / (D / N) < N := by
    rw [mlog_div h hl hD he]
    exact (o.packed l hl).pack_lt _ (h.group_lt he)
  have hrow := block_lt hl hnode
  have hoffset : o.mlog l e % (D / N) < D / N := mod_lt _ (h.mlogPerNode_pos hD)
  generalize hi : o.mlog l e / (D / N) = i at hnode hrow
  have hblock : (tab (N * (P / N)) (o.slotLog l)).count e =
      (tab (P / N) fun j => o.slotLog l (i * (P / N) + j)).count e := by
    apply count_tab_block hnode
    intro p hp hpe
    rw [h.nodes_mul_phyPerNode] at hp
    rw [← hi, mlog_div h hl hD he]
    exact node_slot h hl hD hp he hpe
  have hslots : (tab (P / N) fun j => o.slotLog l (i * (P / N) + j)).count e =
      (tab (P / N) fun j => o.replica (l * N + i) (o.phy (l * N + i) j)).count
        (o.mlog l e % (D / N)) := by
    apply count_tab_congr
    intro j hj
    have hp : i * (P / N) + j < P :=
      calc i * (P / N) + j < N * (P / N) := block_lt hnode hj
        _ = P := h.nodes_mul_phyPerNode
    have hmod := slotMlog_mod (o := o) h hl hp
    rw [block_div hj, block_mod hj] at hmod
    have hdiv := slotMlog_div (o := o) h hl hp
    rw [block_div hj] at hdiv
    rw [slotLog_eq h hl hp he, ← hmod]
    constructor
    · intro heq
      rw [heq]
    · intro heq
      rw [← div_add_mod (o.slotMlog l _) (D / N), hdiv, heq, ← hi, div_add_mod]
  rw [h.nodes_mul_phyPerNode] at hblock
  rw [hblock, hslots, (tab_perm (o.packedPhy _ hrow) _).count_eq]
  exact (o.replicated _ hrow).counted _ hoffset

end Layout

end VllmCore.Eplb.DefaultPolicy
