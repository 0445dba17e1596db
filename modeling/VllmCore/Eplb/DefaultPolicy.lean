import VllmCore.Support.Argmin
import VllmCore.Support.Tabulate
/-!
# The default policy of the expert load balancer

Logical experts get replicas where their load is high, and the replicas are packed onto the
ranks so that the loads are balanced: groups of experts onto nodes first, then the replicas
of a node onto its ranks.  Last, replicas that stay on their rank get back the slots that
they had.

A matrix is a list of rows.  Loads are of any ordered type with the operations that are
used, and an infinite one is added to it as the greatest.
-/

namespace VllmCore.Eplb.DefaultPolicy

open Support

variable {W : Type} [LinearOrder W]

structure Sorting (W : Type) [LinearOrder W] where
  weights : Argsort W
  priorities : Argsort Int

/-- `a % b == 0` for Python's integers. -/
def pyDivides (b a : Nat) : Py Bool :=
  if b = 0 then .error (.zeroDivisionError "integer modulo by zero") else .ok (a % b = 0)

/-! ## Packing -/

/-- The rows that `balanced_packing` fills for a layer. -/
structure PackState (W : Type) where
  packIndex : List Int
  rankInPack : List Int
  weightsRow : List (WithTop W)
  itemsRow : List Nat

/-- Put a group into the lightest pack; full packs are masked out by the infinite weight. -/
def packGroup [Add W] (groupsPerPack : Nat) (weight : List W) (st : PackState W) (group : Nat) :
    Py (PackState W) := do
  let pack ← argmin st.weightsRow
  let packIndex ← pySet st.packIndex (group : Int) (pack : Int)
  let items ← pyGet st.itemsRow (pack : Int)
  let rankInPack ← pySet st.rankInPack (group : Int) (items : Int)
  let total ← pyGet st.weightsRow (pack : Int)
  let w ← pyGet weight (group : Int)
  let weightsRow ← pySet st.weightsRow (pack : Int) (total + (w : WithTop W))
  let itemsRow ← pySet st.itemsRow (pack : Int) (items + 1)
  let weightsRow ←
    if items + 1 = groupsPerPack then pySet weightsRow (pack : Int) ⊤ else pure weightsRow
  pure { packIndex, rankInPack, weightsRow, itemsRow }

def packRow [Add W] [Zero W] [Neg W] (sort : Argsort W) (numGroups numPacks groupsPerPack : Nat)
    (weight : List W) : Py (PackState W) :=
  (sort.run (weight.map (-·))).foldlM (packGroup groupsPerPack weight)
    { packIndex := List.replicate numGroups (-1)
      rankInPack := List.replicate numGroups (-1)
      weightsRow := List.replicate numPacks ((0 : W) : WithTop W)
      itemsRow := List.replicate numPacks 0 }

/-- `balanced_packing`, of `numGroups` items in every layer. -/
def balancedPacking [Add W] [Zero W] [Neg W] (sort : Argsort W) (numGroups : Nat)
    (weight : List (List W)) (numPacks : Nat) : Py (List (List Int) × List (List Int)) := do
  pyAssert ((← pyDivides numPacks numGroups) = true) ""
  let groupsPerPack := numGroups / numPacks
  if groupsPerPack = 1 then
    pure (weight.map fun _ => tab numGroups fun i => (i : Int),
      weight.map fun _ => List.replicate numGroups 0)
  else do
    let rows ← weight.mapM (packRow sort numGroups numPacks groupsPerPack)
    pure (rows.map (·.packIndex), rows.map (·.rankInPack))

/-! ## Replication -/

/-- `weight / logcnt`. -/
def perReplica [Div W] [NatCast W] (weight : List W) (logcnt : List Nat) : List W :=
  List.zipWith (fun w (c : Nat) => w / (c : W)) weight logcnt

/-- Another replica of the expert with the greatest load per replica. -/
def replicateExpert [Div W] [NatCast W] (weight : List W) (st : List Int × List Nat) (i : Nat) :
    Py (List Int × List Nat) := do
  let redundant ← argmax (perReplica weight st.2)
  let phy2log ← pySet st.1 (i : Int) (redundant : Int)
  let count ← pyGet st.2 (redundant : Int)
  let logcnt ← pySet st.2 (redundant : Int) (count + 1)
  pure (phy2log, logcnt)

def replicateRow [Div W] [NatCast W] (numLog numPhy : Nat) (weight : List W) :
    Py (List Int × List Nat) :=
  (List.range' numLog (numPhy - numLog)).foldlM (replicateExpert weight)
    (tab numPhy fun i => (i : Int), List.replicate numLog 1)

/-- `replicate_experts`, of `numLog` experts in every row. -/
def replicateExperts [Div W] [NatCast W] (numLog : Nat) (weight : List (List W)) (numPhy : Nat) :
    Py (List (List Int) × List (List Nat)) := do
  pyAssert (numLog ≤ numPhy) ""
  let rows ← weight.mapM (replicateRow numLog numPhy)
  pure (rows.map (·.1), rows.map (·.2))

/-! ## The hierarchical policy -/

/-- The entries of a row in `k` parts of `c` entries. -/
def splitRow {α : Type} (k c : Nat) (row : List α) : List (List α) :=
  tab k fun i => (row.drop (i * c)).take c

def groupSums [Add W] [Zero W] (numGroups groupSize : Nat) (weight : List W) : List W :=
  (splitRow numGroups groupSize weight).map List.sum

def combine (c : Nat) (xs ys : List Int) : List Int := List.zipWith (fun x y => x * c + y) xs ys

/-- The positions of the experts of a layer, where their groups are packed. -/
def expertPositions (groupsPerNode groupSize : Nat) (groupPackIndex groupRankInPack : List Int) :
    List Int :=
  (combine groupsPerNode groupPackIndex groupRankInPack).flatMap fun g =>
    tab groupSize fun j => g * groupSize + (j : Int)

def joinNodes (numNodes c : Nat) (rows : List (List Int)) (layer : Nat) : List Int :=
  (List.range numNodes).flatMap fun node =>
    ((rows[layer * numNodes + node]?).getD []).map fun x => x + (node * c : Nat)

/-- The variables of `rebalance_experts_hierarchical`. -/
structure Hierarchy (W : Type) where
  tokensPerGroup : List (List W)
  groupPackIndex : List (List Int)
  groupRankInPack : List (List Int)
  log2mlog : List (List Int)
  mlog2log : List (List Int)
  tokensPerMlog : List (List W)
  phy2mlog : List (List Int)
  mlogcnt : List (List Nat)
  tokensPerPhy : List (List W)
  packIndex : List (List Int)
  rankInPack : List (List Int)
  pphy2phy : List (List Int)
  pphy2mlog : List (List Int)
  pphy2log : List (List Int)

/-- `reshape` with one size left out, of an array whose other sizes are given. -/
def requireSizes (n : Nat) : Py Unit :=
  require (n ≠ 0) (.valueError "cannot reshape array of size 0 into an unspecified shape")

/-- `rebalance_experts_hierarchical`, with its variables. -/
def rebalanceHierarchy [Add W] [Zero W] [Neg W] [Div W] [NatCast W] (sort : Argsort W)
    (numLogicalExperts : Nat) (weight : List (List W))
    (numPhysicalExperts numGroups numNodes numGpus : Nat) : Py (Hierarchy W) := do
  let numLayers := weight.length
  pyAssert ((← pyDivides numGroups numLogicalExperts) = true) ""
  let groupSize := numLogicalExperts / numGroups
  pyAssert ((← pyDivides numNodes numGroups) = true) ""
  let groupsPerNode := numGroups / numNodes
  pyAssert ((← pyDivides numNodes numGpus) = true) ""
  pyAssert ((← pyDivides numGpus numPhysicalExperts) = true) ""
  let phyExpertsPerGpu := numPhysicalExperts / numGpus
  -- Step 1: pack groups to nodes
  let tokensPerGroup := weight.map (groupSums numGroups groupSize)
  let (groupPackIndex, groupRankInPack) ← balancedPacking sort numGroups tokensPerGroup numNodes
  let log2mlog := List.zipWith (expertPositions groupsPerNode groupSize) groupPackIndex
    groupRankInPack
  let mlog2log ← log2mlog.mapM inverseRow
  -- Step 2: construct redundant experts within nodes
  let mlogPerNode := numLogicalExperts / numNodes
  let reordered ← (weight.zip mlog2log).mapM fun e => takeAlong e.1 e.2
  requireSizes mlogPerNode
  let tokensPerMlog := reordered.flatMap (splitRow numNodes mlogPerNode)
  let (phy2mlog, mlogcnt) ←
    replicateExperts mlogPerNode tokensPerMlog (numPhysicalExperts / numNodes)
  -- Step 3: pack physical experts to ranks
  let tokensPerPhy ← ((List.zipWith perReplica tokensPerMlog mlogcnt).zip phy2mlog).mapM fun e =>
    takeAlong e.1 e.2
  let (packIndex, rankInPack) ←
    balancedPacking sort (numPhysicalExperts / numNodes) tokensPerPhy (numGpus / numNodes)
  let phy2pphy := List.zipWith (combine phyExpertsPerGpu) packIndex rankInPack
  let pphy2phy ← phy2pphy.mapM inverseRow
  let pphy2mlog ← (phy2mlog.zip pphy2phy).mapM fun e => takeAlong e.1 e.2
  requireSizes (numLayers * numNodes)
  let pphy2mlog := tab numLayers (joinNodes numNodes mlogPerNode pphy2mlog)
  let pphy2log ← (mlog2log.zip pphy2mlog).mapM fun e => takeAlong e.1 e.2
  pure ⟨tokensPerGroup, groupPackIndex, groupRankInPack, log2mlog, mlog2log, tokensPerMlog,
    phy2mlog, mlogcnt, tokensPerPhy, packIndex, rankInPack, pphy2phy, pphy2mlog, pphy2log⟩

def rebalanceExpertsHierarchical [Add W] [Zero W] [Neg W] [Div W] [NatCast W] (sort : Argsort W)
    (numLogicalExperts : Nat) (weight : List (List W))
    (numPhysicalExperts numGroups numNodes numGpus : Nat) : Py (List (List Int)) := do
  let h ← rebalanceHierarchy sort numLogicalExperts weight numPhysicalExperts numGroups numNodes
    numGpus
  pure h.pphy2log

/-! ## Slots -/

structure SlotState where
  post : List Int
  usedNewIndices : List Bool
  preservedPositions : List Bool

/-- Preserve the expert of a slot, if it is among the new ones and not used yet. -/
def preserveSlot (oldLocal newLocal : List Int) (st : SlotState) (slot : Nat) : Py SlotState := do
  let old ← pyGet oldLocal (slot : Int)
  let isMatch := List.zipWith (fun new used => decide (new = old) && !used) newLocal
    st.usedNewIndices
  if isMatch.any id then do
    let first ← argmax isMatch
    let new ← pyGet newLocal (first : Int)
    let post ← pySet st.post (slot : Int) new
    let usedNewIndices ← pySet st.usedNewIndices (first : Int) true
    let preservedPositions ← pySet st.preservedPositions (slot : Int) true
    pure { post, usedNewIndices, preservedPositions }
  else pure st

/-- The positions of a mask in order: the others get a sentinel and are sorted behind. -/
def maskedPositions (sort : Argsort Int) (slotsPerGpu : Nat) (mask : List Bool) : List Nat :=
  sort.run (mask.zipIdx.map fun e => if e.1 then (e.2 : Int) else (slotsPerGpu : Int) + 1)

/-- The slots of a rank in a layer: first the experts that stay, then the others. -/
def preserveLocal (sort : Argsort Int) (slotsPerGpu : Nat) (oldLocal newLocal : List Int) :
    Py (List Int) := do
  let st ← (List.range slotsPerGpu).foldlM (preserveSlot oldLocal newLocal)
    { post := newLocal
      usedNewIndices := List.replicate slotsPerGpu false
      preservedPositions := List.replicate slotsPerGpu false }
  let remainingMask := st.usedNewIndices.map (!·)
  let fillMask := st.preservedPositions.map (!·)
  let takeCount := min (remainingMask.count true) (fillMask.count true)
  let srcPos := (maskedPositions sort slotsPerGpu remainingMask).take takeCount
  let dstPos := (maskedPositions sort slotsPerGpu fillMask).take takeCount
  let src ← srcPos.mapM fun i : Nat => pyGet newLocal i
  (dstPos.zip src).foldlM (fun post e => pySet post (e.1 : Int) e.2) st.post

def preserveRow (sort : Argsort Int) (numRanks slotsPerGpu : Nat) (old new : List Int) :
    Py (List Int) := do
  let ranks ← (List.range numRanks).mapM fun gpu =>
    preserveLocal sort slotsPerGpu ((old.drop (gpu * slotsPerGpu)).take slotsPerGpu)
      ((new.drop (gpu * slotsPerGpu)).take slotsPerGpu)
  pure ranks.flatten

/-- `preserve_intragpu_slots`, of `numPhyExperts` slots in every layer. -/
def preserveIntragpuSlots (sort : Argsort Int) (numPhyExperts : Nat) (phy2log : List (List Int))
    (numRanks : Nat) (oldPhy2log : List (List Int)) : Py (List (List Int)) :=
  if numRanks = 0 ∨ numPhyExperts % numRanks ≠ 0 then pure phy2log
  else (oldPhy2log.zip phy2log).mapM fun e =>
    preserveRow sort numRanks (numPhyExperts / numRanks) e.1 e.2

def rebalanceExperts [Add W] [Zero W] [Neg W] [Div W] [NatCast W] (sort : Sorting W)
    (numLogicalExperts : Nat) (weight : List (List W))
    (numReplicas numGroups numNodes numRanks : Nat)
    (oldGlobalExpertIndices : Option (List (List Int))) : Py (List (List Int)) := do
  let phy2log ←
    if (← pyDivides numNodes numGroups) = true then
      rebalanceExpertsHierarchical sort.weights numLogicalExperts weight numReplicas numGroups
        numNodes numRanks
    else
      rebalanceExpertsHierarchical sort.weights numLogicalExperts weight numReplicas 1 1 numRanks
  match oldGlobalExpertIndices with
  | none => pure phy2log
  | some oldPhy2log =>
    preserveIntragpuSlots sort.priorities numReplicas phy2log numRanks oldPhy2log

end VllmCore.Eplb.DefaultPolicy
