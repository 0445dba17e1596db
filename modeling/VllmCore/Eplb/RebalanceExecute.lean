import VllmCore.Support.Unique
/-!
# Exchanging expert weights

`move_to_buffer` and `move_from_buffer` of `vllm/distributed/eplb/rebalance_execute.py`: on
every rank, rows that other local rows have the expert of are copied, the others are sent
and received, and all of them go through buffers.  Sender and receiver each work out who
sends to whom.

A rank has some rows of each tensor of a layer.  Tensors are functions of a tensor and a row,
masks functions of a row; an index of −1 is an empty slot.  Ranks are those of the group.
-/

namespace VllmCore.Eplb

open Support

abbrev Tensors (α : Type) := Nat → Nat → α

variable {α : Type}

/-- `indices[ep_rank * num_local_experts + row]`. -/
def localId (n : Nat) (indices : List Int) (rank row : Nat) : Int :=
  indices.getD (rank * n + row) (-1)

/-- `xs.index(x)`. -/
def pyIndexOf (xs : List Nat) (x : Nat) : Py Nat :=
  if x ∈ xs then .ok (xs.idxOf x) else .error (.valueError "is not in list")

/-! ## `get_ep_ranks_with_experts_batch` -/

/-- The order of `lexsort`: by expert, then by position. -/
def lexLe (indices : List Int) (p q : Nat) : Prop :=
  indices.getD p (-1) < indices.getD q (-1) ∨ indices.getD p (-1) = indices.getD q (-1) ∧ p ≤ q

instance (indices : List Int) : DecidableRel (lexLe indices) := fun _ _ =>
  inferInstanceAs (Decidable (_ ∨ _ ∧ _))

def sortedPositions (experts indices : List Int) : List Nat :=
  ((List.range indices.length).filter fun p => indices.getD p (-1) ∈ experts).insertionSort
    (lexLe indices)

/-- For each run of one expert, its ranks in the order of their first appearance. -/
def expertRanks (n : Nat) (experts indices : List Int) : List (Int × List Nat) :=
  (runs (fun p => indices.getD p (-1)) (sortedPositions experts indices)).map fun run =>
    (run.1, firstAppearance (run.2.map (· / n)))

def fillMissing (experts : List Int) (d : Dict Int (List Nat)) : Dict Int (List Nat) :=
  experts.foldl (fun d e => if e ∈ d.keys then d else d.set e []) d

/-- `get_ep_ranks_with_experts_batch`: the ranks that have an expert, and those that need it
and do not have it. -/
def getEpRanksWithExpertsBatch (experts : List Int) (n : Nat) (oldIndices newIndices : List Int) :
    Dict Int (List Nat) × Dict Int (List Nat) :=
  if experts = [] then (.empty, .empty)
  else
    let uniqueExperts := (npUnique experts).map Prod.fst
    let ranksToSend : Dict Int (List Nat) :=
      (expertRanks n uniqueExperts oldIndices).foldl (fun d e => d.set e.1 e.2) .empty
    let ranksToRecv : Dict Int (List Nat) :=
      (expertRanks n uniqueExperts newIndices).foldl (fun d e =>
        d.set e.1 (e.2.filter (· ∉ (ranksToSend.get? e.1).getD []))) .empty
    (fillMissing uniqueExperts ranksToSend, fillMissing uniqueExperts ranksToRecv)

/-! ## `move_to_buffer` -/

/-- A `P2POp`: the row of a tensor, and the other rank. -/
inductive P2POp
  | isend (tensor row peer : Nat)
  | irecv (tensor row peer : Nat)
  deriving DecidableEq

def isUnchanged (n : Nat) (oldIndices newIndices : List Int) (rank row : Nat) : Bool :=
  localId n oldIndices rank row == localId n newIndices rank row

def isReceivedLocally (n : Nat) (oldIndices newIndices : List Int) (rank row : Nat) : Bool :=
  isUnchanged n oldIndices newIndices rank row ||
    (localId n newIndices rank row != -1 &&
      (List.range n).any fun r => localId n oldIndices rank r == localId n newIndices rank row)

def firstRows (ids : Nat → Int) (rows : List Nat) : List (Int × Nat) :=
  (npUnique (rows.map ids)).map fun e => (e.1, rows.getD e.2 0)

/-- `send_expert_ids` and `send_src_rows`, as far as they are filled. -/
def sendRows (n : Nat) (oldIndices : List Int) (rank : Nat) : List (Int × Nat) :=
  firstRows (localId n oldIndices rank)
    ((List.range n).filter fun r => localId n oldIndices rank r != -1)

/-- `recv_expert_ids` and `recv_dst_rows`, as far as they are filled. -/
def recvRows (n : Nat) (oldIndices newIndices : List Int) (rank : Nat) : List (Int × Nat) :=
  firstRows (localId n newIndices rank)
    ((List.range n).filter fun r =>
      !isReceivedLocally n oldIndices newIndices rank r && localId n newIndices rank r != -1)

/-- A row of all tensors is overwritten. -/
def copyRow (b : Tensors α) (dst : Nat) (row : Nat → α) : Tensors α :=
  fun tensor r => if r = dst then row tensor else b tensor r

def localMoves (n : Nat) (oldIndices newIndices : List Int) (rank : Nat) (w b : Tensors α) :
    Tensors α :=
  ((List.range n).filter fun r => !isUnchanged n oldIndices newIndices rank r &&
      isReceivedLocally n oldIndices newIndices rank r).foldl
    (fun b dst =>
      match (sendRows n oldIndices rank).lookup (localId n newIndices rank dst) with
      | some src => copyRow b dst fun tensor => w tensor src
      | none => b) b

def recvRanks (rank : Nat) (ranksToSend ranksToRecv : List Nat) : Py (List Nat) :=
  if ranksToSend = [] ∨ ranksToRecv = [] then .ok []
  else do
    let numDstPerSender := ranksToRecv.length / ranksToSend.length
    let senderPos ← pyIndexOf ranksToSend rank
    let recvBegin := senderPos * numDstPerSender
    let recvEnd := recvBegin + numDstPerSender
    let remainderStart := ranksToSend.length * numDstPerSender
    let recverPos := remainderStart + senderPos
    .ok ((ranksToRecv.take recvEnd).drop recvBegin ++ (ranksToRecv[recverPos]?).toList)

def sendRank (rank : Nat) (ranksToSend ranksToRecv : List Nat) : Py (Option Nat) :=
  if ranksToSend = [] ∨ ranksToRecv = [] then .ok none
  else do
    let numDstPerSender := ranksToRecv.length / ranksToSend.length
    let recverPos ← pyIndexOf ranksToRecv rank
    let remainderStart := ranksToSend.length * numDstPerSender
    let src ← if recverPos < remainderStart then
        pyGet ranksToSend (recverPos / numDstPerSender : Nat)
      else pyGet ranksToSend (recverPos - remainderStart : Nat)
    .ok (some src)

/-- `argsort(experts, kind="stable")`. -/
def sortExperts (rows : List (Int × Nat)) : List (Int × Nat) :=
  rows.insertionSort fun a b => a.1 ≤ b.1

def postSends (numTensors n : Nat) (oldIndices newIndices : List Int) (rank : Nat) :
    Py (List P2POp) := do
  let rows := sortExperts (sendRows n oldIndices rank)
  let maps := getEpRanksWithExpertsBatch (rows.map Prod.fst) n oldIndices newIndices
  let ops ← rows.mapM fun e : Int × Nat => do
    let ranksToSend ← maps.1.get e.1
    let ranksToRecv ← maps.2.get e.1
    let dsts ← recvRanks rank ranksToSend ranksToRecv
    .ok (dsts.flatMap fun dst => (List.range numTensors).map fun j => P2POp.isend j e.2 dst)
  .ok ops.flatten

def postRecvs (numTensors n : Nat) (oldIndices newIndices : List Int) (rank : Nat) :
    Py (List P2POp) := do
  let rows := sortExperts (recvRows n oldIndices newIndices rank)
  let maps := getEpRanksWithExpertsBatch (rows.map Prod.fst) n oldIndices newIndices
  let ops ← rows.mapM fun e : Int × Nat => do
    let ranksToSend ← maps.1.get e.1
    let ranksToRecv ← maps.2.get e.1
    let src ← sendRank rank ranksToSend ranksToRecv
    .ok (src.toList.flatMap fun src =>
      (List.range numTensors).map fun j => P2POp.irecv j e.2 src)
  .ok ops.flatten

/-- What `move_to_buffer` leaves and returns: the buffers after the local moves, the
operations that are then executed, and the metadata of the receives. -/
structure MoveToBuffer (α : Type) where
  buffers : Tensors α
  p2pOps : List P2POp
  unchanged : Nat → Bool
  receivedLocally : Nat → Bool
  recvRows : List (Int × Nat)

/-- `move_to_buffer` up to the execution of its operations. -/
def moveToBuffer (numTensors n : Nat) (oldIndices newIndices : List Int) (rank : Nat)
    (w b : Tensors α) : Py (MoveToBuffer α) := do
  pyAssert (oldIndices.length = newIndices.length) ""
  let sends ← postSends numTensors n oldIndices newIndices rank
  let recvs ← postRecvs numTensors n oldIndices newIndices rank
  .ok {
    buffers := localMoves n oldIndices newIndices rank w b
    p2pOps := sends ++ recvs
    unchanged := isUnchanged n oldIndices newIndices rank
    receivedLocally := isReceivedLocally n oldIndices newIndices rank
    recvRows := recvRows n oldIndices newIndices rank }

/-! ## The communication -/

def sendsTo (ops : List P2POp) (peer : Nat) : List (Nat × Nat) :=
  ops.filterMap fun
    | .isend tensor row dst => if dst = peer then some (tensor, row) else none
    | .irecv .. => none

def recvsFrom (ops : List P2POp) (peer : Nat) : List (Nat × Nat) :=
  ops.filterMap fun
    | .irecv tensor row src => if src = peer then some (tensor, row) else none
    | .isend .. => none

def targets (ops : List P2POp) : List (Nat × Nat) :=
  ops.filterMap fun
    | .irecv tensor row _ => some (tensor, row)
    | .isend .. => none

/-- The receives of every rank from every other are as many as the sends, of the same
tensors in the same order. -/
def Matched (numRanks : Nat) (ops : Nat → List P2POp) : Prop :=
  ∀ s < numRanks, ∀ d < numRanks,
    (sendsTo (ops s) d).map Prod.fst = (recvsFrom (ops d) s).map Prod.fst

/-- `batch_isend_irecv` of all ranks, which need not return: where sends and receives match
and no row is received twice, what is received from a rank is what it sent, in order. -/
structure Network (α : Type) where
  exchange : Nat → (Nat → List P2POp) → (Nat → Tensors α) → (Nat → Tensors α) →
    Option (Nat → Tensors α)
  exchange_matched : ∀ numRanks ops w b, Matched numRanks ops →
    (∀ d < numRanks, (targets (ops d)).Nodup) →
    ∃ b', exchange numRanks ops w b = some b' ∧
      (∀ s < numRanks, ∀ d < numRanks, ∀ (k : Nat) snd rcv, (sendsTo (ops s) d)[k]? = some snd →
        (recvsFrom (ops d) s)[k]? = some rcv → b' d rcv.1 rcv.2 = w s snd.1 snd.2) ∧
      ∀ d < numRanks, ∀ tensor row, (tensor, row) ∉ targets (ops d) →
        b' d tensor row = b d tensor row

/-! ## `move_from_buffer` -/

/-- `recv_primary_mask`. -/
def isRecvPrimary (recv : List (Int × Nat)) (row : Nat) : Bool := recv.any fun e => e.2 == row

/-- The row that was received for an expert: by binary search in the sorted experts. -/
def primaryRow (recv : List (Int × Nat)) (expert : Int) : Option Nat :=
  let sorted := sortExperts recv
  let pos := (sorted.takeWhile fun e => e.1 < expert).length
  match sorted[pos]? with
  | some e => if e.1 = expert then some e.2 else none
  | none => none

def copyBack (n : Nat) (m : MoveToBuffer α) (w b : Tensors α) : Tensors α :=
  ((List.range n).filter fun r =>
      !m.unchanged r && (m.receivedLocally r || isRecvPrimary m.recvRows r)).foldl
    (fun w dst => copyRow w dst fun tensor => b tensor dst) w

/-- The rows whose expert was received into another row. -/
def duplicateRows (n : Nat) (m : MoveToBuffer α) (newIndices : List Int) (rank : Nat) :
    List Nat :=
  (List.range n).filter fun r => (!m.unchanged r && !m.receivedLocally r) &&
    (!isRecvPrimary m.recvRows r && localId n newIndices rank r != -1)

def moveFromBuffer (n : Nat) (newIndices : List Int) (rank : Nat) (m : MoveToBuffer α)
    (w b : Tensors α) : Tensors α :=
  let w := copyBack n m w b
  if m.recvRows = [] then w
  else
    (duplicateRows n m newIndices rank).foldl (fun w dst =>
      match primaryRow m.recvRows (localId n newIndices rank dst) with
      | some src => copyRow w dst fun tensor => w tensor src
      | none => w) w

end VllmCore.Eplb
