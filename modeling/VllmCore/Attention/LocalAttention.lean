import VllmCore.Support.Ragged
import Mathlib.Tactic.Ring
/-!
# Local attention as a batch of virtual requests

`make_local_attention_virtual_batches` of `attention/backends/utils.py` cuts every
query at the boundaries of the attention chunks, so that an ordinary causal kernel on
the pieces computes chunked attention.  The arrays are computed as numpy does.
-/

namespace VllmCore.Attention

open Nat Support

/-! ## Masks and indices as numpy assigns them -/

/-- `xs[mask] = values`: the values go to the set entries in turn. -/
def maskAssign {α : Type} : List Bool → List α → List α → List α
  | true :: mask, _ :: xs, v :: values => v :: maskAssign mask xs values
  | true :: mask, x :: xs, [] => x :: maskAssign mask xs []
  | false :: mask, x :: xs, values => x :: maskAssign mask xs values
  | _, xs, _ => xs

/-- `xs[mask]`. -/
def maskSelect {α : Type} (mask : List Bool) (xs : List α) : List α :=
  ((mask.zip xs).filter Prod.fst).map Prod.snd

/-- `xs[indices] = values`. -/
def indexAssign {α : Type} (xs : List α) (indices : List Nat) (values : List α) : List α :=
  (indices.zip values).foldl (fun xs e => xs.set e.1 e.2) xs

/-- `flat.view(rows, -1)`, for rows of the given width. -/
def viewRows {α : Type} (rows width : Nat) (flat : List α) : List (List α) :=
  (List.range rows).map fun v => (flat.drop (v * width)).take width

/-! ## The virtual batches -/

/-- What is read of the metadata of the batch: `block_table.shape[1]` is `numCols`. -/
structure LocalInput where
  queryStartLoc : List Nat
  seqLens : List Nat
  blockTable : List (List Int)
  numCols : Nat

/-- The entries of the metadata that is returned. -/
structure VirtualBatches where
  queryStartLocCpu : List Nat
  seqLensCpu : List Nat
  numComputedTokensCpu : List Nat
  blockTableTensor : List (List Int)
  maxQueryLen : Nat
  maxSeqLen : Nat

/-- An entry of `q_tokens_in_first_block`. -/
def qTokensInFirstBlock (attnChunkSize qSeqlen seqLen : Nat) : Nat :=
  min (attnChunkSize - (seqLen - qSeqlen) % attnChunkSize) qSeqlen

/-- An entry of `tokens_in_last_block`: `%` of a negative number is negative or 0. -/
def tokensInLastBlock (attnChunkSize seqLen : Nat) : Nat :=
  ((attnChunkSize : Int) + Int.fmod seqLen (-attnChunkSize)).toNat

/-- An entry of `local_blocks`. -/
def localBlocksOf (attnChunkSize qSeqlen qFirst : Nat) : Nat :=
  1 + (cdiv ((qSeqlen - qFirst : Nat) : Int) attnChunkSize).toNat

namespace LocalInput

variable (attnChunkSize : Nat) (b : LocalInput)

def qSeqlens : List Nat := npSub b.queryStartLoc.tail b.queryStartLoc.dropLast

def qTokensInFirstBlock : List Nat :=
  List.zipWith (Attention.qTokensInFirstBlock attnChunkSize) b.qSeqlens b.seqLens

def tokensInLastBlock : List Nat := b.seqLens.map (Attention.tokensInLastBlock attnChunkSize)

def localBlocks : List Nat :=
  List.zipWith (localBlocksOf attnChunkSize) b.qSeqlens (b.qTokensInFirstBlock attnChunkSize)

def cuNumBlocks : List Nat := cumsum (b.localBlocks attnChunkSize)

def virtualBatches : Nat := (b.localBlocks attnChunkSize).sum

def blockOffsets : List Nat :=
  npRepeat (npSub (b.cuNumBlocks attnChunkSize) (b.localBlocks attnChunkSize))
    (b.localBlocks attnChunkSize)

def arange : List Nat :=
  npSub (List.range' 0 (b.virtualBatches attnChunkSize)) (b.blockOffsets attnChunkSize)

def rarange : List Nat :=
  (npSub (npRepeat (b.localBlocks attnChunkSize) (b.localBlocks attnChunkSize))
    (b.arange attnChunkSize)).map (· - 1)

/-- `seqlens_q_local`, with the entries of the first blocks set. -/
def seqlensQFirst : List Nat :=
  maskAssign ((b.arange attnChunkSize).map fun a => decide (a = 0))
    (npRepeat (npSub b.qSeqlens (b.qTokensInFirstBlock attnChunkSize))
      (b.localBlocks attnChunkSize))
    (b.qTokensInFirstBlock attnChunkSize)

def seqlensQLocal : List Nat :=
  maskAssign ((b.arange attnChunkSize).map fun a => decide (0 < a))
    (b.seqlensQFirst attnChunkSize)
    (maskSelect ((b.arange attnChunkSize).map fun a => decide (0 < a))
      (List.zipWith (fun len a => min (len - attnChunkSize * (a - 1)) attnChunkSize)
        (b.seqlensQFirst attnChunkSize) (b.arange attnChunkSize)))

def cuSeqlensQLocal : List Nat := 0 :: cumsum (b.seqlensQLocal attnChunkSize)

def seqlensKLocal : List Nat :=
  indexAssign (List.replicate (b.virtualBatches attnChunkSize) attnChunkSize)
    ((b.cuNumBlocks attnChunkSize).map (· - 1)) (b.tokensInLastBlock attnChunkSize)

def kSeqstartsAbsolute : List Nat :=
  npSub (npRepeat b.seqLens (b.localBlocks attnChunkSize))
    (npAdd ((b.rarange attnChunkSize).map (· * attnChunkSize))
      (npRepeat (b.tokensInLastBlock attnChunkSize) (b.localBlocks attnChunkSize)))

/-- `block_indices`: the pages of every virtual batch, clipped to the columns of the table. -/
def blockIndices (blockSize : Nat) : List Nat :=
  ((b.kSeqstartsAbsolute attnChunkSize).map (· / blockSize)).flatMap fun start =>
    (List.range (attnChunkSize / blockSize)).map fun page => min (start + page) (b.numCols - 1)

def batchIndices (blockSize : Nat) : List Nat :=
  npRepeat (List.range b.seqLens.length)
    ((b.localBlocks attnChunkSize).map (· * (attnChunkSize / blockSize)))

/-- `block_table[batch_indices, block_indices]`. -/
def gatherPages (blockSize : Nat) : Py (List Int) :=
  ((b.batchIndices attnChunkSize blockSize).zip (b.blockIndices attnChunkSize blockSize)).mapM
    fun e => do
      let row ← pyGet b.blockTable e.1
      pyGet row e.2

end LocalInput

def makeLocalAttentionVirtualBatches (attnChunkSize : Nat) (b : LocalInput) (blockSize : Nat) :
    Py VirtualBatches := do
  require (b.seqLens ≠ []) (.indexError "index -1 is out of bounds for axis 0 with size 0")
  require (blockSize ≠ 0) (.zeroDivisionError "integer modulo by zero")
  pyAssert (attnChunkSize % blockSize = 0) "attn_chunk_size is not divisible by block_size"
  let pages ← b.gatherPages attnChunkSize blockSize
  return {
    queryStartLocCpu := b.cuSeqlensQLocal attnChunkSize
    seqLensCpu := b.seqlensKLocal attnChunkSize
    numComputedTokensCpu := npSub (b.seqlensKLocal attnChunkSize) (b.seqlensQLocal attnChunkSize)
    blockTableTensor :=
      viewRows (b.virtualBatches attnChunkSize) (attnChunkSize / blockSize) pages
    maxQueryLen := (b.seqlensQLocal attnChunkSize).foldl max 0
    maxSeqLen := (b.seqlensKLocal attnChunkSize).foldl max 0 }

/-! ## The chunks of one query -/

theorem tokensInLastBlock_eq {C b w : Nat} (hw : w < C) :
    tokensInLastBlock C (C * b + w + 1) = w + 1 := by
  unfold tokensInLastBlock
  have hneg : Int.fmod ((C * b + w + 1 : Nat) : Int) (-(C : Int)) =
      -Int.fmod (-((C * b + w + 1 : Nat) : Int)) C := by
    have := Int.neg_fmod_neg (-((C * b + w + 1 : Nat) : Int)) (C : Int)
    rwa [neg_neg] at this
  have hmod : Int.fmod (-((C * b + w + 1 : Nat) : Int)) C = C - 1 - w := by
    have hsplit : -((C * b + w + 1 : Nat) : Int) = ((C : Int) - 1 - w) + C * (-(b : Int) - 1) := by
      push_cast
      ring
    rw [hsplit, Int.add_mul_fmod_self_left]
    exact Int.fmod_eq_of_lt (by omega) (by omega)
  omega

theorem cdiv_add_one {C k w : Nat} (hw : w < C) :
    cdiv ((C * k + w + 1 : Nat) : Int) C = k + 1 := by
  have hC : 0 < C := by omega
  apply le_antisymm
  · rw [cdiv_le_iff hC]
    push_cast
    nlinarith
  · have := (lt_cdiv_iff (a := ((C * k + w + 1 : Nat) : Int)) (n := (k : Int)) hC).mpr (by
      push_cast
      nlinarith)
    omega

/-- A request of the batch, whose query is not empty, with its row of the block table. -/
structure LocalRequest where
  qLen : Nat
  seqLen : Nat
  pages : List Int
  pos : 0 < qLen
  le : qLen ≤ seqLen

namespace LocalRequest

variable (C : Nat) (r : LocalRequest)

def start : Nat := r.seqLen - r.qLen

def firstChunk : Nat := r.start / C

def numBlocks : Nat := localBlocksOf C r.qLen (qTokensInFirstBlock C r.qLen r.seqLen)

/-- The length of the `j`-th piece of the query, as it is computed. -/
def qPart (j : Nat) : Nat :=
  if j = 0 then qTokensInFirstBlock C r.qLen r.seqLen
  else min (r.qLen - qTokensInFirstBlock C r.qLen r.seqLen - C * (j - 1)) C

/-- The number of keys of the `j`-th piece. -/
def kPart (j : Nat) : Nat := if j + 1 = r.numBlocks C then tokensInLastBlock C r.seqLen else C

/-- The position of the first key of the `j`-th piece. -/
def kStart (j : Nat) : Nat :=
  r.seqLen - ((r.numBlocks C - j - 1) * C + tokensInLastBlock C r.seqLen)

/-- The position of the first token of the `j`-th piece. -/
def cut (j : Nat) : Nat := min (max r.start (C * (r.firstChunk C + j))) r.seqLen

structure Placed (a b u w : Nat) : Prop where
  le : a ≤ b
  u_lt : u < C
  w_lt : w < C
  start : r.start = C * a + u
  seqLen : r.seqLen = C * b + w + 1

variable {C} {r}

theorem exists_placed (hC : 0 < C) : ∃ a b u w, r.Placed C a b u w := by
  have hpos := r.pos
  have hle := r.le
  have hmono : r.start / C ≤ (r.seqLen - 1) / C := by
    apply Nat.div_le_div_right
    unfold start
    omega
  refine ⟨r.start / C, (r.seqLen - 1) / C, r.start % C, (r.seqLen - 1) % C, hmono,
    mod_lt _ hC, mod_lt _ hC, (div_add_mod _ _).symm, ?_⟩
  rw [div_add_mod]
  omega

namespace Placed

variable {a b u w : Nat}

theorem firstChunk (h : r.Placed C a b u w) : r.firstChunk C = a := by
  unfold LocalRequest.firstChunk
  rw [h.start, mul_add_div (by have := h.u_lt; omega), div_eq_of_lt h.u_lt, add_zero]

theorem start_mod (h : r.Placed C a b u w) : (r.seqLen - r.qLen) % C = u := by
  show r.start % C = u
  rw [h.start, mul_add_mod, mod_eq_of_lt h.u_lt]

theorem chunk_succ (C i : Nat) : C * (i + 1) = C * i + C := mul_succ C i

theorem chunk_mono {i j : Nat} (hij : i ≤ j) : C * i ≤ C * j := mul_le_mul_left C hij

section

variable (h : r.Placed C a b u w)

include h

theorem qFirst : qTokensInFirstBlock C r.qLen r.seqLen =
    if a = b then r.qLen else C - u := by
  have hw := h.w_lt
  have hstart := h.start
  have hseq := h.seqLen
  have hle := r.le
  unfold LocalRequest.start at hstart
  unfold qTokensInFirstBlock
  rw [h.start_mod]
  split
  next hab =>
    rw [← hab] at hseq
    omega
  next hab =>
    have hab' := h.le
    have := chunk_mono (C := C) (i := a + 1) (j := b) (by omega)
    rw [chunk_succ] at this
    omega

theorem numBlocks : r.numBlocks C = b - a + 1 := by
  have hu := h.u_lt
  have hw := h.w_lt
  have hstart := h.start
  have hseq := h.seqLen
  have hle := h.le
  have hrle := r.le
  unfold LocalRequest.start at hstart
  unfold LocalRequest.numBlocks localBlocksOf
  rw [h.qFirst]
  split
  next hab =>
    have hzero : cdiv ((r.qLen - r.qLen : Nat) : Int) C = 0 := by
      simp [cdiv]
    omega
  next hab =>
    have hrest : r.qLen - (C - u) = C * (b - a - 1) + w + 1 := by
      have hsplit : C * b = C * (b - a - 1) + C * a + C := by
        calc C * b = C * (b - a - 1 + a + 1) := by
              congr 1
              omega
          _ = C * (b - a - 1) + C * a + C := by ring
      omega
    rw [hrest, cdiv_add_one hw]
    omega

theorem last : tokensInLastBlock C r.seqLen = w + 1 := by
  rw [h.seqLen]
  exact tokensInLastBlock_eq h.w_lt

theorem kStart {j : Nat} (hj : j < r.numBlocks C) :
    r.kStart C j = C * (a + j) := by
  have hseq := h.seqLen
  have hle := h.le
  rw [h.numBlocks] at hj
  unfold LocalRequest.kStart
  rw [h.numBlocks, h.last, hseq]
  have hsplit : C * b = (b - a + 1 - j - 1) * C + C * (a + j) := by
    calc C * b = C * (b - a + 1 - j - 1 + (a + j)) := by
          congr 1
          omega
      _ = (b - a + 1 - j - 1) * C + C * (a + j) := by ring
  omega

theorem kPart {j : Nat} (hj : j < r.numBlocks C) :
    r.kPart C j = min (C * (a + j) + C) r.seqLen - C * (a + j) := by
  have hseq := h.seqLen
  have hw := h.w_lt
  have hle := h.le
  unfold LocalRequest.kPart
  rw [h.numBlocks] at hj ⊢
  split
  next hlast =>
    rw [h.last, hseq, show a + j = b by omega]
    omega
  next hlast =>
    have := chunk_mono (C := C) (i := a + j + 1) (j := b) (by omega)
    rw [chunk_succ] at this
    omega

theorem qPart {j : Nat} (hj : j < r.numBlocks C) :
    r.cut C j + r.qPart C j = r.cut C (j + 1) := by
  have hseq := h.seqLen
  have hw := h.w_lt
  have hu := h.u_lt
  have hle := h.le
  have hstart := h.start
  have hrle := r.le
  have hrs : r.start = r.seqLen - r.qLen := rfl
  rw [h.numBlocks] at hj
  unfold LocalRequest.cut LocalRequest.qPart
  rw [h.firstChunk, h.qFirst, ← add_assoc, chunk_succ]
  by_cases hj0 : j = 0
  · rw [if_pos hj0, hj0, add_zero]
    split
    next hab =>
      rw [← hab] at hseq
      omega
    next hab =>
      have := chunk_mono (C := C) (i := a + 1) (j := b) (by omega)
      rw [chunk_succ] at this
      omega
  · rw [if_neg hj0, if_neg (by omega)]
    have haj := chunk_mono (C := C) (i := a + 1) (j := a + j) (by omega)
    have hsplit : C * (a + j) = C * a + C + C * (j - 1) := by
      calc C * (a + j) = C * (a + 1 + (j - 1)) := by
            congr 1
            omega
        _ = C * a + C + C * (j - 1) := by ring
    omega

theorem cut_zero : r.cut C 0 = r.start := by
  have hstart := h.start
  have hrs : r.start = r.seqLen - r.qLen := rfl
  unfold LocalRequest.cut
  rw [h.firstChunk, add_zero]
  omega

theorem cut_numBlocks : r.cut C (r.numBlocks C) = r.seqLen := by
  have hseq := h.seqLen
  have hw := h.w_lt
  have hle := h.le
  unfold LocalRequest.cut
  rw [h.numBlocks, h.firstChunk, show a + (b - a + 1) = b + 1 by omega, chunk_succ]
  omega

end

end Placed

end LocalRequest

end VllmCore.Attention
