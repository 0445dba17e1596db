import VllmCore.Support.Columns
import VllmCore.Support.Py
/-!
# Block tables of the persistent batch

One table for each KV cache group, with a row of block ids for each request in
the batch.  Where the attention kernel uses smaller blocks than the KV cache manager,
each id of the manager stands for several kernel blocks.
-/

namespace VllmCore

open Function List Support

structure BlockTable where
  blocksPerKvBlock : Nat := 1
  maxNumBlocksPerReq : Nat
  blockTable : Nat → Nat → Nat := fun _ _ => 0
  numBlocksPerRow : Nat → Nat := fun _ => 0

namespace BlockTable

def mapToKernelBlocks (kvManagerBlockIds : List Nat) (blocksPerKvBlock : Nat) : List Nat :=
  if blocksPerKvBlock = 1 then kvManagerBlockIds
  else kvManagerBlockIds.flatMap fun b =>
    (List.range blocksPerKvBlock).map (b * blocksPerKvBlock + ·)

def appendRow (t : BlockTable) (blockIds : List Nat) (rowIdx : Nat) : Py BlockTable := do
  if blockIds = [] then
    return t
  let blockIds := mapToKernelBlocks blockIds t.blocksPerKvBlock
  let start := t.numBlocksPerRow rowIdx
  -- the slice assignment fails where the row is too short
  require (start + blockIds.length ≤ t.maxNumBlocksPerReq)
    (.valueError "could not broadcast input array")
  return { t with
    numBlocksPerRow := update t.numBlocksPerRow rowIdx (start + blockIds.length)
    blockTable := update t.blockTable rowIdx
      (writeSlice (t.blockTable rowIdx) start blockIds) }

def addRow (t : BlockTable) (blockIds : List Nat) (rowIdx : Nat) : Py BlockTable :=
  appendRow { t with numBlocksPerRow := update t.numBlocksPerRow rowIdx 0 } blockIds
    rowIdx

def clearRow (t : BlockTable) (rowIdx : Nat) : BlockTable :=
  { t with
    blockTable := update t.blockTable rowIdx
      (copyPrefix (t.blockTable rowIdx) (fun _ => 0) (t.numBlocksPerRow rowIdx))
    numBlocksPerRow := update t.numBlocksPerRow rowIdx 0 }

def moveRow (t : BlockTable) (src tgt : Nat) : BlockTable :=
  let numBlocks := t.numBlocksPerRow src
  { t with
    blockTable := update t.blockTable tgt
      (copyPrefix (t.blockTable tgt) (t.blockTable src) numBlocks)
    numBlocksPerRow := update t.numBlocksPerRow tgt numBlocks }

/-- `swap_row`; both arrays are read through index lists, which copies. -/
def swapRow (t : BlockTable) (src tgt : Nat) : BlockTable :=
  { t with
    numBlocksPerRow := swapEntries t.numBlocksPerRow src tgt
    blockTable := swapEntries t.blockTable src tgt }

def row (t : BlockTable) (rowIdx : Nat) : List Nat :=
  rowPrefix (t.blockTable rowIdx) (t.numBlocksPerRow rowIdx)

@[simp] theorem mapToKernelBlocks_nil (n : Nat) : mapToKernelBlocks [] n = [] := by
  simp [mapToKernelBlocks]

variable {t t' : BlockTable} {ids : List Nat} {i : Nat}

theorem appendRow_spec (h : t.appendRow ids i = .ok t') :
    t'.row i = t.row i ++ mapToKernelBlocks ids t.blocksPerKvBlock ∧
      t'.blocksPerKvBlock = t.blocksPerKvBlock ∧ ∀ k ≠ i, t'.row k = t.row k := by
  unfold appendRow at h
  split at h
  · rename_i hnil
    simp only [pure_ok] at h
    subst h hnil
    simp
  · simp only [bind_ok, require_ok, pure_ok] at h
    obtain ⟨_, _, rfl⟩ := h
    refine ⟨?_, rfl, ?_⟩
    · simp only [row, update_self]
      exact rowPrefix_writeSlice _ _ _
    · intro k hk
      simp [row, update_of_ne hk]

theorem addRow_spec (h : t.addRow ids i = .ok t') :
    t'.row i = mapToKernelBlocks ids t.blocksPerKvBlock ∧
      t'.blocksPerKvBlock = t.blocksPerKvBlock ∧ ∀ k ≠ i, t'.row k = t.row k := by
  obtain ⟨hself, hsize, hother⟩ := appendRow_spec h
  refine ⟨?_, hsize, ?_⟩
  · simpa [row] using hself
  · intro k hk
    rw [hother k hk]
    simp [row, update_of_ne hk]

theorem clearRow_row (t : BlockTable) {k : Nat} (h : k ≠ i) : (t.clearRow i).row k = t.row k := by
  simp [row, clearRow, update_of_ne h]

theorem moveRow_row (t : BlockTable) (src tgt k : Nat) :
    (t.moveRow src tgt).row k = if k = tgt then t.row src else t.row k := by
  by_cases hk : k = tgt
  · subst hk
    simp only [row, moveRow, update_self]
    exact rowPrefix_copyPrefix _ _ (Nat.le_refl _)
  · rw [if_neg hk]
    simp [row, moveRow, update_of_ne hk]

theorem swapRow_row (t : BlockTable) (src tgt k : Nat) :
    (t.swapRow src tgt).row k =
      if k = tgt then t.row src else if k = src then t.row tgt else t.row k := by
  simp only [row, swapRow, swapEntries_apply]
  split
  · rfl
  · split <;> rfl

end BlockTable

/-- `MultiGroupBlockTable`: one table for each KV cache group. -/
structure MultiGroupBlockTable where
  blockTables : List BlockTable

namespace MultiGroupBlockTable

/-- The loop over the tables that reads `block_ids[i]` for the `i`-th one. -/
def forEachTable (f : BlockTable → List Nat → Py BlockTable) :
    List BlockTable → List (List Nat) → Py (List BlockTable)
  | [], _ => .ok []
  | _ :: _, [] => .error (.indexError "tuple index out of range")
  | t :: ts, ids :: rest => do
    let t ← f t ids
    let ts ← forEachTable f ts rest
    return t :: ts

def addRow (m : MultiGroupBlockTable) (blockIds : List (List Nat)) (rowIdx : Nat) :
    Py MultiGroupBlockTable := do
  let ts ← forEachTable (fun t ids => t.addRow ids rowIdx) m.blockTables blockIds
  return ⟨ts⟩

def clearRow (m : MultiGroupBlockTable) (rowIdx : Nat) : MultiGroupBlockTable :=
  ⟨m.blockTables.map (·.clearRow rowIdx)⟩

def moveRow (m : MultiGroupBlockTable) (src tgt : Nat) : MultiGroupBlockTable :=
  ⟨m.blockTables.map (·.moveRow src tgt)⟩

def swapRow (m : MultiGroupBlockTable) (src tgt : Nat) : MultiGroupBlockTable :=
  ⟨m.blockTables.map (·.swapRow src tgt)⟩

def row (m : MultiGroupBlockTable) (rowIdx : Nat) : List (List Nat) :=
  m.blockTables.map (·.row rowIdx)

/-- The ratios between the block sizes, which no operation changes. -/
def ratios (m : MultiGroupBlockTable) : List Nat := m.blockTables.map (·.blocksPerKvBlock)

def kernelBlocks (ratios : List Nat) (blockIds : List (List Nat)) : List (List Nat) :=
  List.zipWith (fun n ids => BlockTable.mapToKernelBlocks ids n) ratios blockIds

variable {β : Type} {f : BlockTable → List Nat → Py BlockTable} {g : BlockTable → β}
  {m m' : MultiGroupBlockTable} {ids : List (List Nat)} {i : Nat}

theorem forEachTable_zipWith {e : BlockTable → List Nat → β}
    (hf : ∀ t ids t', f t ids = .ok t' → g t' = e t ids) :
    ∀ {ts : List BlockTable} {blockIds : List (List Nat)} {ts' : List BlockTable},
      forEachTable f ts blockIds = .ok ts' →
        ts.length ≤ blockIds.length ∧ ts'.map g = List.zipWith e ts blockIds := by
  intro ts
  induction ts with
  | nil =>
    intro blockIds ts' h
    cases h
    exact ⟨Nat.zero_le _, rfl⟩
  | cons t ts ih =>
    intro blockIds ts' h
    cases blockIds with
    | nil => cases h
    | cons ids rest =>
      simp only [forEachTable, bind_ok, pure_ok] at h
      obtain ⟨t', ht, ts'', hts, rfl⟩ := h
      obtain ⟨hlen, hmap⟩ := ih hts
      rw [map_cons, hf t ids t' ht, hmap, zipWith_cons_cons]
      exact ⟨Nat.succ_le_succ hlen, rfl⟩

theorem forEachTable_map (hf : ∀ t ids t', f t ids = .ok t' → g t' = g t)
    {ts : List BlockTable} {blockIds : List (List Nat)} {ts' : List BlockTable}
    (h : forEachTable f ts blockIds = .ok ts') : ts'.map g = ts.map g := by
  obtain ⟨hlen, hmap⟩ := forEachTable_zipWith hf h
  rw [hmap, ← map_uncurry_zip_eq_zipWith, ← map_fst_zip hlen, map_map, map_fst_zip hlen]
  rfl

theorem addRow_spec (h : m.addRow ids i = .ok m') :
    m'.row i = kernelBlocks m.ratios ids ∧ m'.ratios = m.ratios ∧
      ∀ k ≠ i, m'.row k = m.row k := by
  unfold addRow at h
  simp only [bind_ok, pure_ok] at h
  obtain ⟨ts, hts, rfl⟩ := h
  refine ⟨?_, ?_, ?_⟩
  · rw [kernelBlocks, ratios, zipWith_map_left]
    exact (forEachTable_zipWith (fun t ids t' ht => (BlockTable.addRow_spec ht).1) hts).2
  · exact forEachTable_map (fun t ids t' ht => (BlockTable.addRow_spec ht).2.1) hts
  · intro k hk
    exact forEachTable_map (fun t ids t' ht => (BlockTable.addRow_spec ht).2.2 k hk) hts

theorem clearRow_row (m : MultiGroupBlockTable) {k : Nat} (h : k ≠ i) :
    (m.clearRow i).row k = m.row k := by
  simp [row, clearRow, comp_def, BlockTable.clearRow_row _ h]

theorem moveRow_row (m : MultiGroupBlockTable) (src tgt k : Nat) :
    (m.moveRow src tgt).row k = if k = tgt then m.row src else m.row k := by
  simp only [row, moveRow, map_map, comp_def, BlockTable.moveRow_row]
  split <;> rfl

theorem swapRow_row (m : MultiGroupBlockTable) (src tgt k : Nat) :
    (m.swapRow src tgt).row k =
      if k = tgt then m.row src else if k = src then m.row tgt else m.row k := by
  simp only [row, swapRow, map_map, comp_def, BlockTable.swapRow_row]
  split
  · rfl
  · split <;> rfl

@[simp] theorem clearRow_ratios (m : MultiGroupBlockTable) (i : Nat) :
    (m.clearRow i).ratios = m.ratios := by
  simp [ratios, clearRow, BlockTable.clearRow]

@[simp] theorem moveRow_ratios (m : MultiGroupBlockTable) (src tgt : Nat) :
    (m.moveRow src tgt).ratios = m.ratios := by
  simp [ratios, moveRow, BlockTable.moveRow]

@[simp] theorem swapRow_ratios (m : MultiGroupBlockTable) (src tgt : Nat) :
    (m.swapRow src tgt).ratios = m.ratios := by
  simp [ratios, swapRow, BlockTable.swapRow]

end MultiGroupBlockTable

end VllmCore
