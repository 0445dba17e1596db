import VllmCore.KVCacheManager
import VllmCore.SingleTypeKVCacheManager.RefCount
/-!
# What a cache hit consists of

Whatever the type of attention, block `i` of the hit of a group is either the
null block or a block stored under the hash of block `i` of the request and the
number of that group.  Since the hashes of one request are pairwise distinct, no
real block occurs twice in a hit.
-/

namespace VllmCore

open List Support

variable {D : Type} [DecidableEq D]

namespace BlockHashListWithBlockSize

theorem getValueAt_injective {l : BlockHashListWithBlockSize D} (hnodup : l.blockHashes.Nodup)
    (hscale : 0 < l.scaleFactor) {i j : Nat} {h : BlockHash D} (hi : l.getValueAt i = .ok h)
    (hj : l.getValueAt j = .ok h) : i = j := by
  have hhead : ∀ {k : Nat}, l.getValueAt k = .ok h →
      l.blockHashes[k * l.scaleFactor]? = h.head? ∧
        k * l.scaleFactor < l.blockHashes.length := by
    intro k hk
    unfold getValueAt at hk
    split at hk
    · rename_i hle
      cases hk
      refine ⟨?_, by omega⟩
      rw [head?_take, if_neg (by omega), head?_drop]
    · cases hk
  obtain ⟨hgi, hli⟩ := hhead hi
  obtain ⟨hgj, _⟩ := hhead hj
  have heq := (getElem?_inj hli hnodup).mp (hgi.trans hgj.symm)
  exact Nat.eq_of_mul_eq_mul_right hscale heq

end BlockHashListWithBlockSize

theorem convertBlockHashes_ok {blockHashes : List D} {hashBlockSize blockSize : Nat}
    {l : BlockHashListWithBlockSize D} (hpos : 0 < blockSize)
    (h : convertBlockHashes blockHashes hashBlockSize blockSize = .ok l) :
    l.blockHashes = blockHashes ∧ 0 < l.scaleFactor ∧
      l.scaleFactor * hashBlockSize = blockSize := by
  unfold convertBlockHashes at h
  split at h
  · rename_i heq
    cases h
    simp [heq]
  · unfold BlockHashListWithBlockSize.create at h
    simp only [bind_ok, pyAssert_ok, pure_ok] at h
    obtain ⟨_, hmod, rfl⟩ := h
    have hdiv := Nat.div_mul_cancel (Nat.dvd_of_mod_eq_zero hmod)
    refine ⟨rfl, ?_, hdiv⟩
    rcases Nat.eq_zero_or_pos (blockSize / hashBlockSize) with h0 | h0
    · rw [h0] at hdiv
      omega
    · exact h0

namespace SingleTypeKVCacheManager

/-! ## Rows -/

/-- Row `i` of a hit: null blocks, or the blocks cached for block `i`. -/
def RowOk (p : BlockPool D) (hashes : BlockHashListWithBlockSize D) (groupIds : List Nat)
    (i : Nat) (row : List BlockId) : Prop :=
  row = List.replicate groupIds.length p.nullBlock ∨
    ∃ h, hashes.getValueAt i = .ok h ∧ p.getCachedBlock h groupIds = some row

/-- All rows are as they should be, the first one being row `offset`. -/
def RowsOk (p : BlockPool D) (hashes : BlockHashListWithBlockSize D) (groupIds : List Nat)
    (offset : Nat) (rows : List (List BlockId)) : Prop :=
  ∀ (i : Nat) (row : List BlockId), rows[i]? = some row →
    RowOk p hashes groupIds (offset + i) row

variable {p : BlockPool D} {hashes : BlockHashListWithBlockSize D} {groupIds : List Nat}

variable {offset alignmentTokens blockSize maxLength : Nat} {rows hit : List (List BlockId)}
  {useEagle : Bool}

theorem RowsOk.take (h : RowsOk p hashes groupIds offset rows) (n : Nat) :
    RowsOk p hashes groupIds offset (rows.take n) := by
  intro i row hi
  rw [getElem?_take] at hi
  split at hi
  · exact h i row hi
  · cases hi

theorem RowsOk.dropLast (h : RowsOk p hashes groupIds offset rows) :
    RowsOk p hashes groupIds offset rows.dropLast := by
  rw [dropLast_eq_take]
  exact h.take _

theorem RowsOk.nulls (offset n : Nat) :
    RowsOk p hashes groupIds offset
      (List.replicate n (List.replicate groupIds.length p.nullBlock)) := by
  intro i row hi
  rw [getElem?_replicate] at hi
  split at hi
  · cases hi
    exact .inl rfl
  · cases hi

theorem RowsOk.append {rows' : List (List BlockId)} (h : RowsOk p hashes groupIds offset rows)
    (h' : RowsOk p hashes groupIds (offset + rows.length) rows') :
    RowsOk p hashes groupIds offset (rows ++ rows') := by
  intro i row hi
  by_cases hlt : i < rows.length
  · rw [getElem?_append_left hlt] at hi
    exact h i row hi
  · rw [getElem?_append_right (by omega)] at hi
    have hrow := h' (i - rows.length) row hi
    rwa [show offset + rows.length + (i - rows.length) = offset + i by omega] at hrow

theorem RowsOk.cons {offset : Nat} {row : List BlockId} {rows : List (List BlockId)}
    (hrow : RowOk p hashes groupIds offset row) (h : RowsOk p hashes groupIds (offset + 1) rows) :
    RowsOk p hashes groupIds offset (row :: rows) := by
  intro i r hi
  cases i with
  | zero =>
    cases hi
    exact hrow
  | succ i =>
    have hr := h i r hi
    rwa [show offset + 1 + i = offset + (i + 1) by omega] at hr

theorem RowsOk.set (h : RowsOk p hashes groupIds 0 rows) {i : Nat} {row : List BlockId}
    (hrow : RowOk p hashes groupIds i row) : RowsOk p hashes groupIds 0 (rows.set i row) := by
  intro j r hj
  rw [getElem?_set] at hj
  rw [Nat.zero_add]
  split at hj
  · rename_i heq
    split at hj
    · cases hj
      exact heq ▸ hrow
    · cases hj
  · have hr := h j r hj
    rwa [Nat.zero_add] at hr

/-! ## The searches -/

theorem scanForward_rowsOk : ∀ {left i : Nat} {rows : List (List BlockId)},
    scanForward p hashes groupIds left i = .ok rows →
      RowsOk p hashes groupIds i rows ∧ rows.length ≤ left := by
  intro left
  induction left with
  | zero =>
    intro i rows h
    cases h
    exact ⟨RowsOk.nulls i 0, Nat.le_refl _⟩
  | succ left ih =>
    intro i rows h
    unfold scanForward at h
    simp only [bind_ok] at h
    obtain ⟨bh, hbh, h⟩ := h
    split at h
    · cases h
      exact ⟨RowsOk.nulls i 0, Nat.zero_le _⟩
    · rename_i cached hcached
      obtain ⟨rest, hrest, rfl⟩ := map_ok.mp h
      obtain ⟨hok, hlen⟩ := ih hrest
      refine ⟨RowsOk.cons (.inr ⟨bh, hbh, hcached⟩) hok, ?_⟩
      rw [length_cons]
      omega

theorem scanWindow_rowsOk {needed : Int} :
    ∀ {n numContiguous : Nat} {rows rows' : List (List BlockId)} {k : Nat} {found : Bool},
      RowsOk p hashes groupIds 0 rows →
      scanWindow p hashes groupIds blockSize alignmentTokens needed n numContiguous rows
        = .ok (rows', k, found) →
      RowsOk p hashes groupIds 0 rows' ∧ rows'.length ≤ rows.length := by
  intro n
  induction n with
  | zero =>
    intro numContiguous rows rows' k found hrows h
    cases h
    exact ⟨hrows, Nat.le_refl _⟩
  | succ i ih =>
    intro numContiguous rows rows' k found hrows h
    unfold scanWindow at h
    simp only [bind_ok] at h
    obtain ⟨bh, hbh, h⟩ := h
    split at h
    · exact ih hrows h
    · rename_i cached hcached
      split at h
      · exact ih hrows h
      · have hset := hrows.set (i := i) (.inr ⟨bh, hbh, hcached⟩)
        split at h
        · cases h
          refine ⟨hset.take _, ?_⟩
          rw [length_take, length_set]
          omega
        · obtain ⟨hok, hlen⟩ := ih hset h
          rw [length_set] at hlen
          exact ⟨hok, hlen⟩

theorem scanLast_rowsOk :
    ∀ {n : Nat} {rows : List (List BlockId)},
      scanLast p hashes groupIds blockSize alignmentTokens n = .ok rows →
      RowsOk p hashes groupIds 0 rows ∧ rows.length ≤ n := by
  intro n
  induction n with
  | zero =>
    intro rows h
    cases h
    exact ⟨RowsOk.nulls 0 0, Nat.le_refl _⟩
  | succ i ih =>
    intro rows h
    unfold scanLast at h
    simp only [bind_ok] at h
    obtain ⟨bh, hbh, h⟩ := h
    split at h
    · obtain ⟨hok, hlen⟩ := ih h
      exact ⟨hok, by omega⟩
    · rename_i cached hcached
      split at h
      · cases h
        refine ⟨(RowsOk.nulls 0 i).append ?_, ?_⟩
        · rw [length_replicate, Nat.zero_add]
          exact RowsOk.cons (.inr ⟨bh, hbh, hcached⟩) (RowsOk.nulls _ 0)
        · rw [length_append, length_replicate, length_singleton]
      · obtain ⟨hok, hlen⟩ := ih h
        exact ⟨hok, by omega⟩

/-- Rows of blocks that fit into `maxLength` tokens. -/
def RowsFit (p : BlockPool D) (hashes : BlockHashListWithBlockSize D) (groupIds : List Nat)
    (maxLength blockSize : Nat) (rows : List (List BlockId)) : Prop :=
  RowsOk p hashes groupIds 0 rows ∧ rows.length * blockSize ≤ maxLength

theorem findLongestCacheHitFull_rows
    (h : findLongestCacheHitFull p hashes maxLength groupIds blockSize useEagle alignmentTokens
      = .ok hit) :
    ∃ rows, hit = columns groupIds.length p.nullBlock rows ∧
      RowsFit p hashes groupIds maxLength blockSize rows := by
  unfold findLongestCacheHitFull at h
  simp only [bind_ok, pure_ok] at h
  obtain ⟨rows, hrows, rfl⟩ := h
  obtain ⟨hok, hlen⟩ := scanForward_rowsOk hrows
  have hdrop : RowsOk p hashes groupIds 0 (if useEagle then rows.dropLast else rows) ∧
      (if useEagle then rows.dropLast else rows).length ≤ rows.length := by
    split
    · exact ⟨hok.dropLast, by simp⟩
    · exact ⟨hok, Nat.le_refl _⟩
  generalize (if useEagle then rows.dropLast else rows) = kept at *
  refine ⟨_, rfl, hdrop.1.take _, ?_⟩
  have hle : (kept.take (alignedLength blockSize alignmentTokens kept.length)).length ≤
      maxLength / blockSize := by
    rw [length_take]
    omega
  exact (Nat.mul_le_mul_right _ hle).trans (Nat.div_mul_le_self _ _)

theorem findLongestCacheHitSlidingWindow_rows {window : Nat}
    (h : findLongestCacheHitSlidingWindow p hashes maxLength groupIds blockSize window useEagle
      alignmentTokens = .ok hit) :
    ∃ rows, hit = columns groupIds.length p.nullBlock rows ∧
      RowsFit p hashes groupIds maxLength blockSize rows := by
  unfold findLongestCacheHitSlidingWindow at h
  simp only [bind_ok] at h
  obtain ⟨⟨rows, k, found⟩, hscan, h⟩ := h
  obtain ⟨hok, hlen⟩ := scanWindow_rowsOk (RowsOk.nulls 0 _) hscan
  rw [length_replicate] at hlen
  have htrim : RowsOk p hashes groupIds 0
      (if found then rows else (rows.take k).take
        (alignedLength blockSize alignmentTokens (rows.take k).length)) ∧
      (if found then rows else (rows.take k).take
        (alignedLength blockSize alignmentTokens (rows.take k).length)).length ≤
        maxLength / blockSize := by
    split
    · exact ⟨hok, hlen⟩
    · refine ⟨(hok.take _).take _, ?_⟩
      rw [length_take, length_take]
      omega
  generalize (if found then rows else (rows.take k).take
    (alignedLength blockSize alignmentTokens (rows.take k).length)) = trimmed at h htrim
  obtain ⟨htrim, hle⟩ := htrim
  have hfit : ∀ {n : Nat}, n ≤ maxLength / blockSize → n * blockSize ≤ maxLength :=
    fun hn => (Nat.mul_le_mul_right _ hn).trans (Nat.div_mul_le_self _ _)
  split at h
  · simp only [bind_ok, pyAssert_ok, pure_ok] at h
    obtain ⟨_, _, rfl⟩ := h
    refine ⟨_, rfl, htrim.dropLast, hfit ?_⟩
    rw [length_dropLast]
    omega
  · rw [pure_ok] at h
    exact ⟨_, h.symm, htrim, hfit hle⟩

theorem findLongestCacheHitChunkedLocal_rows {chunkSize : Nat}
    (h : findLongestCacheHitChunkedLocal p hashes maxLength groupIds blockSize chunkSize useEagle
      alignmentTokens = .ok hit) :
    ∃ rows, hit = columns groupIds.length p.nullBlock rows ∧
      RowsFit p hashes groupIds maxLength blockSize rows := by
  unfold findLongestCacheHitChunkedLocal at h
  simp only [bind_ok, pyAssert_ok, pure_ok] at h
  obtain ⟨_, _, _, _, rows, hrows, rfl⟩ := h
  obtain ⟨hok, hlen⟩ := scanForward_rowsOk hrows
  refine ⟨_, rfl, (RowsOk.nulls 0 _).append ?_, ?_⟩
  · rw [length_replicate, Nat.zero_add]
    exact hok
  · -- The chunk starts within the first `maxLength` tokens.
    generalize hstart : (if 0 < maxLength then maxLength / chunkSize * chunkSize else 0) = start
      at *
    have hle : start ≤ maxLength := by
      split at hstart
      · exact hstart ▸ Nat.div_mul_le_self _ _
      · omega
    have hblocks : start / blockSize ≤ maxLength / blockSize := Nat.div_le_div_right hle
    rw [length_append, length_replicate]
    have hsum : start / blockSize + rows.length ≤ maxLength / blockSize := by omega
    exact (Nat.mul_le_mul_right _ hsum).trans (Nat.div_mul_le_self _ _)

/-- The result of every search: columns of rows that are as they should be, and no
longer than asked for. -/
theorem findLongestCacheHit_rows {spec : KVCacheSpec} {dcp pcp : Nat}
    (h : findLongestCacheHit p hashes maxLength groupIds spec useEagle alignmentTokens dcp pcp
      = .ok hit) :
    ∃ rows, hit = columns groupIds.length p.nullBlock rows ∧
      RowsFit p hashes groupIds maxLength (spec.blockSize * (dcp * pcp)) rows := by
  unfold findLongestCacheHit at h
  have hfull : findLongestCacheHitFull p hashes maxLength groupIds
      (if 1 < dcp * pcp then spec.blockSize * (dcp * pcp) else spec.blockSize)
      useEagle alignmentTokens = .ok hit → ∃ rows,
        hit = columns groupIds.length p.nullBlock rows ∧
          RowsFit p hashes groupIds maxLength (spec.blockSize * (dcp * pcp)) rows := by
    intro hf
    obtain ⟨rows, hcols, hok, hlen⟩ := findLongestCacheHitFull_rows hf
    refine ⟨rows, hcols, hok, ?_⟩
    split at hlen
    · exact hlen
    · have hsmall : dcp * pcp ≤ 1 := by omega
      have hle := Nat.mul_le_mul_left (spec.blockSize) hsmall
      rw [Nat.mul_one] at hle
      exact (Nat.mul_le_mul_left _ hle).trans hlen
  split at h
  · exact hfull h
  · exact hfull h
  · exact hfull h
  · simp only [bind_ok, pyAssert_ok] at h
    obtain ⟨_, ⟨rfl, rfl⟩, h⟩ := h
    rw [Nat.mul_one]
    exact findLongestCacheHitSlidingWindow_rows h
  · simp only [bind_ok, pyAssert_ok] at h
    obtain ⟨_, ⟨rfl, rfl⟩, h⟩ := h
    rw [Nat.mul_one]
    exact findLongestCacheHitChunkedLocal_rows h
  · simp only [bind_ok, pyAssert_ok, pure_ok] at h
    obtain ⟨_, ⟨rfl, rfl⟩, rows, hrows, rfl⟩ := h
    obtain ⟨hok, hlen⟩ := scanLast_rowsOk hrows
    rw [Nat.mul_one]
    exact ⟨rows, rfl, hok, (Nat.mul_le_mul_right _ hlen).trans (Nat.div_mul_le_self _ _)⟩
  · cases h

/-! ## Columns -/

theorem mapM_some {α β : Type} {f : α → Option β} :
    ∀ {xs : List α} {ys : List β}, xs.mapM f = some ys →
      ys.length = xs.length ∧ ∀ (j : Nat) (x : α), xs[j]? = some x →
        ∃ y, ys[j]? = some y ∧ f x = some y := by
  intro xs
  induction xs with
  | nil =>
    intro ys h
    cases h
    simp
  | cons x xs ih =>
    intro ys h
    rw [mapM_cons] at h
    simp only [Option.bind_eq_bind, Option.bind_eq_some_iff, Option.pure_def,
      Option.some.injEq] at h
    obtain ⟨y, hy, ys', hys', rfl⟩ := h
    obtain ⟨hlen, hget⟩ := ih hys'
    refine ⟨by simp [hlen], ?_⟩
    intro j z hj
    cases j with
    | zero =>
      cases hj
      exact ⟨y, rfl, hy⟩
    | succ j => exact hget j z hj

/-- Block `i` of the hit of group `groupId` is null or cached for block `i`. -/
def HitOk (p : BlockPool D) (hashes : BlockHashListWithBlockSize D) (groupId : Nat)
    (hit : List BlockId) : Prop :=
  ∀ (i : Nat) (b : BlockId), hit[i]? = some b → b = p.nullBlock ∨
    ∃ h, hashes.getValueAt i = .ok h ∧
      p.cachedBlockHashToBlock.getOneBlock ⟨h, groupId⟩ = some b

theorem columns_hitOk (hrows : RowsOk p hashes groupIds 0 rows) {j groupId : Nat}
    {hit : List BlockId} (hj : groupIds[j]? = some groupId)
    (hhit : (columns groupIds.length p.nullBlock rows)[j]? = some hit) :
    HitOk p hashes groupId hit := by
  have hlt : j < groupIds.length := (List.getElem?_eq_some_iff.mp hj).1
  have hcol : hit = rows.map fun row => row.getD j p.nullBlock := by
    unfold columns at hhit
    rw [getElem?_map, getElem?_range hlt] at hhit
    simpa using hhit.symm
  subst hcol
  intro i b hb
  rw [getElem?_map, Option.map_eq_some_iff] at hb
  obtain ⟨row, hrow, rfl⟩ := hb
  have hok := hrows i row hrow
  rw [Nat.zero_add] at hok
  rcases hok with rfl | ⟨h, hh, hcached⟩
  · left
    simp [getD_eq_getElem?_getD, hlt]
  · right
    obtain ⟨_, hget⟩ := mapM_some hcached
    obtain ⟨b, hb, hone⟩ := hget j groupId hj
    exact ⟨h, hh, by simpa [getD_eq_getElem?_getD, hb] using hone⟩

theorem realNodup_of_getElem? {nullBlock : BlockId} : ∀ {xs : List BlockId},
    (∀ (i j : Nat) (b : BlockId), i < j → xs[i]? = some b → xs[j]? = some b →
      b = nullBlock) → RealNodup nullBlock xs := by
  intro xs
  induction xs with
  | nil => exact fun _ => .nil
  | cons x xs ih =>
    intro h b hb
    have hrest := ih (fun i j c hij hi hj => h (i + 1) (j + 1) c (by omega) hi hj) b hb
    rw [count_cons]
    by_cases hxb : x = b
    · subst hxb
      have hnot : x ∉ xs := by
        intro hmem
        obtain ⟨j, hj⟩ := getElem?_of_mem hmem
        exact hb (h 0 (j + 1) x (by omega) rfl hj)
      rw [count_eq_zero.mpr hnot]
      simp
    · simpa [hxb] using hrest

theorem HitOk.realNodup {groupId : Nat} {hit : List BlockId} (h : HitOk p hashes groupId hit)
    (hp : p.HashConsistent) (hnodup : hashes.blockHashes.Nodup)
    (hscale : 0 < hashes.scaleFactor) : RealNodup p.nullBlock hit := by
  apply realNodup_of_getElem?
  intro i j b hij hi hj
  rcases h i b hi with hnull | ⟨hi', hvi, hsi⟩
  · exact hnull
  · rcases h j b hj with hnull | ⟨hj', hvj, hsj⟩
    · exact hnull
    · -- One block has one hash, and the two hashes differ.
      have hki := (hp.hashed_iff b _).mpr
        (BlockHashToBlockMap.stores_of_getOneBlock hp.wellKeyed hsi)
      have hkj := (hp.hashed_iff b _).mpr
        (BlockHashToBlockMap.stores_of_getOneBlock hp.wellKeyed hsj)
      rw [hki, Option.some.injEq, BlockHashWithGroupId.mk.injEq] at hkj
      rw [← hkj.1] at hvj
      have heq := hashes.getValueAt_injective hnodup hscale hvi hvj
      omega

end SingleTypeKVCacheManager

end VllmCore
