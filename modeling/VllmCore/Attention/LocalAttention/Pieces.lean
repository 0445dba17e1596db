import VllmCore.Attention.LocalAttention
/-!
# The pieces of the queries

The arrays of the virtual batches, each as one entry for every piece of every query, in
the order of the requests.
-/

namespace VllmCore.Attention

open List Nat Support

/-! ## Ragged arrays of one shape -/

section Shapes

variable {α β γ ρ : Type}

theorem npRepeat_map (g : ρ → α) (c : ρ → Nat) (rows : List ρ) :
    npRepeat (rows.map g) (rows.map c) = rows.flatMap fun r => List.replicate (c r) (g r) := by
  induction rows with
  | nil => rfl
  | cons r rows ih => rw [map_cons, map_cons, npRepeat_cons, ih, flatMap_cons]

variable {rows : List ρ} {L : ρ → Nat} {v : ρ → α} {w : Nat} {chunks : List (List α)}

theorem zipWith_flatMap {f : α → β → γ} {A : ρ → List α} {B : ρ → List β}
    (h : ∀ r ∈ rows, (A r).length = (B r).length) :
    List.zipWith f (rows.flatMap A) (rows.flatMap B) =
      rows.flatMap fun r => List.zipWith f (A r) (B r) := by
  induction rows with
  | nil => rfl
  | cons r rows ih =>
    have hrest := ih fun r hr => h r (mem_cons_of_mem _ hr)
    rw [flatMap_cons, flatMap_cons, zipWith_append (h r mem_cons_self), hrest,
      flatMap_cons]

theorem flatten_flatMap (f : ρ → List (List α)) (rows : List ρ) :
    (rows.flatMap f).flatten = rows.flatMap fun r => (f r).flatten := by
  induction rows with
  | nil => rfl
  | cons r rows ih => rw [flatMap_cons, flatten_append, ih, flatMap_cons]

theorem zipWith_map_map (f : α → β → γ) (g : ρ → α) (h : ρ → β) (rows : List ρ) :
    List.zipWith f (rows.map g) (rows.map h) = rows.map fun r => f (g r) (h r) := by
  rw [zipWith_map, zipWith_self]

theorem maskAssign_maskSelect (p : β → Bool) (f : α → β → α) : ∀ (xs : List α) (as : List β),
    xs.length = as.length →
    maskAssign (as.map p) xs (maskSelect (as.map p) (List.zipWith f xs as)) =
      List.zipWith (fun x a => if p a then f x a else x) xs as := by
  intro xs
  induction xs with
  | nil =>
    intro as h
    have : as = [] := length_eq_zero_iff.mp h.symm
    rw [this]
    rfl
  | cons x xs ih =>
    intro as h
    cases as with
    | nil => cases h
    | cons a as =>
      have hrest := ih as (Nat.succ.inj h)
      rw [map_cons, zipWith_cons_cons, zipWith_cons_cons]
      cases hp : p a with
      | true =>
        have hsel : maskSelect (true :: as.map p) (f x a :: List.zipWith f xs as) =
            f x a :: maskSelect (as.map p) (List.zipWith f xs as) := rfl
        rw [hsel, maskAssign, hrest, if_pos rfl]
      | false =>
        have hsel : maskSelect (false :: as.map p) (f x a :: List.zipWith f xs as) =
            maskSelect (as.map p) (List.zipWith f xs as) := rfl
        rw [hsel, maskAssign, hrest, if_neg Bool.false_ne_true]

theorem maskAssign_false (n : Nat) (mask : List Bool) (xs ys values : List α)
    (hxs : xs.length = n) :
    maskAssign (List.replicate n false ++ mask) (xs ++ ys) values =
      xs ++ maskAssign mask ys values := by
  induction xs generalizing n with
  | nil =>
    rw [← hxs]
    rfl
  | cons x xs ih =>
    rw [← hxs, length_cons, replicate_succ, cons_append, cons_append,
      maskAssign, ih xs.length rfl]
    rfl

theorem maskAssign_first {g : ρ → α} (hL : ∀ r ∈ rows, 0 < L r) :
    maskAssign ((rows.flatMap fun r => List.range (L r)).map fun a => decide (a = 0))
      (rows.flatMap fun r => List.replicate (L r) (g r)) (rows.map v) =
      rows.flatMap fun r => v r :: List.replicate (L r - 1) (g r) := by
  induction rows with
  | nil => rfl
  | cons r rows ih =>
    have hpos := hL r mem_cons_self
    have hrest := ih fun r hr => hL r (mem_cons_of_mem _ hr)
    have hmask : (List.range (L r)).map (fun a => decide (a = 0)) =
        true :: List.replicate (L r - 1) false := by
      apply ext_getElem
      · simp
        omega
      · intro i h₁ h₂
        rw [getElem_map, getElem_range]
        cases i with
        | zero => rfl
        | succ i => simp
    rw [flatMap_cons, map_append, hmask, flatMap_cons, flatMap_cons,
      map_cons, show L r = L r - 1 + 1 by omega, replicate_succ, cons_append,
      cons_append, maskAssign, Nat.add_sub_cancel,
      maskAssign_false _ _ _ _ _ length_replicate, hrest]
    rfl

theorem indexAssign_last {x : α} (hL : ∀ r ∈ rows, 0 < L r) (pre : List α) :
    indexAssign (pre ++ List.replicate (rows.map L).sum x)
      ((cumsumFrom pre.length (rows.map L)).map (· - 1)) (rows.map v) =
      pre ++ rows.flatMap fun r => List.replicate (L r - 1) x ++ [v r] := by
  induction rows generalizing pre with
  | nil => simp [indexAssign, cumsumFrom]
  | cons r rows ih =>
    have hpos := hL r mem_cons_self
    have hrest := ih (fun r hr => hL r (mem_cons_of_mem _ hr))
      (pre ++ (List.replicate (L r - 1) x ++ [v r]))
    have hlen : (pre ++ (List.replicate (L r - 1) x ++ [v r])).length = pre.length + L r := by
      simp
      omega
    have hset : (pre ++ List.replicate ((r :: rows).map L).sum x).set (pre.length + L r - 1) (v r) =
        pre ++ (List.replicate (L r - 1) x ++ [v r]) ++ List.replicate (rows.map L).sum x := by
      rw [map_cons, sum_cons, show L r + (rows.map L).sum =
        L r - 1 + (1 + (rows.map L).sum) by omega, replicate_add, replicate_add,
        set_append_right _ _ (by omega), set_append_right _ _ (by
          rw [length_replicate]
          omega)]
      rw [length_replicate, show pre.length + L r - 1 - pre.length - (L r - 1) = 0 by omega]
      simp
    rw [hlen] at hrest
    rw [map_cons, cumsumFrom, map_cons, map_cons, flatMap_cons]
    unfold indexAssign at hrest ⊢
    rw [zip_cons_cons, foldl_cons, ← map_cons, hset, hrest, append_assoc]

theorem take_drop_flatten (h : ∀ c ∈ chunks, c.length = w) {v : Nat} (hv : v < chunks.length) :
    (chunks.flatten.drop (v * w)).take w = chunks[v] := by
  induction chunks generalizing v with
  | nil => exact absurd hv (not_lt_zero v)
  | cons c chunks ih =>
    have hc := h c mem_cons_self
    rw [flatten_cons]
    cases v with
    | zero =>
      rw [zero_mul, drop_zero, ← hc, take_left]
      rfl
    | succ v =>
      have hdrop : (v + 1) * w = c.length + v * w := by
        rw [hc, add_mul, one_mul, add_comm]
      rw [hdrop, ← drop_drop, drop_left, getElem_cons_succ]
      exact ih (fun c hc => h c (mem_cons_of_mem _ hc)) (lt_of_succ_lt_succ hv)

theorem viewRows_flatten (h : ∀ c ∈ chunks, c.length = w) :
    viewRows chunks.length w chunks.flatten = chunks := by
  unfold viewRows
  apply ext_getElem
  · rw [length_map, length_range]
  · intro v h₁ h₂
    rw [getElem_map, getElem_range]
    exact take_drop_flatten h h₂

end Shapes

/-! ## The arrays -/

def LocalInput.ofRequests (rows : List LocalRequest) (numCols : Nat) : LocalInput where
  queryStartLoc := 0 :: cumsum (rows.map LocalRequest.qLen)
  seqLens := rows.map LocalRequest.seqLen
  blockTable := rows.map LocalRequest.pages
  numCols := numCols

/-- The pieces of a batch: each with its request and its number among the pieces of it. -/
def pieces (C : Nat) (rows : List LocalRequest) : List (LocalRequest × Nat) :=
  rows.flatMap fun r => (List.range (r.numBlocks C)).map fun j => (r, j)

theorem map_pieces {β : Type} (C : Nat) (f : LocalRequest → Nat → β) (rows : List LocalRequest) :
    (pieces C rows).map (fun e => f e.1 e.2) =
      rows.flatMap fun r => (List.range (r.numBlocks C)).map (f r) := by
  unfold pieces
  rw [map_flatMap]
  apply flatMap_congr
  intro r _
  rw [map_map]
  rfl

theorem npSub_cumsumFrom (off : Nat) (ns : List Nat) :
    npSub (cumsumFrom off ns) (off :: cumsumFrom off ns).dropLast = ns := by
  induction ns generalizing off with
  | nil => rfl
  | cons n ns ih =>
    show (off + n - off) :: npSub _ _ = _
    rw [ih, Nat.add_sub_cancel_left]

section Arrays

variable {C : Nat} (rows : List LocalRequest) (numCols : Nat)

theorem qSeqlens_ofRequests :
    (LocalInput.ofRequests rows numCols).qSeqlens = rows.map LocalRequest.qLen :=
  npSub_cumsumFrom 0 _

theorem qTokensInFirstBlock_ofRequests :
    (LocalInput.ofRequests rows numCols).qTokensInFirstBlock C =
      rows.map fun r => qTokensInFirstBlock C r.qLen r.seqLen := by
  unfold LocalInput.qTokensInFirstBlock
  rw [qSeqlens_ofRequests]
  exact zipWith_map_map _ _ _ rows

theorem tokensInLastBlock_ofRequests :
    (LocalInput.ofRequests rows numCols).tokensInLastBlock C =
      rows.map fun r => tokensInLastBlock C r.seqLen :=
  map_map

theorem localBlocks_ofRequests :
    (LocalInput.ofRequests rows numCols).localBlocks C = rows.map (LocalRequest.numBlocks C) := by
  unfold LocalInput.localBlocks
  rw [qSeqlens_ofRequests, qTokensInFirstBlock_ofRequests]
  exact zipWith_map_map _ _ _ rows

theorem numBlocks_pos (C : Nat) (r : LocalRequest) : 0 < r.numBlocks C := by
  unfold LocalRequest.numBlocks localBlocksOf
  omega

theorem arange_ofRequests :
    (LocalInput.ofRequests rows numCols).arange C =
      rows.flatMap fun r => List.range (r.numBlocks C) := by
  unfold LocalInput.arange LocalInput.virtualBatches LocalInput.blockOffsets
    LocalInput.cuNumBlocks cumsum
  rw [localBlocks_ofRequests, range_sub_repeat, flatMap_map]

theorem rarange_ofRequests :
    (LocalInput.ofRequests rows numCols).rarange C =
      rows.flatMap fun r => (List.range (r.numBlocks C)).map fun j => r.numBlocks C - j - 1 := by
  unfold LocalInput.rarange npSub
  rw [localBlocks_ofRequests, arange_ofRequests, npRepeat_map,
    zipWith_flatMap (by simp), map_flatMap]
  apply flatMap_congr
  intro r _
  apply ext_getElem
  · simp
  · intro i h₁ h₂
    simp

theorem seqlensQLocal_ofRequests :
    (LocalInput.ofRequests rows numCols).seqlensQLocal C =
      (pieces C rows).map fun e => e.1.qPart C e.2 := by
  unfold LocalInput.seqlensQLocal LocalInput.seqlensQFirst npSub
  rw [qSeqlens_ofRequests, qTokensInFirstBlock_ofRequests, localBlocks_ofRequests,
    arange_ofRequests, zipWith_map_map, npRepeat_map,
    maskAssign_first (fun r _ => numBlocks_pos C r)]
  have hrow : ∀ r ∈ rows, (qTokensInFirstBlock C r.qLen r.seqLen ::
      List.replicate (r.numBlocks C - 1) (r.qLen - qTokensInFirstBlock C r.qLen r.seqLen)).length =
      (List.range (r.numBlocks C)).length := by
    intro r _
    have := numBlocks_pos C r
    rw [length_cons, length_replicate, length_range]
    omega
  rw [maskAssign_maskSelect (fun a => decide (0 < a)), zipWith_flatMap hrow, map_pieces]
  · apply flatMap_congr
    intro r hr
    apply ext_getElem
    · rw [length_zipWith, hrow r hr]
      simp
    · intro i h₁ h₂
      rw [getElem_zipWith, getElem_map, getElem_range]
      unfold LocalRequest.qPart
      cases i with
      | zero => rfl
      | succ i => simp
  · rw [length_flatMap, length_flatMap]
    congr 1
    exact map_congr_left hrow

theorem seqlensKLocal_ofRequests :
    (LocalInput.ofRequests rows numCols).seqlensKLocal C =
      (pieces C rows).map fun e => e.1.kPart C e.2 := by
  have hassign := indexAssign_last (x := C) (v := fun r => tokensInLastBlock C r.seqLen)
    (fun r (_ : r ∈ rows) => numBlocks_pos C r) []
  unfold LocalInput.seqlensKLocal LocalInput.virtualBatches LocalInput.cuNumBlocks cumsum
  rw [localBlocks_ofRequests, tokensInLastBlock_ofRequests]
  refine hassign.trans ?_
  rw [map_pieces, nil_append]
  apply flatMap_congr
  intro r _
  have hpos := numBlocks_pos C r
  apply ext_getElem
  · simp
    omega
  · intro i h₁ h₂
    rw [length_map, length_range] at h₂
    rw [getElem_map, getElem_range, getElem_append]
    unfold LocalRequest.kPart
    split
    next hi =>
      rw [length_replicate] at hi
      rw [getElem_replicate, if_neg (by omega)]
    next hi =>
      rw [length_replicate] at hi
      rw [if_pos (by omega), getElem_singleton]

theorem kSeqstarts_ofRequests :
    (LocalInput.ofRequests rows numCols).kSeqstartsAbsolute C =
      (pieces C rows).map fun e => e.1.kStart C e.2 := by
  unfold LocalInput.kSeqstartsAbsolute npSub npAdd
  rw [localBlocks_ofRequests, tokensInLastBlock_ofRequests, rarange_ofRequests, npRepeat_map,
    map_flatMap, zipWith_flatMap (by simp), map_pieces]
  show List.zipWith _ (npRepeat (rows.map LocalRequest.seqLen) _) _ = _
  rw [npRepeat_map, zipWith_flatMap (by simp)]
  apply flatMap_congr
  intro r _
  apply ext_getElem
  · simp
  · intro i h₁ h₂
    simp [LocalRequest.kStart]

/-- The entries of the block table that a piece is given. -/
def piecePages (C blockSize numCols : Nat) (r : LocalRequest) (j : Nat) : List Int :=
  (List.range (C / blockSize)).map fun page =>
    r.pages.getD (min (r.kStart C j / blockSize + page) (numCols - 1)) 0

def columnsOf (C blockSize numCols : Nat) (r : LocalRequest) : List Nat :=
  (List.range (r.numBlocks C)).flatMap fun j =>
    (List.range (C / blockSize)).map fun page =>
      min (r.kStart C j / blockSize + page) (numCols - 1)

theorem length_columnsOf (C blockSize numCols : Nat) (r : LocalRequest) :
    (columnsOf C blockSize numCols r).length = r.numBlocks C * (C / blockSize) := by
  unfold columnsOf
  rw [length_flatMap]
  simp

theorem blockIndices_ofRequests (blockSize : Nat) :
    (LocalInput.ofRequests rows numCols).blockIndices C blockSize =
      rows.flatMap (columnsOf C blockSize numCols) := by
  unfold LocalInput.blockIndices
  rw [kSeqstarts_ofRequests, map_pieces, map_flatMap, flatMap_assoc]
  apply flatMap_congr
  intro r _
  rw [map_map, flatMap_map]
  rfl

theorem batchIndices_ofRequests (blockSize : Nat) :
    (LocalInput.ofRequests rows numCols).batchIndices C blockSize =
      npRepeat (List.range' 0 rows.length)
        (rows.map fun r => (columnsOf C blockSize numCols r).length) := by
  unfold LocalInput.batchIndices
  rw [localBlocks_ofRequests, map_map]
  show npRepeat (List.range (rows.map LocalRequest.seqLen).length) _ = _
  rw [length_map, range_eq_range']
  congr 1
  apply map_congr_left
  intro r _
  exact (length_columnsOf C blockSize numCols r).symm

theorem gather_table {cols : LocalRequest → List Nat} {rows : List LocalRequest}
    (h : ∀ r ∈ rows, ∀ k ∈ cols r, k < r.pages.length) (pre : List LocalRequest) :
    ((npRepeat (List.range' pre.length rows.length) (rows.map fun r => (cols r).length)).zip
      (rows.flatMap cols)).mapM (fun e => (do
        let row ← pyGet ((pre ++ rows).map LocalRequest.pages) e.1
        pyGet row e.2 : Py Int)) =
      .ok (rows.flatMap fun r => (cols r).map fun k => r.pages.getD k 0) := by
  induction rows generalizing pre with
  | nil => rfl
  | cons r rows ih =>
    have hrest := ih (fun r hr => h r (mem_cons_of_mem _ hr)) (pre ++ [r])
    rw [length_append, length_singleton, append_assoc, singleton_append,
      mapM_ok_iff] at hrest
    rw [length_cons, List.range'_succ, map_cons, npRepeat_cons, flatMap_cons,
      zip_append length_replicate, mapM_ok_iff, flatMap_cons]
    apply rel_append _ hrest
    rw [forall₂_iff_get]
    constructor
    · simp
    · intro i h₁ h₂
      have hi : i < (cols r).length := by simpa using h₂
      have hk := h r mem_cons_self _ (getElem_mem hi)
      have hrow : pyGet ((pre ++ r :: rows).map LocalRequest.pages) (pre.length : Nat) =
          .ok r.pages := by
        rw [pyGet_natCast_ok, map_append, getElem?_append_right (by simp)]
        simp
      simp only [get_eq_getElem, getElem_zip, getElem_replicate, getElem_map]
      rw [hrow, ok_bind, pyGet_natCast_ok, getD_eq_getElem?_getD,
        getElem?_eq_getElem hk, Option.getD_some]

theorem gatherPages_ofRequests (blockSize : Nat)
    (hwidth : ∀ r ∈ rows, r.pages.length = numCols) (hcols : 0 < numCols) :
    (LocalInput.ofRequests rows numCols).gatherPages C blockSize =
      .ok ((pieces C rows).map fun e => piecePages C blockSize numCols e.1 e.2).flatten := by
  have hlt : ∀ r ∈ rows, ∀ k ∈ columnsOf C blockSize numCols r, k < r.pages.length := by
    intro r hr k hk
    rcases mem_flatMap.mp hk with ⟨j, _, hkj⟩
    rcases mem_map.mp hkj with ⟨page, _, hpage⟩
    rw [hwidth r hr]
    omega
  have hgather := gather_table hlt []
  unfold LocalInput.gatherPages
  rw [batchIndices_ofRequests, blockIndices_ofRequests]
  refine hgather.trans ?_
  rw [map_pieces C (piecePages C blockSize numCols), flatten_flatMap]
  congr 1
  apply flatMap_congr
  intro r _
  unfold columnsOf
  rw [map_flatMap, ← flatMap_def]
  apply flatMap_congr
  intro j _
  exact map_map

theorem virtualBatches_ofRequests :
    (LocalInput.ofRequests rows numCols).virtualBatches C = (pieces C rows).length := by
  unfold LocalInput.virtualBatches pieces
  rw [localBlocks_ofRequests, length_flatMap]
  congr 1
  apply map_congr_left
  intro r _
  rw [length_map, length_range]

variable {blockSize : Nat}

theorem makeLocalAttention_ofRequests {out : VirtualBatches}
    (hwidth : ∀ r ∈ rows, r.pages.length = numCols) (hcols : 0 < numCols)
    (h : makeLocalAttentionVirtualBatches C (LocalInput.ofRequests rows numCols) blockSize =
      .ok out) :
    out.queryStartLocCpu = 0 :: cumsum ((pieces C rows).map fun e => e.1.qPart C e.2) ∧
      out.seqLensCpu = (pieces C rows).map (fun e => e.1.kPart C e.2) ∧
      out.blockTableTensor =
        (pieces C rows).map fun e => piecePages C blockSize numCols e.1 e.2 := by
  unfold makeLocalAttentionVirtualBatches at h
  rw [bind_ok] at h
  rcases h with ⟨_, _, h⟩
  rw [bind_ok] at h
  rcases h with ⟨_, _, h⟩
  rw [bind_ok] at h
  rcases h with ⟨_, _, h⟩
  rw [gatherPages_ofRequests rows numCols blockSize hwidth hcols, ok_bind, pure_ok] at h
  rw [← h]
  refine ⟨?_, seqlensKLocal_ofRequests rows numCols, ?_⟩
  · unfold LocalInput.cuSeqlensQLocal
    rw [seqlensQLocal_ofRequests]
  · show viewRows _ _ _ = _
    rw [virtualBatches_ofRequests, ← length_map (fun e : LocalRequest × Nat =>
      piecePages C blockSize numCols e.1 e.2)]
    apply viewRows_flatten
    intro c hc
    rcases mem_map.mp hc with ⟨e, _, he⟩
    rw [← he]
    unfold piecePages
    rw [length_map, length_range]

theorem makeLocalAttention_succeeds
    (hwidth : ∀ r ∈ rows, r.pages.length = numCols) (hcols : 0 < numCols) (hne : rows ≠ [])
    (hsize : 0 < blockSize) (hdvd : blockSize ∣ C) :
    ∃ out, makeLocalAttentionVirtualBatches C (LocalInput.ofRequests rows numCols) blockSize =
      .ok out := by
  unfold makeLocalAttentionVirtualBatches
  have hseq : (LocalInput.ofRequests rows numCols).seqLens ≠ [] := by
    intro hnil
    exact hne (map_eq_nil_iff.mp hnil)
  rw [require_pos hseq, ok_bind, require_pos (by omega), ok_bind,
    pyAssert_pos (mod_eq_zero_of_dvd hdvd), ok_bind,
    gatherPages_ofRequests rows numCols blockSize hwidth hcols, ok_bind]
  exact ⟨_, rfl⟩

end Arrays

end VllmCore.Attention
