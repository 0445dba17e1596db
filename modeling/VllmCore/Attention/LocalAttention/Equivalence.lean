import VllmCore.Attention.LocalAttention.Pieces
/-!
# Chunked attention by virtual batches

Causal attention, aligned at the end of the keys, on the virtual batches: every token of
a query is in one of them, and attends there to the keys of its own request that are in
its chunk and not behind it, at the pages where the block table of the request has them.
-/

namespace VllmCore.Attention

open List Nat Support

namespace VirtualBatches

variable (out : VirtualBatches)

/-- The `n`-th token of the batch is the `i`-th of the virtual batch `v`. -/
def Holds (v n i : Nat) : Prop :=
  ∃ first next, out.queryStartLocCpu[v]? = some first ∧ out.queryStartLocCpu[v + 1]? = some next ∧
    first + i = n ∧ n < next

/-- The `i`-th token of the virtual batch attends to its `k`-th key: the last token of the query
sees all keys, every one before it one key less. -/
def Attends (v i k : Nat) : Prop :=
  ∃ first next keys, out.queryStartLocCpu[v]? = some first ∧
    out.queryStartLocCpu[v + 1]? = some next ∧ out.seqLensCpu[v]? = some keys ∧
    k < keys ∧ k + (next - first) ≤ keys + i

end VirtualBatches

/-! ## Where the pieces start -/

theorem holds_unique {xs : List Nat} {out : VirtualBatches}
    (hq : out.queryStartLocCpu = 0 :: cumsum xs) {v v' n i i' : Nat} (h : out.Holds v n i)
    (h' : out.Holds v' n i') : v' = v := by
  have hlen : ∀ {w : Nat} {x : Nat}, out.queryStartLocCpu[w]? = some x →
      w ≤ xs.length ∧ x = (xs.take w).sum := by
    intro w x hx
    have hlt := (List.getElem?_eq_some_iff.mp hx).1
    rw [hq, length_cons] at hlt
    have hw : w ≤ xs.length := by
      unfold cumsum at hlt
      rw [length_cumsumFrom] at hlt
      omega
    rw [hq, getElem?_cumsum xs hw, Option.some.injEq] at hx
    exact ⟨hw, hx.symm⟩
  rcases h with ⟨first, next, hfirst, hnext, hi, hn⟩
  rcases h' with ⟨first', next', hfirst', hnext', hi', hn'⟩
  have h₁ := hlen hfirst
  have h₂ := hlen hnext
  have h₁' := hlen hfirst'
  have h₂' := hlen hnext'
  rcases lt_trichotomy v v' with hlt | heq | hgt
  · have := sum_take_mono xs (v := v + 1) (w := v') (by omega)
    omega
  · exact heq.symm
  · have := sum_take_mono xs (v := v' + 1) (w := v) (by omega)
    omega

section Pieces

variable {C : Nat} {r : LocalRequest}

theorem sum_qPart (hC : 0 < C) (r : LocalRequest) {j : Nat} (hj : j ≤ r.numBlocks C) :
    r.start + ((List.range j).map (r.qPart C)).sum = r.cut C j := by
  rcases LocalRequest.exists_placed (r := r) hC with ⟨a, b, u, w, hplaced⟩
  induction j with
  | zero =>
    rw [hplaced.cut_zero]
    rfl
  | succ j ih =>
    have hstep := hplaced.qPart (j := j) (by omega)
    rw [range_succ, map_append, List.sum_append, map_singleton,
      sum_singleton]
    omega

theorem sum_qPart_all (hC : 0 < C) (r : LocalRequest) :
    ((List.range (r.numBlocks C)).map (r.qPart C)).sum = r.qLen := by
  rcases LocalRequest.exists_placed (r := r) hC with ⟨a, b, u, w, hplaced⟩
  have hsum := sum_qPart hC r (le_refl _)
  have hle := r.le
  rw [hplaced.cut_numBlocks] at hsum
  unfold LocalRequest.start at hsum
  omega

theorem sum_pieces (hC : 0 < C) (rows : List LocalRequest) :
    ((pieces C rows).map fun e => e.1.qPart C e.2).sum = (rows.map LocalRequest.qLen).sum := by
  rw [map_pieces]
  induction rows with
  | nil => rfl
  | cons r rows ih =>
    rw [flatMap_cons, List.sum_append, ih, sum_qPart_all hC, map_cons, sum_cons]

theorem pieces_split (C : Nat) (pre post : List LocalRequest) (r : LocalRequest) {j : Nat}
    (hj : j < r.numBlocks C) :
    (pieces C (pre ++ r :: post))[(pieces C pre).length + j]? = some (r, j) ∧
      (pieces C (pre ++ r :: post)).take ((pieces C pre).length + j) =
        pieces C pre ++ (List.range j).map fun i => (r, i) := by
  have hsplit : pieces C (pre ++ r :: post) =
      pieces C pre ++ ((List.range (r.numBlocks C)).map (fun i => (r, i)) ++ pieces C post) := by
    unfold pieces
    rw [flatMap_append, flatMap_cons]
  rw [hsplit]
  constructor
  · rw [getElem?_append_right (by omega), Nat.add_sub_cancel_left,
      getElem?_append_left (by simpa using hj), getElem?_map, getElem?_range hj]
    rfl
  · rw [take_length_add_append, take_append_of_le_length (by simp; omega),
      ← map_take, take_range, min_eq_left (by omega)]

theorem exists_piece (hC : 0 < C) (r : LocalRequest) {x : Nat} (hstart : r.start ≤ x)
    (hx : x < r.seqLen) :
    ∃ j, j < r.numBlocks C ∧ r.cut C j ≤ x ∧ x < r.cut C (j + 1) ∧
      r.kStart C j = C * (x / C) ∧ r.kStart C j + r.kPart C j = r.cut C (j + 1) ∧
      r.cut C j + r.qPart C j = r.cut C (j + 1) ∧ r.kPart C j ≤ C := by
  rcases LocalRequest.exists_placed (r := r) hC with ⟨a, b, u, w, hplaced⟩
  have hw := hplaced.w_lt
  have hseq := hplaced.seqLen
  have hrs := hplaced.start
  have hdiv := div_add_mod x C
  have hmod := mod_lt x hC
  have hax : a ≤ x / C := by
    rw [le_div_iff_mul_le hC, mul_comm]
    omega
  have hxb : x / C ≤ b := by
    have hlt : x / C < b + 1 := by
      rw [div_lt_iff_lt_mul hC, mul_comm, LocalRequest.Placed.chunk_succ]
      omega
    omega
  have hj : x / C - a < r.numBlocks C := by
    rw [hplaced.numBlocks]
    omega
  have hchunk : C * (a + (x / C - a)) = C * (x / C) := by
    congr 1
    omega
  have hnext : C * (a + (x / C - a + 1)) = C * (x / C) + C := by
    rw [show a + (x / C - a + 1) = x / C + 1 by omega, LocalRequest.Placed.chunk_succ]
  have hkstart := hplaced.kStart hj
  have hkpart := hplaced.kPart hj
  have hqpart := hplaced.qPart hj
  rw [hchunk] at hkstart hkpart
  refine ⟨x / C - a, hj, ?_, ?_, hkstart, ?_, hqpart, ?_⟩
  · unfold LocalRequest.cut
    rw [hplaced.firstChunk, hchunk]
    omega
  · unfold LocalRequest.cut
    rw [hplaced.firstChunk, hnext]
    omega
  · rw [hkstart, hkpart]
    unfold LocalRequest.cut
    rw [hplaced.firstChunk, hnext]
    omega
  · rw [hkpart]
    omega

end Pieces

/-! ## The attention of one token -/

theorem same_chunk_iff {C x y : Nat} (hC : 0 < C) :
    (y ≤ x ∧ y / C = x / C) ↔ ∃ k, C * (x / C) + k ≤ x ∧ y = C * (x / C) + k := by
  have hdivx := div_add_mod x C
  have hmodx := mod_lt x hC
  constructor
  · intro ⟨hle, heq⟩
    have hdivy := div_add_mod y C
    rw [heq] at hdivy
    exact ⟨y % C, by omega, hdivy.symm⟩
  · intro ⟨k, hk, hy⟩
    refine ⟨by omega, ?_⟩
    rw [hy, Nat.mul_add_div hC, div_eq_of_lt (show k < C by omega), add_zero]

theorem piecePages_getElem? {C blockSize numCols : Nat} {r : LocalRequest} {j x k : Nat}
    (hsize : 0 < blockSize) (hdvd : blockSize ∣ C) (hk : k < C)
    (hstart : r.kStart C j = C * (x / C)) (hwidth : r.pages.length = numCols)
    (hcover : C * (x / C) + k < numCols * blockSize) :
    ∃ page, (piecePages C blockSize numCols r j)[k / blockSize]? = some page ∧
      r.pages[(C * (x / C) + k) / blockSize]? = some page ∧
      k % blockSize = (C * (x / C) + k) % blockSize := by
  have hbase : blockSize ∣ C * (x / C) := Dvd.dvd.mul_right hdvd _
  have hdiv : (C * (x / C) + k) / blockSize = C * (x / C) / blockSize + k / blockSize := by
    rcases hbase with ⟨q, hq⟩
    rw [hq, Nat.mul_add_div hsize, Nat.mul_div_cancel_left q hsize]
  have hlt : (C * (x / C) + k) / blockSize < numCols := by
    rwa [div_lt_iff_lt_mul hsize]
  have hpage : k / blockSize < C / blockSize := div_lt_div_of_lt_of_dvd hdvd hk
  refine ⟨r.pages.getD ((C * (x / C) + k) / blockSize) 0, ?_, ?_, ?_⟩
  · unfold piecePages
    rw [getElem?_map, getElem?_range hpage, Option.map_some, hstart, ← hdiv,
      min_eq_left (by omega)]
  · rw [getD_eq_getElem?_getD, getElem?_eq_getElem (by omega), Option.getD_some]
  · rw [add_mod, mod_eq_zero_of_dvd hbase, zero_add, mod_mod]

/-- The metadata of the virtual batches computes chunked attention: for every request and every
token of its query there is exactly one virtual batch that holds the token, at its place in the
original order; the keys that the token attends to there are those of its own request at or before
it in its chunk; and each of them is found on the page that the block table of the request gives
it. -/
theorem localAttention_equivalent {C blockSize numCols : Nat} (rows : List LocalRequest)
    (hC : 0 < C) (hsize : 0 < blockSize) (hdvd : blockSize ∣ C)
    (hwidth : ∀ r ∈ rows, r.pages.length = numCols)
    (hcover : ∀ r ∈ rows, r.seqLen ≤ numCols * blockSize) :
    (rows ≠ [] → ∃ out, makeLocalAttentionVirtualBatches C (LocalInput.ofRequests rows numCols)
      blockSize = .ok out) ∧
    ∀ out, makeLocalAttentionVirtualBatches C (LocalInput.ofRequests rows numCols) blockSize =
      .ok out →
      ∀ pre r post, rows = pre ++ r :: post → ∀ t < r.qLen,
        ∃ v i, out.Holds v ((pre.map LocalRequest.qLen).sum + t) i ∧
          (∀ v' i', out.Holds v' ((pre.map LocalRequest.qLen).sum + t) i' → v' = v) ∧
          ∃ base, (∀ y, (y ≤ r.start + t ∧ y / C = (r.start + t) / C) ↔
              ∃ k, out.Attends v i k ∧ y = base + k) ∧
            ∀ k, out.Attends v i k → ∃ table page, out.blockTableTensor[v]? = some table ∧
              table[k / blockSize]? = some page ∧
              r.pages[(base + k) / blockSize]? = some page ∧
              k % blockSize = (base + k) % blockSize := by
  have hcols : ∀ r ∈ rows, 0 < numCols := by
    intro r hr
    have hpos := r.pos
    have hle := r.le
    have := hcover r hr
    by_contra hzero
    rw [show numCols = 0 by omega, zero_mul] at this
    omega
  constructor
  · intro hne
    rcases exists_mem_of_ne_nil rows hne with ⟨r, hr⟩
    exact makeLocalAttention_succeeds rows numCols hwidth (hcols r hr) hne hsize hdvd
  · intro out hout pre r post hrows t ht
    have hr : r ∈ rows := by
      rw [hrows]
      exact mem_append_right _ mem_cons_self
    rcases makeLocalAttention_ofRequests rows numCols hwidth (hcols r hr) hout with ⟨hq, hk, hb⟩
    have hrle := r.le
    have hx : r.start + t < r.seqLen := by
      unfold LocalRequest.start
      omega
    rcases exists_piece hC r (le_add_right _ t) hx with
      ⟨j, hj, hcut, hnext, hstart, hkeys, hqpart, hkle⟩
    have hsplit := pieces_split C pre post r hj
    have hsum := sum_qPart hC r (le_of_lt hj)
    rw [← hrows] at hsplit
    have hlt := (List.getElem?_eq_some_iff.mp hsplit.1).1
    generalize hv : (pieces C pre).length + j = v at hsplit hlt
    have hat : ((pieces C rows).map fun e => e.1.qPart C e.2)[v]? = some (r.qPart C j) := by
      rw [getElem?_map, hsplit.1]
      rfl
    have hbefore : (((pieces C rows).map fun e => e.1.qPart C e.2).take v).sum =
        (pre.map LocalRequest.qLen).sum + ((List.range j).map (r.qPart C)).sum := by
      rw [← map_take, hsplit.2, map_append, List.sum_append, sum_pieces hC, map_map]
      rfl
    have hfirst : out.queryStartLocCpu[v]? =
        some ((pre.map LocalRequest.qLen).sum + ((List.range j).map (r.qPart C)).sum) := by
      rw [hq, getElem?_cumsum _ (by rw [length_map]; omega), hbefore]
    have hsecond : out.queryStartLocCpu[v + 1]? =
        some ((pre.map LocalRequest.qLen).sum + ((List.range j).map (r.qPart C)).sum +
          r.qPart C j) := by
      rw [hq, getElem?_cumsum _ (by rw [length_map]; omega), take_add_one, hat,
        Option.toList_some, List.sum_append, sum_singleton, hbefore]
    have hlocal : out.seqLensCpu[v]? = some (r.kPart C j) := by
      rw [hk, getElem?_map, hsplit.1]
      rfl
    have htable : out.blockTableTensor[v]? = some (piecePages C blockSize numCols r j) := by
      rw [hb, getElem?_map, hsplit.1]
      rfl
    -- a key of the virtual batch is seen when its position is not behind the token
    have hattends : ∀ k, out.Attends v (r.start + t - r.cut C j) k ↔
        C * ((r.start + t) / C) + k ≤ r.start + t := by
      intro k
      constructor
      · intro ⟨first, next, keys, h₁, h₂, h₃, hlt, hle⟩
        rw [hfirst, Option.some.injEq] at h₁
        rw [hsecond, Option.some.injEq] at h₂
        rw [hlocal, Option.some.injEq] at h₃
        omega
      · intro hle
        exact ⟨_, _, _, hfirst, hsecond, hlocal, by omega, by omega⟩
    have hholds : out.Holds v ((pre.map LocalRequest.qLen).sum + t) (r.start + t - r.cut C j) :=
      ⟨_, _, hfirst, hsecond, by omega, by omega⟩
    refine ⟨v, r.start + t - r.cut C j, hholds, fun v' i' h' => holds_unique hq hholds h',
      C * ((r.start + t) / C), ?_, ?_⟩
    · intro y
      rw [same_chunk_iff hC]
      simp only [hattends]
    · intro k hkey
      have hle := (hattends k).mp hkey
      have hc := hcover r hr
      have hdivx := div_add_mod (r.start + t) C
      have hmodx := mod_lt (r.start + t) hC
      rcases piecePages_getElem? hsize hdvd (show k < C by omega) hstart (hwidth r hr)
        (by omega) with ⟨page, hrow, hpage, hoff⟩
      exact ⟨_, page, htable, hrow, hpage, hoff⟩

theorem chunkedRequest_pos : 0 < 10 := by decide

theorem chunkedRequest_le : 10 ≤ 17 := by decide

def chunkedRequest : LocalRequest :=
  ⟨10, 17, [9, 10, 11, 12, 13, 14, 15, 16, 17], chunkedRequest_pos, chunkedRequest_le⟩

/-- The token at position 10 attends to the keys 8, 9 and 10, which are on the fifth and sixth
page. -/
theorem localAttention_equivalent_chunked :
    ∃ out, makeLocalAttentionVirtualBatches 4 (LocalInput.ofRequests [chunkedRequest] 9) 2 = .ok out ∧
      ∃ v i, out.Holds v 3 i ∧
        ∃ base, ∀ y, (y ≤ 10 ∧ y / 4 = 2) ↔ ∃ k, out.Attends v i k ∧ y = base + k := by
  have hmain := @localAttention_equivalent 4 2 9 [chunkedRequest]
    (by decide) (by decide) (by decide) (by decide) (by decide)
  rcases hmain.1 (cons_ne_nil _ _) with ⟨out, hout⟩
  rcases hmain.2 out hout [] chunkedRequest [] rfl 3 (by decide) with
    ⟨v, i, hholds, _, base, hkeys, _⟩
  exact ⟨out, hout, v, i, hholds, base, hkeys⟩

end VllmCore.Attention
