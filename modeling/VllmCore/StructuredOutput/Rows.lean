import VllmCore.StructuredOutput.Paths
/-!
# The rows of the batch

The worker finds the rows of a request by its own count over the batch, the scheduler wrote
them in the order of its list.  Both counts agree, so every row of logits is masked by the
row of the bitmask that was filled for it.
-/

namespace VllmCore.StructuredOutput

open List Support Dict

variable {L : Type}

/-! ## Copying rows -/

/-- Every row that allows less than everything is among the indices. -/
def Covers (sorted : List Row) (out : List Nat) : Prop :=
  ∀ p, p ∉ out → sorted.getD p fullMask = fullMask

variable {sorted : List Row} {out : List Nat} {reqIds : List ReqId} {id : ReqId}
  {logits : List (Logits L)}

theorem Covers.set (h : Covers sorted out) (p : Nat)
    (row : Row) : Covers (sorted.set p row) (out ++ [p]) := by
  intro q hq
  rw [mem_append, mem_singleton, not_or] at hq
  have hsame := h q hq.1
  rw [getD_eq_getElem?_getD] at hsame ⊢
  rw [getElem?_set_ne (Ne.symm hq.2)]
  exact hsame

theorem covers_replicate (n : Nat) : Covers (List.replicate n fullMask) [] := by
  intro p _
  rw [getD_eq_getElem?_getD, getElem?_replicate]
  split <;> rfl

theorem copyRows_spec {bitmask rows : List Row} {source target k : Nat} {sorted : List Row}
    {out : List Nat} (hrows : ∀ i < rows.length, bitmask[source + (k + i)]? = rows[i]?)
    (hroom : target + k + rows.length ≤ sorted.length) (hcovers : Covers sorted out) :
    ∃ out', copyRows bitmask source target (List.range' k rows.length) sorted out =
        .ok (writeRows sorted (target + k) rows, out') ∧
      Covers (writeRows sorted (target + k) rows) out' := by
  induction rows generalizing k sorted out with
  | nil => exact ⟨out, rfl, hcovers⟩
  | cons row rows ih =>
    rw [length_cons] at hroom
    have hrow : pyGet bitmask (source + k : Nat) = .ok row := by
      have h := hrows 0 (by simp)
      exact pyGet_natCast_ok.mpr h
    obtain ⟨out', hrun, hout⟩ := @ih (k + 1) (sorted.set (target + k) row)
      (out ++ [target + k])
      (by
        intro i hi
        have h := hrows (i + 1) (by simpa using hi)
        rw [getElem?_cons_succ] at h
        rw [← h]
        congr 1
        omega)
      (by rw [length_set]; omega) (hcovers.set _ row)
    refine ⟨out', ?_, hout⟩
    rw [length_cons, List.range'_succ]
    unfold copyRows
    rw [hrow, ok_bind, require_pos (by omega), ok_bind]
    exact hrun

variable {spec : Dict ReqId (List Int)} {ids : List ReqId}

theorem batchIndices_of_not_mem (h : id ∉ reqIds) (b c : Nat) (indices : Dict ReqId Nat) :
    (batchIndices spec ids reqIds b c indices).get? id = indices.get? id := by
  induction reqIds generalizing b c indices with
  | nil => rfl
  | cons j reqIds ih =>
    have hj : id ≠ j := fun heq => h (heq ▸ mem_cons_self)
    unfold batchIndices
    rw [ih (fun hmem => h (mem_cons_of_mem _ hmem))]
    split
    · exact get?_set_ne _ _ hj
    · rfl

theorem batchIndices_of_mem {before after : List ReqId} (hid : id ∈ ids)
    (hafter : id ∉ after) (b c : Nat) (indices : Dict ReqId Nat) :
    (batchIndices spec ids (before ++ id :: after) b c indices).get? id =
      some (b + c + (before.map (numRows spec)).sum) := by
  induction before generalizing b c indices with
  | nil =>
    rw [nil_append, batchIndices, batchIndices_of_not_mem hafter, if_pos hid,
      get?_set_self]
    rfl
  | cons j before ih =>
    rw [cons_append, batchIndices, ih, map_cons, sum_cons]
    unfold numRows
    congr 1
    omega

/-! ## Sorting -/

/-- The rows of a request of the batch, when those of some requests are in place. -/
def piece (spec : Dict ReqId (List Int)) (rows : ReqId → List Row) (done : List ReqId)
    (id : ReqId) : List Row :=
  if id ∈ done then rows id else List.replicate (numRows spec id) fullMask

variable {rows : ReqId → List Row}

theorem length_piece (hrows : ∀ id, (rows id).length = numRows spec id) (done : List ReqId)
    (id : ReqId) : (piece spec rows done id).length = numRows spec id := by
  unfold piece
  split
  · exact hrows id
  · exact length_replicate

theorem length_flatMap_piece (hrows : ∀ id, (rows id).length = numRows spec id)
    (done reqIds : List ReqId) :
    (reqIds.flatMap (piece spec rows done)).length = (reqIds.map (numRows spec)).sum := by
  rw [length_flatMap]
  simp only [length_piece hrows]

theorem flatMap_piece_congr {done done' : List ReqId} (h : ∀ id ∈ reqIds, id ∈ done ↔ id ∈ done') :
    reqIds.flatMap (piece spec rows done) = reqIds.flatMap (piece spec rows done') := by
  apply flatMap_congr
  intro id hid
  unfold piece
  by_cases hmem : id ∈ done
  · rw [if_pos hmem, if_pos ((h id hid).mp hmem)]
  · rw [if_neg hmem, if_neg fun h' => hmem ((h id hid).mpr h')]

theorem sortRows_spec (hrows : ∀ id, (rows id).length = numRows spec id)
    {all reqIds : List ReqId} (hbatch : reqIds.Nodup) {bitmask before : List Row}
    {done todo : List ReqId} (hall : ∀ id ∈ todo, id ∈ all) {out : List Nat}
    (hbitmask : bitmask = before ++ todo.flatMap rows)
    (hcovers : Covers (reqIds.flatMap (piece spec rows done)) out) :
    ∃ out', sortRows spec (batchIndices spec all reqIds 0 0 .empty) bitmask todo before.length
        (reqIds.flatMap (piece spec rows done)) out =
          .ok (reqIds.flatMap (piece spec rows (done ++ todo)), out') ∧
      Covers (reqIds.flatMap (piece spec rows (done ++ todo))) out' := by
  induction todo generalizing before done out with
  | nil =>
    rw [append_nil]
    exact ⟨out, rfl, hcovers⟩
  | cons id todo ih =>
    have hid := hall id mem_cons_self
    have hnext : bitmask = (before ++ rows id) ++ todo.flatMap rows := by
      rw [hbitmask, flatMap_cons, append_assoc]
    have hlen : (before ++ rows id).length = before.length + numRows spec id := by
      rw [length_append, hrows]
    have hassoc : done ++ id :: todo = (done ++ [id]) ++ todo := by simp
    -- the rows of this request are put in place
    have hput : ∃ out', placeRows spec (batchIndices spec all reqIds 0 0 .empty) bitmask id
          before.length (reqIds.flatMap (piece spec rows done)) out =
          .ok (reqIds.flatMap (piece spec rows (done ++ [id])), out') ∧
        Covers (reqIds.flatMap (piece spec rows (done ++ [id]))) out' := by
      unfold placeRows
      by_cases hmem : id ∈ reqIds
      · obtain ⟨pre, post, rfl⟩ := append_of_mem hmem
        rw [nodup_append, nodup_cons] at hbatch
        have hpost : id ∉ post := hbatch.2.1.1
        have hpre : id ∉ pre := fun h => hbatch.2.2 id h id mem_cons_self rfl
        have hstart : (pre.flatMap (piece spec rows done)).length =
            (pre.map (numRows spec)).sum := length_flatMap_piece hrows done pre
        have hsplit (d : List ReqId) : (pre ++ id :: post).flatMap (piece spec rows d) =
            pre.flatMap (piece spec rows d) ++
              (piece spec rows d id ++ post.flatMap (piece spec rows d)) := by
          rw [flatMap_append, flatMap_cons]
        have hothers (l : List ReqId) (hl : id ∉ l) :
            l.flatMap (piece spec rows (done ++ [id])) = l.flatMap (piece spec rows done) := by
          apply flatMap_piece_congr
          intro j hj
          have hne : j ≠ id := fun heq => hl (heq ▸ hj)
          simp [hne]
        have hwrite : writeRows ((pre ++ id :: post).flatMap (piece spec rows done))
              (pre.map (numRows spec)).sum (rows id) =
            (pre ++ id :: post).flatMap (piece spec rows (done ++ [id])) := by
          have hhere : piece spec rows (done ++ [id]) id = rows id := if_pos (by simp)
          rw [hsplit, hsplit, hothers pre hpre, hothers post hpost, hhere, ← hstart]
          exact writeRows_middle _ _ _ _ (by rw [hrows, length_piece hrows])
        rw [batchIndices_of_mem hid hpost, Nat.add_zero, Nat.zero_add]
        rw [← hwrite]
        obtain ⟨out', hrun, hout⟩ := @copyRows_spec bitmask (rows id) before.length
          (pre.map (numRows spec)).sum 0 ((pre ++ id :: post).flatMap (piece spec rows done)) out
          (by
            intro i hi
            rw [hnext, Nat.zero_add, append_assoc, getElem?_append_right (by omega),
              Nat.add_sub_cancel_left, getElem?_append_left hi])
          (by
            rw [length_flatMap_piece hrows, map_append, sum_append, map_cons,
              sum_cons, hrows]
            omega)
          hcovers
        rw [range_eq_range', ← hrows id]
        exact ⟨out', hrun, hout⟩
      · rw [batchIndices_of_not_mem hmem, get?_empty]
        have hsame : reqIds.flatMap (piece spec rows (done ++ [id])) =
            reqIds.flatMap (piece spec rows done) := by
          apply flatMap_piece_congr
          intro j hj
          have hne : j ≠ id := fun heq => hmem (heq ▸ hj)
          simp [hne]
        rw [hsame]
        exact ⟨out, rfl, hcovers⟩
    obtain ⟨out₁, hrun₁, hcovers₁⟩ := hput
    obtain ⟨out₂, hrun₂, hcovers₂⟩ := @ih (before ++ rows id) (done ++ [id])
      (fun j hj => hall j (mem_cons_of_mem _ hj)) out₁ hnext hcovers₁
    rw [hassoc]
    refine ⟨out₂, ?_, hcovers₂⟩
    rw [hlen] at hrun₂
    apply bind_ok.mpr
    exact ⟨(reqIds.flatMap (piece spec rows (done ++ [id])), out₁), hrun₁, hrun₂⟩

/-! ## Masking -/

def maskRow (X : ApplyTokenBitmask L) (row : Row) (logits : Logits L) : Logits L :=
  fun token => if row token then logits token else X.negInf

theorem maskRow_fullMask (X : ApplyTokenBitmask L) (logits : Logits L) :
    maskRow X fullMask logits = logits := rfl

theorem inplace_covers (X : ApplyTokenBitmask L)
    (hlen : sorted.length = logits.length) (hcovers : Covers sorted out)
    {indices : Option (List Nat)} (hindices : indices = none ∨ indices = some out) :
    X.inplace logits sorted indices = List.zipWith (maskRow X) sorted logits := by
  rw [X.inplace_eq logits sorted indices hlen]
  apply ext_getElem
  · simp [hlen]
  · intro p hp hp'
    have hplog : p < logits.length := by simpa using hp
    have hpsort : p < sorted.length := by omega
    rw [getElem_map, getElem_zipIdx, getElem_zipWith, Nat.zero_add]
    have hget : sorted.getD p fullMask = sorted[p] := by
      rw [getD_eq_getElem?_getD, getElem?_eq_getElem hpsort]
      rfl
    split
    · rw [hget]
      rfl
    · rename_i hnot
      have hfull : sorted[p] = fullMask := by
        rw [← hget]
        apply hcovers
        intro hmem
        apply hnot
        intro js hjs
        obtain rfl | rfl := hindices
        · cases hjs
        · cases hjs
          exact hmem
      rw [hfull, maskRow_fullMask]

theorem applyGrammarBitmask_spec (X : ApplyTokenBitmask L)
    (hrows : ∀ id, (rows id).length = numRows spec id) (hbatch : reqIds.Nodup)
    (hlogits : logits.length = (reqIds.map (numRows spec)).sum) :
    applyGrammarBitmask X spec ids (ids.flatMap rows) reqIds logits =
      .ok (List.zipWith (maskRow X) (reqIds.flatMap (piece spec rows ids)) logits) := by
  have hstart : List.replicate logits.length fullMask = reqIds.flatMap (piece spec rows []) := by
    rw [hlogits, ← length_flatMap_piece hrows [] reqIds]
    symm
    apply eq_replicate_of_mem
    intro row hrow
    obtain ⟨id, _, hmem⟩ := mem_flatMap.mp hrow
    unfold piece at hmem
    exact eq_of_mem_replicate hmem
  have hcovers := covers_replicate logits.length
  rw [hstart] at hcovers
  obtain ⟨out, hrun, hout⟩ := @sortRows_spec spec rows hrows ids reqIds hbatch (ids.flatMap rows)
    [] [] ids (fun id hid => hid) [] (nil_append _).symm hcovers
  rw [nil_append] at hrun hout
  have hlen : (reqIds.flatMap (piece spec rows ids)).length = logits.length := by
    rw [length_flatMap_piece hrows, hlogits]
  unfold applyGrammarBitmask
  rw [hstart]
  apply bind_ok.mpr
  refine ⟨_, hrun, ?_⟩
  dsimp only
  rw [inplace_covers X hlen hout]
  split
  · exact .inl rfl
  · exact .inr rfl

end VllmCore.StructuredOutput
