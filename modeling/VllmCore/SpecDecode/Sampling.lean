import VllmCore.SpecDecode
/-!
# What a step samples

Each request gets the tokens that greedy decoding appends to its confirmed tokens,
as long as its drafts foresee them, and one more: the flat index arrays address the
row of the request, whatever the other rows of the batch are.
-/

namespace VllmCore.SpecDecode

open List Nat Support

variable {vocabSize : Nat}

/-! ## The specification of one row -/

/-- The tokens that greedy decoding appends to `ctx` while the drafts foresee them, and
the one after. -/
def verify (A : Argmax vocabSize) : List Token → List Token → List Token
  | ctx, [] => [A.next ctx]
  | ctx, d :: ds => if d = A.next ctx then A.next ctx :: verify A (ctx ++ [d]) ds else [A.next ctx]

/-- The tokens of a row without its drafts, and the tokens before them. -/
def Row.confirmed (r : Row) : List Token :=
  r.kv ++ r.inputIds.take (r.inputIds.length - r.numDraftTokens)

def Row.drafts (r : Row) : List Token := r.inputIds.drop (r.inputIds.length - r.numDraftTokens)

/-- What a row is to get: nothing, where it does not reach the end of its tokens. -/
def Row.sampled (A : Argmax vocabSize) (r : Row) : List Token :=
  if r.discard then [] else verify A r.confirmed r.drafts

theorem Row.length_drafts (r : Row) : r.drafts.length = r.numDraftTokens := by
  have hlt := r.lt
  unfold Row.drafts
  rw [length_drop]
  omega

/-- The target tokens of drafts: the next token before each of them. -/
def targetsOf (A : Argmax vocabSize) (ctx ds : List Token) : List Token :=
  (List.range ds.length).map fun i => A.next (ctx ++ ds.take i)

theorem length_targetsOf (A : Argmax vocabSize) (ctx ds : List Token) :
    (targetsOf A ctx ds).length = ds.length := by
  simp [targetsOf]

theorem targetsOf_cons (A : Argmax vocabSize) (ctx : List Token) (d : Token) (ds : List Token) :
    targetsOf A ctx (d :: ds) = A.next ctx :: targetsOf A (ctx ++ [d]) ds := by
  unfold targetsOf
  rw [length_cons, range_succ_eq_map, map_cons, map_map]
  simp

theorem Row.drop_argmax (A : Argmax vocabSize) (r : Row) :
    (r.argmax A).drop (r.inputIds.length - (r.numDraftTokens + 1)) =
      targetsOf A r.confirmed r.drafts ++ [A.next (r.confirmed ++ r.drafts)] := by
  have hlt := r.lt
  have hlength := r.length_drafts
  apply ext_getElem
  · simp [Row.argmax, targetsOf, hlength]
    omega
  · intro i h₁ h₂
    have hi : i ≤ r.numDraftTokens := by
      simp [targetsOf, hlength] at h₂
      omega
    have htake : r.inputIds.take (r.inputIds.length - (r.numDraftTokens + 1) + i + 1) =
        r.inputIds.take (r.inputIds.length - r.numDraftTokens) ++ r.drafts.take i := by
      unfold Row.drafts
      rw [← take_add]
      congr 1
      omega
    have hleft : ((r.argmax A).drop (r.inputIds.length - (r.numDraftTokens + 1)))[i] =
        A.next (r.confirmed ++ r.drafts.take i) := by
      simp only [Row.argmax, getElem_drop, getElem_map, getElem_range, htake,
        Row.confirmed, append_assoc]
    rw [hleft]
    rcases lt_or_eq_of_le hi with hi | hi
    · rw [getElem_append_left (by rw [length_targetsOf]; omega)]
      simp [targetsOf]
    · subst hi
      have hall : r.drafts.take r.numDraftTokens = r.drafts :=
        take_of_length_le (by omega)
      rw [getElem_append_right (by rw [length_targetsOf, hlength]), hall]
      simp

/-! ## The kernel -/

def accept : List Token → List Token → Bool × List Token
  | d :: ds, t :: ts => if d = t then ((accept ds ts).1, t :: (accept ds ts).2) else (true, [t])
  | _, _ => (false, [])

theorem accept_targetsOf (A : Argmax vocabSize) (ctx ds : List Token) :
    (if (accept ds (targetsOf A ctx ds)).1 then (accept ds (targetsOf A ctx ds)).2
      else (accept ds (targetsOf A ctx ds)).2 ++ [A.next (ctx ++ ds)]) = verify A ctx ds ∧
    (accept ds (targetsOf A ctx ds)).2.length ≤ ds.length ∧
    ((accept ds (targetsOf A ctx ds)).1 = false →
      (accept ds (targetsOf A ctx ds)).2.length = ds.length) := by
  induction ds generalizing ctx with
  | nil => simp [accept, verify]
  | cons d ds ih =>
    obtain ⟨hverify, hle, hlength⟩ := ih (ctx ++ [d])
    rw [targetsOf_cons, accept, verify]
    by_cases hd : d = A.next ctx
    · rw [if_pos hd, if_pos hd, ← hverify]
      refine ⟨?_, by simpa using hle, fun hno => by simpa using hlength hno⟩
      rw [← append_cons]
      split <;> rfl
    · rw [if_neg hd, if_neg hd]
      exact ⟨rfl, by simp, fun hno => by cases hno⟩

theorem greedyLoop_rejected (drafts targets : List Token) (startIdx left pos : Nat)
    (row : List Token) :
    greedyLoop drafts targets startIdx left pos true row = .ok (true, row) := by
  induction left generalizing pos with
  | zero => rfl
  | succ left ih => exact ih (pos + 1)

theorem getElem?_of_drop_eq {α : Type} {xs rest : List α} {n : Nat} {x : α}
    (h : xs.drop n = x :: rest) : xs[n]? = some x ∧ xs.drop (n + 1) = rest := by
  constructor
  · rw [← head?_drop, h, head?_cons]
  · rw [← tail_drop, h, tail_cons]

/-- The loop over the drafts `ds` and their target tokens `ts`, which stand in the flat
arrays from the position it has reached on. -/
theorem greedyLoop_eq {drafts targets : List Token} {startIdx : Nat}
    {ds ts pre restDrafts restTargets : List Token} {m : Nat}
    (hdrafts : drafts.drop (startIdx + pre.length) = ds ++ restDrafts)
    (htargets : targets.drop (startIdx + pre.length) = ts ++ restTargets)
    (hlength : ts.length = ds.length) (hm : ds.length ≤ m) :
    greedyLoop drafts targets startIdx ds.length pre.length false
        (pre ++ List.replicate m placeholderTokenId) =
      .ok ((accept ds ts).1, pre ++ (accept ds ts).2 ++
        List.replicate (m - (accept ds ts).2.length) placeholderTokenId) := by
  induction ds generalizing ts pre m with
  | nil => simp [greedyLoop, accept, pure, Except.pure]
  | cons d ds ih =>
    cases ts with
    | nil => cases hlength
    | cons t ts =>
      obtain ⟨m, rfl⟩ : ∃ k, m = k + 1 := ⟨m - 1, by rw [length_cons] at hm; omega⟩
      obtain ⟨hd, hdrafts'⟩ := getElem?_of_drop_eq hdrafts
      obtain ⟨ht, htargets'⟩ := getElem?_of_drop_eq htargets
      have hrow : pySet (pre ++ List.replicate (m + 1) placeholderTokenId)
          (pre.length : Int) t = .ok (pre ++ [t] ++ List.replicate m placeholderTokenId) := by
        rw [pySet_ok]
        refine ⟨pre.length, pyIndex_natCast (by simp), ?_⟩
        rw [set_append_right _ _ (Nat.le_refl _), Nat.sub_self, replicate_succ,
          set_cons_zero, append_assoc, singleton_append]
      have hnext : (pre ++ [t]).length = pre.length + 1 := by simp
      rw [length_cons, greedyLoop, if_neg (by simp), pyGet_natCast_ok.mpr hd, ok_bind,
        pyGet_natCast_ok.mpr ht, ok_bind, hrow, ok_bind, accept]
      by_cases heq : d = t
      · have hloop := @ih ts (pre ++ [t]) m (by rw [hnext]; exact hdrafts')
          (by rw [hnext]; exact htargets') (by simpa using hlength)
          (by rw [length_cons] at hm; omega)
        rw [hnext] at hloop
        rw [if_pos heq, decide_eq_false (by simpa using heq), hloop]
        simp [Nat.add_sub_add_right]
      · rw [if_neg heq, decide_eq_true heq, greedyLoop_rejected]
        simp

/-- The token after all drafts of a row. -/
def Row.bonus (A : Argmax vocabSize) (r : Row) : Token := A.next (r.confirmed ++ r.drafts)

theorem rejectionGreedySampleKernel_eq (A : Argmax vocabSize) {pre post : List Row} {r : Row}
    {maxSpecLen : Nat} (hmax : r.numDraftTokens ≤ maxSpecLen) :
    rejectionGreedySampleKernel (cumsum ((pre ++ r :: post).map Row.numDraftTokens))
        ((pre ++ r :: post).flatMap Row.drafts)
        ((pre ++ r :: post).flatMap fun r => targetsOf A r.confirmed r.drafts)
        ((pre ++ r :: post).map (Row.bonus A)) maxSpecLen pre.length =
      .ok (verify A r.confirmed r.drafts ++ List.replicate
        (maxSpecLen + 1 - (verify A r.confirmed r.drafts).length) placeholderTokenId) := by
  have hlength := r.length_drafts
  have hstart : startIdxOf (cumsum ((pre ++ r :: post).map Row.numDraftTokens)) pre.length =
      .ok (pre.map Row.numDraftTokens).sum := by
    unfold startIdxOf
    split_ifs with hzero
    · rw [eq_nil_of_length_eq_zero hzero]
      rfl
    · apply pyGet_natCast_ok.mpr
      unfold cumsum
      rw [getElem?_cumsumFrom 0 _ (by simp; omega), Nat.sub_add_cancel (by omega),
        map_append, take_left' (by simp), Nat.zero_add]
  have hend : pyGet (cumsum ((pre ++ r :: post).map Row.numDraftTokens)) (pre.length : Int) =
      .ok ((pre.map Row.numDraftTokens).sum + r.numDraftTokens) := by
    apply pyGet_natCast_ok.mpr
    unfold cumsum
    rw [getElem?_cumsumFrom 0 _ (by simp), Nat.zero_add, map_append, map_cons,
      append_cons, take_left' (by simp), List.sum_append, sum_singleton]
  have hloop := @greedyLoop_eq ((pre ++ r :: post).flatMap Row.drafts)
    ((pre ++ r :: post).flatMap fun r => targetsOf A r.confirmed r.drafts)
    (pre.map Row.numDraftTokens).sum r.drafts (targetsOf A r.confirmed r.drafts) []
    (post.flatMap Row.drafts) (post.flatMap fun r => targetsOf A r.confirmed r.drafts)
    (maxSpecLen + 1)
    (drop_flatMap Row.drafts Row.numDraftTokens fun r _ => r.length_drafts)
    (drop_flatMap (fun r => targetsOf A r.confirmed r.drafts) Row.numDraftTokens
      fun r _ => (length_targetsOf A _ _).trans r.length_drafts)
    (length_targetsOf A _ _) (by omega)
  obtain ⟨hverify, hle, hall⟩ := accept_targetsOf A r.confirmed r.drafts
  unfold rejectionGreedySampleKernel
  rw [hstart, ok_bind, hend, ok_bind, Nat.add_sub_cancel_left, ← hlength]
  dsimp only
  rw [nil_append, length_nil] at hloop
  rw [hloop, ok_bind, ← hverify]
  cases hrejected : (accept r.drafts (targetsOf A r.confirmed r.drafts)).1 with
  | true =>
    rfl
  | false =>
    have hbonus : pyGet ((pre ++ r :: post).map (Row.bonus A)) (pre.length : Int) =
        .ok (A.next (r.confirmed ++ r.drafts)) := by
      apply pyGet_natCast_ok.mpr
      simp [Row.bonus]
    have hfull := hall hrejected
    simp only [Bool.false_eq_true, if_false, nil_append]
    rw [hbonus, ok_bind, pySet_ok, hfull]
    refine ⟨r.drafts.length, pyIndex_natCast (by simp; omega), ?_⟩
    have hroom : maxSpecLen + 1 - r.drafts.length = maxSpecLen - r.drafts.length + 1 := by omega
    rw [set_append_right _ _ (by omega), hfull, Nat.sub_self, hroom, replicate_succ,
      set_cons_zero, append_assoc, singleton_append, length_append,
      length_singleton, hfull, Nat.add_sub_add_right]

theorem mem_verify {A : Argmax vocabSize} {ctx ds : List Token} {t : Token}
    (h : t ∈ verify A ctx ds) : 0 ≤ t ∧ t < vocabSize := by
  induction ds generalizing ctx with
  | nil =>
    rw [verify, mem_singleton] at h
    exact h ▸ ⟨A.nonneg _, A.lt _⟩
  | cons d ds ih =>
    rw [verify] at h
    split_ifs at h with hd
    · rcases mem_cons.mp h with rfl | h
      · exact ⟨A.nonneg _, A.lt _⟩
      · exact ih h
    · rw [mem_singleton] at h
      exact h ▸ ⟨A.nonneg _, A.lt _⟩

theorem filter_verify (A : Argmax vocabSize) (ctx ds : List Token) (k : Nat) :
    ((verify A ctx ds ++ List.replicate k placeholderTokenId).filter fun t =>
      t ≠ placeholderTokenId ∧ t < vocabSize) = verify A ctx ds := by
  rw [filter_append, filter_eq_self.mpr, filter_eq_nil_iff.mpr, append_nil]
  · intro t ht
    rw [eq_of_mem_replicate ht]
    simp
  · intro t ht
    obtain ⟨hnonneg, hlt⟩ := mem_verify ht
    rw [decide_eq_true_eq]
    refine ⟨?_, hlt⟩
    rintro rfl
    exact absurd hnonneg (by decide)

/-! ## The batch -/

theorem getCumsumAndArange_eq (ns : List Nat) :
    getCumsumAndArange ns = (cumsum ns, ns.flatMap List.range) := by
  have harange := range_sub_repeat 0 ns
  unfold getCumsumAndArange
  dsimp only [cumsum]
  rw [harange]

theorem gather_drafts (r : Row) :
    gather ((r.inputIds.drop (r.inputIds.length - (r.numDraftTokens + 1))).take
        (r.numDraftTokens + 1)) ((List.range r.numDraftTokens).map (· + 1)) = .ok r.drafts := by
  have hlt := r.lt
  have hcomm : (List.range r.numDraftTokens).map (· + 1) =
      (List.range r.numDraftTokens).map (1 + ·) := by
    apply map_congr_left
    intro i _
    exact add_comm i 1
  rw [hcomm, gather_range (by simp; omega)]
  congr 1
  have hall : (r.inputIds.drop (r.inputIds.length - (r.numDraftTokens + 1))).take
      (r.numDraftTokens + 1) = r.inputIds.drop (r.inputIds.length - (r.numDraftTokens + 1)) :=
    take_of_length_le (by simp; omega)
  rw [hall, drop_drop, take_of_length_le (by simp; omega)]
  congr 1
  omega

theorem calcSpecDecodeMetadata_eq (rows : List Row) :
    calcSpecDecodeMetadata (rows.flatMap Row.inputIds) (rows.map Row.numDraftTokens)
        (cumsum (rows.map fun r => r.inputIds.length)) =
      .ok {
        draftTokenIds := rows.flatMap Row.drafts
        numDraftTokens := rows.map Row.numDraftTokens
        cuNumDraftTokens := cumsum (rows.map Row.numDraftTokens)
        targetLogitsIndices := flatIndices (fun r => r.numDraftTokens + 1)
          (fun r => List.range r.numDraftTokens) 0 rows
        bonusLogitsIndices := flatIndices (fun r => r.numDraftTokens + 1)
          (fun r => [r.numDraftTokens]) 0 rows
        logitsIndices := flatIndices (fun r => r.inputIds.length)
          (fun r => (List.range (r.numDraftTokens + 1)).map
            (r.inputIds.length - (r.numDraftTokens + 1) + ·)) 0 rows } := by
  have hsampled : (rows.map Row.numDraftTokens).map (· + 1) =
      rows.map fun r => r.numDraftTokens + 1 := by
    rw [map_map]
    rfl
  have hlogits := @repeat_add_arange Row (fun r => r.inputIds.length)
    (fun r => r.numDraftTokens + 1) (fun r => r.numDraftTokens + 1) rows (fun r _ => r.lt) 0
  have htarget := @repeat_add_arange Row (fun r => r.numDraftTokens + 1)
    (fun r => r.numDraftTokens + 1) Row.numDraftTokens rows (fun r _ => Nat.le_refl _) 0
  have hbonus := @cumsum_sub_one Row (fun r => r.numDraftTokens + 1) rows
    (fun r _ => succ_pos _) 0
  simp only [Nat.sub_self, Nat.zero_add, map_id'] at htarget
  -- the inputs at the positions whose logits are gathered, the drafts behind the first
  have hinputs := gather_rows (fun r (_ : r ∈ rows) => rfl)
    (fun r (_ : r ∈ rows) => gather_range (c := r.numDraftTokens + 1)
      (show r.inputIds.length - (r.numDraftTokens + 1) + (r.numDraftTokens + 1) ≤
        r.inputIds.length by have := r.lt; omega))
  have hdrafts := gather_rows (n := fun r => r.numDraftTokens + 1)
    (fun r (_ : r ∈ rows) => by have := r.lt; simp; omega)
    (fun r (_ : r ∈ rows) => gather_drafts r)
  unfold calcSpecDecodeMetadata
  simp only [getCumsumAndArange_eq, hsampled]
  rw [cumsum, cumsum, hlogits, htarget, hbonus, hinputs, ok_bind, map_add_flatIndices, hdrafts]
  rfl

section

variable (A : Argmax vocabSize)

include A

theorem gather_argmax (rows : List Row) :
    gather (rows.flatMap (Row.argmax A)) (flatIndices (fun r => r.inputIds.length)
        (fun r => (List.range (r.numDraftTokens + 1)).map
          (r.inputIds.length - (r.numDraftTokens + 1) + ·)) 0 rows) =
      .ok (rows.flatMap fun r => targetsOf A r.confirmed r.drafts ++ [r.bonus A]) := by
  apply gather_rows
  · intro r _
    simp [Row.argmax]
  · intro r _
    have hlt := r.lt
    have hlength : (r.argmax A).length = r.inputIds.length := by simp [Row.argmax]
    rw [gather_range (by rw [hlength]; omega), take_of_length_le, Row.drop_argmax]
    · rfl
    · rw [length_drop, hlength]
      omega

theorem gather_target (rows : List Row) :
    gather (rows.flatMap fun r => targetsOf A r.confirmed r.drafts ++ [r.bonus A])
        (flatIndices (fun r => r.numDraftTokens + 1) (fun r => List.range r.numDraftTokens)
          0 rows) = .ok (rows.flatMap fun r => targetsOf A r.confirmed r.drafts) := by
  apply gather_rows
  · intro r _
    simp [length_targetsOf, r.length_drafts]
  · intro r _
    have hlength := (length_targetsOf A r.confirmed r.drafts).trans r.length_drafts
    have hrange := @gather_range _ (targetsOf A r.confirmed r.drafts ++ [r.bonus A]) 0
      r.numDraftTokens (by rw [length_append, hlength]; omega)
    simp only [Nat.zero_add, map_id', drop_zero] at hrange
    rw [hrange, take_left' hlength]

theorem gather_bonus (rows : List Row) :
    gather (rows.flatMap fun r => targetsOf A r.confirmed r.drafts ++ [r.bonus A])
        (flatIndices (fun r => r.numDraftTokens + 1) (fun r => [r.numDraftTokens]) 0 rows) =
      .ok (rows.map (Row.bonus A)) := by
  rw [map_eq_flatMap]
  apply gather_rows
  · intro r _
    simp [length_targetsOf, r.length_drafts]
  · intro r _
    have hlength := (length_targetsOf A r.confirmed r.drafts).trans r.length_drafts
    rw [gather_ok]
    refine .cons ?_ .nil
    rw [getElem?_append_right (by omega), hlength, Nat.sub_self, getElem?_cons_zero]

theorem rejectionSample_eq (rows : List Row) {m : SpecDecodeMetadata}
    (hdrafts : m.draftTokenIds = rows.flatMap Row.drafts)
    (hnum : m.numDraftTokens = rows.map Row.numDraftTokens)
    (hcu : m.cuNumDraftTokens = cumsum (rows.map Row.numDraftTokens)) :
    rejectionSample m (rows.flatMap fun r => targetsOf A r.confirmed r.drafts)
        (rows.map (Row.bonus A)) =
      .ok (rows.map fun r => verify A r.confirmed r.drafts ++ List.replicate
        (m.maxSpecLen + 1 - (verify A r.confirmed r.drafts).length) placeholderTokenId) := by
  unfold rejectionSample
  rw [mapM_ok_iff, forall₂_iff_get]
  constructor
  · simp [hnum]
  · intro i h₁ h₂
    have hi : i < rows.length := by simpa using h₂
    have hmax : rows[i].numDraftTokens ≤ m.maxSpecLen := by
      unfold SpecDecodeMetadata.maxSpecLen
      rw [hnum]
      exact (le_foldl_max _ 0).1 _ (mem_map_of_mem (getElem_mem hi))
    have hkernel := @rejectionGreedySampleKernel_eq _ A (rows.take i) (rows.drop (i + 1)) rows[i]
      m.maxSpecLen hmax
    rw [getElem_cons_drop, take_append_drop, length_take,
      min_eq_left (le_of_lt hi)] at hkernel
    simp only [get_eq_getElem, getElem_range, getElem_map]
    rw [hdrafts, hcu]
    exact hkernel

theorem gather_last {rows : List Row}
    (h : ∀ r ∈ rows, r.numDraftTokens = 0) :
    gather (rows.flatMap (Row.argmax A))
        ((cumsum (rows.map fun r => r.inputIds.length)).map (· - 1)) =
      .ok (rows.map (Row.bonus A)) := by
  have hlast := @cumsum_sub_one Row (fun r => r.inputIds.length) rows
    (fun r _ => by have := r.lt; omega) 0
  rw [cumsum, hlast, map_eq_flatMap]
  apply gather_rows
  · intro r _
    simp [Row.argmax]
  · intro r hr
    rw [gather_ok]
    refine .cons ?_ .nil
    have hdrop := r.drop_argmax A
    have hnone : r.drafts = [] := eq_nil_of_length_eq_zero (r.length_drafts.trans (h r hr))
    rw [h r hr, hnone] at hdrop
    rw [← head?_drop]
    have hbonus : r.bonus A = A.next (r.confirmed ++ []) := by rw [Row.bonus, hnone]
    rw [hbonus, hdrop]
    rfl

theorem sampleTokens_eq (rows : List Row) :
    sampleTokens A rows = .ok (rows.map (Row.sampled A)) := by
  unfold sampleTokens
  rw [getCumsumAndArange_eq]
  dsimp only
  split_ifs with hany
  · rw [calcSpecDecodeMetadata_eq, ok_bind]
    rw [gather_argmax, ok_bind, gather_bonus, ok_bind, gather_target, ok_bind,
      rejectionSample_eq A rows rfl rfl rfl, ok_bind]
    unfold parseOutput
    rw [zipWith_map, zipWith_self]
    congr 1
    apply map_congr_left
    intro r _
    unfold Row.sampled
    rw [filter_verify]
  · have hnone : ∀ r ∈ rows, r.numDraftTokens = 0 := by
      intro r hr
      by_contra hne
      exact hany (any_eq_true.mpr ⟨r, hr, by simpa using hne⟩)
    rw [gather_last A hnone, ok_bind, zipWith_map, zipWith_self]
    congr 1
    apply map_congr_left
    intro r hr
    have hnil : r.drafts = [] := eq_nil_of_length_eq_zero (r.length_drafts.trans (hnone r hr))
    unfold Row.sampled Row.bonus
    rw [hnil, verify, append_nil]

end

end VllmCore.SpecDecode
