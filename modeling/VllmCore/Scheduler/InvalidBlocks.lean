import VllmCore.Engine
import VllmCore.KVCacheManager.Runs
import VllmCore.Scheduler.Frames
import Mathlib.Data.List.Range
/-!
# Blocks that failed to load

The requests are scanned one after another.  The first request that meets an invalid
block marks it and is cut back to its start or before, so that it computes the block
again; a later request with the block goes on counting it.  Only the tokens that were
computed before the step are looked at.
-/

namespace VllmCore

open List Support

variable {D : Type} [DecidableEq D] {C : KVConnector D}

namespace Scheduler

/-! ## The scan of one table -/

section

variable (invalid : List BlockId)

include invalid

theorem scanInvalid_affected (blocks : List (BlockId × Nat))
    (affected : Bool) (first : Option Nat) (marked : List BlockId) :
    (scanInvalid invalid blocks (affected, first, marked)).1 = true ↔
      affected = true ∨ ∃ e ∈ blocks, e.1 ∈ invalid := by
  induction blocks generalizing affected first marked with
  | nil => simp [scanInvalid]
  | cons e rest ih =>
    simp only [scanInvalid, exists_mem_cons_iff]
    split
    next hvalid =>
      rw [ih]
      simp [hvalid]
    next hinvalid =>
      rw [not_not] at hinvalid
      split
      · rw [ih]
        simp [hinvalid]
      · rw [ih]
        simp [hinvalid]

theorem scanInvalid_marked (blocks : List (BlockId × Nat))
    (affected : Bool) (first : Option Nat) (marked : List BlockId) (b : BlockId) :
    b ∈ (scanInvalid invalid blocks (affected, first, marked)).2.2 ↔
      b ∈ marked ∨ b ∈ invalid ∧ ∃ idx, (b, idx) ∈ blocks := by
  induction blocks generalizing affected first marked with
  | nil => simp [scanInvalid]
  | cons e rest ih =>
    have hcons : (∃ idx, (b, idx) ∈ e :: rest) ↔ b = e.1 ∨ ∃ idx, (b, idx) ∈ rest := by
      constructor
      · rintro ⟨idx, hmem⟩
        rcases mem_cons.mp hmem with heq | hrest
        · exact .inl (congrArg Prod.fst heq)
        · exact .inr ⟨idx, hrest⟩
      · rintro (rfl | ⟨idx, hrest⟩)
        · exact ⟨e.2, mem_cons_self⟩
        · exact ⟨idx, mem_cons_of_mem e hrest⟩
    simp only [scanInvalid]
    split
    next hvalid =>
      rw [ih]
      grind
    next hinvalid =>
      split
      · rw [ih]
        grind
      · rw [ih, mem_append, mem_singleton]
        grind

theorem scanInvalid_first_some (blocks : List (BlockId × Nat))
    (affected : Bool) (idx : Nat) (marked : List BlockId) :
    (scanInvalid invalid blocks (affected, some idx, marked)).2.1 = some idx := by
  induction blocks generalizing affected marked with
  | nil => rfl
  | cons e rest ih =>
    simp only [scanInvalid]
    split
    · exact ih affected marked
    · split
      · exact ih true marked
      · exact ih true (marked ++ [e.1])

theorem scanInvalid_first (blocks : List (BlockId × Nat))
    (affected : Bool) (marked : List BlockId) :
    (scanInvalid invalid blocks (affected, none, marked)).2.1 =
      (blocks.find? fun e => decide (e.1 ∈ invalid ∧ e.1 ∉ marked)).map (·.2) := by
  induction blocks generalizing affected with
  | nil => rfl
  | cons e rest ih =>
    simp only [scanInvalid]
    split
    next hvalid =>
      rw [ih, find?_cons_of_neg]
      simp [hvalid]
    next hinvalid =>
      rw [not_not] at hinvalid
      split
      next hmarked =>
        rw [ih, find?_cons_of_neg]
        simp [hmarked]
      next hmarked =>
        rw [find?_cons_of_pos (by simp [hinvalid, hmarked])]
        exact scanInvalid_first_some invalid rest true e.2 (marked ++ [e.1])

end

/-! ## One request -/

variable (s : Scheduler D C) (numScheduledTokens : Dict ReqId Int)

def numComputedBefore (ref : Ref) : Int :=
  (s.objs ref).numComputedTokens - (numScheduledTokens.get? (s.objs ref).requestId).getD 0

def blockTable (ref : Ref) : List (BlockId × Nat) :=
  ((s.kvCacheManager.getBlocks (s.objs ref).requestId).headD []).zipIdx

def scannedBlocks (ref : Ref) : List (BlockId × Nat) :=
  let numBlocks := (s.numComputedBefore numScheduledTokens ref + s.config.blockSize - 1) /
    (s.config.blockSize : Int)
  (s.blockTable ref).take numBlocks.toNat

theorem scannedBlocks_sorted (ref : Ref) :
    (s.scannedBlocks numScheduledTokens ref).Pairwise (·.2 < ·.2) := by
  apply List.Pairwise.take
  have hrange : (List.range' 0
      ((s.kvCacheManager.getBlocks (s.objs ref).requestId).headD []).length).Pairwise (· < ·) :=
    pairwise_lt_range'
  rw [← zipIdx_map_snd, pairwise_map] at hrange
  exact hrange

variable {s numScheduledTokens}

variable {ref : Ref} {blocks : List (BlockId × Nat)} {invalid : List BlockId} {evict : Bool}
  {st st' : InvalidScan D C}

theorem scannedBlocks_congr {s' : Scheduler D C} (hs' : s' = { s with objs := s'.objs })
    (href : s'.objs ref = s.objs ref) :
    s'.scannedBlocks numScheduledTokens ref = s.scannedBlocks numScheduledTokens ref := by
  unfold scannedBlocks blockTable numComputedBefore
  rw [href, hs']

/-- What becomes of the number `n` of computed tokens of a request.  `blocks` are its
scanned blocks, and `recomputed` says which of the invalid ones another request computes
again. -/
inductive CutBack (invalid : List BlockId) (recomputed : BlockId → Prop)
    (blocks : List (BlockId × Nat)) (blockSize numComputed n : Int) : Int → Prop
  | cut (b : BlockId) (idx : Nat) : (b, idx) ∈ blocks → b ∈ invalid → ¬recomputed b →
      (∀ e ∈ blocks, e.1 ∈ invalid → ¬recomputed e.1 → idx ≤ e.2) →
      CutBack invalid recomputed blocks blockSize numComputed n (idx * blockSize)
  | reverted : (∃ e ∈ blocks, e.1 ∈ invalid) → (∀ e ∈ blocks, e.1 ∈ invalid → recomputed e.1) →
      CutBack invalid recomputed blocks blockSize numComputed n numComputed
  | kept : (∀ e ∈ blocks, e.1 ∉ invalid) →
      CutBack invalid recomputed blocks blockSize numComputed n n

theorem CutBack.congr {recomputed recomputed' : BlockId → Prop} {blockSize numComputed n n' : Int}
    (h : CutBack invalid recomputed blocks blockSize numComputed n n')
    (hiff : ∀ e ∈ blocks, e.1 ∈ invalid → (recomputed e.1 ↔ recomputed' e.1)) :
    CutBack invalid recomputed' blocks blockSize numComputed n n' := by
  cases h with
  | cut b idx hmem hinvalid hown hfirst =>
    refine .cut b idx hmem hinvalid (fun hre => hown ((hiff _ hmem hinvalid).mpr hre)) ?_
    intro e he heinvalid hre
    exact hfirst e he heinvalid fun hre' => hre ((hiff e he heinvalid).mp hre')
  | reverted hsome hall =>
    exact .reverted hsome fun e he hinvalid => (hiff e he hinvalid).mp (hall e he hinvalid)
  | kept hnone => exact .kept hnone

theorem CutBack.recomputed {recomputed : BlockId → Prop} {blockSize : Nat} {numComputed n n' : Int}
    (h : CutBack invalid recomputed blocks blockSize numComputed n n') {b : BlockId} {idx : Nat}
    (hmem : (b, idx) ∈ blocks) (hinvalid : b ∈ invalid) (hcounted : (idx * blockSize : Int) < n') :
    recomputed b := by
  cases h with
  | cut b' idx' _ _ _ hfirst =>
    by_contra hown
    have hle : idx' ≤ idx := hfirst (b, idx) hmem hinvalid hown
    have hmul : (idx' * blockSize : Int) ≤ idx * blockSize := by
      exact_mod_cast Nat.mul_le_mul_right blockSize hle
    omega
  | reverted _ hall => exact hall (b, idx) hmem hinvalid
  | kept hnone => exact absurd hinvalid (hnone (b, idx) hmem)

/-- What `_update_requests_with_invalid_blocks` does for one request. -/
structure RequestScanned (invalid : List BlockId) (numScheduledTokens : Dict ReqId Int)
    (st : InvalidScan D C) (ref : Ref) (st' : InvalidScan D C) : Prop where
  sched : st'.sched = { st.sched with objs := st'.sched.objs }
  objs : ∀ x, x ≠ ref → st'.sched.objs x = st.sched.objs x
  affected : ∀ rid, rid ∈ st'.affectedReqIds ↔ rid ∈ st.affectedReqIds ∨
    rid = (st.sched.objs ref).requestId ∧
      ∃ e ∈ st.sched.scannedBlocks numScheduledTokens ref, e.1 ∈ invalid
  marked : ∀ b, b ∈ st'.markedInvalidBlockIds ↔ b ∈ st.markedInvalidBlockIds ∨
    b ∈ invalid ∧ ∃ idx, (b, idx) ∈ st.sched.scannedBlocks numScheduledTokens ref
  cutBack : CutBack invalid (· ∈ st.markedInvalidBlockIds)
    (st.sched.scannedBlocks numScheduledTokens ref) st.sched.config.blockSize
    (st.sched.numComputedBefore numScheduledTokens ref) (st.sched.objs ref).numComputedTokens
    (st'.sched.objs ref).numComputedTokens

theorem cutBack_of_scan (marked : List BlockId) (hsorted : blocks.Pairwise (·.2 < ·.2))
    (hsome : ∃ e ∈ blocks, e.1 ∈ invalid) (blockSize numComputed n : Int) :
    CutBack invalid (· ∈ marked) blocks blockSize numComputed n
      (match (blocks.find? fun e => decide (e.1 ∈ invalid ∧ e.1 ∉ marked)).map (·.2) with
        | some idx => idx * blockSize
        | none => numComputed) := by
  cases hfind : blocks.find? fun e => decide (e.1 ∈ invalid ∧ e.1 ∉ marked) with
  | none =>
    apply CutBack.reverted hsome
    intro e he hinvalid
    by_contra hown
    have hnot := find?_eq_none.mp hfind e he
    exact hnot (decide_eq_true ⟨hinvalid, hown⟩)
  | some e =>
    obtain ⟨hprop, before, after, hsplit, hbefore⟩ := find?_eq_some_iff_append.mp hfind
    obtain ⟨hinvalid, hown⟩ := of_decide_eq_true hprop
    apply CutBack.cut e.1 e.2 (mem_of_find?_eq_some hfind) hinvalid hown
    intro e' he' hinvalid' hown'
    rw [hsplit, mem_append, mem_cons] at he'
    rcases he' with hfront | heq | hback
    · have hnot := hbefore e' hfront
      rw [decide_eq_true (And.intro hinvalid' hown')] at hnot
      cases hnot
    · exact heq ▸ le_rfl
    · rw [hsplit] at hsorted
      have hsuffix := (pairwise_append.mp hsorted).2.1
      exact ((pairwise_cons.mp hsuffix).1 e' hback).le

theorem updateRequestWithInvalidBlocks_scanned
    (h : updateRequestWithInvalidBlocks invalid numScheduledTokens evict st ref = .ok st') :
    RequestScanned invalid numScheduledTokens st ref st' := by
  unfold updateRequestWithInvalidBlocks at h
  dsimp only at h
  split at h
  next reqBlockIds hblocks =>
    have hscanned : reqBlockIds.zipIdx.take
        ((((st.sched.objs ref).numComputedTokens -
          (numScheduledTokens.get? (st.sched.objs ref).requestId).getD 0 +
            st.sched.config.blockSize - 1) / (st.sched.config.blockSize : Int)).toNat) =
        st.sched.scannedBlocks numScheduledTokens ref := by
      unfold scannedBlocks blockTable numComputedBefore
      rw [hblocks]
      rfl
    rw [hscanned] at h
    have haffected := scanInvalid_affected invalid
      (st.sched.scannedBlocks numScheduledTokens ref) false none st.markedInvalidBlockIds
    have hmarked := scanInvalid_marked invalid
      (st.sched.scannedBlocks numScheduledTokens ref) false none st.markedInvalidBlockIds
    have hfirst := scanInvalid_first invalid
      (st.sched.scannedBlocks numScheduledTokens ref) false st.markedInvalidBlockIds
    simp only [Bool.false_eq_true, false_or] at haffected
    split at h
    next hyes =>
      have hsome := haffected.mp hyes
      rw [pure_ok] at h
      subst h
      refine ⟨rfl, ?_, ?_, hmarked, ?_⟩
      · intro x hx
        rw [modify_objs, if_neg hx]
      · intro rid
        rw [mem_insert_iff, or_comm]
        simp only [hsome, and_true]
      · have hcut := cutBack_of_scan st.markedInvalidBlockIds
          (st.sched.scannedBlocks_sorted numScheduledTokens ref) hsome
          st.sched.config.blockSize (st.sched.numComputedBefore numScheduledTokens ref)
          (st.sched.objs ref).numComputedTokens
        rw [← hfirst] at hcut
        rw [modify_objs, if_pos rfl]
        split at hcut
        next idx hidx =>
          rw [hidx]
          exact hcut
        next hidx =>
          rw [hidx]
          exact hcut
    next hno =>
      have hnone : ∀ e ∈ st.sched.scannedBlocks numScheduledTokens ref, e.1 ∉ invalid := by
        intro e he hinvalid
        exact hno (haffected.mpr ⟨e, he, hinvalid⟩)
      rw [pure_ok] at h
      subst h
      refine ⟨rfl, fun _ _ => rfl, ?_, ?_, .kept hnone⟩
      · intro rid
        constructor
        · exact .inl
        · rintro (hold | ⟨_, e, he, hinvalid⟩)
          · exact hold
          · exact absurd hinvalid (hnone e he)
      · intro b
        constructor
        · exact .inl
        · rintro (hold | ⟨hinvalid, idx, he⟩)
          · exact hold
          · exact absurd hinvalid (hnone (b, idx) he)
  · cases h

/-! ## All requests -/

/-- One of the requests `before` has the block, is affected, and is cut back to the start of
the block or further, so that it computes the block again. -/
def RecomputedBy (s : Scheduler D C) (numScheduledTokens : Dict ReqId Int)
    (st : InvalidScan D C) (before : List Ref) (b : BlockId) : Prop :=
  ∃ ref ∈ before, ∃ idx : Nat, (b, idx) ∈ s.scannedBlocks numScheduledTokens ref ∧
    (s.objs ref).requestId ∈ st.affectedReqIds ∧
    (st.sched.objs ref).numComputedTokens ≤ idx * s.config.blockSize

/-- The scan after the requests `done`. -/
structure Scanned (s : Scheduler D C) (invalid : List BlockId)
    (numScheduledTokens : Dict ReqId Int) (done : List Ref) (st : InvalidScan D C) : Prop where
  sched : st.sched = { s with objs := st.sched.objs }
  untouched : ∀ ref, ref ∉ done → st.sched.objs ref = s.objs ref
  affected : ∀ ref ∈ done, (∃ e ∈ s.scannedBlocks numScheduledTokens ref, e.1 ∈ invalid) →
    (s.objs ref).requestId ∈ st.affectedReqIds
  covered : ∀ ref ∈ done, ∀ e ∈ s.scannedBlocks numScheduledTokens ref, e.1 ∈ invalid →
    e.1 ∈ st.markedInvalidBlockIds
  marked : ∀ b ∈ st.markedInvalidBlockIds,
    b ∈ invalid ∧ s.RecomputedBy numScheduledTokens st done b
  cutBack : ∀ before ref after, done = before ++ ref :: after →
    CutBack invalid (s.RecomputedBy numScheduledTokens st before)
      (s.scannedBlocks numScheduledTokens ref) s.config.blockSize
      (s.numComputedBefore numScheduledTokens ref) (s.objs ref).numComputedTokens
      (st.sched.objs ref).numComputedTokens

theorem RecomputedBy.congr {before : List Ref} {b : BlockId}
    (h : s.RecomputedBy numScheduledTokens st before b)
    (hobjs : ∀ ref ∈ before, st'.sched.objs ref = st.sched.objs ref)
    (haffected : ∀ ref ∈ before, ∀ idx, (b, idx) ∈ s.scannedBlocks numScheduledTokens ref →
      (s.objs ref).requestId ∈ st'.affectedReqIds) :
    s.RecomputedBy numScheduledTokens st' before b := by
  obtain ⟨ref, hmem, idx, hblock, _, hle⟩ := h
  refine ⟨ref, hmem, idx, hblock, haffected ref hmem idx hblock, ?_⟩
  rw [hobjs ref hmem]
  exact hle

theorem Scanned.start (s : Scheduler D C) (invalid : List BlockId)
    (numScheduledTokens : Dict ReqId Int) :
    s.Scanned invalid numScheduledTokens [] { sched := s } where
  sched := rfl
  untouched := fun _ _ => rfl
  affected := fun _ h => absurd h not_mem_nil
  covered := fun _ h => absurd h not_mem_nil
  marked := fun _ h => absurd h not_mem_nil
  cutBack := fun before _ _ h => by simp at h

theorem Scanned.step {done : List Ref} (hst : s.Scanned invalid numScheduledTokens done st)
    (hnew : ref ∉ done)
    (h : updateRequestWithInvalidBlocks invalid numScheduledTokens evict st ref = .ok st') :
    s.Scanned invalid numScheduledTokens (done ++ [ref]) st' := by
  obtain ⟨hsched, hobjs, haffected, hmarked, hcut⟩ := updateRequestWithInvalidBlocks_scanned h
  have href := hst.untouched ref hnew
  have hblocks : st.sched.scannedBlocks numScheduledTokens ref =
      s.scannedBlocks numScheduledTokens ref := scannedBlocks_congr hst.sched href
  have hconfig : st.sched.config = s.config := by rw [hst.sched]
  have hbefore : st.sched.numComputedBefore numScheduledTokens ref =
      s.numComputedBefore numScheduledTokens ref := by
    unfold numComputedBefore
    rw [href]
  rw [hblocks, href] at haffected
  rw [hblocks] at hmarked
  rw [hblocks, hconfig, hbefore, href] at hcut
  have hkept : ∀ x ∈ done, st'.sched.objs x = st.sched.objs x := by
    intro x hx
    exact hobjs x fun heq => hnew (heq ▸ hx)
  -- For the blocks that the request may count, having a mark means being computed again.
  have hiff : ∀ b ∈ invalid, b ∈ st.markedInvalidBlockIds ↔
      s.RecomputedBy numScheduledTokens st' done b := by
    intro b hinvalid
    constructor
    · intro hb
      apply (hst.marked b hb).2.congr hkept
      intro x hx idx hblock
      exact (haffected _).mpr (.inl (hst.affected x hx ⟨(b, idx), hblock, hinvalid⟩))
    · rintro ⟨x, hx, idx, hblock, _, _⟩
      exact hst.covered x hx (b, idx) hblock hinvalid
  have hcutBack : CutBack invalid (s.RecomputedBy numScheduledTokens st' done)
      (s.scannedBlocks numScheduledTokens ref) s.config.blockSize
      (s.numComputedBefore numScheduledTokens ref) (s.objs ref).numComputedTokens
      (st'.sched.objs ref).numComputedTokens :=
    hcut.congr fun e _ hinvalid => hiff e.1 hinvalid
  refine ⟨?_, ?_, ?_, ?_, ?_, ?_⟩
  · rw [hsched, hst.sched]
  · intro x hx
    rw [mem_append, mem_singleton, not_or] at hx
    rw [hobjs x hx.2, hst.untouched x hx.1]
  · intro x hx hsome
    rcases mem_append.mp hx with hold | hlast
    · exact (haffected _).mpr (.inl (hst.affected x hold hsome))
    · rw [mem_singleton.mp hlast] at hsome ⊢
      exact (haffected _).mpr (.inr ⟨rfl, hsome⟩)
  · intro x hx e he hinvalid
    rcases mem_append.mp hx with hold | hlast
    · exact (hmarked _).mpr (.inl (hst.covered x hold e he hinvalid))
    · rw [mem_singleton.mp hlast] at he
      exact (hmarked _).mpr (.inr ⟨hinvalid, e.2, he⟩)
  · intro b hb
    by_cases hold : b ∈ st.markedInvalidBlockIds
    · have hinvalid := (hst.marked b hold).1
      obtain ⟨x, hx, hblock⟩ := (hiff b hinvalid).mp hold
      exact ⟨hinvalid, x, mem_append_left [ref] hx, hblock⟩
    · obtain ⟨hinvalid, idx, hblock⟩ := ((hmarked b).mp hb).resolve_left hold
      have hstart : (st'.sched.objs ref).numComputedTokens ≤ idx * s.config.blockSize := by
        by_contra hcounted
        exact hold (hcut.recomputed hblock hinvalid (not_le.mp hcounted))
      have hmine : (s.objs ref).requestId ∈ st'.affectedReqIds :=
        (haffected _).mpr (.inr ⟨rfl, (b, idx), hblock, hinvalid⟩)
      exact ⟨hinvalid, ref, by simp, idx, hblock, hmine, hstart⟩
  · intro before x after hsplit
    rcases eq_nil_or_concat after with rfl | ⟨after, y, rfl⟩
    · obtain ⟨rfl, hlast⟩ := append_inj' hsplit rfl
      cases hlast
      exact hcutBack
    · have hdone : done = before ++ x :: after := by
        rw [concat_eq_append, ← cons_append, ← append_assoc] at hsplit
        exact (append_inj' hsplit rfl).1
      have hsub : ∀ z ∈ before, z ∈ done := by
        intro z hz
        rw [hdone]
        exact mem_append_left _ hz
      have hx : x ∈ done := by
        rw [hdone]
        exact mem_append_right _ mem_cons_self
      rw [hkept x hx]
      apply (hst.cutBack before x after hdone).congr
      intro e _ hinvalid
      constructor
      · intro hre
        apply hre.congr (fun z hz => hkept z (hsub z hz))
        intro z hz idx hblock
        exact (haffected _).mpr (.inl (hst.affected z (hsub z hz) ⟨(e.1, idx), hblock, hinvalid⟩))
      · intro hre
        apply hre.congr (fun z hz => (hkept z (hsub z hz)).symm)
        intro z hz idx hblock
        exact hst.affected z (hsub z hz) ⟨(e.1, idx), hblock, hinvalid⟩

theorem Scanned.run {done refs : List Ref} (hst : s.Scanned invalid numScheduledTokens done st)
    (hnodup : (done ++ refs).Nodup)
    (h : refs.foldlM (updateRequestWithInvalidBlocks invalid numScheduledTokens evict) st =
      .ok st') : s.Scanned invalid numScheduledTokens (done ++ refs) st' := by
  induction refs generalizing done st with
  | nil =>
    simp only [foldlM_nil, pure_ok] at h
    rw [append_nil, ← h]
    exact hst
  | cons ref refs ih =>
    simp only [foldlM_cons, bind_ok] at h
    obtain ⟨st₁, hfirst, hrest⟩ := h
    have hnew : ref ∉ done := by
      intro hmem
      exact (nodup_append.mp hnodup).2.2 ref hmem ref mem_cons_self rfl
    rw [append_cons] at hnodup ⊢
    exact ih (hst.step hnew hfirst) hnodup hrest

/-- After the scan, an invalid block that a request goes on counting is computed again by an
earlier one, and no request is cut back further than to the first invalid block that it has
to compute itself. -/
theorem invalid_blocks_recomputed {invalid : List BlockId} {refs : List Ref} {evict : Bool}
    {st : InvalidScan D C} (hnodup : refs.Nodup)
    (h : refs.foldlM (updateRequestWithInvalidBlocks invalid numScheduledTokens evict)
      { sched := s } = .ok st) {before after : List Ref} {ref : Ref}
    (hrefs : refs = before ++ ref :: after) :
    (∀ b (idx : Nat), (b, idx) ∈ s.scannedBlocks numScheduledTokens ref → b ∈ invalid →
        (idx * s.config.blockSize : Int) < (st.sched.objs ref).numComputedTokens →
        s.RecomputedBy numScheduledTokens st before b) ∧
      CutBack invalid (s.RecomputedBy numScheduledTokens st before)
        (s.scannedBlocks numScheduledTokens ref) s.config.blockSize
        (s.numComputedBefore numScheduledTokens ref) (s.objs ref).numComputedTokens
        (st.sched.objs ref).numComputedTokens := by
  have hscan := (Scanned.start s invalid numScheduledTokens).run hnodup h
  have hcut := hscan.cutBack before ref after hrefs
  constructor
  · intro b idx hmem hinvalid hcounted
    exact hcut.recomputed hmem hinvalid hcounted
  · exact hcut

/-! ## Two requests with common blocks -/

/-- Two requests with the same three tokens, of which the last one was scheduled in this
step.  Their first two blocks are the same. -/
def sharedLoads : Py (Scheduler Transcript (.noConnector Transcript)) := do
  let kv ← KVCacheManager.create (oneGroupConfig 8) 8 1 true false false 1 1
  let kv ← runOps (KVCacheManager.runKVOp transcriptFns) kv KVCacheManager.sharedPrefixOps
  pure
    { Scheduler.create smallConfig kv none with
      objs := fun ref => { KVCacheManager.threeTokens ref with numComputedTokens := 3 } }

def oneEach : Dict ReqId Int := (Dict.empty.set 0 1).set 1 1

/-- The first request computes the invalid block again and the second one keeps it. -/
theorem invalid_blocks_recomputed_shared : ∃ s st, sharedLoads = .ok s ∧
    [0, 1].foldlM (updateRequestWithInvalidBlocks [1] oneEach true) { sched := s } = .ok st ∧
    s.scannedBlocks oneEach 1 = [(1, 0), (2, 1)] ∧
    (st.sched.objs 0).numComputedTokens = 0 ∧ (st.sched.objs 1).numComputedTokens = 2 ∧
    s.RecomputedBy oneEach st [0] 1 := by
  obtain ⟨s, st, hs, hrun, hscanned, hfirst, hsecond⟩ : ∃ s st, sharedLoads = .ok s ∧
      [0, 1].foldlM (updateRequestWithInvalidBlocks [1] oneEach true)
        { sched := s } = .ok st ∧
      s.scannedBlocks oneEach 1 = [(1, 0), (2, 1)] ∧
      (st.sched.objs 0).numComputedTokens = 0 ∧ (st.sched.objs 1).numComputedTokens = 2 :=
    ⟨_, _, rfl, rfl, rfl, rfl, rfl⟩
  have hcounted : ((0 : Nat) * s.config.blockSize : Int) < (st.sched.objs 1).numComputedTokens := by
    rw [hsecond]
    simp
  have hmem : (1, 0) ∈ s.scannedBlocks oneEach 1 := by
    rw [hscanned]
    exact mem_cons_self
  have hsplit : [0, 1] = [0] ++ 1 :: [] := rfl
  have hre := (invalid_blocks_recomputed (by decide) hrun hsplit).1 1 0 hmem (by decide) hcounted
  exact ⟨s, st, hs, hrun, hscanned, hfirst, hsecond, hre⟩

/-- An invalid block of the tokens of this step is not looked at, and a request whose invalid
blocks are all computed by another one loses the tokens of this step. -/
theorem invalid_blocks_not_recomputed :
    (¬∀ (s : Scheduler Transcript (.noConnector Transcript)) num invalid refs st, refs.Nodup →
        refs.foldlM (updateRequestWithInvalidBlocks invalid num true) { sched := s } = .ok st →
        ∀ before ref after, refs = before ++ ref :: after → ∀ b (idx : Nat),
          (b, idx) ∈ s.blockTable ref → b ∈ invalid →
          (idx * s.config.blockSize : Int) < (st.sched.objs ref).numComputedTokens →
          s.RecomputedBy num st before b) ∧
    ¬∀ (s : Scheduler Transcript (.noConnector Transcript)) num invalid refs st, refs.Nodup →
        refs.foldlM (updateRequestWithInvalidBlocks invalid num true) { sched := s } = .ok st →
        ∀ before ref after, refs = before ++ ref :: after →
          (∀ b (idx : Nat), (b, idx) ∈ s.blockTable ref → b ∈ invalid →
            s.RecomputedBy num st before b) →
          (st.sched.objs ref).numComputedTokens = (s.objs ref).numComputedTokens := by
  obtain ⟨s, hs⟩ : ∃ s, sharedLoads = .ok s := ⟨_, rfl⟩
  constructor
  · intro hall
    obtain ⟨st, hrun, hmem, hcounted⟩ : ∃ st,
        [0].foldlM (updateRequestWithInvalidBlocks [3] oneEach true) { sched := s } =
          .ok st ∧
        (3, 2) ∈ s.blockTable 0 ∧
        ((2 : Nat) * s.config.blockSize : Int) < (st.sched.objs 0).numComputedTokens := by
      cases hs
      exact ⟨_, rfl, by decide, by decide⟩
    obtain ⟨ref, hbefore, _⟩ := hall s _ _ _ st (by decide) hrun [] 0 [] rfl 3 2 hmem
      (by decide) hcounted
    cases hbefore
  · intro hall
    obtain ⟨st, hrun, hre, hsecond⟩ : ∃ st,
        [0, 1].foldlM (updateRequestWithInvalidBlocks [1] oneEach true) { sched := s } =
          .ok st ∧
        ((1, 0) ∈ s.scannedBlocks oneEach 0 ∧ (s.objs 0).requestId ∈ st.affectedReqIds ∧
          (st.sched.objs 0).numComputedTokens ≤ (0 : Nat) * s.config.blockSize) ∧
        (st.sched.objs 1).numComputedTokens ≠ (s.objs 1).numComputedTokens := by
      cases hs
      exact ⟨_, rfl, by decide, by decide⟩
    apply hsecond
    apply hall s oneEach [1] [0, 1] st (by decide) hrun [0] 1 [] rfl
    intro b idx _ hinvalid
    rw [mem_singleton.mp hinvalid]
    exact ⟨0, mem_singleton.mpr rfl, 0, hre⟩

end Scheduler

end VllmCore
