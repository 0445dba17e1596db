import VllmCore.SingleTypeKVCacheManager
import VllmCore.BlockPool.RefCount
/-!
# Block tables and references

The items of a manager are the entries of all its tables.  Each method turns a
pool that counts the items of the manager, besides those of the other groups,
into a pool that counts the new items.  Two facts about the tables make this
work: no real block occurs twice in one table, and the table of a Mamba request
in the align mode keeps its state block and its speculative blocks at the end.
-/

namespace VllmCore

open List Support

variable {D : Type} [DecidableEq D]

def RealNodup (nullBlock : BlockId) (blocks : List BlockId) : Prop :=
  ∀ b, b ≠ nullBlock → blocks.count b ≤ 1

namespace RealNodup

variable {nullBlock : BlockId} {xs ys : List BlockId}

theorem filter_nodup (h : RealNodup nullBlock xs) :
    (xs.filter fun b => b ≠ nullBlock).Nodup := by
  rw [nodup_iff_count_le_one]
  intro b
  by_cases hb : b = nullBlock
  · subst hb
    rw [count_eq_zero.mpr (by simp)]
    omega
  · rw [count_filter (by simpa using hb)]
    exact h b hb

theorem of_count_le (h : RealNodup nullBlock xs)
    (hle : ∀ b, b ≠ nullBlock → ys.count b ≤ xs.count b) : RealNodup nullBlock ys :=
  fun b hb => (hle b hb).trans (h b hb)

theorem nil : RealNodup nullBlock [] := fun _ _ => by simp

theorem drop (h : RealNodup nullBlock xs) (n : Nat) : RealNodup nullBlock (xs.drop n) :=
  h.of_count_le fun b _ => (drop_sublist n xs).count_le b

theorem append (hx : RealNodup nullBlock xs) (hy : ys.Nodup)
    (hdisj : ∀ b ∈ ys, b ≠ nullBlock → xs.count b = 0) : RealNodup nullBlock (xs ++ ys) := by
  intro b hb
  rw [count_append]
  by_cases hmem : b ∈ ys
  · have h1 := hdisj b hmem hb
    have h2 := nodup_iff_count_le_one.mp hy b
    omega
  · have h1 := hx b hb
    rw [count_eq_zero.mpr hmem]
    omega

theorem nulls_append (n : Nat) (h : RealNodup nullBlock xs) :
    RealNodup nullBlock (List.replicate n nullBlock ++ xs) := by
  apply h.of_count_le
  intro b hb
  rw [count_append, count_replicate, if_neg (by simpa using Ne.symm hb)]
  omega

end RealNodup

theorem count_nulls_append {nullBlock b : BlockId} (hb : b ≠ nullBlock) (n : Nat)
    (xs : List BlockId) : (List.replicate n nullBlock ++ xs).count b = xs.count b := by
  rw [count_append, count_replicate, if_neg (by simpa using Ne.symm hb)]
  omega

namespace SingleTypeKVCacheManager

def items (m : SingleTypeKVCacheManager D) : Multiset BlockId := m.reqToBlocks.items

/-- The entries of the tables of all requests but one. -/
def otherItems (m : SingleTypeKVCacheManager D) (requestId : ReqId) : Multiset BlockId :=
  (m.reqToBlocks.erase requestId).items

theorem items_eq (m : SingleTypeKVCacheManager D) (requestId : ReqId) :
    m.items = ↑(m.blocksOf requestId) + m.otherItems requestId :=
  m.reqToBlocks.items_eq_add_erase requestId

theorem items_set (m : SingleTypeKVCacheManager D) (requestId : ReqId)
    (blocks : List BlockId) :
    (m.reqToBlocks.set requestId blocks).items = ↑blocks + m.otherItems requestId :=
  m.reqToBlocks.items_set requestId blocks

theorem getD_get?_set (d : Dict ReqId (List BlockId)) (rid r : ReqId) (t : List BlockId) :
    ((d.set rid t).get? r).getD [] = if r = rid then t else (d.get? r).getD [] := by
  rw [Dict.get?_set]
  split <;> simp

theorem getD_get?_erase (d : Dict ReqId (List BlockId)) (rid r : ReqId) :
    ((d.erase rid).get? r).getD [] = if r = rid then [] else (d.get? r).getD [] := by
  rw [Dict.get?_erase]
  split <;> simp

def alignSpec (m : SingleTypeKVCacheManager D) : Option Nat :=
  match m.spec.kind with
  | .mamba _ _ _ _ .align numSpeculativeBlocks => some numSpeculativeBlocks
  | _ => none

structure TableInv (nullBlock : BlockId) (m : SingleTypeKVCacheManager D) : Prop where
  nullBlock_eq : m.nullBlock = nullBlock
  blockSize_pos : 0 < m.blockSize
  nodup : ∀ rid, RealNodup nullBlock (m.blocksOf rid)
  allocated : ∀ rid, rid ∈ m.allocatedBlockReqs → ∀ k, m.alignSpec = some k →
    k < (m.blocksOf rid).length

variable {nullBlock : BlockId} {q p₁ p₂ : BlockPool D} {T hits : List BlockId} {fns : HashFns D}
  {r : Request D}

theorem TableInv.setBlocks {m m' : SingleTypeKVCacheManager D}
    (hm : TableInv nullBlock m) {rid : ReqId} {t : List BlockId}
    (htable : m'.reqToBlocks = m.reqToBlocks.set rid t) (hspec : m'.spec = m.spec)
    (hsize : m'.blockSize = m.blockSize) (hnull : m'.nullBlock = m.nullBlock)
    (hnodup : RealNodup nullBlock t)
    (halloc : ∀ r, r ∈ m'.allocatedBlockReqs → r ∈ m.allocatedBlockReqs ∨ r = rid)
    (hlen : ∀ k, m.alignSpec = some k → rid ∈ m'.allocatedBlockReqs → k < t.length) :
    TableInv nullBlock m' where
  nullBlock_eq := hnull.trans hm.nullBlock_eq
  blockSize_pos := hsize ▸ hm.blockSize_pos
  nodup := by
    intro r
    unfold blocksOf
    rw [htable, getD_get?_set]
    split
    · exact hnodup
    · exact hm.nodup r
  allocated := by
    intro r hr k hk
    have hk' : m.alignSpec = some k := by
      unfold alignSpec at hk ⊢
      rwa [hspec] at hk
    unfold blocksOf
    rw [htable, getD_get?_set]
    split
    · rename_i heq
      exact hlen k hk' (heq ▸ hr)
    · rename_i hne
      exact hm.allocated r ((halloc r hr).resolve_right hne) k hk'

/-- The pool counts the references of `M`, its hashes are consistent, and only blocks
in circulation carry one. -/
structure PoolOk (R : Set BlockId) (p : BlockPool D) (M : Multiset BlockId) : Prop where
  refs : BlockPool.PoolInv R p M
  hashes : p.HashConsistent
  hashed_range : ∀ b, (p.blocks b).blockHash ≠ none → b < p.numGpuBlocks ∧ b ∉ R

variable {M M' rest : Multiset BlockId} {R : Set BlockId} {p p' : BlockPool D}
  {m m' : SingleTypeKVCacheManager D} {rid : ReqId} {n : Int} {bs : List BlockId}

theorem PoolOk.congr_refs (hp : PoolOk R p M) (h : ∀ b, b ≠ p.nullBlock → M'.count b = M.count b) :
    PoolOk R p M' :=
  ⟨hp.refs.congr_refs h, hp.hashes, hp.hashed_range⟩

theorem PoolOk.shrink (hp : PoolOk R p M) (hrefs : BlockPool.PoolInv R q M')
    (hhash : q.HashConsistent) (hshrink : p.HashesShrink q) (hshape : p.SameShape q) :
    PoolOk R q M' := by
  refine ⟨hrefs, hhash, ?_⟩
  intro b hb
  rw [hshape.numGpuBlocks]
  exact hp.hashed_range b fun h0 => hb (hshrink b h0)

theorem PoolOk.sameHashes (hp : PoolOk R p M) (hrefs : BlockPool.PoolInv R q M')
    (hsame : p.SameHashes q) (hshape : p.SameShape q) : PoolOk R q M' :=
  hp.shrink hrefs (hp.hashes.congr hsame) hsame.shrink hshape

structure Kept (R : Set BlockId) (rest : Multiset BlockId) (p : BlockPool D)
    (m' : SingleTypeKVCacheManager D) (p' : BlockPool D) : Prop where
  pool : PoolOk R p' (m'.items + rest)
  table : TableInv p'.nullBlock m'
  shape : p.SameShape p'

/-! ## Releasing -/

theorem free_kept (hp : PoolOk R p (m.items + rest)) (hm : TableInv p.nullBlock m) (rid : ReqId) :
    Kept R rest p (m.free p rid).1 (m.free p rid).2 := by
  have hrefs := hp.refs
  rw [m.items_eq rid, add_assoc] at hrefs
  have hcount : ∀ b, (m.blocksOf rid).reverse.count b = (m.blocksOf rid).count b :=
    fun b => count_reverse
  have hrev : (↑(m.blocksOf rid).reverse : Multiset BlockId) = ↑(m.blocksOf rid) :=
    Multiset.coe_reverse _
  rw [← hrev] at hrefs
  have hnodup : RealNodup p.nullBlock (m.blocksOf rid).reverse :=
    (hm.nodup rid).of_count_le fun b _ => (hcount b).le
  obtain ⟨hfree, hshape⟩ := hrefs.freeBlocks hnodup.filter_nodup
  refine ⟨hp.sameHashes hfree (BlockPool.freeBlocks_sameHashes p _) hshape, ?_, hshape⟩
  show TableInv (p.freeBlocks _).nullBlock _
  rw [hshape.nullBlock]
  refine ⟨hm.nullBlock_eq, hm.blockSize_pos, ?_, ?_⟩
  · intro r
    unfold blocksOf free
    rw [getD_get?_erase]
    split
    · exact .nil
    · exact hm.nodup r
  · intro r hr k hk
    have hne : r ≠ rid := by
      simp only [free, mem_filter, decide_eq_true_eq] at hr
      exact hr.2
    have hmem : r ∈ m.allocatedBlockReqs := mem_of_mem_filter hr
    unfold blocksOf free
    rw [getD_get?_erase, if_neg hne]
    exact hm.allocated r hmem k hk

/-- The loop of `remove_skipped_blocks` splits the real blocks of a table into those
it removes and those it keeps. -/
theorem removeSkippedLoop_count (nullBlock : BlockId) :
    ∀ (n : Nat) (blocks : List BlockId),
      (removeSkippedLoop nullBlock n blocks).1.length = blocks.length ∧
        ∀ b, b ≠ nullBlock → blocks.count b =
          (removeSkippedLoop nullBlock n blocks).2.count b +
            (removeSkippedLoop nullBlock n blocks).1.count b := by
  intro n
  induction n with
  | zero => intro blocks; simp [removeSkippedLoop]
  | succ i ih =>
    intro blocks
    unfold removeSkippedLoop
    cases hb : blocks[i]? with
    | none => simp
    | some c =>
      by_cases hc : c = nullBlock
      · simp [hc]
      · simp only [if_neg hc]
        obtain ⟨hlen, hcount⟩ := ih (blocks.set i nullBlock)
        refine ⟨by rw [hlen, length_set], ?_⟩
        intro b hne
        have hset := congrArg (Multiset.count b) (coe_set (y := nullBlock) hb)
        rw [Multiset.count_cons_of_ne hne, Multiset.count_cons, Multiset.coe_count,
          Multiset.coe_count] at hset
        have hrest := hcount b hne
        rw [count_cons]
        by_cases hbc : b = c
        · subst hbc
          simp only [if_true, beq_self_eq_true] at hset ⊢
          omega
        · have hcb : (c == b) = false := beq_eq_false_iff_ne.mpr (Ne.symm hbc)
          simp only [if_neg hbc, hcb] at hset ⊢
          simp only [Bool.false_eq_true, if_false]
          omega

theorem releaseBlocks_kept (hp : PoolOk R p (m.items + rest)) (hm : TableInv p.nullBlock m)
    {kept removed : List BlockId} (hlen : kept.length = (m.blocksOf rid).length)
    (hcount : ∀ b, b ≠ p.nullBlock →
      (m.blocksOf rid).count b = removed.count b + kept.count b) :
    Kept R rest p (m.setBlocks rid kept) (p.freeBlocks removed) := by
  have hrefs := hp.refs
  rw [m.items_eq rid, add_assoc] at hrefs
  have hsplit : BlockPool.PoolInv R p
      (↑removed + (↑kept + (m.otherItems rid + rest))) := by
    refine hrefs.congr_refs ?_
    intro b hb
    have h := hcount b hb
    simp only [Multiset.count_add, Multiset.coe_count]
    omega
  have hremoved : RealNodup p.nullBlock removed :=
    (hm.nodup rid).of_count_le fun b hb => by have := hcount b hb; omega
  have hkept : RealNodup p.nullBlock kept :=
    (hm.nodup rid).of_count_le fun b hb => by have := hcount b hb; omega
  obtain ⟨hfree, hshape⟩ := hsplit.freeBlocks hremoved.filter_nodup
  refine ⟨?_, ?_, hshape⟩
  · have hitems : (m.setBlocks rid kept).items = ↑kept + m.otherItems rid :=
      m.items_set rid kept
    rw [hitems, add_assoc]
    exact hp.sameHashes hfree (BlockPool.freeBlocks_sameHashes p _) hshape
  · rw [hshape.nullBlock]
    refine hm.setBlocks (t := kept) rfl rfl rfl rfl hkept ?_ ?_
    · exact fun r hr => .inl hr
    · intro k hk hr
      rw [hlen]
      exact hm.allocated rid hr k hk

theorem Kept.refl (hp : PoolOk R p (m.items + rest)) (hm : TableInv p.nullBlock m) :
    Kept R rest p m p :=
  ⟨hp, hm, .refl p⟩

theorem Kept.trans {m₁ m₂ : SingleTypeKVCacheManager D}
    (h₁ : Kept R rest p m₁ p₁) (h₂ : Kept R rest p₁ m₂ p₂) : Kept R rest p m₂ p₂ :=
  ⟨h₂.pool, h₂.table, h₁.shape.trans h₂.shape⟩

theorem Kept.shape_trans (h₁ : p.SameShape p₁) (h₂ : Kept R rest p₁ m p₂) : Kept R rest p m p₂ :=
  ⟨h₂.pool, h₂.table, h₁.trans h₂.shape⟩

section

variable (hp : PoolOk R p (m.items + rest))

include hp

theorem removeSkippedBlocksBase_kept (hm : TableInv p.nullBlock m) (rid : ReqId) (n : Int) :
    Kept R rest p (m.removeSkippedBlocksBase p rid n).1
      (m.removeSkippedBlocksBase p rid n).2 := by
  unfold removeSkippedBlocksBase
  dsimp only
  split
  · exact .refl hp hm
  · rw [hm.nullBlock_eq]
    obtain ⟨hlen, hcount⟩ := removeSkippedLoop_count p.nullBlock
      (min (m.getNumSkippedTokens n / m.blockSize) (m.blocksOf rid).length).toNat
      (m.blocksOf rid)
    exact releaseBlocks_kept hp hm hlen hcount

theorem removeLastStateBlock_kept (hm : TableInv p.nullBlock m)
    (h : m.removeLastStateBlock p rid n = .ok (m', p')) : Kept R rest p m' p' := by
  unfold removeLastStateBlock at h
  split at h
  · cases h
    exact .refl hp hm
  · split at h
    · simp only [bind_ok, pyGet_ok] at h
      obtain ⟨b, ⟨j, hj, hb⟩, h⟩ := h
      split at h
      · cases h
        exact .refl hp hm
      · rename_i hne
        simp only [bind_ok, pySet_ok, pure_ok] at h
        obtain ⟨blocks, ⟨j', hj', rfl⟩, hres⟩ := h
        rw [hj, Option.some.injEq] at hj'
        subst hj'
        cases hres
        refine releaseBlocks_kept hp hm (length_set ..) ?_
        intro c hc
        have hset := congrArg (Multiset.count c) (coe_set (y := m.nullBlock) hb)
        rw [hm.nullBlock_eq, Multiset.count_cons_of_ne hc, Multiset.count_cons,
          Multiset.coe_count, Multiset.coe_count] at hset
        rw [hm.nullBlock_eq, count_singleton]
        by_cases hcb : c = b
        · subst hcb
          simp only [if_true, beq_self_eq_true] at hset ⊢
          omega
        · have hbc : (b == c) = false := beq_eq_false_iff_ne.mpr (Ne.symm hcb)
          simp only [if_neg hcb, hbc] at hset ⊢
          simp only [Bool.false_eq_true, if_false]
          omega
    · cases h
      exact .refl hp hm

theorem removeSkippedBlocks_kept (hm : TableInv p.nullBlock m)
    (h : m.removeSkippedBlocks p rid n = .ok (m', p')) : Kept R rest p m' p' := by
  unfold removeSkippedBlocks at h
  split at h
  · rename_i numSpec _
    have hbase := removeSkippedBlocksBase_kept hp hm rid (max 0 (n - numSpec))
    dsimp only at h
    split at h
    · exact hbase.trans (removeLastStateBlock_kept hbase.pool hbase.table h)
    · cases h
      exact hbase
  · have hbase := removeSkippedBlocksBase_kept hp hm rid n
    rwa [pure_ok.mp h] at hbase

end

/-! ## Adding blocks -/

theorem newBlocks_kept {E : Multiset BlockId} (hp : PoolOk R p (↑T + E + rest))
    (hT : RealNodup p.nullBlock T) (hn : 0 ≤ n) (h : p.getNewBlocks n = .ok (bs, p')) :
    PoolOk R p' (↑(T ++ bs) + E + rest) ∧ RealNodup p.nullBlock (T ++ bs) ∧
      p.SameShape p' ∧ bs.length = n := by
  obtain ⟨hinv, hshape, hbs, hlen, _⟩ := hp.refs.getNewBlocks hn h
  have hfresh : ∀ b ∈ bs, T.count b = 0 := by
    intro b hb
    have h0 := (hp.refs.of_mem_take (hbs ▸ hb)).2.2.2
    simp only [Multiset.count_add, Multiset.coe_count] at h0
    omega
  have hnodup : bs.Nodup := hbs ▸ hp.refs.nodup.sublist (take_sublist _ _)
  obtain ⟨hhash, _, hshrink⟩ := BlockPool.getNewBlocks_hashConsistent hp.hashes h
  refine ⟨hp.shrink ?_ hhash hshrink hshape, hT.append hnodup fun b hb _ => hfresh b hb,
    hshape, hlen⟩
  have hsum : (↑(T ++ bs) : Multiset BlockId) + E + rest = ↑bs + (↑T + E + rest) := by
    rw [← Multiset.coe_add, add_comm (↑T : Multiset BlockId) ↑bs]
    simp only [add_assoc]
  rwa [hsum]

theorem extendTable_kept (hp : PoolOk R p (↑T + m.otherItems rid + rest))
    (hm : TableInv p.nullBlock m) (hT : RealNodup p.nullBlock T) (hn : 0 ≤ n)
    (h : p.getNewBlocks n = .ok (bs, p'))
    (htable : m'.reqToBlocks = m.reqToBlocks.set rid (T ++ bs)) (hspec : m'.spec = m.spec)
    (hsize : m'.blockSize = m.blockSize) (hnull : m'.nullBlock = m.nullBlock)
    (halloc : ∀ r, r ∈ m'.allocatedBlockReqs → r ∈ m.allocatedBlockReqs ∨ r = rid)
    (hlen : ∀ k, m.alignSpec = some k → rid ∈ m'.allocatedBlockReqs →
      k < (T ++ bs).length) : Kept R rest p m' p' := by
  obtain ⟨hpool, hnodup, hshape, _⟩ := newBlocks_kept hp hT hn h
  refine ⟨?_, ?_, hshape⟩
  · have hitems : m'.items = ↑(T ++ bs) + m.otherItems rid := by
      unfold items
      rw [htable]
      exact m.items_set rid (T ++ bs)
    rwa [hitems]
  · rw [hshape.nullBlock]
    exact hm.setBlocks htable hspec hsize hnull hnodup halloc hlen

theorem setBlocks_blocksOf_kept (hp : PoolOk R p' (m.items + rest)) (hm : TableInv p.nullBlock m)
    (hshape : p.SameShape p') (htable : m'.reqToBlocks = m.reqToBlocks.set rid (m.blocksOf rid))
    (hspec : m'.spec = m.spec) (hsize : m'.blockSize = m.blockSize)
    (hnull : m'.nullBlock = m.nullBlock) (halloc : m'.allocatedBlockReqs = m.allocatedBlockReqs) :
    Kept R rest p m' p' := by
  refine ⟨?_, ?_, hshape⟩
  · have hitems : m'.items = m.items := by
      unfold items
      rw [htable, m.items_set rid, ← m.items_eq rid]
      rfl
    rwa [hitems]
  · rw [hshape.nullBlock]
    refine hm.setBlocks htable hspec hsize hnull (hm.nodup rid) ?_ ?_
    · intro r hr
      exact .inl (halloc ▸ hr)
    · intro k hk hr
      exact hm.allocated rid (halloc ▸ hr) k hk

theorem allocateNewBlocksBase_kept (hp : PoolOk R p (m.items + rest)) (hm : TableInv p.nullBlock m)
    (h : m.allocateNewBlocksBase p rid n = .ok (bs, m', p')) : Kept R rest p m' p' := by
  unfold allocateNewBlocksBase at h
  dsimp only at h
  split at h
  · cases h
    exact setBlocks_blocksOf_kept hp hm (.refl p) rfl rfl rfl rfl rfl
  · simp only [bind_ok, pure_ok] at h
    obtain ⟨⟨new, q⟩, hnew, hres⟩ := h
    cases hres
    rw [m.items_eq rid] at hp
    refine extendTable_kept hp hm (hm.nodup rid) (by omega) hnew rfl rfl rfl rfl
      (fun r hr => .inl hr) ?_
    intro k hk hr
    have hlen := hm.allocated rid hr k hk
    rw [length_append]
    omega

/-- The reuse of speculative blocks moves blocks within the table.  It appends one
null block's worth of length for each block it moves. -/
theorem reuseSpeculativeBlocks_count {numSkipped : Int} :
    ∀ {left : Nat} {idx : Int} {blocks res : List BlockId}, 0 ≤ idx →
      idx + left ≤ blocks.length →
      reuseSpeculativeBlocks nullBlock numSkipped left idx blocks = .ok res →
      res.length = blocks.length + min (left : Int) (max 0 (numSkipped - idx)) ∧
        ∀ b, b ≠ nullBlock → res.count b = blocks.count b := by
  intro left
  induction left with
  | zero =>
    intro idx blocks res hidx hle h
    cases h
    refine ⟨?_, fun _ _ => rfl⟩
    simp
  | succ left ih =>
    intro idx blocks res hidx hle h
    unfold reuseSpeculativeBlocks at h
    split at h
    · simp only [bind_ok, pyGet_ok, pySet_ok] at h
      obtain ⟨b, ⟨j, hj, hb⟩, blocks', ⟨j', hj', rfl⟩, h⟩ := h
      -- The index is not negative, so that it denotes the same block after the append.
      obtain ⟨i, rfl⟩ : ∃ i : Nat, idx = i := ⟨idx.toNat, by omega⟩
      have hi : i < blocks.length := by omega
      rw [pyIndex_natCast hi, Option.some.injEq] at hj
      rw [pyIndex_natCast (by rw [length_append]; omega), Option.some.injEq] at hj'
      subst hj hj'
      obtain ⟨hlen, hcount⟩ := ih (by omega)
        (by rw [length_set, length_append, length_singleton]; omega) h
      refine ⟨?_, ?_⟩
      · rw [hlen, length_set, length_append, length_singleton]
        omega
      · intro c hc
        rw [hcount c hc]
        have hget : (blocks ++ [b])[i]? = some b := by
          rw [getElem?_append_left hi]
          exact hb
        have hset := congrArg (Multiset.count c) (coe_set (y := nullBlock) hget)
        rw [Multiset.count_cons_of_ne hc, Multiset.count_cons, Multiset.coe_count,
          Multiset.coe_count, count_append, count_singleton] at hset
        by_cases hcb : c = b
        · subst hcb
          simp only [if_true, beq_self_eq_true] at hset
          omega
        · have hbc : (b == c) = false := beq_eq_false_iff_ne.mpr (Ne.symm hcb)
          simp only [if_neg hcb, hbc, Bool.false_eq_true, if_false] at hset
          omega
    · cases h
      refine ⟨?_, fun _ _ => rfl⟩
      omega

theorem allocateNewBlocksAlign_kept {k : Nat} (hp : PoolOk R p (m.items + rest))
    (hm : TableInv p.nullBlock m) (hk : m.alignSpec = some k) (hn : 0 < n)
    (h : m.allocateNewBlocksAlign p rid n k = .ok (bs, m', p')) : Kept R rest p m' p' := by
  have hceil : 0 < cdiv n m.blockSize := cdiv_pos hm.blockSize_pos hn
  unfold allocateNewBlocksAlign at h
  dsimp only at h
  split at h
  · cases h
    exact setBlocks_blocksOf_kept hp hm (.refl p) rfl rfl rfl rfl rfl
  · simp only [bind_ok, pyAssert_ok, pure_ok] at h
    obtain ⟨_, hlt, T, hT, _, hle, ⟨new, q⟩, hnew, hres⟩ := h
    cases hres
    generalize hskip : cdiv n m.blockSize + (k : Int) - k - 1 = skip at hT
    -- The table before the new block: as many references, and one block short.
    have htable : (∀ b, b ≠ p.nullBlock → T.count b = (m.blocksOf rid).count b) ∧
        (T.length : Int) ≤ cdiv n m.blockSize + k := by
      rw [hm.nullBlock_eq] at hT
      have hnulls : ∀ b, b ≠ p.nullBlock → (m.blocksOf rid ++ List.replicate
          (skip - (m.blocksOf rid).length).toNat p.nullBlock).count b
            = (m.blocksOf rid).count b := by
        intro b hb
        rw [count_append, count_replicate, if_neg (by simpa using Ne.symm hb)]
        rfl
      split at hT
      · rename_i halloc
        have hlen := hm.allocated rid (by simpa using halloc) k hk
        obtain ⟨hlenT, hcountT⟩ := reuseSpeculativeBlocks_count (by omega)
          (by rw [length_append]; omega) hT
        refine ⟨fun b hb => (hcountT b hb).trans (hnulls b hb), ?_⟩
        rw [length_append, length_replicate] at hlenT
        omega
      · cases hT
        refine ⟨hnulls, ?_⟩
        rw [length_append, length_replicate]
        omega
    obtain ⟨hcount, hlenT⟩ := htable
    have hpT : PoolOk R p (↑T + m.otherItems rid + rest) := by
      refine hp.congr_refs ?_
      intro b hb
      have hc := hcount b hb
      rw [m.items_eq rid]
      simp only [Multiset.count_add, Multiset.coe_count]
      omega
    have hTnodup : RealNodup p.nullBlock T :=
      (hm.nodup rid).of_count_le fun b hb => (hcount b hb).le
    have hbslen := (newBlocks_kept hpT hTnodup (by omega) hnew).2.2.2
    refine extendTable_kept hpT hm hTnodup (by omega) hnew rfl rfl rfl rfl ?_ ?_
    · intro r hr
      exact (mem_insert_iff.mp hr).symm.imp id id
    · intro k' hk' _
      rw [hk, Option.some.injEq] at hk'
      rw [length_append]
      omega

theorem allocateNewBlocks_kept (hp : PoolOk R p (m.items + rest)) (hm : TableInv p.nullBlock m)
    {n' : Int} (hn' : 0 < n') (h : m.allocateNewBlocks p rid n n' = .ok (bs, m', p')) :
    Kept R rest p m' p' := by
  unfold allocateNewBlocks at h
  split at h
  · rename_i mode k hspec
    split at h
    · rename_i hmode
      subst hmode
      exact allocateNewBlocksAlign_kept hp hm (by unfold alignSpec; rw [hspec]) hn' h
    · exact allocateNewBlocksBase_kept hp hm h
  · exact allocateNewBlocksBase_kept hp hm h

/-! ## Computed blocks and caching -/

theorem getNumSkippedTokens_le (m : SingleTypeKVCacheManager D) (hn : 0 ≤ n) :
    m.getNumSkippedTokens n ≤ n := by
  unfold getNumSkippedTokens
  split
  · rename_i w hw _
    omega
  · rename_i c hc _
    exact Int.ediv_mul_le n (by omega)
  · omega
  · exact hn

theorem skippedBlocks_le_cdiv (hsize : 0 < m.blockSize) (hn : 0 ≤ n) :
    m.getNumSkippedTokens n / m.blockSize ≤ cdiv n m.blockSize := by
  calc m.getNumSkippedTokens n / m.blockSize
      ≤ cdiv (m.getNumSkippedTokens n) m.blockSize := div_le_cdiv hsize
    _ ≤ cdiv n m.blockSize := cdiv_mono hsize (m.getNumSkippedTokens_le hn)

theorem touchComputed_kept {caching : Bool} {msg : String} (hp : PoolOk R p M)
    (h : (if caching then p.touch hits
      else do
        pyAssert (hits = []) msg
        pure p : Py (BlockPool D)) = .ok p') : PoolOk R p' (↑hits + M) ∧ p.SameShape p' := by
  split at h
  · obtain ⟨hrefs, hshape⟩ := hp.refs.touch h
    exact ⟨hp.sameHashes hrefs (BlockPool.touch_sameHashes h) hshape, hshape⟩
  · simp only [bind_ok, pyAssert_ok, pure_ok] at h
    obtain ⟨_, rfl, rfl⟩ := h
    exact ⟨by simpa using hp, .refl p⟩

section

variable (hp : PoolOk R p (m.items + rest))

include hp

/-- Adding the cache hits and the blocks of external tokens to the table of a
request.  When there are external tokens, the hits must not be longer than all
computed tokens. -/
theorem allocateNewComputedBlocks_kept (hm : TableInv p.nullBlock m) {numLocal numExternal : Int}
    (hhits : RealNodup p.nullBlock hits) (htotal : 0 ≤ numLocal + numExternal)
    (hcover : 0 < numExternal →
      (hits.length : Int) ≤ cdiv (numLocal + numExternal) m.blockSize)
    (h : m.allocateNewComputedBlocks p rid hits numLocal numExternal = .ok (m', p')) :
    Kept R rest p m' p' := by
  unfold allocateNewComputedBlocks at h
  split at h
  · simp only [bind_ok, pyAssert_ok, pure_ok] at h
    obtain ⟨_, _, hres⟩ := h
    cases hres
    exact .refl hp hm
  · dsimp only at h
    simp only [bind_ok, pyAssert_ok] at h
    obtain ⟨_, hempty, q, htouch, h⟩ := h
    have hskipLe := skippedBlocks_le_cdiv hm.blockSize_pos htotal
    generalize hskip : m.getNumSkippedTokens (numLocal + numExternal) / m.blockSize = skip at *
    obtain ⟨hq, hshape⟩ := touchComputed_kept hp htouch
    have hempty' : m.blocksOf rid = [] := length_eq_zero_iff.mp hempty
    generalize hT : List.replicate skip.toNat m.nullBlock ++ hits.drop skip.toNat = T at h
    have hcount : ∀ b, b ≠ q.nullBlock → T.count b = (hits.drop skip.toNat).count b := by
      intro b hb
      rw [hshape.nullBlock] at hb
      rw [← hT, hm.nullBlock_eq]
      exact count_nulls_append hb _ _
    have hlen : T.length = max skip.toNat hits.length := by
      rw [← hT, length_append, length_replicate, length_drop]
      omega
    have hnodup : RealNodup q.nullBlock T := by
      rw [hshape.nullBlock, ← hT, hm.nullBlock_eq]
      exact (hhits.drop skip.toNat).nulls_append skip.toNat
    have hqT : PoolOk R q (↑T + m.otherItems rid + rest) := by
      refine hq.congr_refs ?_
      intro b hb
      have hc := hcount b hb
      rw [m.items_eq rid, hempty']
      simp only [Multiset.count_add, Multiset.coe_count, count_nil]
      omega
    have hm' : TableInv q.nullBlock m := hshape.nullBlock.symm ▸ hm
    have halloc : ∀ k, m.alignSpec = some k → rid ∈ m.allocatedBlockReqs → False := by
      intro k hk hr
      have hlt := hm.allocated rid hr k hk
      omega
    generalize hext : (if 0 < skip then
      min (numLocal + numExternal - m.getNumSkippedTokens (numLocal + numExternal))
        numExternal else numExternal) = ext at h
    split at h
    · rename_i hpos
      have hextPos : 0 < numExternal := by
        split at hext <;> omega
      simp only [bind_ok, pure_ok] at h
      obtain ⟨⟨new, q'⟩, hnew, hres⟩ := h
      cases hres
      have hn : 0 ≤ cdiv (numLocal + numExternal) m.blockSize - (T.length : Int) := by
        omega
      refine Kept.shape_trans hshape (extendTable_kept hqT hm' hnodup hn hnew ?_ rfl rfl rfl
        (fun r hr => Or.inl hr) (fun k hk hr => (halloc k hk hr).elim))
      exact m.reqToBlocks.set_set rid _ _
    · rw [pure_ok] at h
      cases h
      refine ⟨?_, ?_, hshape⟩
      · rw [← m.items_set rid T] at hqT
        exact hqT
      · exact hm'.setBlocks rfl rfl rfl rfl hnodup (fun r hr => Or.inl hr)
          (fun k hk hr => (halloc k hk hr).elim)

theorem cacheBlocksBase_kept (hm : TableInv p.nullBlock m) (hcaching : p.enableCaching = true)
    (h : m.cacheBlocksBase fns p r n = .ok (m', p')) : Kept R rest p m' p' := by
  unfold cacheBlocksBase at h
  dsimp only at h
  split at h
  · cases h
    exact .refl hp hm
  · simp only [bind_ok, pure_ok] at h
    obtain ⟨q, hcache, hres⟩ := h
    cases hres
    have hsame := BlockPool.cacheFullBlocks_sameRefs hcache
    have hq : PoolOk R p' (m.items + rest) := by
      refine ⟨hp.refs.congr hsame,
        BlockPool.cacheFullBlocks_hashConsistent hp.hashes hcaching hcache, ?_⟩
      intro b hb
      rw [hsame.numGpuBlocks]
      rcases BlockPool.cacheFullBlocks_hashed hcache hb with hold | hmem
      · exact hp.hashed_range b hold
      · apply hp.refs.mem_table
        rw [m.items_eq r.requestId]
        simp [hmem]
    exact setBlocks_blocksOf_kept hq hm hsame.toSameShape rfl rfl rfl rfl rfl

theorem cacheBlocks_kept (hm : TableInv p.nullBlock m) (hcaching : p.enableCaching = true)
    (h : m.cacheBlocks fns p r n = .ok (m', p')) : Kept R rest p m' p' := by
  unfold cacheBlocks at h
  split at h
  · cases h
  · simp only [bind_ok, pure_ok] at h
    obtain ⟨⟨m₁, p₁⟩, hbase, keys, _, hres⟩ := h
    cases hres
    have hkept := cacheBlocksBase_kept hp hm hcaching hbase
    exact ⟨hkept.pool, ⟨hkept.table.nullBlock_eq, hkept.table.blockSize_pos,
      hkept.table.nodup, hkept.table.allocated⟩, hkept.shape⟩
  · exact cacheBlocksBase_kept hp hm hcaching h

end

end SingleTypeKVCacheManager

end VllmCore
