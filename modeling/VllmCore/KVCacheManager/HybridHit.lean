import VllmCore.KVCacheManager.HybridSearch
/-!
# The hits of hybrid models

Once the search has ended, the lists of the first attention group are cut to the length that
all groups agree on.
-/

namespace VllmCore

open List Nat Support

variable {D : Type} [DecidableEq D]

open SingleTypeKVCacheManager (CachedRow CachedAt)

namespace KVCacheCoordinator

variable {c : KVCacheCoordinator D} {blockHashes : List D} {g : AttentionGroup}

/-! ## The lists that are returned -/

variable {k i n : Nat} {hashes : BlockHashListWithBlockSize D} {ids : List Nat}

theorem foldl_modify_take : ∀ {ids : List Nat} {hits : HitBlocks},
    (ids.foldl (fun hits g => hits.modify g (Option.map (·.take k))) hits).length = hits.length ∧
      ∀ i, (ids.foldl (fun hits g => hits.modify g (Option.map (·.take k))) hits)[i]? =
        if i ∈ ids then hits[i]?.map (Option.map (·.take k)) else hits[i]? := by
  intro ids
  induction ids with
  | nil => intro hits; simp
  | cons j ids ih =>
    intro hits
    obtain ⟨hlength, hget⟩ := @ih (hits.modify j (Option.map (·.take k)))
    refine ⟨by rw [foldl_cons, hlength, length_modify], ?_⟩
    intro i
    rw [foldl_cons, hget, getElem?_modify]
    by_cases hj : j = i
    · subst hj
      -- A second cut to the same length does nothing.
      cases hits[j]? with
      | none => simp
      | some hit =>
        cases hit with
        | none => simp
        | some hit => simp [take_take]
    · simp [hj, Ne.symm hj]

theorem length_truncateFullAttention (n : Nat) (hits : HitBlocks) :
    (c.truncateFullAttention n hits).length = hits.length := by
  unfold truncateFullAttention
  split
  · rfl
  · split
    · exact foldl_modify_take.1
    · rfl

/-- Group `i` has the list `hit` of `n` tokens.  The blocks that the next token needs are the
cached ones, and the others are cached or null. -/
structure GroupHit (c : KVCacheCoordinator D) (blockHashes : List D) (i : Nat) (s : KVCacheSpec)
    (n : Nat) (hashes : BlockHashListWithBlockSize D) (hit : List BlockId) : Prop where
  converted : convertBlockHashes blockHashes c.hashBlockSize s.blockSize = .ok hashes
  length : hit.length * s.blockSize = n
  needed : ∀ k b, hit[k]? = some b → s.HitNeeds n k → CachedRow c.blockPool hashes [i] k [b]
  blocks : ∀ k b, hit[k]? = some b →
    b = c.blockPool.nullBlock ∨ CachedRow c.blockPool hashes [i] k [b]

variable {p : BlockPool D} {j : Nat} {hits : HitBlocks} {s : KVCacheSpec}

theorem cachedRow_single {row : List BlockId} (h : CachedRow p hashes ids k row)
    (hj : ids[j]? = some i) (nullBlock : BlockId) :
    CachedRow p hashes [i] k [row.getD j nullBlock] := by
  obtain ⟨v, hv, hrow⟩ := h
  obtain ⟨b, hb, hone⟩ := (SingleTypeKVCacheManager.mapM_some hrow).2 j i hj
  refine ⟨v, hv, ?_⟩
  unfold BlockPool.getCachedBlock
  rw [getD_eq_getElem?_getD, hb, mapM_cons, hone]
  rfl

theorem cachedAt_of_each : ∀ {ids : List Nat}, ids ≠ [] → (∀ i ∈ ids, CachedAt p hashes [i] k) →
      CachedAt p hashes ids k := by
  intro ids hne hall
  obtain ⟨i, rest, hids⟩ := exists_cons_of_ne_nil hne
  obtain ⟨_, v, hv, _⟩ := hall i (hids ▸ mem_cons_self)
  have hsome : ∀ {ids : List Nat}, (∀ i ∈ ids, CachedAt p hashes [i] k) →
      ∃ row, p.getCachedBlock v ids = some row := by
    intro ids
    induction ids with
    | nil => exact fun _ => ⟨[], rfl⟩
    | cons i ids ih =>
      intro hall
      obtain ⟨row, hrow⟩ := ih fun i hi => hall i (mem_cons_of_mem _ hi)
      obtain ⟨_, v', hv', hcached⟩ := hall i mem_cons_self
      rw [hv, Except.ok.injEq] at hv'
      subst hv'
      obtain ⟨b, _, hone⟩ := (SingleTypeKVCacheManager.mapM_some hcached).2 0 i rfl
      refine ⟨b :: row, ?_⟩
      unfold BlockPool.getCachedBlock at hrow ⊢
      rw [mapM_cons, hone, hrow]
      rfl
  obtain ⟨row, hrow⟩ := hsome hall
  exact ⟨row, v, hv, hrow⟩

theorem GroupRows.groupHit {asked : Nat} {rows : List (List BlockId)}
    (h : c.GroupRows blockHashes g asked n hits hashes rows) (hdvd : g.1.blockSize ∣ n)
    (hwhole : g.1.ChunkAligned ∨ n = asked) (hj : g.2[j]? = some i) :
    c.GroupHit blockHashes i g.1 n hashes
      ((rows.map fun row => row.getD j c.blockPool.nullBlock).take (n / g.1.blockSize)) := by
  have hget : ∀ k b, ((rows.map fun row => row.getD j c.blockPool.nullBlock).take
      (n / g.1.blockSize))[k]? = some b → k * g.1.blockSize < n ∧
        ∃ row, rows[k]? = some row ∧ b = row.getD j c.blockPool.nullBlock := by
    intro k b hb
    rw [getElem?_take] at hb
    split at hb
    next hk =>
      rw [getElem?_map, Option.map_eq_some_iff] at hb
      obtain ⟨row, hrow, rfl⟩ := hb
      refine ⟨?_, row, hrow, rfl⟩
      calc
        k * g.1.blockSize < n / g.1.blockSize * g.1.blockSize :=
          mul_lt_mul_of_pos_right hk g.1.blockSize_pos
        _ ≤ n := div_mul_le_self _ _
    · cases hb
  refine ⟨h.converted, ?_, ?_, ?_⟩
  · have hle : n / g.1.blockSize ≤ rows.length := by
      rw [← Nat.mul_div_cancel rows.length g.1.blockSize_pos]
      exact Nat.div_le_div_right h.covers
    rw [length_take, length_map, min_eq_left hle, Nat.div_mul_cancel hdvd]
  · intro k b hb hneeds
    obtain ⟨hk, row, hrow, rfl⟩ := hget k b hb
    exact cachedRow_single (h.valid hwhole k row hrow hk hneeds) hj c.blockPool.nullBlock
  · intro k b hb
    obtain ⟨_, row, hrow, rfl⟩ := hget k b hb
    have hok := h.rowsOk k row hrow
    rw [zero_add] at hok
    rcases hok with rfl | hcached
    · left
      have hlt : j < g.2.length := (List.getElem?_eq_some_iff.mp hj).1
      simp [getD_eq_getElem?_getD, hlt]
    · exact .inr (cachedRow_single hcached hj c.blockPool.nullBlock)

theorem IsHybrid.group_unique (hc : c.IsHybrid) {ids' : List Nat}
    (h : (s, ids) ∈ c.attentionGroups) (h' : (s, ids') ∈ c.attentionGroups) : ids = ids' := by
  have heq := inj_on_of_nodup_map hc.distinct.1 h h' rfl
  rw [Prod.mk.injEq] at heq
  exact heq.2

/-- After the cut, the lists of the first group of full attention have the right length, and so
have those of all groups without full attention. -/
theorem IsHybrid.truncateFullAttention_getElem? (hc : c.IsHybrid)
    (hmem : (s, ids) ∈ c.attentionGroups) (hi : i ∈ ids)
    (hfirst : s.isFullAttention = true → ∃ ids', c.attentionGroups.head? = some (s, ids'))
    {hit : List BlockId} (hget : hits[i]? = some (some hit))
    (hexact : s.isFullAttention = false → hit.length * s.blockSize = n) :
    (c.truncateFullAttention n hits)[i]? = some (some (hit.take (n / s.blockSize))) := by
  obtain ⟨⟨s₀, ids₀⟩, rest, hgroups⟩ := exists_cons_of_ne_nil hc.attentionGroups_ne_nil
  have hmem₀ : (s₀, ids₀) ∈ c.attentionGroups := hgroups ▸ mem_cons_self
  unfold truncateFullAttention
  rw [hgroups]
  dsimp only
  cases hfull : s.isFullAttention with
  | true =>
    obtain ⟨ids', hhead⟩ := hfirst hfull
    rw [hgroups, head?_cons, Option.some.injEq, Prod.mk.injEq] at hhead
    obtain ⟨rfl, rfl⟩ := hhead
    obtain rfl := hc.group_unique hmem hmem₀
    rw [if_pos hfull, foldl_modify_take.2, if_pos hi, hget]
    rfl
  | false =>
    have hwhole : hit.take (n / s.blockSize) = hit := by
      rw [← hexact hfull, Nat.mul_div_cancel _ s.blockSize_pos, take_length]
    rw [hwhole]
    split
    next hfull₀ =>
      have hnot : i ∉ ids₀ := by
        intro hi₀
        have hspec := (hc.mem_spec hmem hi).symm.trans (hc.mem_spec hmem₀ hi₀)
        rw [Option.some.injEq] at hspec
        dsimp only at hspec
        rw [hspec, hfull₀] at hfull
        cases hfull
      rw [foldl_modify_take.2, if_neg hnot, hget]
    · exact hget

/-- What a search of at most `maxLength` tokens returns.  The lists of a second kind of full
attention are not cut, and the shortcut asks no group again for the chunks of a shorter hit. -/
structure HybridHit (c : KVCacheCoordinator D) (blockHashes : List D) (maxLength : Nat)
    (hits : KVCacheBlocks) (n : Nat) : Prop where
  le : n ≤ maxLength
  dvd : c.lcmBlockSize ∣ n
  groups : hits.length = c.kvCacheConfig.kvCacheGroups.length
  hit : ∀ i s, c.kvCacheConfig.kvCacheGroups[i]? = some s →
    (s.isFullAttention = true → ∃ ids, c.attentionGroups.head? = some (s, ids)) →
    (c.isSimpleHybrid = true → s.ChunkAligned) →
    ∃ hashes hit, hits[i]? = some hit ∧ c.GroupHit blockHashes i s n hashes hit
  longest : c.useEagle = false → (∀ s ∈ c.kvCacheConfig.kvCacheGroups, s.WindowOverOne) →
    ∀ v ≤ maxLength, c.lcmBlockSize ∣ v →
      (∀ i s, c.kvCacheConfig.kvCacheGroups[i]? = some s →
        c.GroupCached blockHashes (s, [i]) v) → v ≤ n

theorem groupCached_of_each (hne : g.2 ≠ [])
    (hall : ∀ i ∈ g.2, c.GroupCached blockHashes (g.1, [i]) n) : c.GroupCached blockHashes g n := by
  obtain ⟨i, rest, hids⟩ := exists_cons_of_ne_nil hne
  obtain ⟨hashes, hconv, _⟩ := hall i (hids ▸ mem_cons_self)
  refine ⟨hashes, hconv, ?_⟩
  intro k hk hneeds
  apply cachedAt_of_each hne
  intro j hj
  obtain ⟨hashes', hconv', hcached⟩ := hall j hj
  rw [hconv, Except.ok.injEq] at hconv'
  subst hconv'
  exact hcached k hk hneeds

theorem Agreed.hybridHit (hc : c.IsHybrid) {maxLength : Nat}
    (h : c.Agreed blockHashes c.isSimpleHybrid maxLength n hits) :
    c.HybridHit blockHashes maxLength ((c.truncateFullAttention n hits).map (·.getD [])) n where
  le := h.le
  dvd := h.dvd
  groups := by rw [length_map, length_truncateFullAttention, h.length]
  hit := by
    intro i s hs hfirst hchunk
    obtain ⟨ids, hmem, hi⟩ := mem_splitKVCacheGroups hs
    rw [← hc.groups] at hmem
    obtain ⟨asked, hasked, hashes, rows, hrows⟩ := h.accepts (s, ids) hmem
    obtain ⟨j, hj, hget⟩ := hrows.holds i hi
    have hwhole : s.ChunkAligned ∨ n = asked := by
      cases hsimple : c.isSimpleHybrid with
      | true => exact .inl (hchunk hsimple)
      | false => exact .inr (hasked hsimple).symm
    refine ⟨hashes, _, ?_, hrows.groupHit ((hc.blockSize_dvd hmem).trans h.dvd) hwhole hj⟩
    rw [getElem?_map, hc.truncateFullAttention_getElem? hmem hi hfirst hget]
    · rfl
    · intro hnot
      rw [length_map]
      exact hrows.exact hnot
  longest := by
    intro heagle hwindows v hv hdvd hcached
    apply h.longest heagle (fun g hg => hwindows g.1 (hc.spec_mem hg)) v hv hdvd
    intro g hg
    apply groupCached_of_each (hc.distinct.2 g hg)
    exact fun i hi => hcached i g.1 (hc.mem_spec hg hi)

def findLongestCacheHitWithin (c : KVCacheCoordinator D) (blockHashes : List D) (simple : Bool)
    (fuel maxCacheHitLength : Nat) : Py (KVCacheBlocks × Nat) := do
  let (hitLength, hits) ← searchLoop c blockHashes simple fuel maxCacheHitLength
    (List.replicate c.kvCacheConfig.kvCacheGroups.length none)
  pure ((c.truncateFullAttention hitLength hits).map (·.getD []), hitLength)

theorem findLongestCacheHit_hybrid (hkind : c.kind = .hybrid) (blockHashes : List D)
    (maxLength : Nat) : c.findLongestCacheHit blockHashes maxLength =
      c.findLongestCacheHitWithin blockHashes c.isSimpleHybrid (maxLength + 1) maxLength := by
  unfold KVCacheCoordinator.findLongestCacheHit
  rw [hkind]
  rfl

theorem IsHybrid.searchable (hc : c.IsHybrid)
    (hsupported : ∀ s ∈ c.kvCacheConfig.kvCacheGroups, s.Supported c.useEagle c.lcmBlockSize) :
    c.Searchable c.attentionGroups where
  mem := fun _ hg => hg
  supported := fun g hg => hsupported g.1 (hc.spec_mem hg)
  disjoint := attentionGroups_disjoint
    (hc.groups ▸ splitKVCacheGroups_ok c.kvCacheConfig.kvCacheGroups) hc.distinct

theorem IsHybrid.findLongestCacheHit (hc : c.IsHybrid)
    (hsupported : ∀ s ∈ c.kvCacheConfig.kvCacheGroups, s.Supported c.useEagle c.lcmBlockSize)
    (maxLength : Nat) (hcover : maxLength / c.hashBlockSize ≤ blockHashes.length) :
    ∃ hits n, (∀ fuel, maxLength < fuel → c.findLongestCacheHitWithin blockHashes
        c.isSimpleHybrid fuel maxLength = .ok (hits, n)) ∧
      c.HybridHit blockHashes maxLength hits n ∧
      (c.isSimpleHybrid = true → c.useEagle = false →
        (∀ s ∈ c.kvCacheConfig.kvCacheGroups, s.ChunkAligned) → ∀ fuel, maxLength < fuel →
          c.findLongestCacheHitWithin blockHashes false fuel maxLength = .ok (hits, n)) := by
  have hs := hc.searchable hsupported
  have hlength : (List.replicate c.kvCacheConfig.kvCacheGroups.length none :
      HitBlocks).length = c.kvCacheConfig.kvCacheGroups.length := length_replicate
  -- No group was searched yet.
  have hready : ∀ g ∈ c.attentionGroups, c.Ready blockHashes g maxLength
      (List.replicate c.kvCacheConfig.kvCacheGroups.length none) := by
    intro g hg _
    left
    intro i hi
    rw [List.getElem?_replicate, if_pos (List.getElem?_eq_some_iff.mp (hc.mem_spec hg hi)).1]
  obtain ⟨n, hits, hloop, hagreed⟩ := searchLoop_agreed hc hs c.isSimpleHybrid
    (fun h => h) hcover hlength hready
  have hwithin : ∀ fuel, maxLength < fuel → c.findLongestCacheHitWithin blockHashes
      c.isSimpleHybrid fuel maxLength =
        .ok ((c.truncateFullAttention n hits).map (·.getD []), n) := by
    intro fuel hlt
    unfold findLongestCacheHitWithin
    rw [hloop fuel hlt]
    rfl
  refine ⟨_, n, hwithin, hagreed.hybridHit hc, ?_⟩
  intro hsimple heagle hchunks fuel hlt
  have hsame := searchLoop_shortcut hc hs hsimple heagle
    (fun g hg => hchunks g.1 (hc.spec_mem hg)) hcover hlength hready hlt
  have hfound := hwithin fuel hlt
  unfold findLongestCacheHitWithin at hfound ⊢
  rw [hsame, ← hsimple]
  exact hfound

def withPool (c : KVCacheCoordinator D) (p : BlockPool D) : KVCacheCoordinator D :=
  { c with blockPool := p }

theorem IsHybrid.withPool (hc : c.IsHybrid) (p : BlockPool D) : (c.withPool p).IsHybrid :=
  ⟨hc.groups, hc.two, hc.lcm, hc.divides⟩

/-- A hybrid coordinator finds a hit common to all groups, whatever is cached, if the hashes
cover the tokens asked for and the managers support the types of attention.  Without EAGLE it
is the longest one, and the shortcut for simple hybrids changes nothing. -/
theorem findLongestCacheHitHybrid_agreed {config : KVCacheConfig} {useEagle caching events : Bool}
    {dcp pcp hashBlockSize : Nat} {c : KVCacheCoordinator D}
    (hcreate : create config useEagle caching events dcp pcp hashBlockSize = .ok c)
    (hkind : c.kind = .hybrid)
    (hsupported : ∀ s ∈ c.kvCacheConfig.kvCacheGroups, s.Supported c.useEagle c.lcmBlockSize)
    {blockHashes : List D} {maxLength : Nat}
    (hcover : maxLength / c.hashBlockSize ≤ blockHashes.length) (p : BlockPool D) :
    ∃ hits n, (c.withPool p).findLongestCacheHit blockHashes maxLength = .ok (hits, n) ∧
      (∀ fuel, maxLength < fuel → (c.withPool p).findLongestCacheHitWithin blockHashes
        c.isSimpleHybrid fuel maxLength = .ok (hits, n)) ∧
      (c.withPool p).HybridHit blockHashes maxLength hits n ∧
      (c.isSimpleHybrid = true → c.useEagle = false →
        (∀ s ∈ c.kvCacheConfig.kvCacheGroups, s.ChunkAligned) → ∀ fuel, maxLength < fuel →
          (c.withPool p).findLongestCacheHitWithin blockHashes false fuel maxLength =
            .ok (hits, n)) := by
  have hc := create_isHybrid hcreate hkind
  obtain ⟨hits, n, hwithin, hhit, hshortcut⟩ :=
    (hc.withPool p).findLongestCacheHit hsupported maxLength hcover
  refine ⟨hits, n, ?_, hwithin, hhit, hshortcut⟩
  rw [findLongestCacheHit_hybrid (c := c.withPool p) hkind]
  exact hwithin (maxLength + 1) (lt_succ_self maxLength)

/-! ### Small hybrids -/

def hybridOf (specs : List KVCacheSpec) (hashBlockSize : Nat) (useEagle : Bool) :
    Py (KVCacheCoordinator Nat) :=
  create ⟨9, specs⟩ useEagle true false 1 1 hashBlockSize

/-- A pool with the block of digest `d` cached for group `g` if `cached g d`. -/
def poolOf (cached : Nat → Nat → Bool) : Py (BlockPool Nat) := do
  let p ← BlockPool.create 9 true 1 false
  pure { p with cachedBlockHashToBlock := ⟨fun key => match key.blockHash with
    | [d] => if cached key.groupId d then some (.single (d + 1)) else none
    | _ => none⟩ }

def oneHeadOf (headSize : Nat) : AttentionShape :=
  { numKvHeads := 1, headSize := headSize, dtype := ⟨"uint8", 1⟩ }

def fullSpec (headSize : Nat) : KVCacheSpec :=
  ⟨1, .fullAttention (oneHeadOf headSize) headSize none none, Nat.one_pos⟩

def windowSpec (window : Nat) (hpos : 0 < window) : KVCacheSpec :=
  ⟨1, .slidingWindow (oneHeadOf 4) window hpos, Nat.one_pos⟩

def chunkSpec (blockSize chunkSize : Nat) (hsize : 0 < blockSize) (hpos : 0 < chunkSize) :
    KVCacheSpec :=
  ⟨blockSize, .chunkedLocalAttention (oneHeadOf 4) chunkSize hpos, hsize⟩

/-- All four blocks of a prompt are cached for both groups, and the search finds four tokens. -/
theorem findLongestCacheHitHybrid_agreed_fourTokens : ∃ c p,
    hybridOf [fullSpec 1, windowSpec 3 (succ_pos 2)] 1 false = .ok c ∧
      poolOf (fun _ _ => true) = .ok p ∧
      (c.withPool p).HybridHit [0, 1, 2, 3] 4 [[1, 2, 3, 4], [0, 0, 3, 4]] 4 ∧
      (c.withPool p).findLongestCacheHitWithin [0, 1, 2, 3] false 5 4 =
        .ok ([[1, 2, 3, 4], [0, 0, 3, 4]], 4) := by
  obtain ⟨c, hcreate⟩ : ∃ c,
      hybridOf [fullSpec 1, windowSpec 3 (succ_pos 2)] 1 false = .ok c := ⟨_, rfl⟩
  obtain ⟨p, hpool⟩ : ∃ p, poolOf (fun _ _ => true) = .ok p := ⟨_, rfl⟩
  obtain ⟨hkind, hgroups, heagle, hcover, hsimple, hfind⟩ : c.kind = .hybrid ∧
      c.kvCacheConfig.kvCacheGroups = [fullSpec 1, windowSpec 3 (succ_pos 2)] ∧
      c.useEagle = false ∧ 4 / c.hashBlockSize ≤ 4 ∧ c.isSimpleHybrid = true ∧
      (c.withPool p).findLongestCacheHit [0, 1, 2, 3] 4 =
        .ok ([[1, 2, 3, 4], [0, 0, 3, 4]], 4) := by
    cases hcreate
    cases hpool
    exact ⟨rfl, rfl, rfl, by decide, by decide, rfl⟩
  have hsupported : ∀ s ∈ c.kvCacheConfig.kvCacheGroups,
      s.Supported c.useEagle c.lcmBlockSize := by
    intro s hs
    rw [hgroups] at hs
    simp only [mem_cons, not_mem_nil, or_false] at hs
    rcases hs with rfl | rfl
    · trivial
    · exact fun h => by rw [heagle] at h; cases h
  obtain ⟨hits, n, hfound, _, hhit, hshortcut⟩ := findLongestCacheHitHybrid_agreed hcreate hkind
    hsupported (show 4 / c.hashBlockSize ≤ [0, 1, 2, 3].length from hcover) p
  rw [hfind] at hfound
  cases hfound
  refine ⟨c, p, hcreate, hpool, hhit, hshortcut hsimple heagle ?_ 5 (by decide)⟩
  intro s hs
  rw [hgroups] at hs
  simp only [mem_cons, not_mem_nil, or_false] at hs
  rcases hs with rfl | rfl <;> trivial

/-! ### What the search does not do -/

/-- A hit without the exceptions: all lists have the length of the hit, and the shortcut never
matters. -/
structure IdealHit (c : KVCacheCoordinator D) (blockHashes : List D) (maxLength : Nat)
    (hits : KVCacheBlocks) (n : Nat) : Prop where
  le : n ≤ maxLength
  dvd : c.lcmBlockSize ∣ n
  hit : ∀ i s, c.kvCacheConfig.kvCacheGroups[i]? = some s →
    ∃ hashes hit, hits[i]? = some hit ∧ c.GroupHit blockHashes i s n hashes hit
  longest : c.useEagle = false → ∀ v ≤ maxLength, c.lcmBlockSize ∣ v →
    (∀ i s, c.kvCacheConfig.kvCacheGroups[i]? = some s →
      c.GroupCached blockHashes (s, [i]) v) → v ≤ n
  shortcut : c.isSimpleHybrid = true → ∀ fuel, maxLength < fuel →
    c.findLongestCacheHitWithin blockHashes false fuel maxLength = .ok (hits, n)

/-- The search over four hashes does not end with an ideal hit. -/
def MissesIdeal (specs : List KVCacheSpec) (hashBlockSize : Nat) (useEagle : Bool)
    (cached : Nat → Nat → Bool) (maxLength : Nat) : Prop :=
  ∃ c p, hybridOf specs hashBlockSize useEagle = .ok c ∧ c.kind = .hybrid ∧
    maxLength / c.hashBlockSize ≤ 4 ∧ poolOf cached = .ok p ∧
    ¬∃ hits n, (c.withPool p).findLongestCacheHit [0, 1, 2, 3] maxLength = .ok (hits, n) ∧
      (c.withPool p).IdealHit [0, 1, 2, 3] maxLength hits n

theorem missesIdeal_eagle :
    MissesIdeal [fullSpec 1, windowSpec 3 (succ_pos 2)] 1 true (fun _ _ => true) 4 := by
  refine ⟨_, _, rfl, rfl, by decide, rfl, ?_⟩
  rintro ⟨hits, n, hfind, hideal⟩
  cases hfind
  have hall := hideal.shortcut rfl 20 (by decide)
  cases hall

theorem missesIdeal_assert :
    MissesIdeal [fullSpec 1, chunkSpec 1 2 one_pos two_pos] 1 true (fun _ _ => true) 4 := by
  refine ⟨_, _, rfl, rfl, by decide, rfl, ?_⟩
  rintro ⟨hits, n, hfind, _⟩
  cases hfind

theorem missesIdeal_notCut : MissesIdeal [fullSpec 1, fullSpec 2, windowSpec 2 two_pos] 1
    false (fun g _ => g < 2) 4 := by
  refine ⟨_, _, rfl, rfl, by decide, rfl, ?_⟩
  rintro ⟨hits, n, hfind, hideal⟩
  cases hfind
  obtain ⟨_, hit, hget, hhit⟩ := hideal.hit 1 (fullSpec 2) rfl
  cases hget
  cases hhit.length

theorem missesIdeal_chunk : MissesIdeal [⟨2, .fullAttention (oneHeadOf 1) 1 none none, two_pos⟩,
      chunkSpec 2 3 two_pos (succ_pos 2)] 2 false (fun g _ => g < 1) 4 := by
  refine ⟨_, _, rfl, rfl, by decide, rfl, ?_⟩
  rintro ⟨hits, n, hfind, hideal⟩
  cases hfind
  have hall := hideal.shortcut rfl 20 (by decide)
  cases hall

theorem missesIdeal_window :
    MissesIdeal [fullSpec 1, windowSpec 1 one_pos] 1 false (fun g _ => g < 1) 4 := by
  refine ⟨_, _, rfl, rfl, by decide, rfl, ?_⟩
  rintro ⟨hits, n, hfind, hideal⟩
  cases hfind
  have hle := hideal.longest rfl 4 le_rfl (by decide) ?_
  · cases hle
  · intro i s hs
    have hi : i < 2 := (List.getElem?_eq_some_iff.mp hs).1
    refine ⟨⟨[0, 1, 2, 3], 1⟩, ?_⟩
    obtain rfl | rfl : i = 0 ∨ i = 1 := by omega
    · cases hs
      refine ⟨rfl, fun k hk _ => ?_⟩
      have hlt : k < 4 := by simpa [fullSpec] using hk
      obtain rfl | rfl | rfl | rfl : k = 0 ∨ k = 1 ∨ k = 2 ∨ k = 3 := by omega
      all_goals exact ⟨_, _, rfl, rfl⟩
    · cases hs
      refine ⟨rfl, fun k hk hneeds => ?_⟩
      have hlt : k < 4 := by simpa [windowSpec] using hk
      have hneeded :=
        (KVCacheSpec.needsBlock_slidingWindow (s := windowSpec 1 one_pos) rfl hlt).mp hneeds
      have hnone : cdiv (((1 : Nat) : Int) - 1) (windowSpec 1 one_pos).blockSize = 0 := rfl
      unfold SingleTypeKVCacheManager.WindowNeeds at hneeded
      omega

/-- EAGLE drops blocks in every round, the managers assert what they support, and three kinds
of groups are not treated as the others: a second one with full attention, a window of one
token, and chunks that start within a block. -/
theorem findLongestCacheHitHybrid_not_ideal :
    MissesIdeal [fullSpec 1, windowSpec 3 (succ_pos 2)] 1 true (fun _ _ => true) 4 ∧
      MissesIdeal [fullSpec 1, chunkSpec 1 2 one_pos two_pos] 1 true (fun _ _ => true) 4 ∧
      MissesIdeal [fullSpec 1, fullSpec 2, windowSpec 2 two_pos] 1 false (fun g _ => g < 2) 4 ∧
      MissesIdeal [fullSpec 1, windowSpec 1 one_pos] 1 false (fun g _ => g < 1) 4 ∧
      MissesIdeal [⟨2, .fullAttention (oneHeadOf 1) 1 none none, two_pos⟩,
        chunkSpec 2 3 two_pos (succ_pos 2)] 2 false (fun g _ => g < 1) 4 :=
  ⟨missesIdeal_eagle, missesIdeal_assert, missesIdeal_notCut, missesIdeal_window,
    missesIdeal_chunk⟩

end KVCacheCoordinator

end VllmCore
