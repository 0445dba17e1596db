import VllmCore.KVCacheManager.HybridLookup
/-!
# What the search of hybrid models finds

A turn keeps or reduces the length.  A round in which all groups keep it ends the search, so
that the search ends, and every group has a hit of the length it ends with.  No turn gives
up a length at which every group has a hit.
-/

namespace VllmCore

open List Nat Option Support

variable {D : Type} [DecidableEq D]

open SingleTypeKVCacheManager (CachedRow CachedAt RowsOk LongestRows Lookup lookupNeeds Aligned)

namespace KVCacheCoordinator

/-! ## What a group has -/

section

variable (c : KVCacheCoordinator D) (blockHashes : List D)

/-- The rows of group `g` after it was asked for `asked` tokens and accepted `n` of them. -/
structure GroupRows (g : AttentionGroup) (asked n : Nat) (hits : HitBlocks)
    (hashes : BlockHashListWithBlockSize D) (rows : List (List BlockId)) : Prop where
  converted : convertBlockHashes blockHashes c.hashBlockSize g.1.blockSize = .ok hashes
  holds : c.HoldsRows g.2 rows hits
  rowsOk : RowsOk c.blockPool hashes g.2 0 rows
  covers : n ≤ rows.length * g.1.blockSize
  exact : g.1.isFullAttention = false → rows.length * g.1.blockSize = n
  valid : g.1.ChunkAligned ∨ n = asked → ∀ i row, rows[i]? = some row → i * g.1.blockSize < n →
    g.1.HitNeeds n i → CachedRow c.blockPool hashes g.2 i row

/-- Group `g` accepted `n` of the tokens it was asked for. -/
def Accepts (g : AttentionGroup) (asked n : Nat) (hits : HitBlocks) : Prop :=
  ∃ hashes rows, c.GroupRows blockHashes g asked n hits hashes rows

/-- The blocks that group `g` needs after `n` tokens are cached. -/
def GroupCached (g : AttentionGroup) (n : Nat) : Prop :=
  ∃ hashes, convertBlockHashes blockHashes c.hashBlockSize g.1.blockSize = .ok hashes ∧
    ∀ i, i * g.1.blockSize < n → g.1.HitNeeds n i → CachedAt c.blockPool hashes g.2 i

/-- Before its turn, a group of full attention was not searched yet, or accepts the length. -/
def Ready (g : AttentionGroup) (n : Nat) (hits : HitBlocks) : Prop :=
  g.1.isFullAttention = true → (∀ i ∈ g.2, hits[i]? = some none) ∨
    c.lcmBlockSize ∣ n ∧ c.Accepts blockHashes g n n hits

end

variable {c : KVCacheCoordinator D} {blockHashes : List D} {g : AttentionGroup}

theorem chunkAligned_of_fullAttention {s : KVCacheSpec} (hfull : s.isFullAttention = true) :
    s.ChunkAligned := by
  unfold KVCacheSpec.isFullAttention at hfull
  unfold KVCacheSpec.ChunkAligned
  split
  next hkind =>
    rw [hkind] at hfull
    cases hfull
  · trivial

variable {hits hits' : HitBlocks} {n m : Nat}
variable {asked n' : Nat} {rows : List (List BlockId)} {groups : List AttentionGroup}

theorem Accepts.congr (h : c.Accepts blockHashes g asked n hits)
    (hsame : ∀ i ∈ g.2, hits'[i]? = hits[i]?) : c.Accepts blockHashes g asked n hits' := by
  obtain ⟨hashes, rows, hrows⟩ := h
  refine ⟨hashes, rows, { hrows with holds := ?_ }⟩
  intro i hi
  rw [hsame i hi]
  exact hrows.holds i hi

theorem Accepts.shorten (h : c.Accepts blockHashes g asked n hits)
    (hfull : g.1.isFullAttention = true) (hle : n' ≤ n) (asked' : Nat) :
    c.Accepts blockHashes g asked' n' hits := by
  obtain ⟨hashes, rows, hrows⟩ := h
  refine ⟨hashes, rows, hrows.converted, hrows.holds, hrows.rowsOk, hle.trans hrows.covers, ?_, ?_⟩
  · intro hnot
    rw [hfull] at hnot
    cases hnot
  · intro _ i row hrow hi _
    have hlt : i * g.1.blockSize < n := hi.trans_le hle
    exact hrows.valid (.inl (chunkAligned_of_fullAttention hfull)) i row hrow hlt
      (KVCacheSpec.hitNeeds_fullAttention hfull hlt.le)

theorem Ready.shorten (h : c.Ready blockHashes g n hits) (hle : n' ≤ n)
    (hdvd : c.lcmBlockSize ∣ n') (hsame : ∀ i ∈ g.2, hits'[i]? = hits[i]?) :
    c.Ready blockHashes g n' hits' := by
  intro hfull
  rcases h hfull with hnone | ⟨_, haccepts⟩
  · left
    intro i hi
    rw [hsame i hi]
    exact hnone i hi
  · exact .inr ⟨hdvd, (haccepts.shorten hfull hle n').congr hsame⟩

/-! ## A turn -/

theorem IsHybrid.hashes_cover (hc : c.IsHybrid) (hg : g ∈ c.attentionGroups)
    (hcover : n / c.hashBlockSize ≤ blockHashes.length) :
    ∃ hashes, convertBlockHashes blockHashes c.hashBlockSize g.1.blockSize = .ok hashes ∧
      n / g.1.blockSize ≤ hashes.length := by
  obtain ⟨hashes, hconv⟩ :=
    convertBlockHashes_of_dvd blockHashes (hc.divides g.1 (hc.spec_mem hg))
  obtain ⟨hlist, hscale, hmul⟩ := convertBlockHashes_ok g.1.blockSize_pos hconv
  refine ⟨hashes, hconv, ?_⟩
  unfold BlockHashListWithBlockSize.length
  rw [hlist, ← hmul, Nat.mul_comm, ← Nat.div_div_eq_div_mul]
  exact Nat.div_le_div_right hcover

theorem searchGroup_fresh (hc : c.IsHybrid) (hg : g ∈ c.attentionGroups)
    (hsupported : g.1.Supported c.useEagle c.lcmBlockSize)
    (hcover : n / c.hashBlockSize ≤ blockHashes.length) (hits : HitBlocks)
    (hfresh : ¬(g.1.isFullAttention = true ∧ ((g.2.head?.bind (hits[·]?)).join).isSome = true)) :
    ∃ hashes rows,
      convertBlockHashes blockHashes c.hashBlockSize g.1.blockSize = .ok hashes ∧
      c.searchGroup blockHashes (n, hits) g =
        .ok (rows.length * g.1.blockSize, c.storeRows g.2 rows hits) ∧
      (c.useEagle = false → g.1.ChunkAligned → LongestRows c.blockPool hashes g.2
        (lookupNeeds g.1) (Aligned g.1.blockSize c.lcmBlockSize) (n / g.1.blockSize) rows) ∧
      Lookup c.blockPool hashes g.2 g.1 c.useEagle c.lcmBlockSize n rows := by
  obtain ⟨hashes, hconv, hhashes⟩ := hc.hashes_cover hg hcover
  obtain ⟨rows, hfind, hlongest, hlookup⟩ :=
    SingleTypeKVCacheManager.findLongestCacheHit_lookup c.blockPool g.2 hsupported hhashes
  refine ⟨hashes, rows, hconv, ?_, hlongest, hlookup⟩
  obtain ⟨i, ids, hids⟩ := exists_cons_of_ne_nil (hc.distinct.2 g hg)
  have hcolumns : SingleTypeKVCacheManager.columns g.2.length c.blockPool.nullBlock rows =
      (rows.map fun row => row.getD 0 c.blockPool.nullBlock) ::
        (SingleTypeKVCacheManager.columns g.2.length c.blockPool.nullBlock rows).tail := by
    rw [hids]
    unfold SingleTypeKVCacheManager.columns
    rw [length_cons, range_succ_eq_map]
    rfl
  unfold searchGroup storeRows
  dsimp only at hfresh hconv hfind hcolumns ⊢
  rw [if_neg hfresh, hconv, ok_bind, hfind, ok_bind, hcolumns]
  dsimp only
  rw [length_map]
  rfl

theorem searchGroup_kept (c : KVCacheCoordinator D) (blockHashes : List D)
    (hfull : g.1.isFullAttention = true) (hsome : ((g.2.head?.bind (hits[·]?)).join).isSome = true)
    (hdvd : g.1.blockSize ∣ n) : c.searchGroup blockHashes (n, hits) g = .ok (n, hits) := by
  unfold searchGroup
  dsimp only at hfull hsome hdvd ⊢
  rw [if_pos ⟨hfull, hsome⟩, Nat.div_mul_cancel hdvd]
  rfl

theorem HoldsRows.searched {ids : List Nat} (h : c.HoldsRows ids rows hits) (hne : ids ≠ []) :
    ((ids.head?.bind (hits[·]?)).join).isSome = true := by
  obtain ⟨i, rest, rfl⟩ := exists_cons_of_ne_nil hne
  obtain ⟨j, _, hget⟩ := h i mem_cons_self
  rw [head?_cons, bind_some, hget]
  rfl

/-- A turn of group `g` that reduces `n` to `m`. -/
structure Turn (c : KVCacheCoordinator D) (blockHashes : List D) (g : AttentionGroup) (n : Nat)
    (hits : HitBlocks) (m : Nat) (hits' : HitBlocks) : Prop where
  run : c.searchGroup blockHashes (n, hits) g = .ok (m, hits')
  dvd : c.lcmBlockSize ∣ m
  accepts : c.Accepts blockHashes g n m hits'
  longest : c.useEagle = false → g.1.WindowOverOne → ∀ v ≤ n, c.lcmBlockSize ∣ v →
    c.GroupCached blockHashes g v → v ≤ m

theorem lookup_longest_cached {v : Nat} {hashes : BlockHashListWithBlockSize D}
    (hconv : convertBlockHashes blockHashes c.hashBlockSize g.1.blockSize = .ok hashes)
    (h : Lookup c.blockPool hashes g.2 g.1 c.useEagle c.lcmBlockSize n rows)
    (heagle : c.useEagle = false) (hwindow : g.1.WindowOverOne) (hv : v ≤ n)
    (hdvd : c.lcmBlockSize ∣ v) (hsize : g.1.blockSize ∣ v)
    (hcached : c.GroupCached blockHashes g v) : v ≤ rows.length * g.1.blockSize := by
  obtain ⟨hashes', hconv', hcached⟩ := hcached
  rw [hconv, Except.ok.injEq] at hconv'
  subst hconv'
  obtain ⟨k, rfl⟩ := hsize
  rw [Nat.mul_comm] at hv hdvd hcached ⊢
  apply Nat.mul_le_mul_right
  apply h.longest heagle hwindow k hv hdvd
  intro i hi
  exact hcached i (mul_lt_mul_of_pos_right hi g.1.blockSize_pos)

theorem searchGroup_turn (hc : c.IsHybrid) (hg : g ∈ c.attentionGroups)
    (hsupported : g.1.Supported c.useEagle c.lcmBlockSize)
    (hcover : n / c.hashBlockSize ≤ blockHashes.length)
    (hlength : hits.length = c.kvCacheConfig.kvCacheGroups.length)
    (hready : c.Ready blockHashes g n hits) : ∃ m hits', c.Turn blockHashes g n hits m hits' := by
  by_cases hkept : g.1.isFullAttention = true ∧
      ((g.2.head?.bind (hits[·]?)).join).isSome = true
  · obtain ⟨hfull, hsome⟩ := hkept
    rcases hready hfull with hnone | ⟨hdvd, haccepts⟩
    · obtain ⟨i, ids, hids⟩ := exists_cons_of_ne_nil (hc.distinct.2 g hg)
      rw [hids, head?_cons, bind_some, hnone i (hids ▸ mem_cons_self)] at hsome
      cases hsome
    · have hrun := searchGroup_kept c blockHashes hfull hsome
        ((hc.blockSize_dvd hg).trans hdvd)
      exact ⟨n, hits, hrun, hdvd, haccepts, fun _ _ v hv _ _ => hv⟩
  · obtain ⟨hashes, rows, hconv, hrun, _, hlookup⟩ :=
      searchGroup_fresh hc hg hsupported hcover hits hkept
    have hids : ∀ i ∈ g.2, i < hits.length := by
      intro i hi
      rw [hlength]
      exact (List.getElem?_eq_some_iff.mp (hc.mem_spec hg hi)).1
    refine ⟨_, _, hrun, hlookup.aligned, ⟨hashes, rows, hconv, storeRows_holds rows hids,
      hlookup.rowsOk, le_rfl, fun _ => rfl, ?_⟩, ?_⟩
    · intro hwhole i row hrow _
      exact hlookup.valid hwhole i row hrow
    · intro heagle hwindow v hv hdvd hcached
      exact lookup_longest_cached hconv hlookup heagle hwindow hv hdvd
        ((hc.blockSize_dvd hg).trans hdvd) hcached

/-! ## A round -/

/-- The groups that the search may go through. -/
structure Searchable (c : KVCacheCoordinator D) (groups : List AttentionGroup) : Prop where
  mem : ∀ g ∈ groups, g ∈ c.attentionGroups
  supported : ∀ g ∈ groups, g.1.Supported c.useEagle c.lcmBlockSize
  disjoint : groups.Pairwise fun g g' => ∀ i ∈ g.2, i ∉ g'.2

/-- The turns of `groups`, one after the other, that reduce `n` to `m`. -/
structure Round (c : KVCacheCoordinator D) (blockHashes : List D) (groups : List AttentionGroup)
    (n : Nat) (hits : HitBlocks) (m : Nat) (hits' : HitBlocks) : Prop where
  run : groups.foldlM (c.searchGroup blockHashes) (n, hits) = .ok (m, hits')
  dvd : groups ≠ [] → c.lcmBlockSize ∣ m
  accepts : ∀ g ∈ groups, ∃ asked a, asked ≤ n ∧ a ≤ asked ∧ m ≤ a ∧
    c.Accepts blockHashes g asked a hits'
  last : ∀ g, groups.getLast? = some g → ∃ asked, c.Accepts blockHashes g asked m hits'
  longest : c.useEagle = false → (∀ g ∈ groups, g.1.WindowOverOne) → ∀ v ≤ n,
    c.lcmBlockSize ∣ v → (∀ g ∈ groups, c.GroupCached blockHashes g v) → v ≤ m

theorem Turn.le (h : c.Turn blockHashes g n hits m hits') : m ≤ n :=
  (searchGroup_length h.run).1

theorem Round.le (h : c.Round blockHashes groups n hits m hits') : m ≤ n :=
  (searchGroups_length h.run).1

theorem Turn.round (hs : c.Searchable (g :: groups)) {k : Nat}
    {hits₁ : HitBlocks} (hturn : c.Turn blockHashes g n hits k hits₁)
    (hround : c.Round blockHashes groups k hits₁ m hits') :
    c.Round blockHashes (g :: groups) n hits m hits' := by
  have hkn := hturn.le
  have hmk := hround.le
  have hdisjoint := (pairwise_cons.mp hs.disjoint).1
  -- The other turns leave the lists of the group alone.
  have haccepts : c.Accepts blockHashes g n k hits' := by
    apply hturn.accepts.congr
    intro i hi
    apply (searchGroups_length hround.run).2.2
    exact fun g' hg' => hdisjoint g' hg' i hi
  refine ⟨?_, ?_, ?_, ?_, ?_⟩
  · rw [foldlM_cons, hturn.run]
    exact hround.run
  · intro _
    by_cases hnil : groups = []
    · subst hnil
      cases hround.run
      exact hturn.dvd
    · exact hround.dvd hnil
  · intro g' hg'
    rcases mem_cons.mp hg' with rfl | hg'
    · exact ⟨n, k, le_rfl, hkn, hmk, haccepts⟩
    · obtain ⟨asked, a, hasked, ha, hm, hacc⟩ := hround.accepts g' hg'
      exact ⟨asked, a, hasked.trans hkn, ha, hm, hacc⟩
  · intro g' hlast
    by_cases hnil : groups = []
    · subst hnil
      cases hround.run
      cases hlast
      exact ⟨n, haccepts⟩
    · rw [getLast?_cons_of_ne_nil hnil] at hlast
      exact hround.last g' hlast
  · intro heagle hwindows v hv hdvd hcached
    have hvk := hturn.longest heagle (hwindows g mem_cons_self) v hv hdvd
      (hcached g mem_cons_self)
    exact hround.longest heagle (fun g' hg' => hwindows g' (mem_cons_of_mem g hg')) v hvk
      hdvd fun g' hg' => hcached g' (mem_cons_of_mem g hg')

theorem searchGroups_round (hc : c.IsHybrid) : ∀ {groups : List AttentionGroup},
    c.Searchable groups → ∀ {n : Nat} {hits : HitBlocks},
      n / c.hashBlockSize ≤ blockHashes.length →
      hits.length = c.kvCacheConfig.kvCacheGroups.length →
      (∀ g ∈ groups, c.Ready blockHashes g n hits) →
      ∃ m hits', c.Round blockHashes groups n hits m hits' := by
  intro groups
  induction groups with
  | nil =>
    intro _ n hits _ _ _
    refine ⟨n, hits, rfl, fun h => absurd rfl h, ?_, ?_, fun _ _ v hv _ _ => hv⟩
    · intro g hg
      cases hg
    · intro g hg
      cases hg
  | cons g groups ih =>
    intro hs n hits hcover hlength hready
    obtain ⟨k, hits₁, hturn⟩ := searchGroup_turn hc (hs.mem g mem_cons_self)
      (hs.supported g mem_cons_self) hcover hlength (hready g mem_cons_self)
    obtain ⟨hle, hlength₁, hframe, _⟩ := searchGroup_length hturn.run
    obtain ⟨hdisjoint, hpairwise⟩ := pairwise_cons.mp hs.disjoint
    have hs₁ : c.Searchable groups :=
      ⟨fun g' hg' => hs.mem g' (mem_cons_of_mem g hg'),
        fun g' hg' => hs.supported g' (mem_cons_of_mem g hg'), hpairwise⟩
    have hready₁ : ∀ g' ∈ groups, c.Ready blockHashes g' k hits₁ := by
      intro g' hg'
      apply (hready g' (mem_cons_of_mem g hg')).shorten hle hturn.dvd
      exact fun i hi => hframe i fun hmem => hdisjoint g' hg' i hmem hi
    obtain ⟨m, hits', hround⟩ := ih hs₁ ((Nat.div_le_div_right hle).trans hcover)
      (hlength₁.trans hlength) hready₁
    exact ⟨m, hits', hturn.round hs hround⟩

/-! ## The whole search -/

/-- There is one group of full attention, and one other. -/
def isSimpleHybrid (c : KVCacheCoordinator D) : Bool :=
  c.attentionGroups.length = 2 ∧ (c.attentionGroups.head?.any fun g => g.1.isFullAttention)

/-- All groups have hits of `n` tokens, and at no greater length they all could. -/
structure Agreed (c : KVCacheCoordinator D) (blockHashes : List D) (simple : Bool)
    (maxLength n : Nat) (hits : HitBlocks) : Prop where
  le : n ≤ maxLength
  dvd : c.lcmBlockSize ∣ n
  length : hits.length = c.kvCacheConfig.kvCacheGroups.length
  accepts : ∀ g ∈ c.attentionGroups, ∃ asked, (simple = false → asked = n) ∧
    c.Accepts blockHashes g asked n hits
  longest : c.useEagle = false → (∀ g ∈ c.attentionGroups, g.1.WindowOverOne) →
    ∀ v ≤ maxLength, c.lcmBlockSize ∣ v →
      (∀ g ∈ c.attentionGroups, c.GroupCached blockHashes g v) → v ≤ n

theorem isSimpleHybrid_groups (h : c.isSimpleHybrid = true) :
    ∃ full other, c.attentionGroups = [full, other] ∧ full.1.isFullAttention = true := by
  obtain ⟨hlength, hfull⟩ := of_decide_eq_true h
  obtain ⟨full, other, hgroups⟩ := length_eq_two.mp hlength
  rw [hgroups, head?_cons, any_some] at hfull
  exact ⟨full, other, hgroups, hfull⟩

section

variable (hc : c.IsHybrid)

include hc

theorem IsHybrid.attentionGroups_ne_nil : c.attentionGroups ≠ [] := by
  intro hnil
  have htwo := hc.two
  rw [hnil] at htwo
  exact absurd htwo (not_lt_zero 1)

theorem Round.agreed_of_stable (hlength : hits.length = c.kvCacheConfig.kvCacheGroups.length)
    (h : c.Round blockHashes c.attentionGroups n hits n hits') (simple : Bool) :
    c.Agreed blockHashes simple n n hits' where
  le := le_rfl
  dvd := h.dvd hc.attentionGroups_ne_nil
  length := (searchGroups_length h.run).2.1.trans hlength
  accepts := by
    intro g hg
    obtain ⟨asked, a, hasked, ha, hn, haccepts⟩ := h.accepts g hg
    obtain rfl : a = n := by omega
    obtain rfl : asked = a := by omega
    exact ⟨asked, fun _ => rfl, haccepts⟩
  longest := h.longest

theorem Round.agreed_of_simple (hsimple : c.isSimpleHybrid = true)
    (hlength : hits.length = c.kvCacheConfig.kvCacheGroups.length)
    (h : c.Round blockHashes c.attentionGroups n hits m hits') :
    c.Agreed blockHashes true n m hits' where
  le := h.le
  dvd := h.dvd hc.attentionGroups_ne_nil
  length := (searchGroups_length h.run).2.1.trans hlength
  accepts := by
    obtain ⟨full, other, hgroups, hfull⟩ := isSimpleHybrid_groups hsimple
    intro g hg
    rw [hgroups] at hg
    rcases mem_cons.mp hg with rfl | hg
    · obtain ⟨asked, a, _, _, hm, haccepts⟩ := h.accepts g (hgroups ▸ mem_cons_self)
      exact ⟨m, fun h => (by cases h), haccepts.shorten hfull hm m⟩
    · obtain rfl := mem_singleton.mp hg
      obtain ⟨asked, haccepts⟩ := h.last g (by rw [hgroups]; rfl)
      exact ⟨asked, fun h => (by cases h), haccepts⟩
  longest := h.longest

theorem Round.ready (h : c.Round blockHashes c.attentionGroups n hits m hits') :
    ∀ g ∈ c.attentionGroups, c.Ready blockHashes g m hits' := by
  intro g hg hfull
  obtain ⟨asked, a, _, _, hm, haccepts⟩ := h.accepts g hg
  exact .inr ⟨h.dvd hc.attentionGroups_ne_nil, haccepts.shorten hfull hm m⟩

theorem searchLoop_agreed (hs : c.Searchable c.attentionGroups) (simple : Bool)
    (hsimple : simple = true → c.isSimpleHybrid = true) : ∀ {n : Nat} {hits : HitBlocks},
    n / c.hashBlockSize ≤ blockHashes.length →
    hits.length = c.kvCacheConfig.kvCacheGroups.length →
    (∀ g ∈ c.attentionGroups, c.Ready blockHashes g n hits) →
    ∃ m hits', (∀ fuel, n < fuel →
        c.searchLoop blockHashes simple fuel n hits = .ok (m, hits')) ∧
      c.Agreed blockHashes simple n m hits' := by
  intro n
  induction n using Nat.strong_induction_on with
  | _ n ih =>
    intro hits hcover hlength hready
    obtain ⟨m, hits', hround⟩ := searchGroups_round hc hs hcover hlength hready
    have hloop : ∀ fuel, c.searchLoop blockHashes simple (fuel + 1) n hits =
        if n ≤ m then .ok (n, hits') else if simple = true then .ok (m, hits')
        else c.searchLoop blockHashes simple fuel m hits' := by
      intro fuel
      conv_lhs => unfold searchLoop
      rw [hround.run]
      rfl
    have hfuel : ∀ {res : Nat × HitBlocks}, (∀ fuel, n ≤ fuel →
        c.searchLoop blockHashes simple (fuel + 1) n hits = .ok res) →
        ∀ fuel, n < fuel → c.searchLoop blockHashes simple fuel n hits = .ok res := by
      intro res hres fuel hlt
      obtain ⟨fuel, rfl⟩ : ∃ k, fuel = k + 1 := ⟨fuel - 1, by omega⟩
      exact hres fuel (by omega)
    rcases lt_or_ge m n with hlt | hge
    · have hnot : ¬n ≤ m := by omega
      cases simple with
      | true =>
        refine ⟨m, hits', hfuel fun fuel _ => ?_,
          hround.agreed_of_simple hc (hsimple rfl) hlength⟩
        rw [hloop, if_neg hnot, if_pos rfl]
      | false =>
        obtain ⟨k, hits₂, hrest, hagreed⟩ := ih m hlt
          ((Nat.div_le_div_right hround.le).trans hcover)
          ((searchGroups_length hround.run).2.1.trans hlength) (hround.ready hc)
        refine ⟨k, hits₂, hfuel fun fuel hle => ?_, hagreed.le.trans hlt.le, hagreed.dvd,
          hagreed.length, hagreed.accepts, ?_⟩
        · rw [hloop, if_neg hnot, if_neg Bool.false_ne_true]
          exact hrest fuel (by omega)
        · intro heagle hwindows v hv hdvd hcached
          apply hagreed.longest heagle hwindows v _ hdvd hcached
          exact hround.longest heagle hwindows v hv hdvd hcached
    · obtain rfl : m = n := le_antisymm hround.le hge
      refine ⟨m, hits', hfuel fun fuel _ => ?_, hround.agreed_of_stable hc hlength simple⟩
      rw [hloop, if_pos le_rfl]

theorem searchGroup_again (hg : g ∈ c.attentionGroups)
    (hsupported : g.1.Supported c.useEagle c.lcmBlockSize) (heagle : c.useEagle = false)
    (hchunk : g.1.ChunkAligned) (hcover : n / c.hashBlockSize ≤ blockHashes.length)
    (hlength : hits.length = c.kvCacheConfig.kvCacheGroups.length)
    (hrun : c.searchGroup blockHashes (n, hits) g = .ok (m, hits')) (hdvd : c.lcmBlockSize ∣ m) :
    c.searchGroup blockHashes (m, hits') g = .ok (m, hits') := by
  have hle : m ≤ n := (searchGroup_length hrun).1
  have hsize := (hc.blockSize_dvd hg).trans hdvd
  by_cases hkept : g.1.isFullAttention = true ∧
      ((g.2.head?.bind (hits[·]?)).join).isSome = true
  · have hsame : hits' = hits := by
      unfold searchGroup at hrun
      dsimp only at hrun hkept
      rw [if_pos hkept] at hrun
      cases hrun
      rfl
    rw [hsame]
    exact searchGroup_kept c blockHashes hkept.1 hkept.2 hsize
  · obtain ⟨hashes, rows, hconv, hfirst, hlongest, _⟩ :=
      searchGroup_fresh hc hg hsupported hcover hits hkept
    rw [hrun, Except.ok.injEq, Prod.mk.injEq] at hfirst
    obtain ⟨rfl, rfl⟩ := hfirst
    by_cases hfull : g.1.isFullAttention = true
    · apply searchGroup_kept c blockHashes hfull _ hsize
      apply (storeRows_holds rows _).searched (hc.distinct.2 g hg)
      intro i hi
      rw [hlength]
      exact (List.getElem?_eq_some_iff.mp (hc.mem_spec hg hi)).1
    · obtain ⟨hashes', rows', hconv', hsecond, hlongest', _⟩ :=
        searchGroup_fresh hc hg hsupported ((Nat.div_le_div_right hle).trans hcover)
          (c.storeRows g.2 rows hits) fun h => hfull h.1
      rw [hconv, Except.ok.injEq] at hconv'
      subst hconv'
      have hrows := hlongest' heagle hchunk
      rw [Nat.mul_div_cancel _ g.1.blockSize_pos] at hrows
      obtain rfl := (hlongest heagle hchunk).unique hrows
      rw [hsecond, storeRows_idem]

theorem Round.again (hs : c.Searchable c.attentionGroups)
    (hsimple : c.isSimpleHybrid = true) (heagle : c.useEagle = false)
    (hchunks : ∀ g ∈ c.attentionGroups, g.1.ChunkAligned)
    (hcover : n / c.hashBlockSize ≤ blockHashes.length)
    (hlength : hits.length = c.kvCacheConfig.kvCacheGroups.length)
    (h : c.Round blockHashes c.attentionGroups n hits m hits') :
    c.attentionGroups.foldlM (c.searchGroup blockHashes) (m, hits') = .ok (m, hits') := by
  obtain ⟨full, other, hgroups, hfull⟩ := isSimpleHybrid_groups hsimple
  have hfullMem : full ∈ c.attentionGroups := by rw [hgroups]; simp
  have hotherMem : other ∈ c.attentionGroups := by rw [hgroups]; simp
  have hdvd := h.dvd hc.attentionGroups_ne_nil
  obtain ⟨_, _, _, _, _, hashes, rows, hrows⟩ := h.accepts full hfullMem
  have hfirst := searchGroup_kept c blockHashes hfull
    (hrows.holds.searched (hc.distinct.2 full hfullMem)) ((hc.blockSize_dvd hfullMem).trans hdvd)
  have hrun := h.run
  rw [hgroups, foldlM_cons, bind_ok] at hrun
  obtain ⟨⟨k, hits₁⟩, hrun₁, hrun⟩ := hrun
  rw [foldlM_cons, bind_ok] at hrun
  obtain ⟨st, hrun₂, hst⟩ := hrun
  rw [foldlM_nil, pure_ok] at hst
  subst hst
  obtain ⟨hle, hlength₁, _⟩ := searchGroup_length hrun₁
  have hsecond := searchGroup_again hc hotherMem (hs.supported other hotherMem) heagle
    (hchunks other hotherMem) ((Nat.div_le_div_right hle).trans hcover)
    (hlength₁.trans hlength) hrun₂ hdvd
  rw [hgroups, foldlM_cons, hfirst, ok_bind, foldlM_cons, hsecond]
  rfl

theorem searchLoop_shortcut (hs : c.Searchable c.attentionGroups)
    (hsimple : c.isSimpleHybrid = true) (heagle : c.useEagle = false)
    (hchunks : ∀ g ∈ c.attentionGroups, g.1.ChunkAligned)
    (hcover : n / c.hashBlockSize ≤ blockHashes.length)
    (hlength : hits.length = c.kvCacheConfig.kvCacheGroups.length)
    (hready : ∀ g ∈ c.attentionGroups, c.Ready blockHashes g n hits) {fuel : Nat}
    (hfuel : n < fuel) : c.searchLoop blockHashes false fuel n hits =
      c.searchLoop blockHashes true fuel n hits := by
  obtain ⟨m, hits', hround⟩ := searchGroups_round hc hs hcover hlength hready
  have hagain := hround.again hc hs hsimple heagle hchunks hcover hlength
  obtain ⟨fuel, rfl⟩ : ∃ k, fuel = k + 1 := ⟨fuel - 1, by omega⟩
  conv_lhs => unfold searchLoop
  conv_rhs => unfold searchLoop
  rw [hround.run, ok_bind, ok_bind]
  dsimp only
  split
  · rfl
  next hlt =>
    obtain ⟨fuel, rfl⟩ : ∃ k, fuel = k + 1 := ⟨fuel - 1, by omega⟩
    conv_lhs => unfold searchLoop
    rw [if_neg Bool.false_ne_true, if_pos rfl, hagain, ok_bind]
    dsimp only
    rw [if_pos le_rfl]

end

end KVCacheCoordinator

end VllmCore
