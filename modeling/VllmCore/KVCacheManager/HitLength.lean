import VllmCore.KVCacheManager.Coordinator
/-!
# How long a cache hit is

A lookup returns one list of blocks for each group and a common length in tokens.
The length is less than that of the request, and it is positive only if some
group hits.  For hybrid models this is an invariant of the search: in every round
the last attention group has blocks for all the tokens that are still left.
-/

namespace VllmCore

open List Support

variable {D : Type} [DecidableEq D]

namespace KVCacheCoordinator

/-! ## Attention groups are disjoint -/

def GroupsDistinct (groups : List AttentionGroup) : Prop :=
  (groups.map Prod.fst).Nodup ∧ ∀ e ∈ groups, e.2 ≠ []

variable {groups : List AttentionGroup} {curr n : Nat} {hits hits' : HitBlocks}

theorem addAttentionGroup_distinct (h : GroupsDistinct groups)
    (e : KVCacheSpec × Nat) : GroupsDistinct (addAttentionGroup groups e) := by
  unfold addAttentionGroup
  split
  · refine ⟨?_, ?_⟩
    · have hsame : (groups.map fun g => if g.1 = e.1 then (g.1, g.2 ++ [e.2]) else g).map
          Prod.fst = groups.map Prod.fst := by
        rw [map_map]
        apply map_congr_left
        intro g _
        simp only [Function.comp_apply]
        split <;> rfl
      rw [hsame]
      exact h.1
    · intro x hx
      obtain ⟨g, hg, rfl⟩ := mem_map.mp hx
      split
      · simp
      · exact h.2 g hg
  · rename_i hnone
    refine ⟨?_, ?_⟩
    · rw [map_append, nodup_append]
      refine ⟨h.1, by simp, ?_⟩
      intro s hs t ht heq
      obtain ⟨g, hg, rfl⟩ := mem_map.mp hs
      simp only [map_cons, map_nil, mem_singleton] at ht
      apply hnone
      rw [any_eq_true]
      exact ⟨g, hg, by simpa [ht] using heq⟩
    · intro x hx
      rcases mem_append.mp hx with hx | hx
      · exact h.2 x hx
      · rw [mem_singleton.mp hx]
        simp

theorem splitKVCacheGroups_distinct (specs : List KVCacheSpec) :
    GroupsDistinct (splitKVCacheGroups specs) := by
  have hfold : ∀ (es : List (KVCacheSpec × Nat)) (groups : List AttentionGroup),
      GroupsDistinct groups → GroupsDistinct (es.foldl addAttentionGroup groups) := by
    intro es
    induction es with
    | nil => exact fun _ h => h
    | cons e es ih => exact fun groups h => ih _ (addAttentionGroup_distinct h e)
  obtain ⟨hnodup, hne⟩ := hfold specs.zipIdx [] ⟨.nil, by simp⟩
  unfold splitKVCacheGroups
  generalize specs.zipIdx.foldl addAttentionGroup [] = groups at *
  have hperm := filter_append_perm (fun g : AttentionGroup => g.1.isFullAttention) groups
  refine ⟨((hperm.map Prod.fst).nodup_iff).mpr hnodup, ?_⟩
  exact fun e he => hne e (hperm.mem_iff.mp he)

theorem attentionGroups_disjoint {specs : List KVCacheSpec}
    (hok : GroupsOk specs groups) (hdistinct : GroupsDistinct groups) :
    groups.Pairwise fun e e' => ∀ g ∈ e.2, g ∉ e'.2 := by
  have hspecs : groups.Pairwise fun e e' => e.1 ≠ e'.1 := pairwise_map.mp hdistinct.1
  refine hspecs.imp_of_mem ?_
  intro e e' he he' hne g hg hg'
  have h1 := hok e he g hg
  have h2 := hok e' he' g hg'
  rw [h1, Option.some.injEq] at h2
  exact hne h2

theorem foldl_set_spec : ∀ {es : List (Nat × List BlockId)} {hits : HitBlocks},
    (es.foldl (fun hits e => hits.set e.1 (some e.2)) hits).length = hits.length ∧
      (∀ i, i ∉ es.map Prod.fst →
        (es.foldl (fun hits e => hits.set e.1 (some e.2)) hits)[i]? = hits[i]?) ∧
      ∀ i, i ∈ es.map Prod.fst → i < hits.length → ∃ hit, (i, hit) ∈ es ∧
        (es.foldl (fun hits e => hits.set e.1 (some e.2)) hits)[i]? = some (some hit) := by
  intro es
  induction es with
  | nil => intro hits; simp
  | cons e es ih =>
    intro hits
    obtain ⟨hlen, hout, hin⟩ := @ih (hits.set e.1 (some e.2))
    rw [length_set] at hlen hin
    refine ⟨hlen, ?_, ?_⟩
    · intro i hi
      rw [map_cons, mem_cons, not_or] at hi
      rw [foldl_cons, hout i hi.2, getElem?_set, if_neg (Ne.symm hi.1)]
    · intro i hi hlt
      by_cases hrest : i ∈ es.map Prod.fst
      · obtain ⟨hit, hmem, hget⟩ := hin i hrest hlt
        exact ⟨hit, mem_cons_of_mem e hmem, hget⟩
      · rw [map_cons, mem_cons] at hi
        obtain rfl := hi.resolve_right hrest
        refine ⟨e.2, by simp, ?_⟩
        rw [foldl_cons, hout e.1 hrest, getElem?_set, if_pos rfl, if_pos hlt]

variable {blockHashes : List D} {c : KVCacheCoordinator D} {i : Nat} {last : AttentionGroup}
  {pre : List AttentionGroup}

/-- What one turn does: it keeps or reduces the length, and stores blocks for exactly
that many tokens unless it keeps the blocks of an earlier turn. -/
theorem searchGroup_length {g : AttentionGroup} {curr' : Nat}
    (h : c.searchGroup blockHashes (curr, hits) g = .ok (curr', hits')) :
    curr' ≤ curr ∧ hits'.length = hits.length ∧ (∀ i, i ∉ g.2 → hits'[i]? = hits[i]?) ∧
      (hits' = hits ∧ ((g.2.head?.bind (hits[·]?)).join).isSome = true ∨
        ∀ i ∈ g.2, i < hits.length →
          ∃ hit, hits'[i]? = some (some hit) ∧ curr' = hit.length * g.1.blockSize) := by
  obtain ⟨spec, ids⟩ := g
  unfold searchGroup at h
  dsimp only at h
  split at h
  · rename_i hcached
    cases h
    exact ⟨Nat.div_mul_le_self _ _, rfl, fun _ _ => rfl, .inl ⟨rfl, hcached.2⟩⟩
  · simp only [bind_ok, pure_ok] at h
    obtain ⟨hashes, _, hitBlocks, hfind, length, hlength, hres⟩ := h
    cases hres
    obtain ⟨rows, rfl, _, hfit⟩ := SingleTypeKVCacheManager.findLongestCacheHit_rows hfind
    rw [Nat.mul_one] at hfit
    have hcols : ∀ col ∈ SingleTypeKVCacheManager.columns ids.length c.blockPool.nullBlock rows,
        col.length = rows.length := by
      intro col hcol
      obtain ⟨j, _, rfl⟩ := mem_map.mp hcol
      exact length_map _
    have hlen : length = rows.length := by
      split at hlength
      · cases hlength
      · rename_i blocks rest heq
        cases hlength
        exact hcols blocks (by rw [heq]; simp)
    subst hlen
    obtain ⟨hkeep, hout, hin⟩ := @foldl_set_spec
      (ids.zip (SingleTypeKVCacheManager.columns ids.length c.blockPool.nullBlock rows)) hits
    have hfst : (ids.zip (SingleTypeKVCacheManager.columns ids.length c.blockPool.nullBlock
        rows)).map Prod.fst = ids := by
      apply map_fst_zip
      unfold SingleTypeKVCacheManager.columns
      rw [length_map, length_range]
    rw [hfst] at hout hin
    refine ⟨hfit, hkeep, hout, .inr ?_⟩
    intro i hi hlt
    obtain ⟨hit, hmem, hget⟩ := hin i hi hlt
    exact ⟨hit, hget, by rw [hcols hit (of_mem_zip hmem).2]⟩

theorem searchGroups_length :
    ∀ {groups : List AttentionGroup} {st st' : Nat × HitBlocks},
      groups.foldlM (c.searchGroup blockHashes) st = .ok st' →
      st'.1 ≤ st.1 ∧ st'.2.length = st.2.length ∧
        ∀ i, (∀ g ∈ groups, i ∉ g.2) → st'.2[i]? = st.2[i]? := by
  intro groups
  induction groups with
  | nil =>
    intro st st' h
    cases h
    exact ⟨Nat.le_refl _, rfl, fun _ _ => rfl⟩
  | cons g groups ih =>
    intro st st' h
    rw [foldlM_cons, bind_ok] at h
    obtain ⟨st₁, hg, hrest⟩ := h
    obtain ⟨hle, hlen, hout, _⟩ := searchGroup_length hg
    obtain ⟨hle', hlen', hout'⟩ := ih hrest
    refine ⟨hle'.trans hle, hlen'.trans hlen, ?_⟩
    intro i hi
    rw [hout' i fun g' hg' => hi g' (by simp [hg']), hout i (hi g (by simp))]

/-! ## The search of hybrid models -/

structure LastGroup (c : KVCacheCoordinator D) (pre : List AttentionGroup)
    (last : AttentionGroup) (i : Nat) : Prop where
  groups : c.attentionGroups = pre ++ [last]
  mem : last.2.head? = some i
  others : ∀ g ∈ pre, i ∉ g.2
  lt : i < c.kvCacheConfig.kvCacheGroups.length

/-- Group `i` has blocks for all of `n` tokens. -/
def Reaches (hits : HitBlocks) (i blockSize n : Nat) : Prop :=
  ∃ hit, hits[i]? = some (some hit) ∧ n ≤ hit.length * blockSize

theorem searchRound_reaches (hlast : c.LastGroup pre last i)
    (hlen : hits.length = c.kvCacheConfig.kvCacheGroups.length)
    (hinv : hits[i]? = some none ∨ Reaches hits i last.1.blockSize n)
    (h : c.attentionGroups.foldlM (c.searchGroup blockHashes) (n, hits) = .ok (curr, hits')) :
    curr ≤ n ∧ hits'.length = hits.length ∧ Reaches hits' i last.1.blockSize curr := by
  rw [hlast.groups, foldlM_append, bind_ok] at h
  obtain ⟨⟨n₁, hits₁⟩, hpre, h⟩ := h
  rw [foldlM_cons, bind_ok] at h
  obtain ⟨st, hgroup, hst⟩ := h
  rw [foldlM_nil, pure_ok] at hst
  subst hst
  obtain ⟨hle₁, hlen₁, hout⟩ := searchGroups_length hpre
  have hsame : hits₁[i]? = hits[i]? := hout i hlast.others
  obtain ⟨hle₂, hlen₂, _, hcases⟩ := searchGroup_length hgroup
  refine ⟨hle₂.trans hle₁, hlen₂.trans hlen₁, ?_⟩
  have hmem : i ∈ last.2 := mem_of_mem_head? hlast.mem
  rcases hcases with ⟨rfl, hcached⟩ | hnew
  · -- The blocks of an earlier round are kept.
    rw [hlast.mem, Option.bind_some, hsame] at hcached
    rcases hinv with hnone | ⟨hit, hget, hle⟩
    · rw [hnone] at hcached
      cases hcached
    · exact ⟨hit, hsame.trans hget, (hle₂.trans hle₁).trans hle⟩
  · obtain ⟨hit, hget, heq⟩ := hnew i hmem (by
      rw [hlen₁]
      exact hlen ▸ hlast.lt)
    exact ⟨hit, hget, heq.le⟩

theorem searchLoop_reaches (hlast : c.LastGroup pre last i)
    {simple : Bool} : ∀ {fuel n : Nat} {hits : HitBlocks} {res : Nat × HitBlocks}, n < fuel →
      hits.length = c.kvCacheConfig.kvCacheGroups.length →
      (hits[i]? = some none ∨ Reaches hits i last.1.blockSize n) →
      c.searchLoop blockHashes simple fuel n hits = .ok res →
      res.1 ≤ n ∧ res.2.length = hits.length ∧ Reaches res.2 i last.1.blockSize res.1 := by
  intro fuel
  induction fuel with
  | zero => intro n hits res hlt; omega
  | succ fuel ih =>
    intro n hits res hlt hlen hinv h
    unfold searchLoop at h
    simp only [bind_ok] at h
    obtain ⟨⟨curr, hits'⟩, hround, h⟩ := h
    obtain ⟨hle, hlen', hreach⟩ := searchRound_reaches hlast hlen hinv hround
    split at h
    · rename_i hstable
      cases h
      have heq : curr = n := by omega
      exact ⟨Nat.le_refl _, hlen', heq ▸ hreach⟩
    · split at h
      · cases h
        exact ⟨hle, hlen', hreach⟩
      · obtain ⟨hle', hlen'', hreach'⟩ := ih (by omega) (hlen'.trans hlen) (.inr hreach) h
        exact ⟨hle'.trans hle, hlen''.trans hlen', hreach'⟩

theorem exists_lastGroup (hc : c.Wf) (hkind : c.kind = .hybrid) :
    ∃ pre last i, c.LastGroup pre last i ∧ pre ≠ [] := by
  obtain ⟨_, hgroups, hlen⟩ := hc.hybrid hkind
  have hok := splitKVCacheGroups_ok c.kvCacheConfig.kvCacheGroups
  have hdistinct := splitKVCacheGroups_distinct c.kvCacheConfig.kvCacheGroups
  rw [← hgroups] at hok hdistinct
  have hdisj := attentionGroups_disjoint hok hdistinct
  rcases eq_nil_or_concat c.attentionGroups with hnil | ⟨pre, last, heq⟩
  · rw [hnil] at hlen
    simp at hlen
  · rw [concat_eq_append] at heq
    have hmem : last ∈ c.attentionGroups := by rw [heq]; simp
    obtain ⟨i, rest, hids⟩ := exists_cons_of_ne_nil (hdistinct.2 last hmem)
    have hi : i ∈ last.2 := by rw [hids]; simp
    refine ⟨pre, last, i, ⟨heq, by rw [hids]; rfl, ?_, ?_⟩, ?_⟩
    · rw [heq, pairwise_append] at hdisj
      exact fun g hg hgi => hdisj.2.2 g hg last (by simp) i hgi hi
    · exact (List.getElem?_eq_some_iff.mp (hok last hmem i hi)).1
    · rintro rfl
      rw [heq] at hlen
      simp at hlen

theorem truncateFullAttention_reaches (hlast : c.LastGroup pre last i) (hpre : pre ≠ []) (n : Nat)
    (hits : HitBlocks) :
    (c.truncateFullAttention n hits).length = hits.length ∧
      (c.truncateFullAttention n hits)[i]? = hits[i]? := by
  obtain ⟨g, pre', rfl⟩ := exists_cons_of_ne_nil hpre
  have hi := hlast.others g (by simp)
  unfold truncateFullAttention
  rw [hlast.groups]
  dsimp only [cons_append]
  split
  · obtain ⟨spec, ids⟩ := g
    clear * - hi
    induction ids generalizing hits with
    | nil => exact ⟨rfl, rfl⟩
    | cons j ids ih =>
      rw [mem_cons, not_or] at hi
      obtain ⟨hlen, hget⟩ := ih (hits.modify j (Option.map (·.take (n / spec.blockSize)))) hi.2
      refine ⟨by rw [foldl_cons, hlen, length_modify], ?_⟩
      rw [foldl_cons, hget, getElem?_modify]
      simp [Ne.symm hi.1]
  · exact ⟨rfl, rfl⟩

/-- A lookup returns one hit for each group.  Their common length does not exceed the
length asked for, and it is zero unless a group hits. -/
theorem findLongestCacheHit_length (hc : c.Wf) {maxLength : Nat} {hits : KVCacheBlocks}
    (h : c.findLongestCacheHit blockHashes maxLength = .ok (hits, n)) :
    hits.length = c.singleTypeManagers.length ∧ n ≤ maxLength ∧
      (0 < n → ∃ hit ∈ hits, hit ≠ []) := by
  have hgroups : c.singleTypeManagers.length = c.kvCacheConfig.kvCacheGroups.length := by
    rw [← hc.specs, length_map]
  unfold findLongestCacheHit at h
  split at h
  · cases h
    exact ⟨length_map _, Nat.zero_le _, fun h0 => absurd h0 (Nat.lt_irrefl 0)⟩
  · rename_i hkind
    obtain ⟨spec, hconfig, _⟩ := hc.unitary hkind
    rw [hconfig] at h hgroups
    simp only [bind_ok] at h
    obtain ⟨hitBlocks, hfind, h⟩ := h
    obtain ⟨rows, rfl, _, hfit⟩ := SingleTypeKVCacheManager.findLongestCacheHit_rows hfind
    have hcols : SingleTypeKVCacheManager.columns [0].length c.blockPool.nullBlock rows =
        [rows.map fun row => row.getD 0 c.blockPool.nullBlock] := rfl
    cases h
    refine ⟨by rw [hgroups]; rfl, ?_, ?_⟩
    · rw [length_map, Nat.mul_assoc]
      exact hfit
    · intro hpos
      refine ⟨_, mem_singleton_self _, ?_⟩
      intro hnil
      rw [hnil, length_nil, Nat.zero_mul] at hpos
      exact absurd hpos (Nat.lt_irrefl 0)
  · rename_i hkind
    obtain ⟨pre, last, i, hlast, hpre⟩ := exists_lastGroup hc hkind
    unfold findLongestCacheHitHybrid at h
    simp only [bind_ok, pure_ok] at h
    obtain ⟨⟨n', hits'⟩, hloop, hres⟩ := h
    obtain ⟨rfl, rfl⟩ := hres
    obtain ⟨hle, hlen, hit, hget, hcover⟩ := searchLoop_reaches hlast (Nat.lt_succ_self _)
      (length_replicate ..) (.inl (by rw [getElem?_replicate, if_pos hlast.lt])) hloop
    obtain ⟨hlen', hget'⟩ := truncateFullAttention_reaches hlast hpre n' hits'
    rw [length_replicate] at hlen
    refine ⟨?_, hle, ?_⟩
    · rw [length_map, hlen', hlen, hgroups]
    · intro hpos
      refine ⟨hit, mem_map.mpr ⟨some hit, ?_, rfl⟩, ?_⟩
      · exact mem_of_getElem? (hget'.trans hget)
      · rintro rfl
        rw [length_nil, Nat.zero_mul] at hcover
        omega

end KVCacheCoordinator

/-- `get_computed_blocks` returns one hit for each group.  At least one token is left
to compute, and without a hit all tokens are. -/
theorem KVCacheManager.getComputedBlocks_length {kv : KVCacheManager D}
    (hc : kv.coordinator.Wf) {r : Request D} {hits : KVCacheBlocks} {n : Nat}
    (h : kv.getComputedBlocks r = .ok (hits, n)) :
    hits.length = kv.coordinator.singleTypeManagers.length ∧ n ≤ r.numTokens - 1 ∧
      (0 < n → hits.any (!·.isEmpty) = true) := by
  have hempty : kv.emptyKVCacheBlocks.length = kv.coordinator.singleTypeManagers.length := by
    unfold emptyKVCacheBlocks
    rw [← hc.specs, length_map, length_map]
  unfold getComputedBlocks at h
  split at h
  · cases h
    exact ⟨hempty, Nat.zero_le _, fun h0 => absurd h0 (Nat.lt_irrefl 0)⟩
  · simp only [bind_ok, pure_ok] at h
    obtain ⟨⟨blocks, k⟩, hfind, hres⟩ := h
    obtain ⟨rfl, rfl⟩ := hres
    obtain ⟨hlen, hle, hpos⟩ := KVCacheCoordinator.findLongestCacheHit_length hc hfind
    have hany : 0 < k → blocks.any (!·.isEmpty) = true := by
      intro h0
      obtain ⟨hit, hmem, hne⟩ := hpos h0
      rw [any_eq_true]
      exact ⟨hit, hmem, by simpa using hne⟩
    unfold createKVCacheBlocks
    split
    · exact ⟨hlen, hle, hany⟩
    · rename_i hnone
      exact ⟨hempty, hle, fun h0 => absurd (hany h0) hnone⟩

end VllmCore
