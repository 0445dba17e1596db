import VllmCore.MultiModal.Placeholders.Finds
import VllmCore.MultiModal.PromptUpdates.Conserves
import VllmCore.Support.Slices
/-!
# Placeholders and the contents that were inserted

The contents of the applied updates are in the updated prompt, in the order in which they
were inserted.  The search finds each of them where it was inserted exactly when it meets
no content before that; a content that is in the prompt anyway, an item that is inserted
before an earlier one of its modality, or a modality that shares its tokens with an earlier
one moves a placeholder to another position.
-/

namespace VllmCore.MultiModal

open List Nat Support

/-- Where the content of the `i`-th update that was applied begins in the output. -/
def insertedAt (st : Applying TokenId) (i : Nat) : Nat :=
  ((st.outSeqs.take (2 * i + 1)).map List.length).sum

def FoundAt (placeholders : MultiModalPlaceholders) (key : ItemKey) (pos : Nat) : Prop :=
  ∃ p, (placeholders.of key.1)[key.2]? = some p ∧ p.startIdx = pos

/-- The updated prompt as it was put together. -/
def segments (prompt : List TokenId) :
    Nat → List (AppliedUpdate TokenId) → List (Segment String ResolvedPromptUpdate TokenId)
  | _, [] => []
  | pos, a :: rest =>
    ⟨(prompt.take a.edit.lo).drop pos, a.toApply.key.1, a.toApply.key.2, a.toApply.update⟩ ::
      segments prompt a.edit.hi rest

section

variable {updates : MultiModalPromptUpdates}

theorem items_of_modality (updates : MultiModalPromptUpdates) (m : String) :
    (items updates).filter (·.1.1 = m) =
      ((updates.get? m).getD []).zipIdx.map fun item => ((m, item.2), item.1) := by
  have hentries : ∀ entries : List (String × List (List ResolvedPromptUpdate)),
      (entries.map Prod.fst).Nodup →
      (entries.flatMap fun entry =>
          entry.2.zipIdx.map fun item => ((entry.1, item.2), item.1)).filter (·.1.1 = m) =
        ((entries.lookup m).getD []).zipIdx.map fun item => ((m, item.2), item.1) := by
    intro entries hnodup
    induction entries with
    | nil => rfl
    | cons entry entries ih =>
      obtain ⟨n, modalityUpdates⟩ := entry
      rw [map_cons, nodup_cons] at hnodup
      rw [flatMap_cons, filter_append, ih hnodup.2, lookup_cons]
      by_cases hmn : m = n
      · subst hmn
        have hself : (modalityUpdates.zipIdx.map fun item => ((m, item.2), item.1)).filter
            (·.1.1 = m) = modalityUpdates.zipIdx.map fun item => ((m, item.2), item.1) := by
          rw [filter_eq_self]
          intro item hitem
          obtain ⟨_, _, rfl⟩ := mem_map.mp hitem
          exact decide_eq_true rfl
        rw [hself, Dict.lookup_eq_none.mpr hnodup.1, beq_self_eq_true]
        exact append_nil _
      · have hother : (modalityUpdates.zipIdx.map fun item => ((n, item.2), item.1)).filter
            (·.1.1 = m) = [] := by
          rw [filter_eq_nil_iff]
          intro item hitem
          obtain ⟨_, _, rfl⟩ := mem_map.mp hitem
          simpa using Ne.symm hmn
        rw [hother, beq_eq_false_iff_ne.mpr hmn]
        rfl
  exact hentries updates.entries updates.nodup

theorem mem_items_iff {m : String} {i : Nat} {us : List ResolvedPromptUpdate} :
    ((m, i), us) ∈ items updates ↔ ((updates.get? m).getD [])[i]? = some us := by
  have hfilter : ((m, i), us) ∈ items updates ↔
      ((m, i), us) ∈ (items updates).filter (·.1.1 = m) := by
    simp
  rw [hfilter, items_of_modality, mem_map]
  constructor
  · rintro ⟨⟨us', i'⟩, hmem, heq⟩
    obtain ⟨hkey, rfl⟩ := Prod.mk.inj heq
    obtain ⟨_, rfl⟩ := Prod.mk.inj hkey
    exact mem_zipIdx_iff_getElem?.mp hmem
  · intro h
    exact ⟨(us, i), mem_zipIdx_iff_getElem?.mpr h, rfl⟩

def chosen (result : ItemKey → Option Nat) (item : ItemKey × List ResolvedPromptUpdate) :
    List ResolvedPromptUpdate :=
  ((result item.1).bind (item.2[·]?)).toList

theorem matchedUpdates_eq {result : ItemKey → Option Nat}
    (h : ∀ item ∈ items updates, ∃ i u, result item.1 = some i ∧ item.2[i]? = some u) :
    matchedUpdates updates result =
      .ok (Dict.grouped ((items updates).map fun item => (item.1.1, chosen result item))) := by
  unfold matchedUpdates
  have hmap : (items updates).mapM (matchedUpdate result) =
      .ok ((items updates).map fun item => (item.1.1, chosen result item)) := by
    rw [mapM_ok_iff, forall₂_map_right_iff, forall₂_same]
    intro item hitem
    obtain ⟨i, u, hresult, hu⟩ := h item hitem
    unfold matchedUpdate chosen
    rw [hresult]
    exact bind_ok.mpr ⟨u, pyGet_natCast_ok.mpr hu, by rw [Option.bind_some, hu]; rfl⟩
  rw [hmap]
  rfl

theorem itemUpdates_matched (result : ItemKey → Option Nat) (m : String) (i : Nat) :
    itemUpdates (Dict.grouped ((items updates).map fun item => (item.1.1, chosen result item)))
        m i =
      (((updates.get? m).getD [])[i]?.map fun us => chosen result ((m, i), us)).getD [] := by
  have hof : ((Dict.grouped ((items updates).map fun item =>
      (item.1.1, chosen result item))).get? m).getD [] =
        ((updates.get? m).getD []).zipIdx.map fun item => chosen result ((m, item.2), item.1) := by
    rw [Dict.getD_grouped, filter_map, map_map]
    show ((items updates).filter (·.1.1 = m)).map _ = _
    rw [items_of_modality, map_map]
    rfl
  unfold itemUpdates
  rw [hof, getElem?_map, getElem?_zipIdx, Option.map_map, zero_add]
  rfl

/-! ## The prompt that was put together -/

variable {tokenizer : Option Tokenizer} {prompt : List TokenId} {st : Applying TokenId}
variable {s : Search String ResolvedPromptUpdate TokenId} {applied : List (AppliedUpdate TokenId)}

theorem assemble_segments
    (hcontent : ∀ a ∈ applied, s.content a.toApply.update = a.content) (pos : Nat) :
    s.assemble (segments prompt pos applied) (prompt.drop (lastEnd pos (applied.map (·.edit)))) =
      emit prompt pos (applied.map (·.edit)) := by
  induction applied generalizing pos with
  | nil => rfl
  | cons a rest ih =>
    have hrest := ih (fun b hb => hcontent b (mem_cons_of_mem a hb)) a.edit.hi
    have ha := hcontent a mem_cons_self
    rw [map_cons, emit_cons, segments, Search.assemble, lastEnd, hrest, ha,
      append_assoc]
    rfl

theorem placed_segments
    (hcontent : ∀ a ∈ applied, s.content a.toApply.update = a.content) (pos start : Nat) (i : Nat) :
    (s.placed start (segments prompt pos applied))[i]? =
      applied[i]?.map fun a => ⟨a.toApply.key.1, a.toApply.key.2,
        start + (((pieces prompt pos (applied.map (·.edit))).take (2 * i + 1)).map
          List.length).sum, a.toApply.update⟩ := by
  induction applied generalizing pos start i with
  | nil => rfl
  | cons a rest ih =>
    rw [segments, Search.placed]
    cases i with
    | zero =>
      rw [getElem?_cons_zero, getElem?_cons_zero, Option.map_some, map_cons,
        pieces, mul_zero, zero_add, take_succ_cons, take_zero,
        map_cons, map_nil, sum_singleton]
    | succ i =>
      have hrest := ih (fun b hb => hcontent b (mem_cons_of_mem a hb)) a.edit.hi
        (start + ((prompt.take a.edit.lo).drop pos).length + a.content.length) i
      rw [getElem?_cons_succ, getElem?_cons_succ, hcontent a mem_cons_self,
        hrest, map_cons, pieces, show 2 * (i + 1) + 1 = 2 * i + 1 + 1 + 1 by omega,
        take_succ_cons, take_succ_cons, map_cons, map_cons,
        sum_cons, sum_cons]
      simp only [add_assoc]
      rfl

theorem length_segments (pos : Nat) (applied : List (AppliedUpdate TokenId)) :
    (segments prompt pos applied).length = applied.length := by
  induction applied generalizing pos with
  | nil => rfl
  | cons a rest ih => exact congrArg (· + 1) (ih _)

theorem keys_segments (pos : Nat) (applied : List (AppliedUpdate TokenId)) :
    (segments prompt pos applied).map (fun seg => (seg.key, seg.idx)) =
      applied.map (·.toApply.key) := by
  induction applied generalizing pos with
  | nil => rfl
  | cons a rest ih => exact congrArg (a.toApply.key :: ·) (ih _)

/-! ## All items updated -/

def appliedUpdates (updates : MultiModalPromptUpdates) (st : Applying TokenId) :
    MultiModalPromptUpdates :=
  Dict.grouped ((items updates).map fun item => (item.1.1, chosen st.outResult item))

section AllApplied

variable (htracks : st.Tracks (tokenPrompt tokenizer) updates prompt)
  (hall : allApplied updates st.outResult = true)

include htracks

variable {a : AppliedUpdate TokenId} {xs : List TokenId}
  {hits : List (Hit String ResolvedPromptUpdate)}

theorem contentTokens_applied (ha : a ∈ st.applied) :
    seq2tokens tokenizer a.toApply.update.content.full = .ok a.content ∧
      contentTokens tokenizer a.toApply.update = a.content := by
  have hcontent : seq2tokens tokenizer a.toApply.update.content.full = .ok a.content :=
    (htracks.valid a ha).content
  refine ⟨hcontent, ?_⟩
  unfold contentTokens
  rw [hcontent]

theorem chosen_applied (ha : a ∈ st.applied) : ∃ us, (a.toApply.key, us) ∈ items updates ∧
      st.outResult a.toApply.key = some a.toApply.updateIdx ∧
      us[a.toApply.updateIdx]? = some a.toApply.update ∧
      chosen st.outResult (a.toApply.key, us) = [a.toApply.update] := by
  obtain ⟨us, hmem, hmatch⟩ := (htracks.valid a ha).isMatch
  have hresult := (htracks.outResult a.toApply.key a.toApply.updateIdx).mpr ⟨a, ha, rfl, rfl⟩
  refine ⟨us, hmem, hresult, hmatch.update, ?_⟩
  unfold chosen
  rw [hresult, Option.bind_some, hmatch.update]
  rfl

theorem itemUpdates_applied (ha : a ∈ st.applied) :
    itemUpdates (appliedUpdates updates st) a.toApply.key.1 a.toApply.key.2 =
      [a.toApply.update] := by
  obtain ⟨us, hmem, _, _, hchosen⟩ := chosen_applied htracks ha
  unfold appliedUpdates
  rw [itemUpdates_matched, mem_items_iff.mp hmem]
  exact hchosen

include hall

theorem exists_applied {item : ItemKey × List ResolvedPromptUpdate}
    (hitem : item ∈ items updates) : ∃ a ∈ st.applied, a.toApply.key = item.1 := by
  have hsome := all_eq_true.mp hall item hitem
  obtain ⟨i, hi⟩ := Option.isSome_iff_exists.mp hsome
  obtain ⟨a, ha, hkey, _⟩ := (htracks.outResult item.1 i).mp hi
  exact ⟨a, ha, hkey⟩

theorem matchedUpdates_applied :
    matchedUpdates updates st.outResult = .ok (appliedUpdates updates st) := by
  apply matchedUpdates_eq
  intro item hitem
  obtain ⟨a, ha, hkey⟩ := exists_applied htracks hall hitem
  obtain ⟨us, hmem, hresult, hupdate, _⟩ := chosen_applied htracks ha
  obtain ⟨⟨m, i⟩, us'⟩ := item
  obtain rfl : us = us' := by
    rw [hkey, mem_items_iff] at hmem
    rw [mem_items_iff] at hitem
    exact Option.some.inj (hmem.symm.trans hitem)
  exact ⟨a.toApply.updateIdx, a.toApply.update, hkey ▸ hresult, hupdate⟩

theorem applied_of_itemUpdates {m : String} {i : Nat} {u : ResolvedPromptUpdate}
    (hu : u ∈ itemUpdates (appliedUpdates updates st) m i) :
    ∃ a ∈ st.applied, a.toApply.key = (m, i) ∧ a.toApply.update = u := by
  have hin := hu
  unfold appliedUpdates at hin
  rw [itemUpdates_matched] at hin
  cases hget : ((updates.get? m).getD [])[i]? with
  | none =>
    rw [hget] at hin
    cases hin
  | some us =>
    obtain ⟨a, ha, hkey⟩ := exists_applied htracks hall (mem_items_iff.mpr hget)
    have hupdates := itemUpdates_applied htracks ha
    rw [hkey] at hupdates
    rw [hupdates, mem_singleton] at hu
    exact ⟨a, ha, hkey, hu.symm⟩

theorem contentsEncode_applied : ContentsEncode tokenizer (appliedUpdates updates st) := by
  intro m i u hu
  obtain ⟨a, ha, _, rfl⟩ := applied_of_itemUpdates htracks hall hu
  obtain ⟨hencode, hcontent⟩ := contentTokens_applied htracks ha
  rw [hcontent]
  exact hencode

theorem keys_applied_perm : (st.applied.map (·.toApply.key)).Perm ((items updates).map (·.1)) := by
  rw [perm_ext_iff_of_nodup htracks.distinct (nodup_items updates)]
  intro key
  constructor
  · intro hkey
    obtain ⟨a, ha, rfl⟩ := mem_map.mp hkey
    obtain ⟨us, hmem, _⟩ := (htracks.valid a ha).isMatch
    exact mem_map.mpr ⟨_, hmem, rfl⟩
  · intro hkey
    obtain ⟨item, hitem, rfl⟩ := mem_map.mp hkey
    obtain ⟨a, ha, hkey⟩ := exists_applied htracks hall hitem
    exact mem_map.mpr ⟨a, ha, hkey⟩

theorem exhausts_segments (pos : Nat) :
    (search tokenizer (appliedUpdates updates st)).Exhausts (fun _ => 0)
      (segments prompt pos st.applied) := by
  intro m _
  have hcount : ((segments prompt pos st.applied).filter (·.key = m)).length =
      ((updates.get? m).getD []).length := by
    have hsegments : ((segments prompt pos st.applied).filter (·.key = m)).length =
        ((st.applied.map (·.toApply.key)).filter (·.1 = m)).length := by
      have hkeys : (segments prompt pos st.applied).map (fun seg => (seg.key, seg.idx)) =
          st.applied.map (·.toApply.key) := keys_segments pos st.applied
      rw [← hkeys, filter_map, length_map]
      rfl
    have hitems : (((items updates).map (·.1)).filter (·.1 = m)).length =
        ((updates.get? m).getD []).length := by
      rw [filter_map, length_map]
      show ((items updates).filter (·.1.1 = m)).length = _
      rw [items_of_modality, length_map, length_zipIdx]
    rw [hsegments, ← hitems]
    exact ((keys_applied_perm htracks hall).filter _).length_eq
  apply eq_nil_iff_forall_not_mem.mpr
  intro u hu
  obtain ⟨a, ha, hkey, _⟩ := applied_of_itemUpdates htracks hall hu
  obtain ⟨us, hmem, _⟩ := (htracks.valid a ha).isMatch
  rw [hkey, mem_items_iff] at hmem
  have hlt := (List.getElem?_eq_some_iff.mp hmem).1
  omega

theorem length_hits_le {count : String → Nat} {pos : Nat}
    (hscan : (search tokenizer (appliedUpdates updates st)).Scans count pos xs hits) :
    hits.length ≤ st.applied.length := by
  have hsub : (hits.map fun h => (h.key, h.idx)).Subperm (st.applied.map (·.toApply.key)) := by
    apply subperm_of_subset hscan.nodup
    intro key hkey
    obtain ⟨h, hh, rfl⟩ := mem_map.mp hkey
    obtain ⟨a, ha, hakey, _⟩ := applied_of_itemUpdates htracks hall (hscan.option hh).2
    exact mem_map.mpr ⟨a, ha, hakey⟩
  simpa using hsub.length_le

/-- The placeholders are where the contents were inserted exactly when the search finds the
items of the segments. -/
theorem foundAt_iff_eq_placed
    (hscan : (search tokenizer (appliedUpdates updates st)).Scans (fun _ => 0) 0 xs hits) :
    (∀ i a, st.applied[i]? = some a →
      FoundAt (Dict.grouped (hits.map fun h => (h.key, toPlaceholder tokenizer h)))
        a.toApply.key (insertedAt st i)) ↔
      hits = (search tokenizer (appliedUpdates updates st)).placed 0
        (segments prompt 0 st.applied) := by
  have hcontent : ∀ a ∈ st.applied,
      (search tokenizer (appliedUpdates updates st)).content a.toApply.update = a.content :=
    fun a ha => (contentTokens_applied htracks ha).2
  have hplaced : ∀ i, ((search tokenizer (appliedUpdates updates st)).placed 0
      (segments prompt 0 st.applied))[i]? =
        st.applied[i]?.map fun a => Hit.mk a.toApply.key.1 a.toApply.key.2 (insertedAt st i)
          a.toApply.update := by
    intro i
    rw [placed_segments hcontent, ← htracks.outSeqs]
    simp only [zero_add]
    rfl
  constructor
  · intro hfound
    apply hscan.eq_placed
    · rw [keys_segments]
      exact htracks.distinct
    · intro h hh
      obtain ⟨i, hi⟩ := mem_iff_getElem?.mp hh
      rw [hplaced] at hi
      obtain ⟨a, ha, rfl⟩ := Option.map_eq_some_iff.mp hi
      obtain ⟨p, hp, hstart⟩ := hfound i a ha
      rw [of_grouped, getElem?_map] at hp
      obtain ⟨g, hg, rfl⟩ := Option.map_eq_some_iff.mp hp
      have hmem := mem_of_getElem? hg
      have hkey : g.key = a.toApply.key.1 := by simpa using (mem_filter.mp hmem).2
      have hidx : g.idx = a.toApply.key.2 := (hscan.idx_eq hg).trans (zero_add _)
      have hitem : g.item = a.toApply.update := by
        have hoption : g.item ∈ itemUpdates (appliedUpdates updates st) g.key g.idx :=
          (hscan.option (mem_filter.mp hmem).1).2
        rw [hkey, hidx, itemUpdates_applied htracks (mem_of_getElem? ha)] at hoption
        exact mem_singleton.mp hoption
      have hpos : g.pos = insertedAt st i := hstart
      rw [← hkey, ← hidx, ← hpos, ← hitem]
      exact (mem_filter.mp hmem).1
    · rw [length_segments]
      exact length_hits_le htracks hall hscan
  · intro heq i a ha
    have hi : hits[i]? = some ⟨a.toApply.key.1, a.toApply.key.2, insertedAt st i,
        a.toApply.update⟩ := by
      rw [heq, hplaced, ha]
      rfl
    have hmem : (⟨a.toApply.key.1, a.toApply.key.2, insertedAt st i, a.toApply.update⟩ :
        Hit String ResolvedPromptUpdate) ∈ hits.filter (·.key = a.toApply.key.1) :=
      mem_filter.mpr ⟨mem_of_getElem? hi, decide_eq_true rfl⟩
    obtain ⟨j, hj⟩ := mem_iff_getElem?.mp hmem
    have hidx : j = a.toApply.key.2 := ((hscan.idx_eq hj).trans (zero_add _)).symm
    refine ⟨toPlaceholder tokenizer ⟨a.toApply.key.1, a.toApply.key.2, insertedAt st i,
      a.toApply.update⟩, ?_, rfl⟩
    rw [hidx] at hj
    rw [of_grouped, getElem?_map, hj]
    rfl

end AllApplied

end

/-- The placeholders that are found for the applied updates are placed well; they are where
the contents were inserted exactly when the search meets no content too early. -/
theorem applyPromptUpdates_inserted_iff {tokenizer : Option Tokenizer}
    {updates : MultiModalPromptUpdates} {prompt newTokenIds : List TokenId} {st : Applying TokenId}
    (happly : applyTokenMatches tokenizer prompt updates = .ok (newTokenIds, st))
    (hall : allApplied updates st.outResult = true) :
    ∃ matched placeholders, matchedUpdates updates st.outResult = .ok matched ∧
      applyPromptUpdates tokenizer prompt updates = .ok (newTokenIds, placeholders) ∧
      WellPlaced tokenizer matched newTokenIds placeholders ∧
      ((∀ i a, st.applied[i]? = some a →
          FoundAt placeholders a.toApply.key (insertedAt st i)) ↔
        (search tokenizer matched).Recoverable (fun _ => 0) (segments prompt 0 st.applied)
          (prompt.drop st.prevEndIdx)) := by
  have hmatches := happly
  unfold applyTokenMatches at hmatches
  simp only [bind_ok, pure_ok] at hmatches
  obtain ⟨⟨outSeqs, st'⟩, hmatches, heq⟩ := hmatches
  obtain ⟨rfl, rfl⟩ := Prod.mk.inj heq
  obtain ⟨htracks, rfl, _⟩ := applyMatches_spec hmatches
  have hmatched := matchedUpdates_applied htracks hall
  have hencode := contentsEncode_applied htracks hall
  have hassemble : (search tokenizer (appliedUpdates updates st')).assemble
      (segments prompt 0 st'.applied) (prompt.drop st'.prevEndIdx) =
        (st'.outSeqs ++ [prompt.drop st'.prevEndIdx]).flatten := by
    rw [flatten_append, flatten_singleton, htracks.outSeqs, htracks.prevEndIdx]
    exact assemble_segments (fun a ha => (contentTokens_applied htracks ha).2) 0
  obtain ⟨hits, hfind, hscan⟩ := findMmPlaceholders_spec hencode
    (st'.outSeqs ++ [prompt.drop st'.prevEndIdx]).flatten
  refine ⟨_, _, hmatched, ?_, wellPlaced_of_scans hencode hscan, ?_⟩
  · unfold applyPromptUpdates
    refine bind_ok.mpr ⟨_, happly, ?_⟩
    dsimp only
    rw [if_pos hall]
    refine bind_ok.mpr ⟨_, rfl, ?_⟩
    refine bind_ok.mpr ⟨_, hmatched, ?_⟩
    exact bind_ok.mpr ⟨_, hfind, rfl⟩
  · rw [foundAt_iff_eq_placed htracks hall hscan,
      ← @Search.scans_placed_iff _ _ _ _ _ _ _ 0 _ _ (exhausts_segments htracks hall 0), hassemble]
    constructor
    · intro heq
      rw [← heq]
      exact hscan
    · exact hscan.unique

def replaceTwo : MultiModalPromptUpdates where
  entries := [("image", [[⟨"image", 0, .replace, .seq (.tokens [2]), ⟨.tokens [9, 9], none⟩⟩]])]
  nodup := nodup_singleton _

theorem applyPromptUpdates_inserted_iff_replaceTwo :
    ∃ placeholders,
      applyPromptUpdates none [1, 2, 3] replaceTwo = .ok ([1, 9, 9, 3], placeholders) ∧
      WellPlaced none replaceTwo [1, 9, 9, 3] placeholders ∧
      FoundAt placeholders ("image", 0) 1 := by
  obtain ⟨matched, placeholders, hmatched, happly, hwell, hiff⟩ :=
    @applyPromptUpdates_inserted_iff none replaceTwo [1, 2, 3] [1, 9, 9, 3] _ rfl rfl
  obtain rfl : replaceTwo = matched := Except.ok.inj hmatched
  refine ⟨placeholders, happly, hwell, hiff.mpr ⟨rfl, ?_, rfl, trivial⟩ 0 _ rfl⟩
  intro j hj
  obtain rfl : j = 0 := lt_one_iff.mp hj
  rfl

/-- An image whose tokens are appended to the prompt. -/
def appendNines : MultiModalPromptUpdates where
  entries := [("image", [[⟨"image", 0, .insert, .atEnd, ⟨.tokens [9, 9], none⟩⟩]])]
  nodup := nodup_singleton _

/-- The tokens 9, 9 that the user wrote are taken for the image. -/
theorem not_applyPromptUpdates_inserted :
    ¬ ∀ (tokenizer : Option Tokenizer) (updates : MultiModalPromptUpdates)
      (prompt newTokenIds : List TokenId) (st : Applying TokenId)
      (placeholders : MultiModalPlaceholders),
      applyTokenMatches tokenizer prompt updates = .ok (newTokenIds, st) →
      allApplied updates st.outResult = true →
      applyPromptUpdates tokenizer prompt updates = .ok (newTokenIds, placeholders) →
      ∀ i a, st.applied[i]? = some a →
        FoundAt placeholders a.toApply.key (insertedAt st i) := by
  intro h
  obtain ⟨p, hp, hstart⟩ :=
    h none appendNines [9, 9, 1] [9, 9, 1, 9, 9] _ _ rfl rfl rfl 0 _ rfl
  cases hp
  exact absurd hstart (by decide)

end VllmCore.MultiModal
