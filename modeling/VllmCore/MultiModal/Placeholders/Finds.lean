import VllmCore.MultiModal.Placeholders
import VllmCore.Support.GreedySearch
/-!
# What the search for placeholders finds

`_iter_placeholders` is a greedy search for the contents of the updates.  The placeholders
that it finds do not overlap, those of each modality stand in the order of their items, and
each holds a content of its item.
-/

namespace VllmCore.MultiModal

open List Support

def contentTokens (tokenizer : Option Tokenizer) (u : ResolvedPromptUpdate) : List TokenId :=
  match seq2tokens tokenizer u.content.full with
  | .ok tokens => tokens
  | .error _ => []

def itemUpdates (updates : MultiModalPromptUpdates) (modality : String) (itemIdx : Nat) :
    List ResolvedPromptUpdate :=
  (((updates.get? modality).getD [])[itemIdx]?).getD []

def search (tokenizer : Option Tokenizer) (updates : MultiModalPromptUpdates) :
    Search String ResolvedPromptUpdate TokenId where
  keys := updates.keys
  options := itemUpdates updates
  content := contentTokens tokenizer

/-- The contents of all updates can be turned into tokens. -/
def ContentsEncode (tokenizer : Option Tokenizer) (updates : MultiModalPromptUpdates) : Prop :=
  ∀ m i, ∀ u ∈ itemUpdates updates m i,
    seq2tokens tokenizer u.content.full = .ok (contentTokens tokenizer u)

def toPlaceholder (tokenizer : Option Tokenizer) (h : Hit String ResolvedPromptUpdate) :
    PlaceholderFeaturesInfo :=
  placeholderOf tokenizer h.key h.idx h.pos h.item (contentTokens tokenizer h.item)

variable {tokenizer : Option Tokenizer} {prompt : List TokenId}

theorem findContent_eq {startIdx : Nat} {us : List ResolvedPromptUpdate}
    (hencode : ∀ u ∈ us, seq2tokens tokenizer u.content.full = .ok (contentTokens tokenizer u)) :
    findContent tokenizer prompt startIdx us =
      .ok ((us.find? fun u => contentTokens tokenizer u ≠ [] ∧
        contentTokens tokenizer u <+: prompt.drop startIdx).map
          fun u => (u, contentTokens tokenizer u)) := by
  induction us with
  | nil => rfl
  | cons u us ih =>
    have hrest := ih fun v hv => hencode v (mem_cons_of_mem u hv)
    have hslice : (prompt.take (startIdx + (contentTokens tokenizer u).length)).drop startIdx =
        (prompt.drop startIdx).take (contentTokens tokenizer u).length := by
      rw [drop_take, Nat.add_sub_cancel_left]
    rw [findContent, hencode u mem_cons_self]
    show (if _ then _ else _) = _
    rw [hrest]
    by_cases hfound : contentTokens tokenizer u ≠ [] ∧
        contentTokens tokenizer u <+: prompt.drop startIdx
    · have hlength := hfound.2.length_le
      have hpos := length_pos_iff.mpr hfound.1
      rw [length_drop] at hlength
      rw [if_neg (by omega), if_pos (by
        rw [hslice]
        exact (prefix_iff_eq_take.mp hfound.2).symm)]
      rw [find?_cons_of_pos (by simpa using hfound)]
      rfl
    · rw [find?_cons_of_neg (by simpa using hfound)]
      split
      · rfl
      next hroom =>
        rw [if_neg]
        intro heq
        apply hfound
        constructor
        · intro hnil
          rw [hnil] at hroom
          exact hroom (.inl rfl)
        · rw [← heq, hslice]
          exact take_prefix _ _

variable {updates : MultiModalPromptUpdates}

theorem itemUpdates_of_mem {modality : String} {modalityUpdates : List (List ResolvedPromptUpdate)}
    (h : (modality, modalityUpdates) ∈ updates.entries) (i : Nat) :
    itemUpdates updates modality i = (modalityUpdates[i]?).getD [] := by
  unfold itemUpdates
  rw [(updates.get?_eq_some_iff _ _).mpr h]
  rfl

theorem placeholderAt_eq (hencode : ContentsEncode tokenizer updates) (count : String → Nat)
    (startIdx : Nat) :
    placeholderAt tokenizer prompt count startIdx updates.entries =
      .ok (((search tokenizer updates).hit count (prompt.drop startIdx)).map fun found =>
        toPlaceholder tokenizer ⟨found.1, count found.1, startIdx, found.2⟩) := by
  have hentries : ∀ entries : List (String × List (List ResolvedPromptUpdate)),
      (∀ entry ∈ entries, entry ∈ updates.entries) →
      placeholderAt tokenizer prompt count startIdx entries =
        .ok (((entries.map Prod.fst).findSome? fun m =>
          ((itemUpdates updates m (count m)).find? fun u => contentTokens tokenizer u ≠ [] ∧
            contentTokens tokenizer u <+: prompt.drop startIdx).map
              fun u => (m, u)).map fun found =>
              toPlaceholder tokenizer ⟨found.1, count found.1, startIdx, found.2⟩) := by
    intro entries hin
    induction entries with
    | nil => rfl
    | cons entry entries ih =>
      obtain ⟨m, modalityUpdates⟩ := entry
      have hitem := itemUpdates_of_mem (hin _ mem_cons_self) (count m)
      have hrest := ih fun e he => hin e (mem_cons_of_mem _ he)
      rw [placeholderAt, map_cons, findSome?_cons]
      cases hget : modalityUpdates[count m]? with
      | none =>
        rw [hget] at hitem
        rw [hitem]
        exact hrest
      | some us =>
        rw [hget, Option.getD_some] at hitem
        have hcontent := @findContent_eq tokenizer prompt startIdx us
          (hitem ▸ hencode m (count m))
        dsimp only
        rw [hcontent, hitem]
        cases us.find? _ with
        | none => exact hrest
        | some u => rfl
  exact hentries updates.entries fun _ he => he

theorem exhausted_of_allCountedOff {count : String → Nat}
    (h : allCountedOff updates count = true) (m : String)
    (hm : m ∈ (search tokenizer updates).keys) :
    (search tokenizer updates).options m (count m) = [] := by
  obtain ⟨entry, hentry, rfl⟩ := mem_map.mp hm
  have hle : entry.2.length ≤ count entry.1 := by
    have hall := all_eq_true.mp h entry hentry
    exact of_decide_eq_true hall
  show itemUpdates updates entry.1 (count entry.1) = []
  rw [itemUpdates_of_mem hentry, getElem?_eq_none hle]
  rfl

theorem placeholdersFrom_spec (hencode : ContentsEncode tokenizer updates) {fuel : Nat}
    {count : String → Nat} {startIdx : Nat} (hfuel : prompt.length < fuel + startIdx)
    (hstart : startIdx ≤ prompt.length) :
    ∃ hits, placeholdersFrom tokenizer prompt updates fuel count startIdx =
        .ok (hits.map (toPlaceholder tokenizer)) ∧
      (search tokenizer updates).Scans count startIdx (prompt.drop startIdx) hits := by
  induction fuel generalizing count startIdx with
  | zero => omega
  | succ fuel ih =>
    unfold placeholdersFrom
    split
    next hlt =>
      rw [placeholderAt_eq hencode]
      cases hhit : (search tokenizer updates).hit count (prompt.drop startIdx) with
      | none =>
        obtain ⟨hits, hrest, hscan⟩ := @ih count (startIdx + 1)
          (by omega) (by omega)
        refine ⟨hits, hrest, ?_⟩
        rw [drop_eq_getElem_cons hlt] at hhit ⊢
        exact .skip hhit hscan
      | some found =>
        obtain ⟨m, u⟩ := found
        obtain ⟨_, _, hne, hprefix⟩ := Search.hit_eq_some hhit
        have hpos := length_pos_iff.mpr hne
        have hlength := hprefix.length_le
        rw [length_drop] at hlength
        show ∃ hits, (if allCountedOff updates (Search.bump count m) = true then _ else
          placeholdersFrom tokenizer prompt updates fuel (Search.bump count m)
            (startIdx + (contentTokens tokenizer u).length) >>= _) = _ ∧ _
        split
        next hall =>
          refine ⟨[⟨m, count m, startIdx, u⟩], rfl, .hit hhit ?_⟩
          exact .of_exhausted (exhausted_of_allCountedOff hall) _ _
        · obtain ⟨hits, hrest, hscan⟩ := @ih (Search.bump count m)
            (startIdx + ((search tokenizer updates).content u).length)
            (by omega) (by omega)
          refine ⟨⟨m, count m, startIdx, u⟩ :: hits, ?_, .hit hhit ?_⟩
          · have hrest' : placeholdersFrom tokenizer prompt updates fuel
                (Function.update count m (count m + 1))
                (startIdx + (contentTokens tokenizer u).length) =
                  .ok (hits.map (toPlaceholder tokenizer)) := hrest
            exact bind_ok.mpr ⟨_, hrest', rfl⟩
          · rw [drop_drop]
            exact hscan
    next hge =>
      refine ⟨[], rfl, ?_⟩
      rw [drop_eq_nil_of_le (by omega)]
      exact .done count startIdx

theorem findMmPlaceholders_spec (hencode : ContentsEncode tokenizer updates)
    (prompt : List TokenId) :
    ∃ hits, findMmPlaceholders tokenizer prompt updates =
        .ok (Dict.grouped (hits.map fun h => (h.key, toPlaceholder tokenizer h))) ∧
      (search tokenizer updates).Scans (fun _ => 0) 0 prompt hits := by
  have hiter : ∃ hits, iterPlaceholders tokenizer prompt updates =
        .ok (hits.map (toPlaceholder tokenizer)) ∧
      (search tokenizer updates).Scans (fun _ => 0) 0 prompt hits := by
    unfold iterPlaceholders
    split
    next hall => exact ⟨[], rfl, .of_exhausted (exhausted_of_allCountedOff hall) _ _⟩
    · exact placeholdersFrom_spec hencode (by omega) (Nat.zero_le _)
  obtain ⟨hits, hfound, hscan⟩ := hiter
  refine ⟨hits, ?_, hscan⟩
  unfold findMmPlaceholders
  rw [hfound]
  show Except.ok (Dict.grouped ((hits.map (toPlaceholder tokenizer)).map _)) = _
  rw [map_map]
  rfl

/-! ## The placeholders of the modalities -/

def MultiModalPlaceholders.of (placeholders : MultiModalPlaceholders) (modality : String) :
    List PlaceholderFeaturesInfo :=
  (placeholders.get? modality).getD []

/-- Placeholders that hold contents of their items, do not overlap, and stand in the order of
the items of each modality. -/
structure WellPlaced (tokenizer : Option Tokenizer) (updates : MultiModalPromptUpdates)
    (prompt : List TokenId) (placeholders : MultiModalPlaceholders) : Prop where
  numbered : ∀ m, (placeholders.of m).map (fun p => (p.modality, p.itemIdx)) =
    (List.range (placeholders.of m).length).map fun i => (m, i)
  inOrder : ∀ m, (placeholders.of m).Pairwise fun p q => p.startIdx + p.length ≤ q.startIdx
  disjoint : ∀ m n, ∀ p ∈ placeholders.of m, ∀ q ∈ placeholders.of n,
    (p.modality, p.itemIdx) = (q.modality, q.itemIdx) ∨
      p.startIdx + p.length ≤ q.startIdx ∨ q.startIdx + q.length ≤ p.startIdx
  content : ∀ m, ∀ p ∈ placeholders.of m, p.tokens ≠ [] ∧
    (prompt.drop p.startIdx).take p.length = p.tokens ∧
    ∃ u ∈ itemUpdates updates m p.itemIdx, seq2tokens tokenizer u.content.full = .ok p.tokens

theorem of_grouped (hits : List (Hit String ResolvedPromptUpdate)) (m : String) :
    MultiModalPlaceholders.of (Dict.grouped (hits.map fun h => (h.key, toPlaceholder tokenizer h)))
        m = (hits.filter (·.key = m)).map (toPlaceholder tokenizer) := by
  unfold MultiModalPlaceholders.of
  rw [Dict.getD_grouped, filter_map, map_map]
  rfl

theorem wellPlaced_of_scans (hencode : ContentsEncode tokenizer updates)
    {hits : List (Hit String ResolvedPromptUpdate)}
    (hscan : (search tokenizer updates).Scans (fun _ => 0) 0 prompt hits) :
    WellPlaced tokenizer updates prompt
      (Dict.grouped (hits.map fun h => (h.key, toPlaceholder tokenizer h))) := by
  have hmem : ∀ m p, p ∈ (hits.filter (·.key = m)).map (toPlaceholder tokenizer) ↔
      ∃ h ∈ hits, h.key = m ∧ toPlaceholder tokenizer h = p := by
    intro m p
    simp [and_assoc]
  constructor
  · intro m
    have hnumbered := hscan.numbered m
    have hkeys : ∀ h ∈ hits.filter (·.key = m),
        ((toPlaceholder tokenizer h).modality, (toPlaceholder tokenizer h).itemIdx) =
          (m, h.idx) := by
      intro h hh
      have hkey : h.key = m := by simpa using (mem_filter.mp hh).2
      rw [← hkey]
      rfl
    rw [of_grouped, length_map, map_map]
    calc (hits.filter (·.key = m)).map _
      _ = (hits.filter (·.key = m)).map fun h => (m, h.idx) := map_congr_left hkeys
      _ = ((hits.filter (·.key = m)).map (·.idx)).map fun i => (m, i) := by rw [map_map]; rfl
      _ = _ := by rw [hnumbered, range_eq_range']
  · intro m
    rw [of_grouped, pairwise_map]
    exact hscan.disjoint.sublist filter_sublist
  · intro m n p hp q hq
    rw [of_grouped, hmem] at hp hq
    obtain ⟨g, hg, rfl, rfl⟩ := hp
    obtain ⟨h, hh, rfl, rfl⟩ := hq
    rcases hscan.apart hg hh with rfl | hdisjoint
    · exact .inl rfl
    · exact .inr hdisjoint
  · intro m p hp
    rw [of_grouped, hmem] at hp
    obtain ⟨h, hh, rfl, rfl⟩ := hp
    obtain ⟨_, _, hne, hprefix⟩ := hscan.at hh
    have hoption := (hscan.option hh).2
    refine ⟨hne, ?_, h.item, hoption, hencode _ _ _ hoption⟩
    exact (prefix_iff_eq_take.mp hprefix).symm

end VllmCore.MultiModal
