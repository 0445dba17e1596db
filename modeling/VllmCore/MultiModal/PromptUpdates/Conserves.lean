import VllmCore.MultiModal.PromptUpdates
/-!
# What prompt updates keep of the prompt

Every turn of `_apply_matches` applies an update to items that have none, so the loop ends
and no item is updated twice.  The prompt is kept where every match is applied behind the
one before it.  An index target does not look at the position that was reached, and a match
inside an earlier one lies before its end; there the output steps back and repeats a part
of the prompt.
-/

namespace VllmCore.MultiModal

open Function List Support

variable {α : Type} [DecidableEq α]

/-! ## Matches -/

/-- The target of an update is found at a match. -/
def TargetAt (kind : PromptKind α) (prompt : List α) (target : UpdateTarget)
    (m : PromptTargetMatch) : Prop :=
  match target with
  | .seq s => ∃ t, kind.resolve s = .ok t ∧ m.endIdx = m.startIdx + t.length ∧
      m.endIdx ≤ prompt.length ∧ (prompt.take m.endIdx).drop m.startIdx = t
  | .atStart => m = ⟨0, 0⟩
  | .afterPrefix s => ∃ t, kind.resolve s = .ok t ∧ prompt.take t.length = t ∧
      m = ⟨t.length, t.length⟩
  | .atEnd => m = ⟨prompt.length, prompt.length⟩

variable {m : PromptTargetMatch} {mode : Option UpdateMode} {prevEndIdx : Nat}
  {found : List MatchToApply}
variable {kind : PromptKind α} {prompt : List α}

theorem TargetAt.within {target : UpdateTarget}
    (h : TargetAt kind prompt target m) : m.startIdx ≤ m.endIdx ∧ m.endIdx ≤ prompt.length := by
  cases target with
  | seq s =>
    obtain ⟨t, _, hend, hle, _⟩ := h
    exact ⟨by omega, hle⟩
  | atStart =>
    rw [show m = ⟨0, 0⟩ from h]
    exact ⟨le_rfl, Nat.zero_le _⟩
  | afterPrefix s =>
    obtain ⟨t, _, htake, rfl⟩ := h
    refine ⟨le_rfl, ?_⟩
    have hlength := congrArg List.length htake
    rw [length_take] at hlength
    show t.length ≤ prompt.length
    omega
  | atEnd =>
    rw [show m = ⟨prompt.length, prompt.length⟩ from h]
    exact ⟨le_rfl, le_rfl⟩

variable {fuel startIdx : Nat} {u : ResolvedPromptUpdate} {mode' : Option UpdateMode}
  {md : UpdateMode} {currentResult : ItemKey → Option Nat} {st : Applying α}

theorem scanMatches_at {ids matchIds : List α} (h : m ∈ scanMatches ids matchIds fuel startIdx) :
    startIdx ≤ m.startIdx ∧ m.endIdx = m.startIdx + matchIds.length ∧ m.endIdx ≤ ids.length ∧
      (ids.take m.endIdx).drop m.startIdx = matchIds := by
  induction fuel generalizing startIdx with
  | zero => cases h
  | succ fuel ih =>
    unfold scanMatches at h
    split at h
    next hroom =>
      dsimp only at h
      split at h
      next hfound =>
        rcases mem_cons.mp h with rfl | h
        · exact ⟨le_rfl, rfl, by show startIdx + matchIds.length ≤ ids.length; omega, hfound⟩
        · obtain ⟨hle, hrest⟩ := ih h
          exact ⟨by omega, hrest⟩
      · obtain ⟨hle, hrest⟩ := ih h
        exact ⟨by omega, hrest⟩
    · cases h

theorem iterMatches_targetAt {found : List PromptTargetMatch}
    (h : u.iterMatches kind prompt startIdx = .ok found) (hm : m ∈ found) :
    TargetAt kind prompt u.target m := by
  unfold ResolvedPromptUpdate.iterMatches at h
  cases htarget : u.target with
  | seq s =>
    rw [htarget] at h
    simp only [bind_ok, pure_ok] at h
    obtain ⟨t, hresolve, rfl⟩ := h
    refine ⟨t, hresolve, ?_⟩
    split at hm
    · unfold finditer at hm
      split at hm
      next hempty =>
        obtain ⟨i, hi, rfl⟩ := mem_map.mp hm
        rw [mem_range'_1] at hi
        rw [isEmpty_iff.mp hempty]
        refine ⟨rfl, by show i ≤ prompt.length; omega, ?_⟩
        apply drop_eq_nil_of_le
        rw [length_take]
        exact Nat.min_le_left _ _
      · exact (scanMatches_at hm).2
    · unfold iterTokenMatches at hm
      split at hm
      · cases hm
      · exact (scanMatches_at hm).2
  | atStart =>
    rw [htarget] at h
    obtain ⟨_, rfl, rfl⟩ := h
    exact mem_singleton.mp hm
  | afterPrefix s =>
    rw [htarget] at h
    simp only [UpdateTarget.getMatchIndex, bind_ok, pure_ok] at h
    obtain ⟨matchIdx, hidx, rfl⟩ := h
    split at hidx
    · obtain rfl := pure_ok.mp hidx
      cases hm
    · simp only [bind_ok, pure_ok] at hidx
      obtain ⟨t, hresolve, rfl⟩ := hidx
      split at hm
      next htake => exact ⟨t, hresolve, htake, mem_singleton.mp hm⟩
      · cases hm
  | atEnd =>
    rw [htarget] at h
    obtain ⟨_, rfl, rfl⟩ := h
    exact mem_singleton.mp hm

theorem firstOfMode_spec
    {found : List PromptTargetMatch} (h : firstOfMode mode u found = some (md, m))
    (hmode : mode' = mode) : m ∈ found ∧ md = u.mode ∧ (mode' = none ∨ mode' = some md) := by
  induction found with
  | nil => cases h
  | cons n rest ih =>
    unfold firstOfMode at h
    cases mode with
    | none =>
      obtain ⟨rfl, rfl⟩ := Prod.mk.inj (Option.some.inj h)
      exact ⟨mem_cons_self, rfl, .inl hmode⟩
    | some md' =>
      dsimp only at h
      split at h
      · obtain ⟨hmem, hrest⟩ := ih h
        exact ⟨mem_cons_of_mem n hmem, hrest⟩
      next hsame =>
        obtain ⟨rfl, rfl⟩ := Prod.mk.inj (Option.some.inj h)
        exact ⟨mem_cons_self, not_not.mp hsame, .inr hmode⟩

structure MatchToApply.Matches (kind : PromptKind α) (prompt : List α)
    (itemUpdates : List ResolvedPromptUpdate) (mode : UpdateMode) (m : MatchToApply) : Prop where
  update : itemUpdates[m.updateIdx]? = some m.update
  mode : m.update.mode = mode
  target : TargetAt kind prompt m.update.target m.found

theorem findForItem_spec {key : ItemKey}
    {itemUpdates : List ResolvedPromptUpdate} {updates : List (ResolvedPromptUpdate × Nat)}
    (hupdates : ∀ p ∈ updates, itemUpdates[p.2]? = some p.1) {m : MatchToApply}
    (h : findForItem kind prompt prevEndIdx key mode updates = .ok (some (md, m))) :
    m.key = key ∧ m.Matches kind prompt itemUpdates md ∧ (mode = none ∨ mode = some md) := by
  induction updates with
  | nil =>
    cases (pure_ok.mp h)
  | cons p rest ih =>
    obtain ⟨u, updateIdx⟩ := p
    simp only [findForItem, bind_ok] at h
    obtain ⟨found, hfound, h⟩ := h
    cases hfirst : firstOfMode mode u found with
    | some r =>
      rw [hfirst] at h
      obtain ⟨rfl, rfl⟩ := Prod.mk.inj (Option.some.inj (pure_ok.mp h))
      obtain ⟨hmem, hmd, hmode⟩ := firstOfMode_spec hfirst rfl
      exact ⟨rfl, ⟨hupdates _ mem_cons_self, hmd.symm, iterMatches_targetAt hfound hmem⟩,
        hmode⟩
    | none =>
      rw [hfirst] at h
      exact ih (fun q hq => hupdates q (mem_cons_of_mem _ hq)) h

/-- What `_find_matches` collects: one match for some of the items without a result, all in
one mode. -/
structure Collected (kind : PromptKind α) (prompt : List α)
    (currentResult : ItemKey → Option Nat) (its : List (ItemKey × List ResolvedPromptUpdate))
    (mode : UpdateMode) (found : List MatchToApply) : Prop where
  keys : (found.map (·.key)).Sublist (its.map (·.1))
  unfound : ∀ m ∈ found, currentResult m.key = none
  isMatch : ∀ m ∈ found, ∃ itemUpdates, (m.key, itemUpdates) ∈ its ∧
    m.Matches kind prompt itemUpdates mode

theorem collectMatches_spec {its : List (ItemKey × List ResolvedPromptUpdate)}
    (h : collectMatches kind prompt prevEndIdx currentResult its mode = .ok (mode', found)) :
    (∀ md, mode' = some md → Collected kind prompt currentResult its md found) ∧
      (∀ md, mode = some md → mode' = some md) ∧
      (mode = none → (mode' = none ↔ found = [])) := by
  induction its generalizing mode found with
  | nil =>
    obtain ⟨rfl, rfl⟩ := Prod.mk.inj (pure_ok.mp h)
    refine ⟨fun md _ => ⟨nil_sublist _, nofun, nofun⟩, fun md hmd => hmd, fun hnone => ?_⟩
    exact ⟨fun _ => rfl, fun _ => hnone⟩
  | cons item rest ih =>
    obtain ⟨key, itemUpdates⟩ := item
    have hweaken : ∀ {md found}, Collected kind prompt currentResult rest md found →
        Collected kind prompt currentResult ((key, itemUpdates) :: rest) md found := by
      intro md found hc
      refine ⟨hc.keys.trans (sublist_cons_self _ _), hc.unfound, fun m hm => ?_⟩
      obtain ⟨us, hmem, hmatch⟩ := hc.isMatch m hm
      exact ⟨us, mem_cons_of_mem _ hmem, hmatch⟩
    unfold collectMatches at h
    split at h
    · obtain ⟨hcollected, hkeep, hnone⟩ := ih h
      exact ⟨fun md hmd => hweaken (hcollected md hmd), hkeep, hnone⟩
    next hunfound =>
      simp only [bind_ok] at h
      obtain ⟨r, hitem, h⟩ := h
      cases r with
      | none =>
        obtain ⟨hcollected, hkeep, hnone⟩ := ih h
        exact ⟨fun md hmd => hweaken (hcollected md hmd), hkeep, hnone⟩
      | some r =>
        obtain ⟨md, m⟩ := r
        simp only [bind_ok, pure_ok] at h
        obtain ⟨⟨mode₁, found₁⟩, hrest, hresult⟩ := h
        obtain ⟨rfl, rfl⟩ := Prod.mk.inj hresult
        obtain ⟨hcollected, hkeep, _⟩ := ih hrest
        have hmode₁ : mode₁ = some md := hkeep md rfl
        have hzip : ∀ p ∈ itemUpdates.zipIdx, itemUpdates[p.2]? = some p.1 := by
          intro p hp
          exact mem_zipIdx_iff_getElem?.mp hp
        obtain ⟨hkey, hmatch, hsame⟩ := findForItem_spec hzip hitem
        refine ⟨?_, ?_, ?_⟩
        · intro md' hmd'
          obtain rfl : md = md' := Option.some.inj (hmode₁.symm.trans hmd')
          have hc := hcollected md hmode₁
          constructor
          · rw [map_cons, map_cons, hkey]
            exact hc.keys.cons_cons key
          · intro n hn
            rcases mem_cons.mp hn with rfl | hn
            · rw [hkey]
              simpa using hunfound
            · exact hc.unfound n hn
          · intro n hn
            rcases mem_cons.mp hn with rfl | hn
            · rw [hkey]
              exact ⟨itemUpdates, mem_cons_self, hmatch⟩
            · obtain ⟨us, hmem, hmatch'⟩ := hc.isMatch n hn
              exact ⟨us, mem_cons_of_mem _ hmem, hmatch'⟩
        · intro md' hmd'
          rw [hmode₁, ← hmd']
          rcases hsame with hnone | hsame
          · rw [hnone] at hmd'
            cases hmd'
          · exact hsame.symm
        · intro _
          rw [hmode₁]
          exact ⟨(fun hnone => by cases hnone), (fun hnil => by cases hnil)⟩

theorem oneNonEmpty_sublist (b : Bool) (found : List MatchToApply) :
    (oneNonEmpty b found).Sublist found := by
  induction found generalizing b with
  | nil => exact List.Sublist.refl _
  | cons m rest ih =>
    unfold oneNonEmpty
    split
    · exact (ih b).cons_cons m
    · split
      · exact (ih b).cons m
      · exact (ih true).cons_cons m

theorem oneNonEmpty_ne_nil (h : found ≠ []) : oneNonEmpty false found ≠ [] := by
  cases found with
  | nil => exact absurd rfl h
  | cons m rest =>
    unfold oneNonEmpty
    split
    · exact cons_ne_nil _ _
    · rw [if_neg Bool.false_ne_true]
      exact cons_ne_nil _ _

/-- The matches of a turn: at least one, for distinct items without a result. -/
structure TurnMatches (kind : PromptKind α) (updates : MultiModalPromptUpdates) (prompt : List α)
    (currentResult : ItemKey → Option Nat) (mode : UpdateMode) (found : List MatchToApply) :
    Prop where
  nonempty : found ≠ []
  distinct : (found.map (·.key)).Nodup
  unfound : ∀ m ∈ found, currentResult m.key = none
  isMatch : ∀ m ∈ found, ∃ itemUpdates, (m.key, itemUpdates) ∈ items updates ∧
    m.Matches kind prompt itemUpdates mode

theorem nodup_items (updates : MultiModalPromptUpdates) :
    ((items updates).map (·.1)).Nodup := by
  have hkeys : ∀ entry : String × List (List ResolvedPromptUpdate),
      (entry.2.zipIdx.map fun item => ((entry.1, item.2), item.1)).map (·.1) =
        (List.range entry.2.length).map fun i => (entry.1, i) := by
    intro entry
    have hidx := zipIdx_map_snd 0 entry.2
    rw [← range_eq_range'] at hidx
    rw [← hidx, map_map, map_map]
    rfl
  unfold items
  rw [map_flatMap]
  simp only [hkeys]
  rw [nodup_flatMap]
  constructor
  · intro entry _
    exact nodup_range.map fun i j hij => (Prod.mk.inj hij).2
  · have hnodup := updates.nodup
    rw [List.Nodup, pairwise_map] at hnodup
    apply hnodup.imp
    intro a b hab key ha hb
    obtain ⟨i, _, rfl⟩ := mem_map.mp ha
    obtain ⟨j, _, hj⟩ := mem_map.mp hb
    exact hab (Prod.mk.inj hj).1.symm

theorem findMatches_spec {updates : MultiModalPromptUpdates} {mode : UpdateMode}
    (h : findMatches kind updates prompt prevEndIdx currentResult = .ok (some mode, found)) :
    TurnMatches kind updates prompt currentResult mode found := by
  simp only [findMatches, bind_ok, pure_ok] at h
  obtain ⟨⟨mode', collected⟩, hcollect, h⟩ := h
  obtain ⟨rfl, rfl⟩ := Prod.mk.inj h
  obtain ⟨hcollected, _, hnone⟩ := collectMatches_spec hcollect
  have hc := hcollected mode rfl
  have hperm := perm_insertionSort (fun m n : MatchToApply => m.found.LE n.found) collected
  obtain ⟨sorted, hsorted⟩ : ∃ sorted,
      sorted = collected.insertionSort fun m n => m.found.LE n.found := ⟨_, rfl⟩
  rw [← hsorted] at hperm
  rw [← hsorted]
  have hne : sorted ≠ [] := by
    intro hnil
    rw [hnil] at hperm
    have hmode := (hnone rfl).mpr hperm.nil_eq.symm
    cases hmode
  have hsub : (if some mode = some UpdateMode.replace then oneNonEmpty false sorted
      else sorted).Sublist sorted := by
    split
    · exact oneNonEmpty_sublist false sorted
    · exact List.Sublist.refl _
  have hnodup : (sorted.map (·.key)).Nodup :=
    (hperm.map _).nodup_iff.mpr ((nodup_items updates).sublist hc.keys)
  constructor
  · split
    · exact oneNonEmpty_ne_nil hne
    · exact hne
  · exact hnodup.sublist (hsub.map _)
  · exact fun m hm => hc.unfound m (hperm.mem_iff.mp (hsub.subset hm))
  · exact fun m hm => hc.isMatch m (hperm.mem_iff.mp (hsub.subset hm))

/-! ## The edits -/

def AppliedUpdate.edit (a : AppliedUpdate α) : Edit α where
  lo := a.toApply.endIdxToInsert a.mode
  hi := a.toApply.found.endIdx
  content := a.content

/-- The edit of an applied update is the one that the update describes: its content at a
place of its target. -/
structure AppliedUpdate.Valid (kind : PromptKind α) (updates : MultiModalPromptUpdates)
    (prompt : List α) (a : AppliedUpdate α) : Prop where
  isMatch : ∃ itemUpdates, (a.toApply.key, itemUpdates) ∈ items updates ∧
    a.toApply.Matches kind prompt itemUpdates a.mode
  content : kind.resolve a.toApply.update.content.full = .ok a.content

theorem AppliedUpdate.Valid.within {updates : MultiModalPromptUpdates} {a : AppliedUpdate α}
    (h : a.Valid kind updates prompt) :
    a.edit.lo ≤ a.edit.hi ∧ a.edit.hi ≤ prompt.length := by
  obtain ⟨_, _, hmatch⟩ := h.isMatch
  obtain ⟨hspan, hend⟩ := hmatch.target.within
  refine ⟨?_, hend⟩
  unfold AppliedUpdate.edit MatchToApply.endIdxToInsert
  split
  · exact le_rfl
  · exact hspan

/-- The variables of the loop follow from the updates that were applied. -/
structure Applying.Tracks (kind : PromptKind α) (updates : MultiModalPromptUpdates)
    (prompt : List α) (st : Applying α) : Prop where
  prevEndIdx : st.prevEndIdx = lastEnd 0 (st.applied.map (·.edit))
  outSeqs : st.outSeqs = pieces prompt 0 (st.applied.map (·.edit))
  distinct : (st.applied.map (·.toApply.key)).Nodup
  outResult : ∀ key idx, st.outResult key = some idx ↔
    ∃ a ∈ st.applied, a.toApply.key = key ∧ a.toApply.updateIdx = idx
  valid : ∀ a ∈ st.applied, a.Valid kind updates prompt

namespace Applying

variable {kind : PromptKind α} {updates : MultiModalPromptUpdates} {prompt : List α}
  {st st' : Applying α}

theorem tracks_start : Tracks kind updates prompt ({} : Applying α) where
  prevEndIdx := rfl
  outSeqs := rfl
  distinct := nodup_nil
  outResult := by
    intro key idx
    simp
  valid := nofun

theorem Tracks.applyMatch {mode : UpdateMode} {m : MatchToApply} (h : st.Tracks kind updates prompt)
    (hunfound : st.outResult m.key = none)
    (hmatch : ∃ itemUpdates, (m.key, itemUpdates) ∈ items updates ∧
      m.Matches kind prompt itemUpdates mode)
    (happly : st.applyMatch kind prompt mode m = .ok st') :
    st'.Tracks kind updates prompt ∧
      st'.outResult = update st.outResult m.key (some m.updateIdx) ∧
      ∃ content, st'.applied = st.applied ++ [⟨m, mode, content⟩] := by
  simp only [Applying.applyMatch, bind_ok, pure_ok] at happly
  obtain ⟨content, hcontent, rfl⟩ := happly
  refine ⟨?_, rfl, content, rfl⟩
  have hfresh : m.key ∉ st.applied.map (·.toApply.key) := by
    intro hmem
    obtain ⟨a, ha, hkey⟩ := mem_map.mp hmem
    have hsome := (h.outResult m.key a.toApply.updateIdx).mpr ⟨a, ha, hkey, rfl⟩
    rw [hunfound] at hsome
    cases hsome
  constructor
  · show m.found.endIdx = _
    rw [map_append, lastEnd_append]
    rfl
  · dsimp only
    rw [h.outSeqs, map_append, pieces_append, ← h.prevEndIdx]
    rfl
  · rw [map_append, nodup_append]
    refine ⟨h.distinct, nodup_singleton _, ?_⟩
    intro x hx y hy hxy
    rw [map_singleton, mem_singleton] at hy
    rw [hxy, hy] at hx
    exact hfresh hx
  · intro key idx
    show update st.outResult m.key (some m.updateIdx) key = some idx ↔ _
    by_cases hkey : key = m.key
    · rw [hkey, update_self]
      constructor
      · intro hidx
        exact ⟨_, mem_append_right _ mem_cons_self, rfl, Option.some.inj hidx⟩
      · rintro ⟨a, ha, hakey, haidx⟩
        rcases mem_append.mp ha with ha | ha
        · exact absurd (mem_map.mpr ⟨a, ha, hakey⟩) hfresh
        · rw [mem_singleton.mp ha] at haidx
          rw [← haidx]
    · rw [update_of_ne hkey, h.outResult]
      constructor
      · rintro ⟨a, ha, hrest⟩
        exact ⟨a, mem_append_left _ ha, hrest⟩
      · rintro ⟨a, ha, hakey, haidx⟩
        rcases mem_append.mp ha with ha | ha
        · exact ⟨a, ha, hakey, haidx⟩
        · rw [mem_singleton.mp ha] at hakey
          exact absurd hakey.symm hkey
  · intro a ha
    rcases mem_append.mp ha with ha | ha
    · exact h.valid a ha
    · rw [mem_singleton.mp ha]
      exact ⟨hmatch, hcontent⟩

theorem Tracks.applyAll {mode : UpdateMode}
    (h : st.Tracks kind updates prompt) (hdistinct : (found.map (·.key)).Nodup)
    (hunfound : ∀ m ∈ found, st.outResult m.key = none)
    (hmatch : ∀ m ∈ found, ∃ itemUpdates, (m.key, itemUpdates) ∈ items updates ∧
      m.Matches kind prompt itemUpdates mode)
    (happly : found.foldlM (Applying.applyMatch kind prompt mode) st = .ok st') :
    st'.Tracks kind updates prompt ∧ ∃ new, st'.applied = st.applied ++ new ∧
      new.map (·.toApply) = found ∧ ∀ a ∈ new, a.mode = mode := by
  induction found generalizing st with
  | nil =>
    obtain rfl := pure_ok.mp happly
    exact ⟨h, [], (append_nil _).symm, rfl, nofun⟩
  | cons m rest ih =>
    obtain ⟨st₁, hfirst, hrest⟩ := bind_ok.mp happly
    rw [map_cons, nodup_cons] at hdistinct
    obtain ⟨h₁, hresult, content, happlied⟩ := h.applyMatch (hunfound m mem_cons_self)
      (hmatch m mem_cons_self) hfirst
    have hunfound₁ : ∀ n ∈ rest, st₁.outResult n.key = none := by
      intro n hn
      have hne : n.key ≠ m.key := by
        intro heq
        exact hdistinct.1 (mem_map.mpr ⟨n, hn, heq⟩)
      rw [hresult, update_of_ne hne]
      exact hunfound n (mem_cons_of_mem m hn)
    obtain ⟨h', new, hnew, htoApply, hmodes⟩ := ih h₁ hdistinct.2 hunfound₁
      (fun n hn => hmatch n (mem_cons_of_mem m hn)) hrest
    refine ⟨h', ⟨m, mode, content⟩ :: new, ?_, ?_, ?_⟩
    · rw [hnew, happlied, append_assoc]
      rfl
    · rw [map_cons, htoApply]
    · intro a ha
      rcases mem_cons.mp ha with rfl | ha
      · rfl
      · exact hmodes a ha

theorem Tracks.length_applied (h : st.Tracks kind updates prompt) :
    st.applied.length ≤ (items updates).length := by
  have hkeys : (st.applied.map (·.toApply.key)).length = st.applied.length := length_map _
  have hitems : ((items updates).map (·.1)).length = (items updates).length := length_map _
  rw [← hkeys, ← hitems]
  apply (subperm_of_subset h.distinct _).length_le
  intro key hkey
  obtain ⟨a, ha, rfl⟩ := mem_map.mp hkey
  obtain ⟨itemUpdates, hmem, _⟩ := (h.valid a ha).isMatch
  exact mem_map.mpr ⟨_, hmem, rfl⟩

end Applying

/-! ## The loop -/

/-- Each match is applied behind the one before it. -/
def MatchesForward (mode : UpdateMode) : Nat → List MatchToApply → Prop
  | _, [] => True
  | pos, m :: rest =>
    pos ≤ m.endIdxToInsert mode ∧ MatchesForward mode m.found.endIdx rest

/-- Every turn of the loop applies its matches behind the position that was reached. -/
def TurnsForward (kind : PromptKind α) (updates : MultiModalPromptUpdates) (prompt : List α) :
    Nat → Applying α → Prop
  | 0, _ => True
  | fuel + 1, st =>
    match findMatches kind updates prompt st.prevEndIdx st.outResult with
    | .ok (some mode, matchesToApply) =>
      MatchesForward mode st.prevEndIdx matchesToApply ∧
        match matchesToApply.foldlM (Applying.applyMatch kind prompt mode) st with
        | .ok st =>
          allItemsFound updates st.outResult = true ∨ TurnsForward kind updates prompt fuel st
        | .error _ => True
    | _ => True

theorem forward_edits {mode : UpdateMode} {pos : Nat} {new : List (AppliedUpdate α)}
    (hmodes : ∀ a ∈ new, a.mode = mode) :
    Forward pos (new.map (·.edit)) ↔ MatchesForward mode pos (new.map (·.toApply)) := by
  induction new generalizing pos with
  | nil => exact Iff.rfl
  | cons a rest ih =>
    rw [map_cons, map_cons, Forward, MatchesForward,
      ih fun b hb => hmodes b (mem_cons_of_mem a hb), ← hmodes a mem_cons_self]
    rfl

variable {kind : PromptKind α} {updates : MultiModalPromptUpdates} {prompt : List α}

theorem applyLoop_spec (h : st.Tracks kind updates prompt)
    (hfuel : (items updates).length < fuel + st.applied.length)
    {res : Option (Applying α)} (hloop : applyLoop kind updates prompt fuel st = .ok res) :
    ∃ st', res = some st' ∧ st'.Tracks kind updates prompt ∧
      (Forward 0 (st'.applied.map (·.edit)) ↔
        Forward 0 (st.applied.map (·.edit)) ∧ TurnsForward kind updates prompt fuel st) := by
  induction fuel generalizing st with
  | zero =>
    have hlength := h.length_applied
    omega
  | succ fuel ih =>
    simp only [applyLoop, bind_ok] at hloop
    obtain ⟨⟨mode, found⟩, hfind, hloop⟩ := hloop
    cases mode with
    | none =>
      obtain rfl := pure_ok.mp hloop
      refine ⟨st, rfl, h, ?_⟩
      unfold TurnsForward
      rw [hfind]
      exact (and_iff_left trivial).symm
    | some mode =>
      simp only [bind_ok] at hloop
      obtain ⟨st₁, hturn, hloop⟩ := hloop
      have hmatches := findMatches_spec hfind
      obtain ⟨h₁, new, happlied, htoApply, hmodes⟩ :=
        h.applyAll hmatches.distinct hmatches.unfound hmatches.isMatch hturn
      have hforward : Forward 0 (st₁.applied.map (·.edit)) ↔
          Forward 0 (st.applied.map (·.edit)) ∧
            MatchesForward mode st.prevEndIdx found := by
        rw [happlied, map_append, forward_append, ← h.prevEndIdx, forward_edits hmodes,
          htoApply]
      have hnew : 0 < new.length := by
        rw [← length_map (f := (·.toApply)), htoApply]
        exact length_pos_iff.mpr hmatches.nonempty
      have hlength : st₁.applied.length = st.applied.length + new.length := by
        rw [happlied, length_append]
      have hturns : TurnsForward kind updates prompt (fuel + 1) st ↔
          MatchesForward mode st.prevEndIdx found ∧
            (allItemsFound updates st₁.outResult = true ∨
              TurnsForward kind updates prompt fuel st₁) := by
        rw [TurnsForward, hfind]
        dsimp only
        rw [hturn]
      rw [hturns]
      split at hloop
      next hall =>
        obtain rfl := pure_ok.mp hloop
        refine ⟨st₁, rfl, h₁, ?_⟩
        rw [hforward]
        simp [hall]
      next hall =>
        obtain ⟨st', hres, h', hiff⟩ := ih h₁ (by omega) hloop
        refine ⟨st', hres, h', ?_⟩
        rw [hiff, hforward, and_assoc]
        simp [hall]

theorem applyLoop_ends : applyLoop kind updates prompt (maxTurns updates) {} ≠ .ok none := by
  intro hnone
  obtain ⟨st', hres, _⟩ := applyLoop_spec Applying.tracks_start (by
    show (items updates).length < (items updates).length + 1 + 0
    omega) hnone
  cases hres

/-! ## The output -/

/-- The output is the prompt with the edits of the applied updates made. -/
def Conserves (prompt out : List α) (st : Applying α) : Prop :=
  ∃ edits : List (Edit α), edits.Perm (st.applied.map (·.edit)) ∧ Spliced 0 prompt edits out

/-- Every match is applied behind the position that was reached. -/
def StepsForward (kind : PromptKind α) (updates : MultiModalPromptUpdates) (prompt : List α) :
    Prop :=
  allItemsFound updates (fun _ => none) = true ∨
    TurnsForward kind updates prompt (maxTurns updates) {}

theorem applyMatches_spec {outSeqs : List (List α)}
    (h : applyMatches kind updates prompt = .ok (outSeqs, st)) :
    st.Tracks kind updates prompt ∧ outSeqs = st.outSeqs ++ [prompt.drop st.prevEndIdx] ∧
      (Forward 0 (st.applied.map (·.edit)) ↔ StepsForward kind updates prompt) := by
  unfold applyMatches at h
  split at h
  next hall =>
    obtain ⟨rfl, rfl⟩ := Prod.mk.inj (pure_ok.mp h)
    exact ⟨Applying.tracks_start, rfl, fun _ => .inl hall, fun _ => trivial⟩
  next hall =>
    obtain ⟨res, hloop, h⟩ := bind_ok.mp h
    obtain ⟨st', rfl, htracks, hforward⟩ := applyLoop_spec Applying.tracks_start (by
      show (items updates).length < (items updates).length + 1 + 0
      omega) hloop
    obtain ⟨rfl, rfl⟩ := Prod.mk.inj (pure_ok.mp h)
    refine ⟨htracks, rfl, ?_⟩
    rw [hforward]
    constructor
    · intro hsteps
      exact .inr hsteps.2
    · intro hsteps
      exact ⟨trivial, hsteps.resolve_left hall⟩

/-- `_apply_matches` ends, updates no item twice, and puts the contents of the updates at
their targets; it keeps the rest of the prompt exactly when it steps forward. -/
theorem applyMatches_conserves_iff (kind : PromptKind α) (updates : MultiModalPromptUpdates)
    (prompt : List α) :
    applyLoop kind updates prompt (maxTurns updates) {} ≠ .ok none ∧
      ∀ outSeqs st, applyMatches kind updates prompt = .ok (outSeqs, st) →
        (st.applied.map (·.toApply.key)).Nodup ∧
        (∀ key idx, st.outResult key = some idx ↔
          ∃ a ∈ st.applied, a.toApply.key = key ∧ a.toApply.updateIdx = idx) ∧
        (∀ a ∈ st.applied, a.Valid kind updates prompt) ∧
        (Conserves prompt outSeqs.flatten st ↔ StepsForward kind updates prompt) := by
  refine ⟨applyLoop_ends, ?_⟩
  intro outSeqs st h
  obtain ⟨htracks, rfl, hforward⟩ := applyMatches_spec h
  refine ⟨htracks.distinct, htracks.outResult, htracks.valid, ?_⟩
  have hwithin : Within prompt.length (st.applied.map (·.edit)) := by
    intro e he
    obtain ⟨a, ha, rfl⟩ := mem_map.mp he
    exact (htracks.valid a ha).within
  have hout : (st.outSeqs ++ [prompt.drop st.prevEndIdx]).flatten =
      emit prompt 0 (st.applied.map (·.edit)) := by
    rw [flatten_append, flatten_singleton, htracks.outSeqs, htracks.prevEndIdx]
    rfl
  rw [hout, ← hforward]
  exact spliced_iff hwithin

/-- An image that replaces the token 2, and an audio that is inserted at the start. -/
def replaceThenStart : MultiModalPromptUpdates where
  entries :=
    [("image", [[⟨"image", 0, .replace, .seq (.tokens [2]), ⟨.tokens [9], none⟩⟩]]),
      ("audio", [[⟨"audio", 0, .insert, .atStart, ⟨.tokens [8], none⟩⟩]])]
  nodup := by decide

/-- The second turn goes back to the start: the output is 1, 9, 8, 1, 2, 3. -/
theorem not_applyMatches_conserves :
    ¬ ∀ (kind : PromptKind TokenId) (updates : MultiModalPromptUpdates) (prompt : List TokenId)
      (outSeqs : List (List TokenId)) (st : Applying TokenId),
      applyMatches kind updates prompt = .ok (outSeqs, st) →
        Conserves prompt outSeqs.flatten st := by
  intro h
  have hconserves := h (tokenPrompt none) replaceThenStart [1, 2, 3] _ _ rfl
  have hwithin : Within [(1 : TokenId), 2, 3].length
      [⟨1, 2, [(9 : TokenId)]⟩, ⟨0, 0, [8]⟩] := by
    unfold Within
    decide
  have hforward : Forward 0 [⟨1, 2, [(9 : TokenId)]⟩, ⟨0, 0, [8]⟩] :=
    (spliced_iff hwithin).mp hconserves
  exact absurd hforward.2.1 (by decide)

end VllmCore.MultiModal
