import VllmCore.OutputProcessor.Bookkeeping.Consistent
/-!
# Aborts, and runs of the output processor

An abort takes the named requests off the lists of their external ids first, and then takes
them one by one; a named parent takes its children with it.
-/

namespace VllmCore.OutputProcessor

open Function List Support

variable {σ L R : Type} {s t : OutputProcessor σ L} {pending excused : RequestId → Prop}

variable {id : RequestId} {r : RequestEntry σ L} {rest aborted : List RequestId}

theorem abortNamed_request (h : Families excused s) (hr : s.requestStates id = some r)
    (hparent : ∀ p, r.parentReq = some p → excused p ∨ r.hasQueue = true)
    (abortChildren : OutputProcessor σ L → List RequestId →
      Py (OutputProcessor σ L × List RequestId)) (aborted : List RequestId) :
    ∃ parents, abortNamed abortChildren (s, aborted) id =
        .ok ({ s.popState id with parents := parents }, aborted ++ [id]) ∧
      Families (fun q => excused q ∨
          (r.parentReq = some q ∧ (parents q).request.childRequests = []))
        { s.popState id with parents := parents } := by
  unfold abortNamed
  dsimp only
  rw [hr]
  dsimp only
  cases hqueue : r.hasQueue with
  | false =>
    refine ⟨s.parents, rfl, ?_⟩
    apply h.leave hr (fun _ _ => rfl)
    intro p hp
    rcases hparent p hp with hexcused | htrue
    · exact .inl ⟨rfl, hexcused⟩
    · rw [hqueue] at htrue
      cases htrue
  | true =>
    obtain ⟨output, state, parents, hmake, _, hnone, htold⟩ :=
      (s.popState id).makeRequestOutput_spec r [] (some .abort) none
    have htold : ∀ p, r.parentReq = some p → ∃ o : CompletionOutput L,
        o.index = r.state.requestIndex ∧ o.finishReason.isSome = true ∧
          parents = update s.parents p ((s.parents p).takeOutput o) := by
      intro p hp
      rcases htold p hp with ⟨hnot, _⟩ | ⟨o, hindex, hreason, hparents⟩
      · cases hnot
      · exact ⟨o, hindex, by rw [hreason]; rfl, hparents⟩
    refine ⟨parents, by rw [if_pos rfl, hmake]; rfl, ?_⟩
    apply h.leave hr
    · intro q hq
      cases hp : r.parentReq with
      | none =>
        rw [hnone hp]
        rfl
      | some p =>
        obtain ⟨o, _, _, hparents⟩ := htold p hp
        rw [hparents, update_of_ne]
        rintro rfl
        exact hq hp
    · intro p hp
      obtain ⟨o, hindex, hfinished, hparents⟩ := htold p hp
      exact .inr ⟨o, hindex, hfinished, by rw [hparents, update_self]⟩

theorem requestStates_popState (s : OutputProcessor σ L) (id j : RequestId) :
    (s.popState id).requestStates j = if j = id then none else s.requestStates j := by
  unfold popState
  dsimp only
  by_cases hj : j = id
  · subst hj
    rw [update_self, if_pos rfl]
  · rw [update_of_ne hj, if_neg hj]

theorem namedRequests_internal {ids : List RequestId} (h : Tracked pending s)
    (hnot : ∀ id ∈ ids, ∀ r, s.requestStates id = some r → ¬pending id)
    (hdistinct : ids.Pairwise fun a b => ∀ r, s.requestStates b = some r → a ≠ b) :
    ∃ external, s.namedRequests ids true = .ok ({ s with externalReqIds := external }, ids) ∧
      Tracked (fun j => pending j ∨ j ∈ ids) { s with externalReqIds := external } := by
  have hloop : ∃ external, ids.foldlM untrackNamed s =
        .ok { s with externalReqIds := external } ∧
      Tracked (fun j => pending j ∨ j ∈ ids) { s with externalReqIds := external } := by
    induction ids generalizing s pending with
    | nil =>
      refine ⟨s.externalReqIds, rfl, h.congr ?_⟩
      intro id r _
      simp
    | cons id rest ih =>
      rw [pairwise_cons] at hdistinct
      rw [foldlM_cons]
      cases hr : s.requestStates id with
      | none =>
        have hstep : s.untrackNamed id = .ok s := by
          unfold untrackNamed
          rw [hr]
          rfl
        rw [hstep, ok_bind]
        obtain ⟨external, hrest, htracked⟩ := ih h
          (fun j hj => hnot j (mem_cons_of_mem _ hj)) hdistinct.2
        refine ⟨external, hrest, htracked.congr ?_⟩
        intro j r hj
        have hne : j ≠ id := by
          rintro rfl
          rw [hr] at hj
          cases hj
        rw [mem_cons, or_iff_right hne]
      | some r =>
        obtain ⟨external, huntrack, htracked⟩ :=
          h.untrack hr (hnot id mem_cons_self r hr)
        have hstep : s.untrackNamed id = .ok { s with externalReqIds := external } := by
          unfold untrackNamed
          rw [hr]
          exact huntrack
        rw [hstep, ok_bind]
        obtain ⟨external', hrest, htracked'⟩ := ih htracked (by
          intro j hj r' hr'
          rintro (hp | heq)
          · exact hnot j (mem_cons_of_mem _ hj) r' hr' hp
          · exact hdistinct.1 j hj r' hr' heq.symm) hdistinct.2
        refine ⟨external', hrest, htracked'.congr ?_⟩
        intro j _ _
        rw [mem_cons, or_assoc]
  obtain ⟨external, hloop, htracked⟩ := hloop
  refine ⟨external, ?_, htracked⟩
  unfold namedRequests
  rw [if_pos rfl, hloop]
  rfl

theorem abortNamed_children (abortChildren : OutputProcessor σ L → List RequestId →
      Py (OutputProcessor σ L × List RequestId)) {ids aborted : List RequestId}
    (htracked : Tracked (fun j => pending j ∨ j ∈ ids) s)
    (hpending : ∀ j ∈ ids, ∀ r, s.requestStates j = some r → ¬pending j)
    (hfamilies : Families excused s) (hparents : ∀ j ∈ ids, j ∉ s.parentRequests)
    (hexcused : ∀ j ∈ ids, ∀ r p, s.requestStates j = some r → r.parentReq = some p → excused p) :
    ∃ t aborted', ids.foldlM (abortNamed abortChildren) (s, aborted) = .ok (t, aborted') ∧
      Tracked pending t ∧ Families excused t ∧ t.parentRequests = s.parentRequests ∧
      ∀ j, t.requestStates j = if j ∈ ids then none else s.requestStates j := by
  induction ids generalizing s aborted with
  | nil =>
    refine ⟨s, aborted, rfl, htracked.congr ?_, hfamilies, rfl, ?_⟩
    · intro id r _
      simp
    · intro j
      rw [if_neg not_mem_nil]
  | cons id rest ih =>
    rw [foldlM_cons]
    cases hr : s.requestStates id with
    | none =>
      have hstep : abortNamed abortChildren (s, aborted) id = .ok (s, aborted) := by
        unfold abortNamed
        dsimp only
        rw [hr]
        rw [if_neg (hparents id mem_cons_self)]
        rfl
      have hne : ∀ j r, s.requestStates j = some r → j ≠ id := by
        rintro j r hj rfl
        rw [hr] at hj
        cases hj
      rw [hstep, ok_bind]
      obtain ⟨t, aborted', hrest, htracked', hfamilies', hregistered, hstates⟩ :=
        @ih s aborted (htracked.congr (by
          intro j r hj
          rw [mem_cons, or_iff_right (hne j r hj)]))
          (fun j hj => hpending j (mem_cons_of_mem _ hj)) hfamilies
          (fun j hj => hparents j (mem_cons_of_mem _ hj))
          (fun j hj => hexcused j (mem_cons_of_mem _ hj))
      refine ⟨t, aborted', hrest, htracked', hfamilies', hregistered, ?_⟩
      intro j
      rw [hstates j]
      by_cases hj : j = id
      · rw [hj, hr, if_pos mem_cons_self]
        split <;> rfl
      · simp [hj]
    | some r =>
      obtain ⟨parents, hstep, hleft⟩ := abortNamed_request hfamilies hr
        (fun p hp => .inl (hexcused id mem_cons_self r p hr hp)) abortChildren aborted
      have hleft : Families excused { s.popState id with parents := parents } := by
        apply hleft.mono
        rintro q _ (hq | ⟨hq, _⟩)
        · exact hq
        · exact hexcused id mem_cons_self r q hr hq
      have hpop : Tracked (fun j => pending j ∨ j ∈ rest)
          { s.popState id with parents := parents } := by
        refine htracked.popState (.inr mem_cons_self) ?_ parents
        intro j hne
        rw [mem_cons, or_iff_right hne]
      have hsub : ∀ j r', ({ s.popState id with parents := parents } :
          OutputProcessor σ L).requestStates j = some r' → s.requestStates j = some r' := by
        intro j r' hj
        rw [requestStates_popState] at hj
        split at hj
        · cases hj
        · exact hj
      rw [hstep, ok_bind]
      obtain ⟨t, aborted', hrest, htracked', hfamilies', hregistered, hstates⟩ :=
        @ih { s.popState id with parents := parents } (aborted ++ [id]) hpop
          (fun j hj r' hr' => hpending j (mem_cons_of_mem _ hj) r' (hsub j r' hr')) hleft
          (fun j hj => hparents j (mem_cons_of_mem _ hj))
          (fun j hj r' p hr' => hexcused j (mem_cons_of_mem _ hj) r' p (hsub j r' hr'))
      refine ⟨t, aborted', hrest, htracked', hfamilies', hregistered, ?_⟩
      intro j
      rw [hstates j]
      have hj := requestStates_popState s id j
      rw [hj]
      by_cases hj : j = id
      · rw [if_pos hj, hj, if_pos mem_cons_self]
        split <;> rfl
      · simp [hj]

/-! ## All named requests -/

/-- No request is named again, and none after its parent. -/
def Orderly (s : OutputProcessor σ L) (ids : List RequestId) : Prop :=
  ids.Pairwise fun a b => ∀ r, s.requestStates b = some r → a ≠ b ∧ r.parentReq ≠ some a

/-- A child is named together with its parent, or has a queue and a sibling that is not
named. -/
def Spares (s : OutputProcessor σ L) (ids : List RequestId) : Prop :=
  ∀ id ∈ ids, ∀ r p, s.requestStates id = some r → r.parentReq = some p →
    p ∈ ids ∨ (r.hasQueue = true ∧
      ∃ id' r', s.requestStates id' = some r' ∧ r'.parentReq = some p ∧ id' ∉ ids)

theorem Orderly.tail (h : Orderly s (id :: rest))
    (hsub : ∀ j r, t.requestStates j = some r → s.requestStates j = some r) :
    Orderly t rest := by
  have hrest := (pairwise_cons.mp h).2
  apply hrest.imp
  intro a b hab r hr
  exact hab r (hsub b r hr)

theorem Spares.tail (h : Spares s (id :: rest))
    (hsub : ∀ j r, t.requestStates j = some r → s.requestStates j = some r)
    (hkeep : ∀ j ∈ rest, ∀ r p, t.requestStates j = some r → r.parentReq = some p → p ≠ id ∧
      ∀ j' r', s.requestStates j' = some r' → r'.parentReq = some p → j' ≠ id →
        t.requestStates j' = some r') : Spares t rest := by
  intro j hj r p hr hp
  obtain ⟨hne, hsiblings⟩ := hkeep j hj r p hr hp
  rcases h j (mem_cons_of_mem _ hj) r p (hsub j r hr) hp with hin | ⟨hqueue, j', r', hr', hp', hnot⟩
  · exact .inl ((mem_cons.mp hin).resolve_left hne)
  · rw [mem_cons, not_or] at hnot
    exact .inr ⟨hqueue, j', r', hsiblings j' r' hr' hp' hnot.1, hp', hnot.2⟩

theorem abortNamed_parent (depth : Nat) {id : RequestId} {rest aborted : List RequestId}
    (htracked : Tracked (· ∈ id :: rest) s) (hfamilies : Families (· ∈ id :: rest) s)
    (horder : Orderly s (id :: rest)) (hnone : s.requestStates id = none)
    (hin : id ∈ s.parentRequests) :
    ∃ t aborted', abortNamed (fun s ids => abortRequests (depth + 1) s ids true) (s, aborted) id =
        .ok (t, aborted') ∧ Tracked (· ∈ rest) t ∧ Families (· ∈ rest) t ∧
      (∀ j r, t.requestStates j = some r → s.requestStates j = some r ∧ r.parentReq ≠ some id) ∧
      ∀ j r, s.requestStates j = some r → r.parentReq ≠ some id → t.requestStates j = some r := by
  have hown := hfamilies.own id hin
  have hne : ∀ j r, s.requestStates j = some r → j ≠ id := by
    rintro j r hj rfl
    rw [hnone] at hj
    cases hj
  have hnot : ∀ j ∈ (s.parents id).request.childRequests.map (childReqId · id), ∀ r,
      s.requestStates j = some r → j ∉ id :: rest := by
    intro j hj r hr hmem
    obtain ⟨i, hi, rfl⟩ := mem_map.mp hj
    rcases mem_cons.mp hmem with heq | hmem
    · exact hne _ r hr heq
    · exact ((pairwise_cons.mp horder).1 _ hmem r hr).2 (hown i hi r hr).1
  have hdistinct : ((s.parents id).request.childRequests.map (childReqId · id)).Pairwise
      fun a b => ∀ r, s.requestStates b = some r → a ≠ b := by
    rw [pairwise_map]
    apply (hfamilies.account id).nodup.imp_of_mem
    intro i j hi hj hij r hr heq
    have hri := (hown i hi r (heq ▸ hr)).2
    have hrj := (hown j hj r hr).2
    exact hij (hri.symm.trans hrj)
  -- Whether there are children or not, they are gone before the parent is dropped.
  have hchildren : ∃ t childReqs,
      (if (s.parents id).request.childRequests = [] then pure (s, [])
        else abortRequests (depth + 1) s
          ((s.parents id).request.childRequests.map (childReqId · id)) true) =
        Except.ok (t, childReqs) ∧
      Tracked (· ∈ id :: rest) t ∧ Families (· ∈ id :: rest) t ∧
      ∀ j, t.requestStates j =
        if j ∈ (s.parents id).request.childRequests.map (childReqId · id) then none
        else s.requestStates j := by
    by_cases hempty : (s.parents id).request.childRequests = []
    · refine ⟨s, [], by rw [if_pos hempty]; rfl, htracked, hfamilies, ?_⟩
      intro j
      rw [hempty, map_nil, if_neg not_mem_nil]
    · obtain ⟨external, hnamed, htracked'⟩ := namedRequests_internal htracked hnot hdistinct
      obtain ⟨t, aborted', hloop, ht, hf, _, hstates⟩ :=
        @abortNamed_children σ L { s with externalReqIds := external } (· ∈ id :: rest)
          (· ∈ id :: rest) (fun s ids => abortRequests depth s ids true) _ [] htracked' hnot
          (hfamilies.external external) (by
            intro j hj
            obtain ⟨i, hi, rfl⟩ := mem_map.mp hj
            exact hfamilies.dead id hin i hi) (by
            intro j hj r p hr hp
            obtain ⟨i, hi, rfl⟩ := mem_map.mp hj
            rw [(hown i hi r hr).1] at hp
            rw [← Option.some.inj hp]
            exact mem_cons_self)
      refine ⟨t, aborted', ?_, ht, hf, hstates⟩
      rw [if_neg hempty, abortRequests, hnamed, ok_bind]
      exact hloop
  obtain ⟨t, childReqs, hrun, ht, hf, hstates⟩ := hchildren
  have hgone : ∀ j r, t.requestStates j = some r →
      s.requestStates j = some r ∧ r.parentReq ≠ some id := by
    intro j r hr
    rw [hstates j] at hr
    split at hr
    · cases hr
    next hmem =>
      refine ⟨hr, ?_⟩
      intro hp
      obtain ⟨_, hj, hi, _⟩ := hfamilies.child j r id hr hp
      apply hmem
      rw [hj]
      exact mem_map_of_mem hi
  refine ⟨t.popParent id, aborted ++ childReqs, ?_, ?_, ?_, hgone, ?_⟩
  · unfold abortNamed
    dsimp only
    rw [hnone]
    rw [if_pos hin]
    by_cases hempty : (s.parents id).request.childRequests = []
    · rw [if_pos hempty] at hrun ⊢
      rw [hrun, ok_bind]
      rfl
    · rw [if_neg hempty] at hrun ⊢
      rw [hrun, ok_bind]
      rfl
  · have hcongr : Tracked (· ∈ rest) t := ht.congr (by
      intro j r hr
      rw [mem_cons, or_iff_right (hne j r (hgone j r hr).1)])
    exact ⟨hcongr.nonempty, hcongr.nodup, hcongr.mem⟩
  · apply (hf.popParent fun j r hr => (hgone j r hr).2).mono
    rintro q _ ⟨hq, hqne⟩
    exact (mem_cons.mp hq).resolve_left hqne
  · intro j r hr hp
    have ht : t.requestStates j = some r := by
      rw [hstates j, if_neg]
      · exact hr
      · intro hj
        obtain ⟨i, hi, rfl⟩ := mem_map.mp hj
        exact hp (hown i hi r hr).1
    exact ht

theorem abortNamed_named (abortChildren : OutputProcessor σ L → List RequestId →
      Py (OutputProcessor σ L × List RequestId)) (htracked : Tracked (· ∈ id :: rest) s)
    (hfamilies : Families (· ∈ id :: rest) s) (hspares : Spares s (id :: rest))
    (hr : s.requestStates id = some r) :
    ∃ t aborted', abortNamed abortChildren (s, aborted) id = .ok (t, aborted') ∧
      Tracked (· ∈ rest) t ∧ Families (· ∈ rest) t ∧
      ∀ j, t.requestStates j = if j = id then none else s.requestStates j := by
  have hspare := hspares id mem_cons_self r
  obtain ⟨parents, hstep, hleft⟩ := abortNamed_request hfamilies hr (by
    intro p hp
    rcases hspare p hr hp with hin | ⟨hqueue, _⟩
    · exact .inl hin
    · exact .inr hqueue) abortChildren aborted
  refine ⟨_, _, hstep, ?_, ?_, requestStates_popState s id⟩
  · refine htracked.popState mem_cons_self ?_ parents
    intro j hne
    rw [mem_cons, or_iff_right hne]
  · have hregistered : ∀ q ∈ s.parentRequests, q ≠ id := by
      rintro q hq rfl
      exact hfamilies.apart q r hr hq
    apply hleft.mono
    rintro q hq (hin | ⟨hp, hempty⟩)
    · exact (mem_cons.mp hin).resolve_left (hregistered q hq)
    · rcases hspare q hr hp with hin | ⟨_, j', r', hr', hp', hnot⟩
      · exact (mem_cons.mp hin).resolve_left (hregistered q hq)
      · -- The sibling that is not named is still a child of the parent.
        rw [mem_cons, not_or] at hnot
        have hkept : ({ s.popState id with parents := parents } :
            OutputProcessor σ L).requestStates j' = some r' := by
          have h := requestStates_popState s id j'
          rw [if_neg hnot.1] at h
          exact h.trans hr'
        have hmem := (hleft.child j' r' q hkept hp').2.2.1
        rw [hempty] at hmem
        cases hmem

theorem abortNamed_all (depth : Nat) {ids : List RequestId}
    (htracked : Tracked (· ∈ ids) s) (hfamilies : Families (· ∈ ids) s)
    (horder : Orderly s ids) (hspares : Spares s ids) :
    ∃ t aborted', ids.foldlM (abortNamed fun s ids => abortRequests (depth + 1) s ids true)
        (s, aborted) = .ok (t, aborted') ∧ Maintained t := by
  induction ids generalizing s aborted with
  | nil =>
    refine ⟨s, aborted, rfl, htracked.congr ?_, hfamilies.mono ?_⟩
    · intro id r _
      exact ⟨fun hf => hf.elim, fun hmem => absurd hmem not_mem_nil⟩
    · intro p _ hmem
      cases hmem
  | cons id rest ih =>
    rw [foldlM_cons]
    cases hr : s.requestStates id with
    | some r =>
      obtain ⟨t, aborted', hstep, ht, hf, hstates⟩ := abortNamed_named
        (fun s ids => abortRequests (depth + 1) s ids true) htracked hfamilies hspares hr
      have hsub : ∀ j r', t.requestStates j = some r' → s.requestStates j = some r' := by
        intro j r' hj
        rw [hstates j] at hj
        split at hj
        · cases hj
        · exact hj
      rw [hstep, ok_bind]
      apply ih ht hf (horder.tail hsub)
      apply hspares.tail hsub
      intro j _ r' p hr' hp
      constructor
      · rintro rfl
        exact hfamilies.apart p r hr (hfamilies.child j r' p (hsub j r' hr') hp).1
      · intro j' r'' hr'' _ hne
        rw [hstates j', if_neg hne]
        exact hr''
    | none =>
      have hne : ∀ j r, s.requestStates j = some r → j ≠ id := by
        rintro j r hj rfl
        rw [hr] at hj
        cases hj
      by_cases hin : id ∈ s.parentRequests
      · obtain ⟨t, aborted', hstep, ht, hf, hgone, hkept⟩ :=
          @abortNamed_parent σ L s depth id rest aborted htracked hfamilies horder hr hin
        have hsub := fun j r hj => (hgone j r hj).1
        rw [hstep, ok_bind]
        apply ih ht hf (horder.tail hsub)
        apply hspares.tail hsub
        intro j _ r p hj hp
        have hpne : p ≠ id := by
          rintro rfl
          exact (hgone j r hj).2 hp
        refine ⟨hpne, ?_⟩
        intro j' r' hr' hp' _
        apply hkept j' r' hr'
        rw [hp', ne_eq, Option.some.injEq]
        exact hpne
      · have hstep : abortNamed (fun s ids => abortRequests (depth + 1) s ids true)
            (s, aborted) id = .ok (s, aborted) := by
          unfold abortNamed
          dsimp only
          rw [hr]
          rw [if_neg hin]
          rfl
        rw [hstep, ok_bind]
        refine ih (htracked.congr ?_) (hfamilies.mono ?_) (horder.tail fun _ _ h => h)
          (hspares.tail (fun _ _ h => h) ?_)
        · intro j r hj
          rw [mem_cons, or_iff_right (hne j r hj)]
        · intro p hp hmem
          apply (mem_cons.mp hmem).resolve_left
          rintro rfl
          exact hin hp
        · intro j _ r p hj hp
          refine ⟨?_, fun j' r' hr' _ _ => hr'⟩
          rintro rfl
          exact hin (hfamilies.child j r p hj hp).1

/-! ## Calls -/

def namedIds (s : OutputProcessor σ L) (requestIds : List RequestId) (internal : Bool) :
    List RequestId :=
  if internal then requestIds
  else requestIds.flatMap fun requestId => (s.externalReqIds requestId).getD []

theorem foldl_external (s : OutputProcessor σ L) {requestIds ids : List RequestId}
    {external : RequestId → Option (List RequestId)} (hlists : ∀ e, ((external e).getD []).Nodup)
    (hapart : ∀ e e' j, j ∈ (external e).getD [] → j ∈ (external e').getD [] → e = e')
    (hids : ids.Nodup) (hnew : ∀ j ∈ ids, ∀ e, j ∉ (external e).getD []) :
    ∃ external' ids', requestIds.foldl
        (fun (acc : OutputProcessor σ L × List RequestId) requestId =>
          ({ acc.1 with externalReqIds := update acc.1.externalReqIds requestId none },
            acc.2 ++ (acc.1.externalReqIds requestId).getD []))
        ({ s with externalReqIds := external }, ids) =
          ({ s with externalReqIds := external' }, ids') ∧
      (∀ e, external' e = if e ∈ requestIds then none else external e) ∧ ids'.Nodup ∧
      ∀ j, j ∈ ids' ↔ j ∈ ids ∨ ∃ e ∈ requestIds, j ∈ (external e).getD [] := by
  induction requestIds generalizing external ids with
  | nil =>
    refine ⟨external, ids, rfl, ?_, hids, ?_⟩
    · intro e
      rw [if_neg not_mem_nil]
    · intro j
      simp
  | cons requestId rest ih =>
    have hupdate : ∀ e j, j ∈ (update external requestId none e).getD [] ↔
        e ≠ requestId ∧ j ∈ (external e).getD [] := by
      intro e j
      by_cases he : e = requestId
      · subst he
        simp
      · rw [update_of_ne he]
        simp [he]
    obtain ⟨external', ids', hfold, hexternal, hnodup, hmem⟩ :=
      @ih (ids ++ (external requestId).getD []) (update external requestId none) (by
        intro e
        by_cases he : e = requestId
        · subst he
          rw [update_self]
          exact nodup_nil
        · rw [update_of_ne he]
          exact hlists e) (by
        intro e e' j hj hj'
        exact hapart e e' j ((hupdate e j).mp hj).2 ((hupdate e' j).mp hj').2) (by
        exact nodup_append.mpr ⟨hids, hlists requestId, by
          intro a ha b hb
          rintro rfl
          exact hnew a ha requestId hb⟩) (by
        intro j hj e he
        obtain ⟨hne, he⟩ := (hupdate e j).mp he
        rcases mem_append.mp hj with hj | hj
        · exact hnew j hj e he
        · exact hne (hapart e requestId j he hj))
    refine ⟨external', ids', hfold, ?_, hnodup, ?_⟩
    · intro e
      rw [hexternal e]
      by_cases he : e = requestId
      · subst he
        rw [update_self, if_pos mem_cons_self]
        split <;> rfl
      · rw [update_of_ne he]
        simp [he]
    · intro j
      rw [hmem j, mem_append]
      constructor
      · rintro ((hj | hj) | ⟨e, he, hj⟩)
        · exact .inl hj
        · exact .inr ⟨requestId, mem_cons_self, hj⟩
        · exact .inr ⟨e, mem_cons_of_mem _ he, ((hupdate e j).mp hj).2⟩
      · rintro (hj | ⟨e, he, hj⟩)
        · exact .inl (.inl hj)
        · by_cases heq : e = requestId
          · exact .inl (.inr (heq ▸ hj))
          · exact .inr ⟨e, (mem_cons.mp he).resolve_left heq, (hupdate e j).mpr ⟨heq, hj⟩⟩

theorem namedRequests_external (h : Maintained s) (requestIds : List RequestId) :
    ∃ external ids, s.namedRequests requestIds false =
        .ok ({ s with externalReqIds := external }, ids) ∧
      ids.Nodup ∧ (∀ j, j ∈ ids ↔ j ∈ s.namedIds requestIds false) ∧
      (∀ j ∈ ids, ∃ r, s.requestStates j = some r) ∧
      Tracked (· ∈ ids) { s with externalReqIds := external } := by
  have hof : ∀ e j, j ∈ (s.externalReqIds e).getD [] →
      ∃ r, s.requestStates j = some r ∧ r.externalReqId = e :=
    fun e j hj => ((h.tracked.mem e j).mp hj).2
  obtain ⟨external, ids, hfold, hexternal, hnodup, hmem⟩ :=
    @foldl_external σ L s requestIds [] s.externalReqIds h.tracked.nodup (by
      intro e e' j hj hj'
      obtain ⟨r, hr, he⟩ := hof e j hj
      obtain ⟨r', hr', he'⟩ := hof e' j hj'
      rw [hr] at hr'
      rw [← he, ← he', Option.some.inj hr']) nodup_nil (fun j hj => absurd hj not_mem_nil)
  have hmem' : ∀ j, j ∈ ids ↔ ∃ e ∈ requestIds, j ∈ (s.externalReqIds e).getD [] := by
    intro j
    rw [hmem j, or_iff_right not_mem_nil]
  refine ⟨external, ids, ?_, hnodup, ?_, ?_, ?_⟩
  · unfold namedRequests
    exact congrArg Except.ok hfold
  · intro j
    rw [hmem' j, namedIds, if_neg Bool.false_ne_true, mem_flatMap]
  · intro j hj
    obtain ⟨e, _, hj⟩ := (hmem' j).mp hj
    obtain ⟨r, hr, _⟩ := hof e j hj
    exact ⟨r, hr⟩
  · constructor
    · intro e
      dsimp only
      rw [hexternal e]
      split
      · intro hnone
        cases hnone
      · exact h.tracked.nonempty e
    · intro e
      dsimp only
      rw [hexternal e]
      split
      · exact nodup_nil
      · exact h.tracked.nodup e
    · intro e j
      dsimp only
      rw [hexternal e, hmem' j]
      split
      next he =>
        constructor
        · intro hj
          cases hj
        · rintro ⟨hnot, r, hr, hre⟩
          exact absurd ⟨e, he, (h.tracked.mem e j).mpr ⟨fun hf => hf, r, hr, hre⟩⟩ hnot
      next he =>
        rw [h.tracked.mem e j]
        constructor
        · rintro ⟨_, r, hr, hre⟩
          refine ⟨?_, r, hr, hre⟩
          rintro ⟨e', he', hj⟩
          obtain ⟨r', hr', hre'⟩ := hof e' j hj
          rw [hr] at hr'
          apply he
          rw [← hre, Option.some.inj hr', hre']
          exact he'
        · rintro ⟨_, hex⟩
          exact ⟨fun hf => hf, hex⟩

theorem Maintained.abortRequests (h : Maintained s) {requestIds : List RequestId}
    {internal : Bool} (horder : internal = true → Orderly s requestIds)
    (hspares : Spares s (s.namedIds requestIds internal)) (depth : Nat) :
    ∃ t aborted, OutputProcessor.abortRequests (depth + 2) s requestIds internal =
        .ok (t, aborted) ∧ Maintained t := by
  rw [OutputProcessor.abortRequests]
  cases internal with
  | true =>
    have horder := horder rfl
    obtain ⟨external, hnamed, htracked⟩ :=
      @namedRequests_internal σ L s (fun _ => False) requestIds h.tracked (fun _ _ _ _ hf => hf)
        (horder.imp fun hab r hr => (hab r hr).1)
    rw [hnamed, ok_bind]
    apply abortNamed_all depth
    · exact htracked.congr fun j _ _ => by rw [false_or]
    · exact (h.families.external external).mono fun _ _ hf => hf.elim
    · exact horder
    · exact hspares
  | false =>
    obtain ⟨external, ids, hnamed, hnodup, hmem, hstates, htracked⟩ :=
      namedRequests_external h requestIds
    rw [hnamed, ok_bind]
    apply abortNamed_all depth htracked
    · exact (h.families.external external).mono fun _ _ hf => hf.elim
    · apply hnodup.imp_of_mem
      intro a b ha _ hab r hr
      refine ⟨hab, ?_⟩
      intro hp
      obtain ⟨r', hr'⟩ := hstates a ha
      exact h.families.apart a r' hr' (h.families.child b r a hr hp).1
    · intro j hj r p hr hp
      rcases hspares j ((hmem j).mp hj) r p hr hp with hin | ⟨hqueue, j', r', hr', hp', hnot⟩
      · exact .inl ((hmem p).mpr hin)
      · exact .inr ⟨hqueue, j', r', hr', hp', fun hj' => hnot ((hmem j').mp hj')⟩

/-- Ids are not used for two things at once, children are made for a parent that waits for
them, and aborts are orderly and spare siblings. -/
def Sound (s : OutputProcessor σ L) : Op σ L R → Prop
  | .newParent p _ _ => p ∉ s.parentRequests
  | .addChild p request =>
    s.requestStates (childReqId (s.parents p).numChildren p) = none ∧
      childReqId (s.parents p).numChildren p ∉ s.parentRequests ∧
      s.requestStates p = none ∧
      ((s.parents p).numChildren = 0 ∨ p ∈ s.parentRequests) ∧ request.resumable = false
  | .addRequest id _ =>
    id ∉ s.parentRequests ∧ ∀ r, s.requestStates id = some r → r.parentReq = none
  | .processOutputs _ => True
  | .abortRequests requestIds internal =>
    (internal = true → Orderly s requestIds) ∧ Spares s (s.namedIds requestIds internal)

theorem Maintained.run {position : List L → R → L} (h : Maintained s) {op : Op σ L R}
    (hsound : s.Sound op) :
    (∀ t, s.run position op = .ok t → Maintained t) ∧
      ((∀ outputs, op ≠ .processOutputs outputs) → ∃ t, s.run position op = .ok t) := by
  have hreturns : (∃ t, s.run position op = .ok t ∧ Maintained t) →
      (∀ t, s.run position op = .ok t → Maintained t) ∧
        ((∀ outputs, op ≠ .processOutputs outputs) → ∃ t, s.run position op = .ok t) := by
    rintro ⟨t, hrun, ht⟩
    refine ⟨?_, fun _ => ⟨t, hrun⟩⟩
    intro t' hrun'
    rw [hrun] at hrun'
    rw [← Except.ok.inj hrun']
    exact ht
  cases op with
  | newParent p outputKind n => exact hreturns ⟨_, rfl, h.newParent hsound outputKind n⟩
  | addChild p request =>
    obtain ⟨hnew, hregistered, hparent, hleft, hsession⟩ := hsound
    exact hreturns (h.addChild hnew hregistered hparent hleft hsession)
  | addRequest id request =>
    exact hreturns (h.addRequest hsound.1 hsound.2)
  | processOutputs outputs =>
    refine ⟨?_, fun hne => absurd rfl (hne outputs)⟩
    intro t hrun
    unfold OutputProcessor.run at hrun
    rw [bind_ok] at hrun
    obtain ⟨⟨t', outputs'⟩, hprocess, ht⟩ := hrun
    rw [pure_ok] at ht
    rw [← ht]
    exact h.processOutputs hprocess
  | abortRequests requestIds internal =>
    obtain ⟨t, aborted, hrun, ht⟩ := h.abortRequests hsound.1 hsound.2 998
    refine hreturns ⟨t, ?_, ht⟩
    have hlimit : recursionLimit = 998 + 2 := rfl
    unfold OutputProcessor.run
    dsimp only
    rw [hlimit, hrun]
    rfl

/-! ## Runs -/

def start : OutputProcessor σ L := {}

theorem maintained_start : Maintained (start : OutputProcessor σ L) := by
  refine ⟨⟨?_, ?_, ?_⟩, ⟨?_, ?_, ?_, ?_, ?_, ?_⟩⟩
  · intro e h
    cases h
  · exact fun _ => nodup_nil
  · intro e id
    constructor
    · intro h
      cases h
    · rintro ⟨_, r, hr, _⟩
      cases hr
  · intro id r hr
    cases hr
  · intro id r p hr
    cases hr
  · exact fun p hp => absurd hp not_mem_nil
  · exact fun p hp => absurd hp not_mem_nil
  · exact fun p hp => absurd hp not_mem_nil
  · exact fun _ => ParentEntry.account_new .delta 0

/-- Every external id has the requests with that id, a parent is registered while it has a
child, it waits for the children that are there, and no child's finished output was
delivered twice. -/
structure MapsAgree (s : OutputProcessor σ L) : Prop where
  external : ∀ e, s.externalReqIds e ≠ some [] ∧ ((s.externalReqIds e).getD []).Nodup ∧
    ∀ id, id ∈ (s.externalReqIds e).getD [] ↔
      ∃ r, s.requestStates id = some r ∧ r.externalReqId = e
  registered : ∀ p, p ∈ s.parentRequests ↔
    ∃ id r, s.requestStates id = some r ∧ r.parentReq = some p
  children : ∀ p ∈ s.parentRequests, ∀ id,
    (∃ i ∈ (s.parents p).request.childRequests, id = childReqId i p) ↔
      ∃ r, s.requestStates id = some r ∧ r.parentReq = some p
  delivered : ∀ p, (s.parents p).delivered.Nodup

theorem Maintained.mapsAgree (h : Maintained s) : s.MapsAgree := by
  have hchild : ∀ p ∈ s.parentRequests, ∀ i ∈ (s.parents p).request.childRequests,
      ∃ r, s.requestStates (childReqId i p) = some r ∧ r.parentReq = some p := by
    intro p hp i hi
    obtain ⟨r, hr⟩ := (h.families.alive p hp fun hf => hf).2 i hi
    exact ⟨r, hr, (h.families.own p hp i hi r hr).1⟩
  constructor
  · intro e
    refine ⟨h.tracked.nonempty e, h.tracked.nodup e, ?_⟩
    intro id
    rw [h.tracked.mem e id]
    exact and_iff_right fun hf => hf
  · intro p
    constructor
    · intro hp
      obtain ⟨i, hi⟩ := exists_mem_of_ne_nil _ (h.families.alive p hp fun hf => hf).1
      exact ⟨_, hchild p hp i hi⟩
    · rintro ⟨id, r, hr, hp⟩
      exact (h.families.child id r p hr hp).1
  · intro p hp id
    constructor
    · rintro ⟨i, hi, rfl⟩
      exact hchild p hp i hi
    · rintro ⟨r, hr, hparent⟩
      obtain ⟨_, hid, hmem, _⟩ := h.families.child id r p hr hparent
      exact ⟨_, hmem, hid⟩
  · exact fun p => (h.families.account p).deliveredNodup

/-- In every run of sound calls the maps agree after each call, and calls that do not
process outputs return. -/
theorem maps_agree (position : List L → R → L) (s : OutputProcessor σ L)
    (h : Reachable (fun s => s = start)
      (OpStep (fun (s : OutputProcessor σ L) (op : Op σ L R) => s.Sound op) (run position)) s) :
    s.MapsAgree ∧ ∀ op : Op σ L R, s.Sound op → (∀ outputs, op ≠ .processOutputs outputs) →
      ∃ t, s.run position op = .ok t := by
  have hmaintained : Maintained s := by
    apply h.invariant
    · intro s hs
      rw [hs]
      exact maintained_start
    · intro s t hs hstep
      obtain ⟨op, hsound, hrun⟩ := hstep
      exact (hs.run hsound).1 t hrun
  exact ⟨hmaintained.mapsAgree, fun op hsound => (hmaintained.run hsound).2⟩

def plainRequest : NewRequest Unit Nat where
  externalReqId := ['e']
  outputKind := .delta
  detokenizer := .withoutText []
  logprobs := none
  streamInterval := 1
  resumable := false
  hasQueue := false

def keepRow (_ : List Nat) (row : Nat) : Nat := row

/-- Two children are made and aborted with their parent. -/
theorem maps_agree_twoChildren : ∃ s : OutputProcessor Unit Nat,
    Reachable (fun s => s = start)
      (OpStep (fun (s : OutputProcessor Unit Nat) (op : Op Unit Nat Nat) => s.Sound op)
        (run keepRow)) s ∧
      s.requestStates (childReqId 0 ['p']) = none ∧ s.MapsAgree := by
  obtain ⟨s₁, hrun₁, h₁⟩ := okWith_iff.mp (by decide +kernel :
    okWith ((start : OutputProcessor Unit Nat).run keepRow (.newParent ['p'] .delta 2)) (fun s₁ =>
      (s₁.requestStates (childReqId (s₁.parents ['p']).numChildren ['p'])).isNone &&
      decide (childReqId (s₁.parents ['p']).numChildren ['p'] ∉ s₁.parentRequests) &&
      (s₁.requestStates ['p']).isNone && decide ((s₁.parents ['p']).numChildren = 0) &&
      okWith (s₁.run keepRow (.addChild ['p'] plainRequest)) (fun s₂ =>
        (s₂.requestStates (childReqId (s₂.parents ['p']).numChildren ['p'])).isNone &&
        decide (childReqId (s₂.parents ['p']).numChildren ['p'] ∉ s₂.parentRequests) &&
        (s₂.requestStates ['p']).isNone && decide (['p'] ∈ s₂.parentRequests) &&
        okWith (s₂.run keepRow (.addChild ['p'] plainRequest)) (fun s₃ =>
          (s₃.requestStates ['p']).isNone &&
          okWith (s₃.run keepRow (.abortRequests [['p']] true)) (fun s₄ =>
            (s₄.requestStates (childReqId 0 ['p'])).isNone)))) = true)
  simp only [Bool.and_eq_true, Option.isNone_iff_eq_none, decide_eq_true_eq] at h₁
  obtain ⟨⟨⟨⟨hnew₁, hreg₁⟩, hp₁⟩, hzero₁⟩, h₁⟩ := h₁
  obtain ⟨s₂, hrun₂, h₂⟩ := okWith_iff.mp h₁
  simp only [Bool.and_eq_true, Option.isNone_iff_eq_none, decide_eq_true_eq] at h₂
  obtain ⟨⟨⟨⟨hnew₂, hreg₂⟩, hp₂⟩, hin₂⟩, h₂⟩ := h₂
  obtain ⟨s₃, hrun₃, h₃⟩ := okWith_iff.mp h₂
  simp only [Bool.and_eq_true, Option.isNone_iff_eq_none] at h₃
  obtain ⟨hp₃, h₃⟩ := h₃
  obtain ⟨s₄, hrun₄, h₄⟩ := okWith_iff.mp h₃
  rw [Option.isNone_iff_eq_none] at h₄
  have hstart : Reachable (fun s => s = start) (OpStep
      (fun (s : OutputProcessor Unit Nat) (op : Op Unit Nat Nat) => s.Sound op) (run keepRow))
      start := .start rfl
  have hreach₁ := hstart.next ⟨.newParent ['p'] .delta 2, not_mem_nil, hrun₁⟩
  have hreach₂ := hreach₁.next ⟨.addChild ['p'] plainRequest,
    ⟨hnew₁, hreg₁, hp₁, .inl hzero₁, rfl⟩, hrun₂⟩
  have hreach₃ := hreach₂.next ⟨.addChild ['p'] plainRequest,
    ⟨hnew₂, hreg₂, hp₂, .inr hin₂, rfl⟩, hrun₃⟩
  have hspares : s₃.Spares [['p']] := by
    intro id hid r q hr
    rw [mem_singleton.mp hid, hp₃] at hr
    cases hr
  have hreach₄ := hreach₃.next ⟨.abortRequests [['p']] true,
    ⟨fun _ => pairwise_singleton _ _, hspares⟩, hrun₄⟩
  exact ⟨s₄, hreach₄, h₄, (maps_agree keepRow s₄ hreach₄).1⟩

/-- Two children without a queue are made and aborted by their external id. -/
def abortExternal : List (Op Unit Nat Nat) :=
  [.newParent ['p'] .delta 2, .addChild ['p'] plainRequest, .addChild ['p'] plainRequest,
   .abortRequests [['e']] false]

/-- The parent stays, and waits for children that are gone. -/
theorem not_maps_agree : ∃ s : OutputProcessor Unit Nat,
    Reachable (fun s => s = start) (OpStep (fun _ (_ : Op Unit Nat Nat) => True) (run keepRow)) s ∧
      ['p'] ∈ s.parentRequests ∧ 0 ∈ (s.parents ['p']).request.childRequests ∧
      s.requestStates (childReqId 0 ['p']) = none ∧ ¬s.MapsAgree := by
  obtain ⟨s, hrun, hs⟩ := okWith_iff.mp (by decide +kernel :
    okWith (runOps (run keepRow) (start : OutputProcessor Unit Nat) abortExternal) (fun s =>
      decide (['p'] ∈ s.parentRequests ∧ 0 ∈ (s.parents ['p']).request.childRequests) &&
        (s.requestStates (childReqId 0 ['p'])).isNone) = true)
  rw [Bool.and_eq_true, decide_eq_true_eq, Option.isNone_iff_eq_none] at hs
  obtain ⟨⟨hin, hchild⟩, hgone⟩ := hs
  have hstart : Reachable (fun s => s = start) (OpStep
      (fun (_ : OutputProcessor Unit Nat) (_ : Op Unit Nat Nat) => True) (run keepRow)) start :=
    .start rfl
  refine ⟨s, hstart.runOps_of_forall (fun _ _ _ => trivial) hrun, hin, hchild, hgone, ?_⟩
  intro hagree
  obtain ⟨r, hr, _⟩ := (hagree.children _ hin (childReqId 0 ['p'])).mp ⟨0, hchild, rfl⟩
  rw [hgone] at hr
  cases hr

end VllmCore.OutputProcessor
