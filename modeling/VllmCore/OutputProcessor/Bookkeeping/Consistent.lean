import VllmCore.OutputProcessor.Bookkeeping
/-!
# The maps of the output processor agree

Only building an output tells a parent that a child has finished, and only the normal end
of a child and an abort by the id of the parent drop a parent.  So the maps agree as long
as a child that is aborted by another id has a queue, through which the output is built,
and leaves a sibling behind.
-/

namespace VllmCore

open Function List Nat Option Support

variable {σ L R : Type}

/-! ## Parents -/

namespace ParentEntry

/-- What was delivered for the children of a parent: nothing twice, nothing for children
that are not finished, and where outputs are collected nothing before the last child. -/
structure Account (e : ParentEntry L) : Prop where
  nodup : e.request.childRequests.Nodup
  asked : ∀ i ∈ e.request.childRequests, i < e.numChildren
  deliveredAsked : ∀ i ∈ e.delivered, i < e.numChildren
  deliveredNodup : e.delivered.Nodup
  streamed : e.request.outputKind ≠ .finalOnly → ∀ i ∈ e.delivered, i ∉ e.request.childRequests
  waiting : e.request.outputKind = .finalOnly → e.request.childRequests ≠ [] → e.delivered = []
  aggregated : ∀ j o, e.request.outputAggregator[j]? = some (some o) →
    o.index = j ∧ j < e.numChildren

theorem account_new (outputKind : RequestOutputKind) (n : Nat) :
    Account (ParentEntry.new outputKind n : ParentEntry L) := by
  constructor
  · exact nodup_nil
  · exact fun i hi => absurd hi not_mem_nil
  · exact fun i hi => absurd hi not_mem_nil
  · exact nodup_nil
  · exact fun _ i hi => absurd hi not_mem_nil
  · exact fun _ _ => rfl
  · intro j o h
    unfold ParentEntry.new at h
    split at h
    · rw [getElem?_replicate] at h
      split at h
      · cases h
      · cases h
    · cases h

theorem Account.getChildInfo {e : ParentEntry L} (h : e.Account)
    (hleft : e.numChildren = 0 ∨ e.request.childRequests ≠ []) : e.getChildInfo.Account := by
  have hnew : e.numChildren ∉ e.request.childRequests := by
    intro hmem
    have hlt := h.asked _ hmem
    omega
  constructor
  · exact nodup_append.mpr ⟨h.nodup, nodup_singleton _, by
      intro a ha b hb
      rw [mem_singleton] at hb
      rintro rfl
      exact hnew (hb ▸ ha)⟩
  · intro i hi
    rcases mem_append.mp hi with hi | hi
    · exact lt_succ_of_lt (h.asked i hi)
    · rw [mem_singleton.mp hi]
      exact lt_succ_self _
  · intro i hi
    exact lt_succ_of_lt (h.deliveredAsked i hi)
  · exact h.deliveredNodup
  · intro hkind i hi hmem
    rcases mem_append.mp hmem with hmem | hmem
    · exact h.streamed hkind i hi hmem
    · have hlt := h.deliveredAsked i hi
      rw [mem_singleton.mp hmem] at hlt
      omega
  · intro hkind _
    rcases hleft with hzero | hleft
    · apply eq_nil_iff_forall_not_mem.mpr
      intro i hi
      have hlt := h.deliveredAsked i hi
      omega
    · exact h.waiting hkind hleft
  · intro j o hj
    obtain ⟨hindex, hlt⟩ := h.aggregated j o hj
    exact ⟨hindex, lt_succ_of_lt hlt⟩

theorem indices_from {aggregator : List (Option (CompletionOutput L))} {k : Nat}
    (h : ∀ (j : Nat) (o : CompletionOutput L), aggregator[j]? = some (some o) → o.index = k + j) :
    ((aggregator.filterMap id).map CompletionOutput.index).Nodup ∧
      ∀ i ∈ (aggregator.filterMap id).map CompletionOutput.index, k ≤ i := by
  induction aggregator generalizing k with
  | nil => exact ⟨nodup_nil, fun i hi => absurd hi not_mem_nil⟩
  | cons x rest ih =>
    obtain ⟨hnodup, hle⟩ := @ih (k + 1) (by
      intro j o hj
      rw [h (j + 1) o hj]
      omega)
    cases x with
    | none =>
      refine ⟨hnodup, ?_⟩
      intro i hi
      have hi := hle i hi
      omega
    | some o =>
      have hindex := h 0 o rfl
      simp only [filterMap_cons_some (f := id) (a := some o) (b := o) rfl,
        map_cons, nodup_cons, mem_cons]
      refine ⟨⟨?_, hnodup⟩, ?_⟩
      · intro hmem
        have hlt := hle _ hmem
        omega
      · rintro i (rfl | hi)
        · omega
        · have hlt := hle i hi
          omega

def takeOutput (e : ParentEntry L) (o : CompletionOutput L) : ParentEntry L :=
  let (outputs, _, request) := e.request.getOutputs o
  { e with
    request := request
    delivered := e.delivered ++
      (outputs.filter fun o => o.finishReason.isSome).map CompletionOutput.index }

theorem childRequests_takeOutput (e : ParentEntry L) (o : CompletionOutput L) :
    (e.takeOutput o).request.childRequests =
      if o.finishReason.isSome then e.request.childRequests.erase o.index
      else e.request.childRequests := by
  unfold takeOutput ParentRequest.getOutputs
  dsimp only
  split <;> rfl

theorem Account.takeOutput {e : ParentEntry L} (h : e.Account) {o : CompletionOutput L}
    (hchild : o.index ∈ e.request.childRequests) : (e.takeOutput o).Account := by
  have hlt := h.asked _ hchild
  have hne : e.request.childRequests ≠ [] := ne_nil_of_mem hchild
  have hsub : ∀ i ∈ (if o.finishReason.isSome then e.request.childRequests.erase o.index
      else e.request.childRequests), i ∈ e.request.childRequests := by
    intro i hi
    split at hi
    · exact mem_of_mem_erase hi
    · exact hi
  have hnodup : (if o.finishReason.isSome then e.request.childRequests.erase o.index
      else e.request.childRequests).Nodup := by
    split
    · exact h.nodup.erase _
    · exact h.nodup
  by_cases hkind : e.request.outputKind = .finalOnly
  · -- Outputs are collected until the last child has finished.
    have haggregated : ∀ (j : Nat) (c : CompletionOutput L),
      (e.request.outputAggregator.set o.index (some o))[j]? =
        some (some c) → c.index = j ∧ j < e.numChildren := by
      intro j c hj
      rw [getElem?_set] at hj
      split at hj
      next heq =>
        split at hj
        · rw [Option.some.injEq, Option.some.injEq] at hj
          rw [← hj]
          exact ⟨heq, heq ▸ hlt⟩
        · cases hj
      · exact h.aggregated j c hj
    have hwait := h.waiting hkind hne
    unfold ParentEntry.takeOutput ParentRequest.getOutputs
    rw [if_neg (not_not.mpr hkind)]
    dsimp only
    rw [hwait, nil_append]
    generalize (if o.finishReason.isSome then e.request.childRequests.erase o.index
      else e.request.childRequests) = children at hsub hnodup
    have hall : ∀ i ∈ ((e.request.outputAggregator.set o.index (some o)).filterMap id).map
        CompletionOutput.index, i < e.numChildren := by
      intro i hi
      obtain ⟨c, hc, rfl⟩ := mem_map.mp hi
      obtain ⟨x, hx, hxc⟩ := mem_filterMap.mp hc
      obtain ⟨j, hj⟩ := mem_iff_getElem?.mp hx
      have hxc : x = some c := hxc
      rw [hxc] at hj
      obtain ⟨hindex, hlt⟩ := haggregated j c hj
      rw [hindex]
      exact hlt
    have hfiltered : ((if children.isEmpty = true then
          (e.request.outputAggregator.set o.index (some o)).filterMap id else []).filter
          fun o => o.finishReason.isSome).map CompletionOutput.index |>.Nodup := by
      split
      · have hindices := (@indices_from L (e.request.outputAggregator.set o.index (some o)) 0 (by
          intro j c hj
          rw [(haggregated j c hj).1, zero_add])).1
        exact hindices.sublist (filter_sublist.map _)
      · exact nodup_nil
    have hbound : ∀ i ∈ ((if children.isEmpty = true then
          (e.request.outputAggregator.set o.index (some o)).filterMap id else []).filter
          fun o => o.finishReason.isSome).map CompletionOutput.index, i < e.numChildren := by
      intro i hi
      split at hi
      · exact hall i ((filter_sublist.map _).mem hi)
      · cases hi
    refine ⟨hnodup, fun i hi => h.asked i (hsub i hi), hbound, hfiltered, ?_, ?_, haggregated⟩
    · exact fun hnot => absurd hkind hnot
    · intro _ hleft
      rw [if_neg]
      · rfl
      · rw [List.isEmpty_iff]
        exact hleft
  · -- The output is delivered at once.
    have hnot : o.index ∉ e.delivered := fun hmem => h.streamed hkind _ hmem hchild
    unfold ParentEntry.takeOutput ParentRequest.getOutputs
    rw [if_pos hkind, if_neg fun hreturned => hreturned.2 hchild]
    dsimp only
    cases hfinished : o.finishReason.isSome with
    | false =>
      rw [filter_cons_of_neg (by simp [hfinished])]
      simp only [filter_nil, map_nil, append_nil, Bool.false_eq_true, if_false]
      exact ⟨h.nodup, h.asked, h.deliveredAsked, h.deliveredNodup, h.streamed, h.waiting,
        h.aggregated⟩
    | true =>
      rw [filter_cons_of_pos (by simp [hfinished])]
      simp only [filter_nil, map_cons, map_nil, if_true]
      refine ⟨h.nodup.erase _, fun i hi => h.asked i (mem_of_mem_erase hi), ?_, ?_, ?_, ?_,
        h.aggregated⟩
      · intro i hi
        rcases mem_append.mp hi with hi | hi
        · exact h.deliveredAsked i hi
        · rw [mem_singleton.mp hi]
          exact hlt
      · exact nodup_append.mpr ⟨h.deliveredNodup, nodup_singleton _, by
          intro a ha b hb
          rw [mem_singleton] at hb
          rintro rfl
          exact hnot (hb ▸ ha)⟩
      · intro _ i hi hmem
        rcases mem_append.mp hi with hi | hi
        · exact h.streamed hkind i hi (mem_of_mem_erase hmem)
        · rw [mem_singleton.mp hi, h.nodup.mem_erase_iff] at hmem
          exact hmem.1 rfl
      · exact fun hfinal => absurd hfinal hkind

end ParentEntry

/-! ## Building an output -/

/-- What the bookkeeping reads of a state does not change. -/
def RequestState.SameIdentity (r r' : RequestState σ L) : Prop :=
  r'.requestIndex = r.requestIndex ∧ r'.streamingInput = r.streamingInput

theorem RequestState.nextOutput_identity {r r' : RequestState σ L} {newTokenIds : List Token}
    {finishReason : Option FinishReason} {stopReason : Option OutputStopReason}
    {o : CompletionOutput L}
    (h : r.nextOutput newTokenIds finishReason stopReason = some (o, r')) :
    r.SameIdentity r' ∧ o.index = r.requestIndex ∧ o.finishReason = finishReason := by
  unfold RequestState.nextOutput at h
  dsimp only at h
  split at h
  · cases h
  · split at h
    · cases h
    · split at h <;>
      · rw [Option.some.injEq] at h
        unfold RequestState.newCompletionOutput at h
        rw [Prod.mk.injEq] at h
        rw [← h.1, ← h.2]
        exact ⟨⟨rfl, rfl⟩, rfl, rfl⟩

theorem RequestState.nextOutput_ne_none (r : RequestState σ L) (newTokenIds : List Token)
    {finishReason : Option FinishReason} (stopReason : Option OutputStopReason)
    (h : finishReason.isSome = true) : r.nextOutput newTokenIds finishReason stopReason ≠ none := by
  unfold RequestState.nextOutput
  rw [h, if_neg (by simp), if_neg (by simp)]
  split <;> exact some_ne_none _

theorem RequestState.updateFromOutput_identity {position : List L → R → L}
    {r r' : RequestState σ L} {o : GeneratedOutput R} {stopString : Option (List Char)}
    (h : r.updateFromOutput position o = .ok (stopString, r')) : r.SameIdentity r' := by
  unfold RequestState.updateFromOutput at h
  simp only [bind_ok] at h
  obtain ⟨logprobs, _, _, rfl⟩ := h
  exact ⟨rfl, rfl⟩

namespace OutputProcessor

theorem makeRequestOutput_spec (s : OutputProcessor σ L) (r : RequestEntry σ L)
    (newTokenIds : List Token) (finishReason : Option FinishReason)
    (stopReason : Option OutputStopReason) :
    ∃ output state parents,
      s.makeRequestOutput r newTokenIds finishReason stopReason =
        (output, state, { s with parents := parents }) ∧
      r.state.SameIdentity state ∧ (r.parentReq = none → parents = s.parents) ∧
      ∀ p, r.parentReq = some p → (finishReason.isSome = false ∧ parents = s.parents) ∨
        ∃ o : CompletionOutput L, o.index = r.state.requestIndex ∧
          o.finishReason = finishReason ∧
          parents = update s.parents p ((s.parents p).takeOutput o) := by
  unfold makeRequestOutput RequestState.makeRequestOutput
  cases hnext : r.state.nextOutput newTokenIds finishReason stopReason with
  | none =>
    have hfinish : finishReason.isSome = false := by
      rw [Bool.eq_false_iff]
      intro hsome
      exact r.state.nextOutput_ne_none newTokenIds stopReason hsome hnext
    cases hparent : r.parentReq with
    | none =>
      refine ⟨none, r.state, s.parents, rfl, ⟨rfl, rfl⟩, fun _ => rfl, ?_⟩
      intro p hp
      cases hp
    | some p =>
      refine ⟨none, r.state, s.parents, ?_, ⟨rfl, rfl⟩, fun _ => rfl, ?_⟩
      · have hself : update s.parents p
            { s.parents p with
              request := (some (s.parents p).request).getD (s.parents p).request
              delivered := (s.parents p).delivered ++
                ((((none : Option (RequestOutput L)).map RequestOutput.outputs).getD []).filter
                  fun o => o.finishReason.isSome).map CompletionOutput.index } = s.parents := by
          apply update_eq_self_iff.mpr
          simp
        dsimp only at hself ⊢
        rw [hself]
      · intro q _
        exact .inl ⟨hfinish, rfl⟩
  | some next =>
    obtain ⟨o, state⟩ := next
    obtain ⟨hsame, hindex, hreason⟩ := RequestState.nextOutput_identity hnext
    cases hparent : r.parentReq with
    | none =>
      refine ⟨_, state, s.parents, rfl, hsame, fun _ => rfl, ?_⟩
      intro p hp
      cases hp
    | some p =>
      let taken := (s.parents p).request.getOutputs o
      refine ⟨if taken.1.isEmpty then none else some { outputs := taken.1, finished := taken.2.1 },
        state, update s.parents p ((s.parents p).takeOutput o), ?_, hsame, ?_, ?_⟩
      · unfold ParentEntry.takeOutput
        by_cases hempty : ((s.parents p).request.getOutputs o).1.isEmpty = true
        · simp only [taken, isEmpty_iff.mp hempty]
          rfl
        · simp only [taken, if_neg hempty]
          rfl
      · intro hp
        cases hp
      · intro q hq
        obtain rfl := Option.some.inj hq
        exact .inr ⟨o, hindex, hreason, rfl⟩

/-! ## External ids -/

/-- Every external id has the list of the requests with that id, except those that are
pending. -/
structure Tracked (pending : RequestId → Prop) (s : OutputProcessor σ L) : Prop where
  nonempty : ∀ e, s.externalReqIds e ≠ some []
  nodup : ∀ e, ((s.externalReqIds e).getD []).Nodup
  mem : ∀ e id, id ∈ (s.externalReqIds e).getD [] ↔
    ¬pending id ∧ ∃ r, s.requestStates id = some r ∧ r.externalReqId = e

variable {s t : OutputProcessor σ L} {pending : RequestId → Prop}

theorem Tracked.congr (h : Tracked pending s) {pending' : RequestId → Prop}
    (hpending : ∀ id r, s.requestStates id = some r → (pending' id ↔ pending id)) :
    Tracked pending' s := by
  constructor
  · exact h.nonempty
  · exact h.nodup
  · intro e id
    rw [h.mem e id]
    constructor
    · rintro ⟨hnot, r, hr, he⟩
      exact ⟨fun hp => hnot ((hpending id r hr).mp hp), r, hr, he⟩
    · rintro ⟨hnot, r, hr, he⟩
      exact ⟨fun hp => hnot ((hpending id r hr).mpr hp), r, hr, he⟩

variable {id p : RequestId} {r : RequestEntry σ L}

theorem Tracked.untrack (h : Tracked pending s) (hr : s.requestStates id = some r)
    (hnot : ¬pending id) :
    ∃ external, s.untrack id r.externalReqId = .ok { s with externalReqIds := external } ∧
      Tracked (fun j => pending j ∨ j = id) { s with externalReqIds := external } := by
  have hmem : id ∈ (s.externalReqIds r.externalReqId).getD [] :=
    (h.mem r.externalReqId id).mpr ⟨hnot, r, hr, rfl⟩
  refine ⟨update s.externalReqIds r.externalReqId
    (if ((s.externalReqIds r.externalReqId).getD []).erase id = [] then none
      else some (((s.externalReqIds r.externalReqId).getD []).erase id)), ?_, ?_⟩
  · unfold OutputProcessor.untrack
    rw [if_pos hmem]
    rfl
  · have hlist : ∀ e, (update s.externalReqIds r.externalReqId
        (if ((s.externalReqIds r.externalReqId).getD []).erase id = [] then none
          else some (((s.externalReqIds r.externalReqId).getD []).erase id)) e).getD [] =
        if e = r.externalReqId then ((s.externalReqIds r.externalReqId).getD []).erase id
        else (s.externalReqIds e).getD [] := by
      intro e
      by_cases he : e = r.externalReqId
      · subst he
        rw [update_self, if_pos rfl]
        split
        next hempty => rw [hempty, getD_none]
        · rw [getD_some]
      · rw [update_of_ne he, if_neg he]
    constructor
    · intro e
      dsimp only
      by_cases he : e = r.externalReqId
      · subst he
        rw [update_self]
        split
        · intro hnone
          cases hnone
        next hempty =>
          rw [ne_eq, Option.some.injEq]
          exact hempty
      · rw [update_of_ne he]
        exact h.nonempty e
    · intro e
      rw [hlist]
      split
      · exact (h.nodup _).erase _
      · exact h.nodup e
    · intro e j
      rw [hlist]
      by_cases he : e = r.externalReqId
      · subst he
        rw [if_pos rfl, (h.nodup _).mem_erase_iff, h.mem]
        constructor
        · rintro ⟨hne, hpending, hex⟩
          refine ⟨?_, hex⟩
          rintro (hp | heq)
          · exact hpending hp
          · exact hne heq
        · rintro ⟨hpending, hex⟩
          exact ⟨fun heq => hpending (.inr heq), fun hp => hpending (.inl hp), hex⟩
      · rw [if_neg he, h.mem]
        constructor
        · rintro ⟨hpending, r', hr', he'⟩
          refine ⟨?_, r', hr', he'⟩
          rintro (hp | heq)
          · exact hpending hp
          · subst heq
            rw [hr] at hr'
            obtain rfl := Option.some.inj hr'
            exact he he'.symm
        · rintro ⟨hpending, hex⟩
          exact ⟨fun hp => hpending (.inl hp), hex⟩

theorem Tracked.popState (h : Tracked pending s) (hpending : pending id)
    {pending' : RequestId → Prop} (hothers : ∀ j, j ≠ id → (pending' j ↔ pending j))
    (parents : RequestId → ParentEntry L) :
    Tracked pending' { s.popState id with parents := parents } := by
  constructor
  · exact h.nonempty
  · exact h.nodup
  · intro e j
    unfold OutputProcessor.popState
    dsimp only
    rw [h.mem e j]
    by_cases hj : j = id
    · subst hj
      rw [update_self]
      constructor
      · rintro ⟨hnot, _⟩
        exact absurd hpending hnot
      · rintro ⟨_, r, hr, _⟩
        cases hr
    · rw [update_of_ne hj, hothers j hj]

theorem Tracked.popState_untrack (h : Tracked pending s) (hr : s.requestStates id = some r)
    (hnot : ¬pending id) :
    ∃ external, (s.popState id).untrack id r.externalReqId =
        .ok { s.popState id with externalReqIds := external } ∧
      Tracked pending { s.popState id with externalReqIds := external } := by
  obtain ⟨external, huntrack, htracked⟩ := h.untrack hr hnot
  refine ⟨external, ?_, ?_⟩
  · unfold OutputProcessor.untrack at huntrack ⊢
    dsimp only at huntrack ⊢
    have hsame : (s.popState id).externalReqIds = s.externalReqIds := rfl
    rw [hsame]
    split at huntrack
    next hmem =>
      rw [if_pos hmem]
      rw [pure_ok] at huntrack
      have hexternal := congrArg OutputProcessor.externalReqIds huntrack
      dsimp only at hexternal
      rw [hexternal]
      rfl
    · cases huntrack
  · exact htracked.popState (.inr rfl) (fun j hj => (or_iff_left hj).symm) s.parents

/-! ## Parents and children -/

/-- Requests and parents have different ids; a child's parent is registered and waits for it;
a parent waits for children that are there, unless it is excused. -/
structure Families (excused : RequestId → Prop) (s : OutputProcessor σ L) : Prop where
  apart : ∀ id r, s.requestStates id = some r → id ∉ s.parentRequests
  child : ∀ id r p, s.requestStates id = some r → r.parentReq = some p →
    p ∈ s.parentRequests ∧ id = childReqId r.state.requestIndex p ∧
      r.state.requestIndex ∈ (s.parents p).request.childRequests ∧
      r.state.streamingInput = false
  own : ∀ p ∈ s.parentRequests, ∀ i ∈ (s.parents p).request.childRequests, ∀ r,
    s.requestStates (childReqId i p) = some r → r.parentReq = some p ∧ r.state.requestIndex = i
  alive : ∀ p ∈ s.parentRequests, ¬excused p → (s.parents p).request.childRequests ≠ [] ∧
    ∀ i ∈ (s.parents p).request.childRequests, ∃ r, s.requestStates (childReqId i p) = some r
  dead : ∀ p ∈ s.parentRequests, ∀ i ∈ (s.parents p).request.childRequests,
    childReqId i p ∉ s.parentRequests
  account : ∀ p, (s.parents p).Account

variable {excused : RequestId → Prop}

section

variable (h : Families excused s)

include h

theorem Families.external (external : RequestId → Option (List RequestId)) :
    Families excused { s with externalReqIds := external } :=
  ⟨h.apart, h.child, h.own, h.alive, h.dead, h.account⟩

theorem Families.mono {excused' : RequestId → Prop}
    (hmono : ∀ p ∈ s.parentRequests, excused p → excused' p) : Families excused' s := by
  refine ⟨h.apart, h.child, h.own, ?_, h.dead, h.account⟩
  intro p hp hnot
  exact h.alive p hp fun hex => hnot (hmono p hp hex)

theorem Families.leave (hr : s.requestStates id = some r)
    {parents : RequestId → ParentEntry L}
    (hother : ∀ q, r.parentReq ≠ some q → parents q = s.parents q)
    (hparent : ∀ p, r.parentReq = some p → (parents p = s.parents p ∧ excused p) ∨
      ∃ o : CompletionOutput L, o.index = r.state.requestIndex ∧ o.finishReason.isSome = true ∧
        parents p = (s.parents p).takeOutput o) :
    Families (fun q => excused q ∨
        (r.parentReq = some q ∧ (parents q).request.childRequests = []))
      { s.popState id with parents := parents } := by
  have hsub : ∀ q, ∀ i ∈ (parents q).request.childRequests,
      i ∈ (s.parents q).request.childRequests := by
    intro q i hi
    by_cases hq : r.parentReq = some q
    · rcases hparent q hq with ⟨hsame, _⟩ | ⟨o, _, hfinished, htold⟩
      · rwa [hsame] at hi
      · rw [htold, ParentEntry.childRequests_takeOutput, if_pos hfinished] at hi
        exact mem_of_mem_erase hi
    · rwa [hother q hq] at hi
  have hstate : ∀ j r', ({ s.popState id with parents := parents } :
      OutputProcessor σ L).requestStates j = some r' → j ≠ id ∧ s.requestStates j = some r' := by
    intro j r' hr'
    by_cases hj : j = id
    · subst hj
      unfold OutputProcessor.popState at hr'
      dsimp only at hr'
      rw [update_self] at hr'
      cases hr'
    · refine ⟨hj, ?_⟩
      unfold OutputProcessor.popState at hr'
      dsimp only at hr'
      rwa [update_of_ne hj] at hr'
  constructor
  · intro j r' hr'
    exact h.apart j r' (hstate j r' hr').2
  · intro j r' q hr' hq
    obtain ⟨hj, hr'⟩ := hstate j r' hr'
    obtain ⟨hreg, hid, hmem, hstream⟩ := h.child j r' q hr' hq
    refine ⟨hreg, hid, ?_, hstream⟩
    dsimp only
    by_cases hsib : r.parentReq = some q
    · rcases hparent q hsib with ⟨hsame, _⟩ | ⟨o, hindex, hfinished, htold⟩
      · rwa [hsame]
      · rw [htold, ParentEntry.childRequests_takeOutput, if_pos hfinished,
          (h.account q).nodup.mem_erase_iff, hindex]
        refine ⟨?_, hmem⟩
        intro heq
        apply hj
        rw [hid, heq, ← (h.child id r q hr hsib).2.1]
    · rwa [hother q hsib]
  · intro q hq i hi r' hr'
    exact h.own q hq i (hsub q i hi) r' (hstate _ r' hr').2
  · intro q hq hnot
    rw [not_or] at hnot
    obtain ⟨hleft, halive⟩ := h.alive q hq hnot.1
    dsimp only
    have hne : (parents q).request.childRequests ≠ [] := by
      by_cases hsib : r.parentReq = some q
      · exact fun hempty => hnot.2 ⟨hsib, hempty⟩
      · rwa [hother q hsib]
    refine ⟨hne, ?_⟩
    intro i hi
    obtain ⟨r', hr'⟩ := halive i (hsub q i hi)
    obtain ⟨hparent', hindex'⟩ := h.own q hq i (hsub q i hi) r' hr'
    refine ⟨r', ?_⟩
    unfold OutputProcessor.popState
    dsimp only
    rw [update_of_ne]
    · exact hr'
    · intro heq
      rw [heq, hr] at hr'
      obtain rfl := Option.some.inj hr'
      rcases hparent q hparent' with ⟨_, hexcused⟩ | ⟨o, hindex, hfinished, htold⟩
      · exact hnot.1 hexcused
      · rw [htold, ParentEntry.childRequests_takeOutput, if_pos hfinished,
          (h.account q).nodup.mem_erase_iff, hindex] at hi
        exact hi.1 hindex'.symm
  · intro q hq i hi
    exact h.dead q hq i (hsub q i hi)
  · intro q
    dsimp only
    by_cases hq : r.parentReq = some q
    · rcases hparent q hq with ⟨hsame, _⟩ | ⟨o, hindex, _, htold⟩
      · rw [hsame]
        exact h.account q
      · rw [htold]
        apply (h.account q).takeOutput
        rw [hindex]
        exact (h.child id r q hr hq).2.2.1
    · rw [hother q hq]
      exact h.account q

theorem Families.popParent (hnone : ∀ id r, s.requestStates id = some r → r.parentReq ≠ some p) :
    Families (fun q => excused q ∧ q ≠ p) (s.popParent p) := by
  have hmem : ∀ q, q ∈ (s.popParent p).parentRequests ↔ q ∈ s.parentRequests ∧ q ≠ p := by
    intro q
    unfold OutputProcessor.popParent
    rw [mem_filter, decide_eq_true_eq]
  constructor
  · intro id r hr hin
    exact h.apart id r hr ((hmem id).mp hin).1
  · intro id r q hr hq
    obtain ⟨hreg, hrest⟩ := h.child id r q hr hq
    refine ⟨(hmem q).mpr ⟨hreg, ?_⟩, hrest⟩
    rintro rfl
    exact hnone id r hr hq
  · intro q hq
    exact h.own q ((hmem q).mp hq).1
  · intro q hq hnot
    obtain ⟨hreg, hne⟩ := (hmem q).mp hq
    exact h.alive q hreg fun hex => hnot ⟨hex, hne⟩
  · intro q hq i hi hin
    exact h.dead q ((hmem q).mp hq).1 i hi ((hmem _).mp hin).1
  · exact h.account

end

theorem Tracked.setState (h : Tracked pending s) (hr : s.requestStates id = some r)
    (state : RequestState σ L) : Tracked pending (s.setState id r state) := by
  constructor
  · exact h.nonempty
  · exact h.nodup
  · intro e j
    unfold OutputProcessor.setState
    dsimp only
    rw [h.mem e j]
    by_cases hj : j = id
    · subst hj
      rw [update_self, hr]
      simp
    · rw [update_of_ne hj]

theorem Families.setState (h : Families excused s) (hr : s.requestStates id = some r)
    {state : RequestState σ L} (hsame : r.parentReq = none ∨ r.state.SameIdentity state) :
    Families excused (s.setState id r state) := by
  have hstate : ∀ j r', (s.setState id r state).requestStates j = some r' →
      ∃ r₀, s.requestStates j = some r₀ ∧ r'.parentReq = r₀.parentReq ∧
        ((r₀.parentReq = none) ∨ r₀.state.SameIdentity r'.state) := by
    intro j r' hr'
    unfold OutputProcessor.setState at hr'
    dsimp only at hr'
    by_cases hj : j = id
    · subst hj
      rw [update_self, Option.some.injEq] at hr'
      rw [← hr']
      exact ⟨r, hr, rfl, hsame⟩
    · rw [update_of_ne hj] at hr'
      exact ⟨r', hr', rfl, .inr ⟨rfl, rfl⟩⟩
  constructor
  · intro j r' hr'
    obtain ⟨r₀, hr₀, _⟩ := hstate j r' hr'
    exact h.apart j r₀ hr₀
  · intro j r' p hr' hp
    obtain ⟨r₀, hr₀, hparent, hidentity⟩ := hstate j r' hr'
    rw [hparent] at hp
    rcases hidentity with hnone | ⟨hindex, hstream⟩
    · rw [hnone] at hp
      cases hp
    · rw [hindex, hstream]
      exact h.child j r₀ p hr₀ hp
  · intro p hp i hi r' hr'
    obtain ⟨r₀, hr₀, hparent, hidentity⟩ := hstate _ r' hr'
    obtain ⟨hown, hindex⟩ := h.own p hp i hi r₀ hr₀
    refine ⟨hparent.trans hown, ?_⟩
    rcases hidentity with hnone | ⟨hsame, _⟩
    · rw [hnone] at hown
      cases hown
    · exact hsame.trans hindex
  · intro p hp hnot
    obtain ⟨hne, halive⟩ := h.alive p hp hnot
    refine ⟨hne, ?_⟩
    intro i hi
    obtain ⟨r', hr'⟩ := halive i hi
    unfold OutputProcessor.setState
    dsimp only
    by_cases hj : childReqId i p = id
    · exact ⟨_, by rw [hj, update_self]⟩
    · exact ⟨r', by rw [update_of_ne hj]; exact hr'⟩
  · exact h.dead
  · exact h.account

theorem Families.tell (h : Families excused s) {e : ParentEntry L}
    (hchildren : e.request.childRequests = (s.parents p).request.childRequests)
    (haccount : e.Account) :
    Families excused { s with parents := update s.parents p e } := by
  have hsame : ∀ q, (update s.parents p e q).request.childRequests =
      (s.parents q).request.childRequests := by
    intro q
    by_cases hq : q = p
    · subst hq
      rw [update_self, hchildren]
    · rw [update_of_ne hq]
  constructor
  · exact h.apart
  · intro id r q hr hq
    rw [hsame]
    exact h.child id r q hr hq
  · intro q hq
    rw [hsame]
    exact h.own q hq
  · intro q hq hnot
    rw [hsame]
    exact h.alive q hq hnot
  · intro q hq
    rw [hsame]
    exact h.dead q hq
  · intro q
    dsimp only
    by_cases hq : q = p
    · subst hq
      rw [update_self]
      exact haccount
    · rw [update_of_ne hq]
      exact h.account q

/-! ## The end of a request -/

structure Maintained (s : OutputProcessor σ L) : Prop where
  tracked : Tracked (fun _ => False) s
  families : Families (fun _ => False) s

theorem Maintained.finishRequest (h : Maintained s) {id : RequestId} {r r' : RequestEntry σ L}
    (hr : s.requestStates id = some r) (hexternal : r'.externalReqId = r.externalReqId)
    (hparentReq : r'.parentReq = r.parentReq) {parents : RequestId → ParentEntry L}
    (hother : ∀ q, r.parentReq ≠ some q → parents q = s.parents q)
    (hparent : ∀ p, r.parentReq = some p → ∃ o : CompletionOutput L,
      o.index = r.state.requestIndex ∧ o.finishReason.isSome = true ∧
        parents p = (s.parents p).takeOutput o)
    {s' : OutputProcessor σ L} (hs' : s'.popState id = { s.popState id with parents := parents }) :
    ∃ t, s'.finishRequest id r' = .ok t ∧ Maintained t := by
  have htracked : Tracked (fun _ => False) { s with parents := parents } :=
    ⟨h.tracked.nonempty, h.tracked.nodup, h.tracked.mem⟩
  have hleft := h.families.leave hr hother fun p hp => Or.inr (hparent p hp)
  have hr' : ({ s with parents := parents } : OutputProcessor σ L).requestStates id = some r := hr
  obtain ⟨external, huntrack, htracked⟩ := htracked.popState_untrack hr' fun hp => hp
  have hleft := hleft.external external
  unfold OutputProcessor.finishRequest
  rw [hs', hexternal, hparentReq]
  have hpop : ({ s with parents := parents } : OutputProcessor σ L).popState id =
      { s.popState id with parents := parents } := rfl
  rw [hpop] at huntrack htracked
  rw [huntrack, ok_bind]
  cases hp : r.parentReq with
  | none =>
    refine ⟨_, rfl, htracked, hleft.mono ?_⟩
    rintro q _ (hq | ⟨hq, _⟩)
    · exact hq
    · rw [hp] at hq
      cases hq
  | some p =>
    dsimp only
    by_cases hempty : (parents p).request.childRequests = []
    · rw [if_pos hempty]
      refine ⟨_, rfl, ⟨htracked.nonempty, htracked.nodup, htracked.mem⟩, ?_⟩
      have hnone : ∀ j r₀, ({ s.popState id with
            parents := parents, externalReqIds := external } :
            OutputProcessor σ L).requestStates j = some r₀ → r₀.parentReq ≠ some p := by
        intro j r₀ hr₀ hp₀
        have hmem := (hleft.child j r₀ p hr₀ hp₀).2.2.1
        rw [hempty] at hmem
        cases hmem
      refine (hleft.popParent hnone).mono ?_
      rintro q _ ⟨hq | ⟨hq, _⟩, hne⟩
      · exact hq
      · rw [hp] at hq
        exact hne (Option.some.inj hq).symm
    · rw [if_neg hempty]
      refine ⟨_, rfl, htracked, hleft.mono ?_⟩
      rintro q _ (hq | ⟨hq, hnil⟩)
      · exact hq
      · rw [hp] at hq
        obtain rfl := Option.some.inj hq
        exact hempty hnil

theorem Maintained.setState (h : Maintained s) (hr : s.requestStates id = some r)
    {state : RequestState σ L} (hsame : r.parentReq = none ∨ r.state.SameIdentity state) :
    Maintained (s.setState id r state) :=
  ⟨h.tracked.setState hr state, h.families.setState hr hsame⟩

theorem popState_setState (s : OutputProcessor σ L) (id : RequestId) (r : RequestEntry σ L)
    (state : RequestState σ L) : (s.setState id r state).popState id = s.popState id := by
  unfold OutputProcessor.popState OutputProcessor.setState
  rw [update_idem]

theorem Maintained.processOutput {position : List L → R → L} (h : Maintained s)
    {outputs outputs' : Outputs L} {o : GeneratedOutput R}
    (hprocess : OutputProcessor.processOutput position (s, outputs) (id, o) = .ok (t, outputs')) :
    Maintained t := by
  unfold OutputProcessor.processOutput at hprocess
  dsimp only at hprocess
  cases hr : s.requestStates id with
  | none =>
    rw [hr] at hprocess
    rw [pure_ok, Prod.mk.injEq] at hprocess
    exact hprocess.1 ▸ h
  | some r =>
    rw [hr] at hprocess
    rw [bind_ok] at hprocess
    obtain ⟨⟨stopString, state₁⟩, hupdate, hprocess⟩ := hprocess
    have hsame₁ := RequestState.updateFromOutput_identity hupdate
    generalize o.finishReasons stopString = reasons at hprocess
    obtain ⟨finishReason, stopReason⟩ := reasons
    obtain ⟨output, state, parents, hmake, hsame₂, hnone, hparent⟩ :=
      s.makeRequestOutput_spec { r with state := state₁ } o.newTokenIds finishReason stopReason
    rw [hmake] at hprocess
    have hsame : r.state.SameIdentity state :=
      ⟨hsame₂.1.trans hsame₁.1, hsame₂.2.trans hsame₁.2⟩
    cases finishReason with
    | none =>
      rw [pure_ok, Prod.mk.injEq] at hprocess
      rw [← hprocess.1]
      have htold : Maintained { s with parents := parents } := by
        refine ⟨⟨h.tracked.nonempty, h.tracked.nodup, h.tracked.mem⟩, ?_⟩
        cases hp : r.parentReq with
        | none =>
          rw [hnone hp]
          exact h.families
        | some p =>
          rcases hparent p hp with ⟨_, hparents⟩ | ⟨c, hindex, hreason, hparents⟩
          · rw [hparents]
            exact h.families
          · rw [hparents]
            have hmem := (h.families.child id r p hr hp).2.2.1
            apply h.families.tell
            · rw [ParentEntry.childRequests_takeOutput, hreason]
              rfl
            · apply (h.families.account p).takeOutput
              rw [hindex, hsame₁.1]
              exact hmem
      have hr' : ({ s with parents := parents } : OutputProcessor σ L).requestStates id =
          some r := hr
      exact htold.setState hr' (.inr hsame)
    | some reason =>
      rw [bind_ok] at hprocess
      obtain ⟨t', hafter, hprocess⟩ := hprocess
      rw [pure_ok, Prod.mk.injEq] at hprocess
      rw [← hprocess.1]
      unfold OutputProcessor.afterFinish at hafter
      split at hafter
      next hstream =>
        have hnoParent : r.parentReq = none := by
          cases hp : r.parentReq with
          | none => rfl
          | some p =>
            have hfalse := (h.families.child id r p hr hp).2.2.2
            rw [hsame.2, hfalse] at hstream
            cases hstream
        rw [hnone hnoParent] at hafter
        have hfirst : Maintained (s.setState id r state) := h.setState hr (.inl hnoParent)
        have hr' : (s.setState id r state).requestStates id =
            some { r with state := state } := by
          unfold OutputProcessor.setState
          dsimp only
          rw [update_self]
        split at hafter <;>
        · rw [pure_ok] at hafter
          rw [← hafter]
          exact hfirst.setState hr' (.inl hnoParent)
      · have htold : ∀ p, r.parentReq = some p → ∃ c : CompletionOutput L,
            c.index = r.state.requestIndex ∧ c.finishReason.isSome = true ∧
              parents = update s.parents p ((s.parents p).takeOutput c) := by
          intro p hp
          rcases hparent p hp with ⟨hnot, _⟩ | ⟨c, hindex, hreason, hparents⟩
          · cases hnot
          · exact ⟨c, hindex.trans hsame₁.1, by rw [hreason]; rfl, hparents⟩
        have hother : ∀ q, r.parentReq ≠ some q → parents q = s.parents q := by
          intro q hq
          cases hp : r.parentReq with
          | none => rw [hnone hp]
          | some p =>
            obtain ⟨c, _, _, hparents⟩ := htold p hp
            rw [hparents, update_of_ne]
            rintro rfl
            exact hq hp
        have hfinish := @Maintained.finishRequest σ L s h id r
          { r with state := state } hr rfl rfl parents hother (by
            intro p hp
            obtain ⟨c, hindex, hfinished, hparents⟩ := htold p hp
            exact ⟨c, hindex, hfinished, by rw [hparents, update_self]⟩)
          _ (popState_setState { s with parents := parents } id { r with state := state₁ } state)
        obtain ⟨t'', hfinish, hmaintained⟩ := hfinish
        rw [hafter] at hfinish
        rw [Except.ok.inj hfinish]
        exact hmaintained

theorem Maintained.processOutputs {position : List L → R → L} (h : Maintained s)
    {engineCoreOutputs : List (RequestId × GeneratedOutput R)} {outputs : Outputs L}
    (hprocess : s.processOutputs position engineCoreOutputs = .ok (t, outputs)) :
    Maintained t := by
  have hinv := @foldlM_inv _ _ (OutputProcessor.processOutput position)
    (fun acc : OutputProcessor σ L × Outputs L => Maintained acc.1) engineCoreOutputs (by
      rintro ⟨s, outputs⟩ ⟨id, o⟩ ⟨s', outputs'⟩ _ hs hstep
      exact hs.processOutput hstep)
  exact hinv h hprocess

/-! ## New requests -/

theorem Tracked.add (h : Tracked (fun _ => False) s) (hnew : s.requestStates id = none)
    (parentRequests : List RequestId) (parents : RequestId → ParentEntry L) :
    Tracked (fun _ => False)
      { requestStates := update s.requestStates id (some r)
        parentRequests := parentRequests
        externalReqIds := update s.externalReqIds r.externalReqId
          (some ((s.externalReqIds r.externalReqId).getD [] ++ [id]))
        parents := parents } := by
  have hnot : ∀ e, id ∉ (s.externalReqIds e).getD [] := by
    intro e hmem
    obtain ⟨_, r', hr', _⟩ := (h.mem e id).mp hmem
    rw [hnew] at hr'
    cases hr'
  have hlist : ∀ e, (update s.externalReqIds r.externalReqId
      (some ((s.externalReqIds r.externalReqId).getD [] ++ [id])) e).getD [] =
      if e = r.externalReqId then (s.externalReqIds e).getD [] ++ [id]
      else (s.externalReqIds e).getD [] := by
    intro e
    by_cases he : e = r.externalReqId
    · subst he
      rw [update_self, if_pos rfl, getD_some]
    · rw [update_of_ne he, if_neg he]
  constructor
  · intro e
    dsimp only
    by_cases he : e = r.externalReqId
    · subst he
      simp
    · rw [update_of_ne he]
      exact h.nonempty e
  · intro e
    rw [hlist]
    split
    · exact nodup_append.mpr ⟨h.nodup e, nodup_singleton _, by
        intro a ha b hb
        rw [mem_singleton] at hb
        rintro rfl
        exact hnot e (hb ▸ ha)⟩
    · exact h.nodup e
  · intro e j
    dsimp only
    rw [hlist]
    by_cases hj : j = id
    · subst hj
      rw [update_self]
      by_cases he : e = r.externalReqId
      · rw [if_pos he]
        constructor
        · intro _
          exact ⟨fun hp => hp, r, rfl, he.symm⟩
        · intro _
          exact mem_append_right _ mem_cons_self
      · rw [if_neg he]
        constructor
        · intro hmem
          exact absurd hmem (hnot e)
        · rintro ⟨_, r', hr', he'⟩
          obtain rfl := Option.some.inj hr'
          exact absurd he'.symm he
    · rw [update_of_ne hj, ← h.mem e j]
      split
      · rw [mem_append, mem_singleton]
        constructor
        · rintro (hmem | heq)
          · exact hmem
          · exact absurd heq hj
        · exact Or.inl
      · rfl

theorem Maintained.addRequest (h : Maintained s) {request : NewRequest σ L}
    (hregistered : id ∉ s.parentRequests)
    (hsession : ∀ r, s.requestStates id = some r → r.parentReq = none) :
    ∃ t, s.addRequest id request none 0 = .ok t ∧ Maintained t := by
  unfold OutputProcessor.addRequest
  cases hr : s.requestStates id with
  | some r =>
    have hnone := hsession r hr
    dsimp only
    unfold OutputProcessor.updateStreamingRequestState
    split
    · apply h.finishRequest hr rfl rfl (fun _ _ => rfl) _ rfl
      intro p hp
      rw [hnone] at hp
      cases hp
    · exact ⟨_, rfl, h.setState hr (.inl hnone)⟩
    · exact ⟨_, rfl, h.setState hr (.inl hnone)⟩
    · exact ⟨_, rfl, h.setState hr (.inl hnone)⟩
    · exact ⟨_, rfl, h.setState hr (.inl hnone)⟩
  | none =>
    refine ⟨_, rfl, h.tracked.add hr _ _, ?_⟩
    have hstate : ∀ j r', update s.requestStates id
        (some (RequestEntry.fromNewRequest request none 0)) j = some r' →
        r'.parentReq ≠ none → s.requestStates j = some r' := by
      intro j r' hr' hp
      by_cases hj : j = id
      · subst hj
        rw [update_self, Option.some.injEq] at hr'
        rw [← hr'] at hp
        exact absurd rfl hp
      · rwa [update_of_ne hj] at hr'
    constructor
    · intro j r' hr'
      by_cases hj : j = id
      · rw [hj]
        exact hregistered
      · dsimp only at hr'
        rw [update_of_ne hj] at hr'
        exact h.families.apart j r' hr'
    · intro j r' p hr' hp
      exact h.families.child j r' p (hstate j r' hr' (by rw [hp]; exact some_ne_none p)) hp
    · intro p hp i hi r' hr'
      obtain ⟨r₀, hr₀⟩ := (h.families.alive p hp fun hf => hf).2 i hi
      have hne : childReqId i p ≠ id := by
        intro heq
        rw [heq, hr] at hr₀
        cases hr₀
      dsimp only at hr'
      rw [update_of_ne hne] at hr'
      exact h.families.own p hp i hi r' hr'
    · intro p hp hnot
      obtain ⟨hne, halive⟩ := h.families.alive p hp hnot
      refine ⟨hne, ?_⟩
      intro i hi
      obtain ⟨r', hr'⟩ := halive i hi
      dsimp only
      by_cases hj : childReqId i p = id
      · rw [hj, hr] at hr'
        cases hr'
      · exact ⟨r', by rw [update_of_ne hj]; exact hr'⟩
    · exact h.families.dead
    · exact h.families.account

theorem childReqId_ne (i : Nat) (p : RequestId) : childReqId i p ≠ p := by
  intro h
  have hlength := congrArg List.length h
  unfold childReqId at hlength
  rw [length_append, length_cons] at hlength
  omega

theorem Maintained.addChild (h : Maintained s) {request : NewRequest σ L}
    (hnew : s.requestStates (childReqId (s.parents p).numChildren p) = none)
    (hregistered : childReqId (s.parents p).numChildren p ∉ s.parentRequests)
    (hparent : s.requestStates p = none)
    (hleft : (s.parents p).numChildren = 0 ∨ p ∈ s.parentRequests)
    (hsession : request.resumable = false) : ∃ t, s.addChild p request = .ok t ∧ Maintained t := by
  have hchildren : (s.parents p).numChildren = 0 ∨ (s.parents p).request.childRequests ≠ [] := by
    rcases hleft with hzero | hin
    · exact .inl hzero
    · exact .inr (h.families.alive p hin fun hf => hf).1
  have haccount := (h.families.account p).getChildInfo hchildren
  have hin_of_child : ∀ i ∈ (s.parents p).request.childRequests, p ∈ s.parentRequests := by
    intro i hi
    rcases hleft with hzero | hin
    · have hlt := (h.families.account p).asked i hi
      omega
    · exact hin
  unfold OutputProcessor.addChild OutputProcessor.addRequest
  dsimp only
  rw [hnew]
  refine ⟨_, rfl, ?_, ?_⟩
  · exact h.tracked.add hnew _ _
  generalize hid : childReqId (s.parents p).numChildren p = id at hnew hregistered
  have hidp : id ≠ p := by
    rw [← hid]
    exact childReqId_ne _ _
  have hreg : ∀ q, q ∈ (if p ∈ s.parentRequests then s.parentRequests
      else s.parentRequests ++ [p]) ↔ q ∈ s.parentRequests ∨ q = p := by
    intro q
    split
    next hp =>
      constructor
      · exact Or.inl
      · rintro (hq | rfl)
        · exact hq
        · exact hp
    · rw [mem_append, mem_singleton]
  have hself : (update s.parents p (s.parents p).getChildInfo p).request.childRequests =
      (s.parents p).request.childRequests ++ [(s.parents p).numChildren] := by
    rw [update_self]
    rfl
  have hstate : ∀ j r', update s.requestStates id (some (RequestEntry.fromNewRequest
      request (some p) (s.parents p).numChildren)) j = some r' →
      (j = id ∧ r' = RequestEntry.fromNewRequest request (some p) (s.parents p).numChildren) ∨
        (j ≠ id ∧ s.requestStates j = some r') := by
    intro j r' hr'
    by_cases hj : j = id
    · subst hj
      rw [update_self, Option.some.injEq] at hr'
      exact .inl ⟨rfl, hr'.symm⟩
    · rw [update_of_ne hj] at hr'
      exact .inr ⟨hj, hr'⟩
  constructor
  · intro j r' hr' hin
    rw [hreg] at hin
    rcases hstate j r' hr' with ⟨rfl, _⟩ | ⟨_, hr'⟩
    · rcases hin with hin | heq
      · exact hregistered hin
      · exact hidp heq
    · rcases hin with hin | heq
      · exact h.families.apart j r' hr' hin
      · rw [heq, hparent] at hr'
        cases hr'
  · intro j r' q hr' hq
    dsimp only
    rw [hreg]
    rcases hstate j r' hr' with ⟨rfl, rfl⟩ | ⟨_, hr'⟩
    · obtain rfl := Option.some.inj hq
      refine ⟨.inr rfl, hid.symm, ?_, hsession⟩
      rw [hself]
      exact mem_append_right _ mem_cons_self
    · obtain ⟨hin, hj, hmem, hstream⟩ := h.families.child j r' q hr' hq
      refine ⟨.inl hin, hj, ?_, hstream⟩
      by_cases hqp : q = p
      · subst hqp
        rw [hself]
        exact mem_append_left _ hmem
      · rw [update_of_ne hqp]
        exact hmem
  · intro q hq i hi r' hr'
    dsimp only at hq hi hr'
    rw [hreg] at hq
    by_cases hqp : q = p
    · subst hqp
      rw [hself, mem_append, mem_singleton] at hi
      rcases hi with hi | rfl
      · rcases hstate _ r' hr' with ⟨heq, _⟩ | ⟨_, hr'⟩
        · obtain ⟨r₀, hr₀⟩ := (h.families.alive q (hin_of_child i hi) fun hf => hf).2 i hi
          rw [heq, hnew] at hr₀
          cases hr₀
        · exact h.families.own q (hin_of_child i hi) i hi r' hr'
      · rcases hstate _ r' hr' with ⟨_, rfl⟩ | ⟨hne, _⟩
        · exact ⟨rfl, rfl⟩
        · exact absurd hid hne
    · rw [update_of_ne hqp] at hi
      have hq : q ∈ s.parentRequests := hq.resolve_right hqp
      rcases hstate _ r' hr' with ⟨heq, _⟩ | ⟨_, hr'⟩
      · obtain ⟨r₀, hr₀⟩ := (h.families.alive q hq fun hf => hf).2 i hi
        rw [heq, hnew] at hr₀
        cases hr₀
      · exact h.families.own q hq i hi r' hr'
  · intro q hq _
    dsimp only at hq ⊢
    rw [hreg] at hq
    have hkeep : ∀ i, (∃ r', s.requestStates (childReqId i q) = some r') →
        ∃ r', update s.requestStates id (some (RequestEntry.fromNewRequest request (some p)
          (s.parents p).numChildren)) (childReqId i q) = some r' := by
      rintro i ⟨r', hr'⟩
      by_cases hj : childReqId i q = id
      · exact ⟨_, by rw [hj, update_self]⟩
      · exact ⟨r', by rw [update_of_ne hj]; exact hr'⟩
    by_cases hqp : q = p
    · subst hqp
      rw [hself]
      refine ⟨by simp, ?_⟩
      intro i hi
      rw [mem_append, mem_singleton] at hi
      rcases hi with hi | rfl
      · exact hkeep i ((h.families.alive q (hin_of_child i hi) fun hf => hf).2 i hi)
      · exact ⟨_, by rw [hid, update_self]⟩
    · rw [update_of_ne hqp]
      obtain ⟨hne, halive⟩ := h.families.alive q (hq.resolve_right hqp) fun hf => hf
      exact ⟨hne, fun i hi => hkeep i (halive i hi)⟩
  · intro q hq i hi
    dsimp only at hq hi ⊢
    rw [hreg] at hq ⊢
    rw [not_or]
    by_cases hqp : q = p
    · subst hqp
      refine ⟨?_, childReqId_ne i q⟩
      rw [hself, mem_append, mem_singleton] at hi
      rcases hi with hi | rfl
      · exact h.families.dead q (hin_of_child i hi) i hi
      · rw [hid]
        exact hregistered
    · rw [update_of_ne hqp] at hi
      have hq : q ∈ s.parentRequests := hq.resolve_right hqp
      refine ⟨h.families.dead q hq i hi, ?_⟩
      intro heq
      obtain ⟨r₀, hr₀⟩ := (h.families.alive q hq fun hf => hf).2 i hi
      rw [heq, hparent] at hr₀
      cases hr₀
  · intro q
    dsimp only
    by_cases hqp : q = p
    · subst hqp
      rw [update_self]
      exact haccount
    · rw [update_of_ne hqp]
      exact h.families.account q

theorem Maintained.newParent (h : Maintained s) (hp : p ∉ s.parentRequests)
    (outputKind : RequestOutputKind) (n : Nat) :
    Maintained { s with parents := update s.parents p (.new outputKind n) } := by
  refine ⟨⟨h.tracked.nonempty, h.tracked.nodup, h.tracked.mem⟩, ?_⟩
  have hother : ∀ q ∈ s.parentRequests,
      update s.parents p (.new outputKind n) q = s.parents q := by
    intro q hq
    apply update_of_ne
    rintro rfl
    exact hp hq
  constructor
  · exact h.families.apart
  · intro id r q hr hq
    have hchild := h.families.child id r q hr hq
    dsimp only
    rw [hother q hchild.1]
    exact hchild
  · intro q hq
    dsimp only
    rw [hother q hq]
    exact h.families.own q hq
  · intro q hq
    dsimp only
    rw [hother q hq]
    exact h.families.alive q hq
  · intro q hq
    dsimp only
    rw [hother q hq]
    exact h.families.dead q hq
  · intro q
    dsimp only
    by_cases hq : q = p
    · subst hq
      rw [update_self]
      exact ParentEntry.account_new outputKind n
    · rw [update_of_ne hq]
      exact h.families.account q

end OutputProcessor

end VllmCore
