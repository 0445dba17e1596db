import VllmCore.Worker.OutputHistory
/-!
# When the histories are exact

A list agrees with the tokens sampled so far if it has them up to some point and
placeholders from there on.  In a batch that needs the histories there is at most one
placeholder, whose token is at hand.  Histories go wrong where a batch begins to need them
while a request that stays in it has placeholders: a whole run of these is replaced with
one token.
-/

namespace VllmCore.Worker.OutputHistory

open List Support

/-- A list has the tokens of the history up to some point and placeholders after it. -/
def Agrees (history : List Token) (output : List (Option Token)) : Prop :=
  ∃ known pending, history = known ++ pending ∧
    output = known.map some ++ List.replicate pending.length none

namespace Agrees

variable {history : List Token} {output : List (Option Token)}

theorem length (h : Agrees history output) : output.length = history.length := by
  obtain ⟨known, pending, rfl, rfl⟩ := h
  simp

theorem exact (history : List Token) : Agrees history (history.map some) :=
  ⟨history, [], by simp, by simp⟩

theorem eq_of_no_placeholder (h : Agrees history output) (hnone : none ∉ output) :
    output = history.map some := by
  obtain ⟨known, pending, rfl, rfl⟩ := h
  cases pending with
  | nil => simp
  | cons token rest =>
    exfalso
    apply hnone
    simp

theorem append (h : Agrees history output) (token : Token) :
    Agrees (history ++ [token]) (output ++ [none]) := by
  obtain ⟨known, pending, rfl, rfl⟩ := h
  refine ⟨known, pending ++ [token], by rw [append_assoc], ?_⟩
  rw [length_append, length_singleton, replicate_succ', append_assoc]

end Agrees

namespace ModelRunner

/-- The last token of a request is still a placeholder, and its token is at hand. -/
structure Pending (s : ModelRunner) (history : List Token) (r : ReqId) : Prop where
  atHand : ∃ known token prevIndex sampledTokenIds, history = known ++ [token] ∧
    s.outputTokenIds r = known.map some ++ [none] ∧
    s.prevReqIdToIndex r = some prevIndex ∧ s.sampledTokenIdsCpu = some sampledTokenIds ∧
    sampledTokenIds[prevIndex]? = some [some token]

theorem getLast?_map_some (history : List Token) :
    (history.map some).getLast? ≠ some (none : Option Token) := by
  intro h
  have hmem := mem_of_getLast? h
  obtain ⟨token, _, htoken⟩ := mem_map.mp hmem
  cases htoken

variable {s : ModelRunner} {r : ReqId}

theorem repairOutput_exact {history : List Token} (sampledTokenIds : List (List (Option Token)))
    (h : s.outputTokenIds r = history.map some) :
    s.repairOutput sampledTokenIds r = history.map some := by
  unfold repairOutput
  rw [h]
  split
  · rfl
  · rw [if_pos (getLast?_map_some history)]

theorem repairOutput_pending {known : List Token} {token : Token}
    {prevIndex : Nat} {sampledTokenIds : List (List (Option Token))}
    (houtput : s.outputTokenIds r = known.map some ++ [none])
    (hprev : s.prevReqIdToIndex r = some prevIndex)
    (htoken : sampledTokenIds[prevIndex]? = some [some token]) :
    s.repairOutput sampledTokenIds r = (known ++ [token]).map some := by
  have hlast : (known.map some ++ [none]).getLast? = some (none : Option Token) := by simp
  have hindex : (known.map some ++ [none]).idxOf (none : Option Token) = known.length := by
    rw [idxOf_append_of_notMem]
    · simp
    · intro hmem
      obtain ⟨t, _, ht⟩ := mem_map.mp hmem
      cases ht
  unfold repairOutput
  rw [hprev, houtput]
  dsimp only
  rw [if_neg (not_not.mpr hlast), htoken]
  unfold replacePlaceholders
  rw [hindex]
  simp [map_append]

end ModelRunner

/-! ## The invariant -/

/-- In every list the history up to some point; in a batch that needs the histories all but
the last token, which is at hand; an entry for every request that has still to reach its
minimum. -/
structure Inv (c : Config) (s : System) : Prop where
  metadata : s.runner.needsOutputTokenIds = c.needsOutputTokenIds s.runner.reqIds
  agrees : ∀ r ∈ s.runner.reqIds, Agrees (s.history r) (s.runner.outputTokenIds r)
  current : s.runner.needsOutputTokenIds = true → ∀ r ∈ s.runner.reqIds,
    s.runner.outputTokenIds r = (s.history r).map some ∨ s.runner.Pending (s.history r) r
  entry : ∀ r ∈ s.runner.reqIds, ∀ m, s.runner.minToks r = some m → m = c.minTokens r
  reached : ∀ r ∈ s.runner.reqIds, s.runner.minToks r = none →
    c.minTokens r ≤ (s.history r).length

/-- Requests join after all their outputs are processed, and when a batch begins to need
the histories no request that stays in it has a placeholder. -/
structure Settled (c : Config) (s : System) (op : Op) : Prop where
  processed : ∀ r ∈ op.scheduledCachedReqs, r ∉ s.runner.staying (s.schedulerOutput c op) →
    (s.history r).length ≤ op.processed r
  begin : c.needsOutputTokenIds op.reqIds = true →
    c.needsOutputTokenIds s.runner.reqIds = false →
    ∀ r ∈ s.runner.staying (s.schedulerOutput c op), none ∉ s.runner.outputTokenIds r

section Step

variable {c : Config} {s : System} {op : Op}
variable {r : ReqId}

theorem mem_reqIds_of_staying {s : ModelRunner} {so : SchedulerOutput}
    (h : r ∈ s.staying so) : r ∈ s.reqIds ∧ r ∈ so.scheduledCachedReqs := by
  obtain ⟨hmem, hcond⟩ := mem_filter.mp h
  exact ⟨hmem, (of_decide_eq_true hcond).2.1⟩

theorem Op.WellFormed.cases (h : op.WellFormed) (hr : r ∈ op.reqIds) :
    (r ∈ op.scheduledNewReqs ∧ r ∉ op.scheduledCachedReqs) ∨
      (r ∉ op.scheduledNewReqs ∧ r ∈ op.scheduledCachedReqs) := by
  have hnodup := h.scheduled.nodup_iff.mp h.nodup
  have hmem := h.scheduled.mem_iff.mp hr
  rw [nodup_append] at hnodup
  rcases mem_append.mp hmem with hnew | hcached
  · exact .inl ⟨hnew, fun hcached => hnodup.2.2 r hnew r hcached rfl⟩
  · exact .inr ⟨fun hnew => hnodup.2.2 r hnew r hcached rfl, hcached⟩

theorem Op.WellFormed.staying_not_new (h : op.WellFormed)
    (hr : r ∈ s.runner.staying (s.schedulerOutput c op)) : r ∉ op.scheduledNewReqs := by
  have hcached : r ∈ op.scheduledCachedReqs := (mem_reqIds_of_staying hr).2
  have hmem := h.scheduled.mem_iff.mpr (mem_append_right _ hcached)
  rcases h.cases hmem with ⟨_, hnot⟩ | ⟨hnot, _⟩
  · exact absurd hcached hnot
  · exact hnot

theorem updateOutputs_staying (hinv : Inv c s) (hwf : op.WellFormed)
    (hr : r ∈ s.runner.staying (s.schedulerOutput c op)) :
    s.runner.updateOutputs (s.schedulerOutput c op) r = s.runner.outputTokenIds r ∧
      s.started op r = s.history r := by
  obtain ⟨hin, hcached⟩ := mem_reqIds_of_staying hr
  have hnew : r ∉ op.scheduledNewReqs := hwf.staying_not_new hr
  have hlength := (hinv.agrees r hin).length
  constructor
  · unfold ModelRunner.updateOutputs ModelRunner.alignOutput
    have hnum : (s.schedulerOutput c op).numOutputTokens r = (s.history r).length := rfl
    have hnew' : r ∉ (s.schedulerOutput c op).scheduledNewReqs := hnew
    rw [if_neg hnew', if_pos hcached]
    rw [if_neg (fun h => h.1 hr), hnum, if_neg (by omega)]
  · unfold System.started
    rw [if_neg hnew]

theorem updateOutputs_joining (hwf : op.WellFormed) (hsettled : Settled c s op)
    (hr : r ∈ op.reqIds) (hjoin : r ∉ s.runner.staying (s.schedulerOutput c op)) :
    s.runner.updateOutputs (s.schedulerOutput c op) r = (s.started op r).map some := by
  unfold ModelRunner.updateOutputs System.started
  rcases hwf.cases hr with ⟨hnew, _⟩ | ⟨hnew, hcached⟩
  · have hnew' : r ∈ (s.schedulerOutput c op).scheduledNewReqs := hnew
    rw [if_pos hnew, if_pos hnew']
    rfl
  · have hnew' : r ∉ (s.schedulerOutput c op).scheduledNewReqs := hnew
    have hcached' : r ∈ (s.schedulerOutput c op).scheduledCachedReqs := hcached
    have hnum : (s.schedulerOutput c op).numOutputTokens r = (s.history r).length := rfl
    have hall : (s.schedulerOutput c op).allTokenIds r = c.prompt r ++ s.history r := by
      unfold System.schedulerOutput
      dsimp only
      rw [take_of_length_le (hsettled.processed r hcached hjoin)]
    rw [if_neg hnew, if_neg hnew', if_pos hcached']
    unfold ModelRunner.alignOutput
    dsimp only
    rw [hnum, hall]
    by_cases hpos : 0 < (s.history r).length
    · rw [if_pos ⟨hjoin, hpos⟩, length_append, Nat.add_sub_cancel, drop_left]
    · rw [if_neg (fun h => hpos h.2)]
      have hnil : s.history r = [] := eq_nil_of_length_eq_zero (by omega)
      rw [hnil]
      split
      · rfl
      next hlen =>
        rw [length_nil, Nat.not_lt, Nat.le_zero] at hlen
        rw [eq_nil_of_length_eq_zero hlen]
        rfl

theorem agrees_updateOutputs (hinv : Inv c s) (hwf : op.WellFormed) (hsettled : Settled c s op)
    (hr : r ∈ op.reqIds) :
    Agrees (s.started op r) (s.runner.updateOutputs (s.schedulerOutput c op) r) := by
  by_cases hstay : r ∈ s.runner.staying (s.schedulerOutput c op)
  · obtain ⟨houtput, hstarted⟩ := updateOutputs_staying hinv hwf hstay
    rw [houtput, hstarted]
    exact hinv.agrees r (mem_reqIds_of_staying hstay).1
  · rw [updateOutputs_joining hwf hsettled hr hstay]
    exact Agrees.exact _

theorem needsOutputTokenIds_updateStates (hinv : Inv c s) :
    (s.runner.updateStates c (s.schedulerOutput c op)).needsOutputTokenIds =
      c.needsOutputTokenIds op.reqIds := by
  unfold ModelRunner.updateStates
  dsimp only
  split
  · rfl
  next h =>
    have hsame : op.reqIds = s.runner.reqIds := by
      by_contra hne
      exact h (.inl hne)
    rw [hinv.metadata, hsame]

theorem updateMinToks_eq (hinv : Inv c s) (hwf : op.WellFormed) (hsettled : Settled c s op)
    (hr : r ∈ op.reqIds) :
    ModelRunner.updateMinToks c s.runner (s.schedulerOutput c op)
        (s.runner.updateOutputs (s.schedulerOutput c op)) r =
      if (s.started op r).length < c.minTokens r then some (c.minTokens r) else none := by
  have hlength := (agrees_updateOutputs hinv hwf hsettled hr).length
  unfold ModelRunner.updateMinToks
  by_cases hstay : r ∈ s.runner.staying (s.schedulerOutput c op)
  · have hin := (mem_reqIds_of_staying hstay).1
    rw [if_pos hstay]
    cases hentry : s.runner.minToks r with
    | none =>
      have hreached := hinv.reached r hin hentry
      rw [← (updateOutputs_staying hinv hwf hstay).2] at hreached
      rw [if_neg (by omega)]
    | some m =>
      dsimp only
      rw [hinv.entry r hin m hentry]
      by_cases hlt : (s.started op r).length < c.minTokens r
      · rw [if_pos hlt, if_neg (by omega)]
      · rw [if_neg hlt, if_pos (by omega)]
  · have hr' : r ∈ (s.schedulerOutput c op).reqIds := hr
    rw [if_neg hstay, if_pos hr']
    unfold ModelRunner.addMinTokens
    by_cases hlt : (s.started op r).length < c.minTokens r
    · rw [if_neg (by omega), if_pos hlt]
      dsimp only
      rw [if_neg (by omega)]
    · rw [if_pos (by omega), if_neg hlt]

/-! ## A step -/

theorem sampling_exact (hinv : Inv c s) (hwf : op.WellFormed) (hsettled : Settled c s op)
    (hneeds : c.needsOutputTokenIds op.reqIds = true) (hr : r ∈ op.reqIds) :
    (s.sampling c op).outputTokenIds r = (s.started op r).map some := by
  have hexact : s.runner.updateOutputs (s.schedulerOutput c op) r = (s.started op r).map some ∨
      (r ∈ s.runner.staying (s.schedulerOutput c op) ∧
        s.runner.Pending (s.history r) r) := by
    by_cases hstay : r ∈ s.runner.staying (s.schedulerOutput c op)
    · obtain ⟨houtput, hstarted⟩ := updateOutputs_staying hinv hwf hstay
      have hin := (mem_reqIds_of_staying hstay).1
      rw [houtput, hstarted]
      cases hold : c.needsOutputTokenIds s.runner.reqIds with
      | false =>
        left
        exact (hinv.agrees r hin).eq_of_no_placeholder (hsettled.begin hneeds hold r hstay)
      | true =>
        rcases hinv.current (hinv.metadata.trans hold) r hin with hexact | hpending
        · exact .inl hexact
        · exact .inr ⟨hstay, hpending⟩
    · exact .inl (updateOutputs_joining hwf hsettled hr hstay)
  have hhas : (s.runner.updateStates c (s.schedulerOutput c op)).hasOutputTokenIds = true := by
    unfold ModelRunner.hasOutputTokenIds
    rw [needsOutputTokenIds_updateStates hinv, hneeds]
    have hrows : (s.runner.updateStates c (s.schedulerOutput c op)).reqIds = op.reqIds := rfl
    rw [hrows, Bool.true_and, Bool.not_eq_true', isEmpty_eq_false_iff]
    exact ne_nil_of_mem hr
  unfold System.sampling ModelRunner.prepare ModelRunner.updateAsyncOutputTokenIds
  have hcpu : (s.runner.updateStates c (s.schedulerOutput c op)).sampledTokenIdsCpu =
      s.runner.sampledTokenIdsCpu := rfl
  rcases hexact with hexact | ⟨hstay, hpending⟩
  · split
    · exact hexact
    next sampledTokenIds _ =>
      rw [if_pos hhas]
      have hr' : r ∈ (s.runner.updateStates c (s.schedulerOutput c op)).reqIds := hr
      dsimp only
      rw [if_pos hr']
      exact ModelRunner.repairOutput_exact sampledTokenIds hexact
  · obtain ⟨known, token, prevIndex, sampledTokenIds, hhistory, houtput, hprev, hsampled, htoken⟩ :=
      hpending.atHand
    obtain ⟨hkeep, hstarted⟩ := updateOutputs_staying hinv hwf hstay
    rw [hcpu, hsampled]
    dsimp only
    have hr' : r ∈ (s.runner.updateStates c (s.schedulerOutput c op)).reqIds := hr
    rw [if_pos hhas]
    dsimp only
    rw [if_pos hr', hstarted, hhistory]
    exact ModelRunner.repairOutput_pending (hkeep.trans houtput) hprev htoken

theorem sampling_agrees (hinv : Inv c s) (hwf : op.WellFormed) (hsettled : Settled c s op)
    (hr : r ∈ op.reqIds) :
    Agrees (s.started op r) ((s.sampling c op).outputTokenIds r) := by
  cases hneeds : c.needsOutputTokenIds op.reqIds with
  | true =>
    rw [sampling_exact hinv hwf hsettled hneeds hr]
    exact Agrees.exact _
  | false =>
    have hhas : (s.runner.updateStates c (s.schedulerOutput c op)).hasOutputTokenIds = false := by
      unfold ModelRunner.hasOutputTokenIds
      rw [needsOutputTokenIds_updateStates hinv, hneeds, Bool.false_and]
    have hsame : s.sampling c op = s.runner.updateStates c (s.schedulerOutput c op) := by
      unfold System.sampling ModelRunner.prepare ModelRunner.updateAsyncOutputTokenIds
      split
      · rfl
      · rw [hhas]
        rfl
    rw [hsame]
    exact agrees_updateOutputs hinv hwf hsettled hr

theorem sampling_fields (c : Config) (s : System) (op : Op) :
    (s.sampling c op).reqIds = op.reqIds ∧
      (s.sampling c op).needsOutputTokenIds =
        (s.runner.updateStates c (s.schedulerOutput c op)).needsOutputTokenIds ∧
      (s.sampling c op).minToks = ModelRunner.updateMinToks c s.runner (s.schedulerOutput c op)
        (s.runner.updateOutputs (s.schedulerOutput c op)) := by
  unfold System.sampling ModelRunner.prepare ModelRunner.updateAsyncOutputTokenIds
  split
  · exact ⟨rfl, rfl, rfl⟩
  · split <;> exact ⟨rfl, rfl, rfl⟩

theorem Op.WellFormed.token (hwf : op.WellFormed) (hr : r ∈ op.reqIds) :
    ∃ token, op.sampledTokenIds[op.reqIds.idxOf r]? = some token := by
  have hlt : op.reqIds.idxOf r < op.sampledTokenIds.length := by
    rw [hwf.length]
    exact idxOf_lt_length_iff.mpr hr
  exact ⟨_, getElem?_eq_getElem hlt⟩

theorem run_runner (hne : op.reqIds ≠ []) :
    (s.run c op).runner =
      (s.sampling c op).bookkeepingSync (s.schedulerOutput c op) op.sampledTokenIds := by
  unfold System.run ModelRunner.executeModel
  have hne' : ¬(s.schedulerOutput c op).reqIds = [] := hne
  rw [if_neg hne']
  rfl

theorem run_sampled (hne : op.reqIds ≠ []) {r : ReqId} (hr : r ∈ op.reqIds) {token : Token}
    (hkept : op.discardRequestMask r = false)
    (htoken : op.sampledTokenIds[op.reqIds.idxOf r]? = some token) :
    (s.run c op).history r = s.started op r ++ [token] ∧
      (s.run c op).runner.outputTokenIds r = (s.sampling c op).outputTokenIds r ++ [none] ∧
      (s.run c op).runner.prevReqIdToIndex r = some (op.reqIds.idxOf r) := by
  have hrows := (sampling_fields c s op).1
  have hr' : r ∈ (s.sampling c op).reqIds ∧
      (s.schedulerOutput c op).discardRequestMask r = false := ⟨hrows ▸ hr, hkept⟩
  rw [run_runner hne]
  refine ⟨?_, ?_, ?_⟩
  · unfold System.run
    dsimp only
    rw [if_pos ⟨hr, hkept⟩, htoken]
    rfl
  · unfold ModelRunner.bookkeepingSync
    dsimp only
    rw [if_pos hr']
  · unfold ModelRunner.bookkeepingSync
    dsimp only
    rw [if_pos hr', hrows]

theorem run_discarded (hne : op.reqIds ≠ []) {r : ReqId}
    (hkept : ¬op.discardRequestMask r = false) :
    (s.run c op).history r = s.started op r ∧
      (s.run c op).runner.outputTokenIds r = (s.sampling c op).outputTokenIds r := by
  rw [run_runner hne]
  constructor
  · unfold System.run
    dsimp only
    rw [if_neg fun h => hkept h.2]
  · unfold ModelRunner.bookkeepingSync
    dsimp only
    rw [if_neg fun h => hkept h.2]

theorem run_fields (hinv : Inv c s) (hne : op.reqIds ≠ []) :
    (s.run c op).runner.reqIds = op.reqIds ∧
      (s.run c op).runner.needsOutputTokenIds = c.needsOutputTokenIds op.reqIds ∧
      (s.run c op).runner.minToks = (s.sampling c op).minToks ∧
      (c.needsOutputTokenIds op.reqIds = true → (s.run c op).runner.sampledTokenIdsCpu =
        some (op.sampledTokenIds.map fun t => [some t])) := by
  obtain ⟨hrows, hneeds, _⟩ := sampling_fields c s op
  rw [needsOutputTokenIds_updateStates hinv] at hneeds
  rw [run_runner hne]
  refine ⟨hrows, hneeds, rfl, ?_⟩
  intro hneeded
  unfold ModelRunner.bookkeepingSync ModelRunner.hasOutputTokenIds
  rw [if_pos]
  rw [hneeds, hneeded, hrows, Bool.true_and, Bool.not_eq_true', isEmpty_eq_false_iff]
  exact hne

theorem Inv.run (hinv : Inv c s) (hwf : op.WellFormed) (hsettled : Settled c s op) :
    Inv c (s.run c op) := by
  by_cases hempty : op.reqIds = []
  · have hempty' : (s.schedulerOutput c op).reqIds = [] := hempty
    have hrunner : (s.run c op).runner = s.runner.updateStates c (s.schedulerOutput c op) := by
      unfold System.run ModelRunner.executeModel
      rw [if_pos hempty']
    have hrows : (s.run c op).runner.reqIds = [] := by
      rw [hrunner]
      exact hempty
    have hnone : ∀ r, r ∉ (s.run c op).runner.reqIds := by
      intro r
      rw [hrows]
      exact not_mem_nil
    constructor
    · rw [hrunner, needsOutputTokenIds_updateStates hinv]
      rfl
    · exact fun r hr => absurd hr (hnone r)
    · exact fun _ r hr => absurd hr (hnone r)
    · exact fun r hr => absurd hr (hnone r)
    · exact fun r hr => absurd hr (hnone r)
  · obtain ⟨hrows, hneeds, hentries, hcpu⟩ := run_fields hinv hempty
    have hentry : ∀ r ∈ op.reqIds, (s.run c op).runner.minToks r =
        if (s.started op r).length < c.minTokens r then some (c.minTokens r) else none := by
      intro r hr
      rw [hentries, (sampling_fields c s op).2.2]
      exact updateMinToks_eq hinv hwf hsettled hr
    constructor
    · rw [hneeds, hrows]
    · intro r hr
      rw [hrows] at hr
      have hagrees := sampling_agrees hinv hwf hsettled hr
      by_cases hkept : op.discardRequestMask r = false
      · obtain ⟨token, htoken⟩ := hwf.token hr
        obtain ⟨hhistory, houtput, _⟩ := @run_sampled c s op hempty r hr token hkept htoken
        rw [hhistory, houtput]
        exact hagrees.append token
      · obtain ⟨hhistory, houtput⟩ := @run_discarded c s op hempty r hkept
        rw [hhistory, houtput]
        exact hagrees
    · intro hneeded r hr
      rw [hneeds] at hneeded
      rw [hrows] at hr
      have hexact := sampling_exact hinv hwf hsettled hneeded hr
      by_cases hkept : op.discardRequestMask r = false
      · obtain ⟨token, htoken⟩ := hwf.token hr
        obtain ⟨hhistory, houtput, hprev⟩ := @run_sampled c s op hempty r hr token hkept htoken
        right
        refine ⟨_, token, _, _, hhistory, ?_, hprev, hcpu hneeded, ?_⟩
        · rw [houtput, hexact]
        · rw [getElem?_map, htoken]
          rfl
      · obtain ⟨hhistory, houtput⟩ := @run_discarded c s op hempty r hkept
        left
        rw [hhistory, houtput, hexact]
    · intro r hr m hm
      rw [hrows] at hr
      rw [hentry r hr] at hm
      split at hm
      · exact (Option.some.inj hm).symm
      · cases hm
    · intro r hr hm
      rw [hrows] at hr
      rw [hentry r hr] at hm
      have hle : (s.started op r).length ≤ ((s.run c op).history r).length := by
        unfold System.run
        dsimp only
        split
        · rw [length_append]
          omega
        · exact Nat.le_refl _
      split at hm
      · cases hm
      · omega

end Step

/-! ## Runs -/

theorem inv_init (c : Config) : Inv c (System.init c) := by
  constructor
  · rfl
  · exact fun r hr => absurd hr not_mem_nil
  · exact fun _ r hr => absurd hr not_mem_nil
  · exact fun r hr => absurd hr not_mem_nil
  · exact fun r hr => absurd hr not_mem_nil

theorem inv_of_reachable {c : Config} {s : System}
    (h : Reachable (fun s => s = System.init c) (Step c (Settled c)) s) : Inv c s := by
  apply h.invariant
  · intro s hs
    rw [hs]
    exact inv_init c
  · intro s t hinv hstep
    obtain ⟨op, ⟨hwf, hsettled⟩, rfl⟩ := hstep
    exact hinv.run hwf hsettled

/-- In a run of settled steps, when the logits processors run, every list has an entry for
each token sampled so far, those that are needed are exact, and the stop tokens of a request
are masked until it has its minimum of tokens. -/
theorem histories_exact (c : Config) (s : System)
    (h : Reachable (fun s => s = System.init c) (Step c (Settled c)) s) (op : Op)
    (hwf : op.WellFormed) (hsettled : Settled c s op) :
    ∀ r ∈ op.reqIds,
      ((s.sampling c op).outputTokenIds r).length = (s.started op r).length ∧
      (c.needsHistory r = true →
        (s.sampling c op).outputTokenIds r = (s.started op r).map some) ∧
      ((s.sampling c op).masksStopTokens r = true ↔
        (s.started op r).length < c.minTokens r) := by
  intro r hr
  have hinv := inv_of_reachable h
  refine ⟨(sampling_agrees hinv hwf hsettled hr).length, ?_, ?_⟩
  · intro hneeds
    apply sampling_exact hinv hwf hsettled _ hr
    unfold Config.needsOutputTokenIds
    rw [any_eq_true.mpr ⟨r, hr, hneeds⟩, Bool.true_or]
  · unfold ModelRunner.masksStopTokens
    rw [(sampling_fields c s op).2.2, updateMinToks_eq hinv hwf hsettled hr]
    split
    next hlt => exact ⟨fun _ => hlt, fun _ => rfl⟩
    next hlt =>
      constructor
      · intro hsome
        cases hsome
      · intro hlt'
        exact absurd hlt' hlt

def penaltyConfig : Config where
  prompt _ := [1]
  needsHistory r := r = 1
  minTokens r := if r = 0 then 3 else 0
  logitsprocsNeedOutputTokenIds := false

def joinBoth : Op where
  scheduledNewReqs := [0, 1]
  processed _ := 9
  reqIds := [0, 1]
  sampledTokenIds := [5, 6]

def goOn : Op where
  scheduledCachedReqs := [0, 1]
  processed _ := 9
  reqIds := [1, 0]
  sampledTokenIds := [7, 8]

theorem histories_exact_joinBoth :
    (((System.init penaltyConfig).run penaltyConfig joinBoth).sampling penaltyConfig
      goOn).outputTokenIds 1 = [some 6] := by
  have hwf : joinBoth.WellFormed := ⟨by decide, by decide, by decide⟩
  have hsettled : Settled penaltyConfig (System.init penaltyConfig) joinBoth :=
    ⟨by decide, by decide⟩
  have hreach : Reachable (fun s => s = System.init penaltyConfig)
      (Step penaltyConfig (Settled penaltyConfig))
      ((System.init penaltyConfig).run penaltyConfig joinBoth) :=
    .next (.start rfl) ⟨joinBoth, ⟨hwf, hsettled⟩, rfl⟩
  exact (histories_exact penaltyConfig _ hreach goOn ⟨by decide, by decide, by decide⟩
    ⟨by decide, by decide⟩ 1 (by decide)).2.1 (by decide)

def joinFirst : Op where
  scheduledNewReqs := [0]
  processed _ := 9
  reqIds := [0]
  sampledTokenIds := [5]

/-- Request 1 joins while request 0 has a placeholder. -/
def joinSecond : Op where
  scheduledNewReqs := [1]
  scheduledCachedReqs := [0]
  processed _ := 9
  reqIds := [0, 1]
  sampledTokenIds := [7, 6]

/-- Request 0 loses a token, and its stop tokens are still masked after its minimum. -/
theorem not_histories_exact : ∃ s₁ s₂,
    Reachable (fun s => s = System.init penaltyConfig) (Step penaltyConfig fun _ _ => True) s₁ ∧
    Reachable (fun s => s = System.init penaltyConfig) (Step penaltyConfig fun _ _ => True) s₂ ∧
    goOn.WellFormed ∧ 0 ∈ goOn.reqIds ∧
    ((s₁.sampling penaltyConfig goOn).outputTokenIds 0).length = 1 ∧
    (s₁.started goOn 0).length = 2 ∧
    (s₂.sampling penaltyConfig goOn).masksStopTokens 0 = true ∧
    (s₂.started goOn 0).length = penaltyConfig.minTokens 0 := by
  have hgoOn : goOn.WellFormed := ⟨by decide, by decide, by decide⟩
  have hreach : Reachable (fun s => s = System.init penaltyConfig)
      (Step penaltyConfig fun _ _ => True)
      (((System.init penaltyConfig).run penaltyConfig joinFirst).run penaltyConfig joinSecond) :=
    .next (.next (.start rfl) ⟨joinFirst, ⟨⟨by decide, by decide, by decide⟩, trivial⟩, rfl⟩)
      ⟨joinSecond, ⟨⟨by decide, by decide, by decide⟩, trivial⟩, rfl⟩
  have hreach' := hreach.next ⟨goOn, ⟨hgoOn, trivial⟩, rfl⟩
  exact ⟨_, _, hreach, hreach', hgoOn, by decide, by decide, by decide, by decide, by decide⟩

end VllmCore.Worker.OutputHistory
