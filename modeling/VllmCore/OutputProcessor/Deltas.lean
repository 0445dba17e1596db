import VllmCore.OutputProcessor
/-!
# The deltas of a request

What was delivered for a request is a prefix of its text, its tokens and its log
probabilities; the three offsets differ.  Merging in the collector does not change what is
delivered.  The last delta of a request may have no tokens left, and then the slice of its
log probabilities is the whole list.
-/

namespace VllmCore

open List Nat Option Support

variable {σ L R β : Type}

/-! ## What the caller gets -/

def collected (f : CompletionOutput L → List β) (i : Nat) (outputs : List (CompletionOutput L)) :
    List β := (outputs.filter fun c => c.index = i).flatMap f

def CompletionOutput.positions (c : CompletionOutput L) : List L := c.logprobs.getD []

def RequestOutputCollector.outputs (queue : RequestOutputCollector L) :
    List (CompletionOutput L) := queue.output.toList.flatMap RequestOutput.outputs

/-- What the caller has taken, and what waits in the collector. -/
def OutputStream.allOutputs (s : OutputStream σ L) : List (CompletionOutput L) :=
  s.received.flatMap RequestOutput.outputs ++ s.queue.outputs

def Additive (f : CompletionOutput L → List β) : Prop :=
  ∀ c next merged : CompletionOutput L, c.merge next = .ok merged → f merged = f c ++ f next

section

variable (f : CompletionOutput L → List β)

include f

theorem collected_append (i : Nat)
    (xs ys : List (CompletionOutput L)) :
    collected f i (xs ++ ys) = collected f i xs ++ collected f i ys := by
  unfold collected
  rw [filter_append, flatMap_append]

theorem collected_cons (i : Nat) (c : CompletionOutput L)
    (xs : List (CompletionOutput L)) :
    collected f i (c :: xs) = collected f i [c] ++ collected f i xs :=
  collected_append f i [c] xs

theorem collected_singleton (c : CompletionOutput L) :
    collected f c.index [c] = f c := by
  simp [collected]

theorem collected_singleton_of_ne {c : CompletionOutput L}
    {i : Nat} (h : c.index ≠ i) : collected f i [c] = [] := by
  simp [collected, h]

theorem collected_eq_nil {i : Nat}
    {outputs : List (CompletionOutput L)} (h : i ∉ outputs.map CompletionOutput.index) :
    collected f i outputs = [] := by
  unfold collected
  rw [filter_eq_nil_iff.mpr, flatMap_nil]
  intro c hc hindex
  exact h (mem_map.mpr ⟨c, hc, of_decide_eq_true hindex⟩)

end

/-! ## Merging -/

namespace CompletionOutput

theorem merge_eq {c next : CompletionOutput L}
    (h : next.positions = [] ∨ c.logprobs.isSome = true) :
    ∃ merged, c.merge next = .ok merged ∧ merged.index = c.index ∧
      merged.logprobs.isSome = c.logprobs.isSome := by
  unfold merge
  dsimp only
  rw [pyAssert_pos, ok_bind]
  · exact ⟨_, rfl, rfl, isSome_map ..⟩
  · cases h with
    | inl hnone => exact .inl (by rw [← positions, hnone]; rfl)
    | inr hsome => exact .inr hsome

theorem merge_ok {c next merged : CompletionOutput L} (h : c.merge next = .ok merged) :
    ((next.logprobs.getD []).isEmpty = true ∨ c.logprobs.isSome = true) ∧
      merged.text = c.text ++ next.text ∧ merged.tokenIds = c.tokenIds ++ next.tokenIds ∧
      merged.logprobs = c.logprobs.map (· ++ next.logprobs.getD []) := by
  unfold merge at h
  simp only [bind_ok, pyAssert_ok, pure_ok] at h
  obtain ⟨_, hassert, rfl⟩ := h
  exact ⟨hassert, rfl, rfl, rfl⟩

theorem additive_text : Additive (L := L) text := fun _ _ _ h => (merge_ok h).2.1

theorem additive_tokenIds : Additive (L := L) tokenIds := fun _ _ _ h => (merge_ok h).2.2.1

theorem additive_positions : Additive (L := L) positions := by
  intro c next merged h
  obtain ⟨hassert, -, -, hlogprobs⟩ := merge_ok h
  unfold positions
  rw [hlogprobs]
  cases hc : c.logprobs with
  | some ls => rfl
  | none =>
    rw [hc] at hassert
    have hempty : next.logprobs.getD [] = [] := by
      apply List.isEmpty_iff.mp
      exact hassert.resolve_right Bool.false_ne_true
    rw [hempty]
    rfl

theorem addTo_spec {next : CompletionOutput L} {outputs : List (CompletionOutput L)}
    (hnodup : (outputs.map index).Nodup) (hlogprobs : ∀ c ∈ outputs, c.index = next.index →
      next.positions = [] ∨ c.logprobs.isSome = true) :
    ∃ outputs', next.addTo true outputs = .ok outputs' ∧ (outputs'.map index).Nodup ∧
      (∀ c ∈ outputs', c ∈ outputs ∨ c = next ∨
        ∃ c₀ ∈ outputs, c₀.index = c.index ∧ c.logprobs.isSome = c₀.logprobs.isSome) ∧
      (∀ i ∈ outputs'.map index, i = next.index ∨ i ∈ outputs.map index) ∧
      ∀ {β : Type} (f : CompletionOutput L → List β), Additive f → ∀ i,
        collected f i outputs' = collected f i outputs ++ collected f i [next] := by
  induction outputs with
  | nil =>
    refine ⟨[next], rfl, nodup_singleton _, ?_, ?_, fun f _ i => rfl⟩
    · exact fun c hc => .inr (.inl (mem_singleton.mp hc))
    · exact fun i hi => .inl (mem_singleton.mp hi)
  | cons c rest ih =>
    rw [map_cons, nodup_cons] at hnodup
    by_cases hindex : c.index = next.index
    · obtain ⟨merged, hmerge, hmerged, hsome⟩ :=
        merge_eq (hlogprobs c mem_cons_self hindex)
      refine ⟨merged :: rest, ?_, ?_, ?_, ?_, ?_⟩
      · rw [addTo, if_pos hindex, if_pos rfl, hmerge]
        rfl
      · rw [map_cons, hmerged, nodup_cons]
        exact hnodup
      · intro c' hc'
        cases mem_cons.mp hc' with
        | inl heq =>
          rw [heq]
          exact .inr (.inr ⟨c, mem_cons_self, hmerged.symm, hsome⟩)
        | inr hrest => exact .inl (mem_cons_of_mem c hrest)
      · intro i hi
        rw [map_cons, hmerged] at hi
        exact .inr hi
      · intro β f hf i
        rw [collected_cons f i merged, collected_cons f i c]
        by_cases hi : c.index = i
        · have hrest : collected f i rest = [] := collected_eq_nil f (hi ▸ hnodup.1)
          have hnext : collected f i [next] = f next := by
            rw [← hi, hindex, collected_singleton]
          have hc : collected f i [c] = f c := by rw [← hi, collected_singleton]
          have hm : collected f i [merged] = f merged := by
            rw [← hi, ← hmerged, collected_singleton]
          rw [hrest, hnext, hc, hm, hf c next merged hmerge, append_nil, append_nil]
        · have hnext : next.index ≠ i := fun heq => hi (hindex.trans heq)
          have hm : merged.index ≠ i := fun heq => hi (hmerged.symm.trans heq)
          rw [collected_singleton_of_ne f hi, collected_singleton_of_ne f hnext,
            collected_singleton_of_ne f hm, append_nil]
    · obtain ⟨rest', hadd, hnodup', hfrom, hindices, hcollected⟩ :=
        ih hnodup.2 fun c' hc' => hlogprobs c' (mem_cons_of_mem c hc')
      refine ⟨c :: rest', ?_, ?_, ?_, ?_, ?_⟩
      · rw [addTo, if_neg hindex, hadd]
        rfl
      · rw [map_cons, nodup_cons]
        refine ⟨fun hmem => ?_, hnodup'⟩
        cases hindices _ hmem with
        | inl heq => exact hindex heq
        | inr hrest => exact hnodup.1 hrest
      · intro c' hc'
        cases mem_cons.mp hc' with
        | inl heq => exact .inl (heq ▸ mem_cons_self)
        | inr hrest =>
          cases hfrom c' hrest with
          | inl hold => exact .inl (mem_cons_of_mem c hold)
          | inr hnew =>
            cases hnew with
            | inl heq => exact .inr (.inl heq)
            | inr hmerged =>
              obtain ⟨c₀, hc₀, hsame⟩ := hmerged
              exact .inr (.inr ⟨c₀, mem_cons_of_mem c hc₀, hsame⟩)
      · intro i hi
        rw [map_cons, mem_cons] at hi ⊢
        cases hi with
        | inl heq => exact .inr (.inl heq)
        | inr hrest =>
          cases hindices i hrest with
          | inl heq => exact .inl heq
          | inr hold => exact .inr (.inr hold)
      · intro β f hf i
        rw [collected_cons f i c rest', collected_cons f i c rest, hcollected f hf i,
          append_assoc]

end CompletionOutput

namespace RequestOutputCollector

/-- A collector that merges; an output has log probabilities where its request has. -/
structure Ready (logged : Nat → Bool) (queue : RequestOutputCollector L) : Prop where
  aggregate : queue.aggregate = true
  nodup : (queue.outputs.map CompletionOutput.index).Nodup
  logged : ∀ c ∈ queue.outputs, c.logprobs.isSome = logged c.index

theorem Ready.put {logged : Nat → Bool} {queue : RequestOutputCollector L} (h : queue.Ready logged)
    {output : RequestOutput L} (hone : output.outputs.length ≤ 1)
    (hlogged : ∀ c ∈ output.outputs, c.logprobs.isSome = logged c.index) :
    ∃ queue', queue.put output = .ok queue' ∧ queue'.Ready logged ∧
      ∀ {β : Type} (f : CompletionOutput L → List β), Additive f → ∀ i,
        collected f i queue'.outputs =
          collected f i queue.outputs ++ collected f i output.outputs := by
  obtain ⟨aggregate, pending⟩ := queue
  have haggregate : aggregate = true := h.aggregate
  subst haggregate
  cases pending with
  | none =>
    have houtputs : RequestOutputCollector.outputs ⟨true, some output⟩ = output.outputs :=
      append_nil _
    refine ⟨⟨true, some output⟩, rfl, ⟨rfl, ?_, ?_⟩, ?_⟩
    · rw [houtputs]
      cases houtput : output.outputs with
      | nil => exact nodup_nil
      | cons c rest =>
        rw [houtput, length_cons] at hone
        rw [eq_nil_of_length_eq_zero (by omega : rest.length = 0)]
        exact nodup_singleton _
    · rw [houtputs]
      exact hlogged
    · intro β f _ i
      rw [houtputs]
      rfl
  | some pending =>
    have hpending : RequestOutputCollector.outputs ⟨true, some pending⟩ = pending.outputs :=
      append_nil _
    cases houtput : output.outputs with
    | nil =>
      refine ⟨⟨true, some { pending with finished := pending.finished || output.finished }⟩,
        ?_, ⟨rfl, h.nodup, h.logged⟩, ?_⟩
      · unfold RequestOutputCollector.put RequestOutput.add
        rw [houtput]
        rfl
      · intro β f _ i
        exact (append_nil _).symm
    | cons next rest =>
      rw [houtput, length_cons] at hone
      rw [eq_nil_of_length_eq_zero (by omega : rest.length = 0)] at houtput ⊢
      have hnext : next.logprobs.isSome = logged next.index :=
        hlogged next (by rw [houtput]; exact mem_cons_self)
      obtain ⟨outputs', hadd, hnodup, hfrom, -, hcollected⟩ :=
        @CompletionOutput.addTo_spec L next pending.outputs (hpending ▸ h.nodup) (by
          intro c hc hindex
          have hc' := h.logged c (hpending ▸ hc)
          cases hlp : next.logprobs with
          | none => exact .inl (by unfold CompletionOutput.positions; rw [hlp]; rfl)
          | some ls =>
            rw [hlp] at hnext
            exact .inr (by rw [hc', hindex, ← hnext]; rfl))
      have houtputs' : RequestOutputCollector.outputs
          ⟨true, some ⟨outputs', pending.finished || output.finished⟩⟩ = outputs' :=
        append_nil _
      refine ⟨⟨true, some ⟨outputs', pending.finished || output.finished⟩⟩, ?_,
        ⟨rfl, ?_, ?_⟩, ?_⟩
      · unfold RequestOutputCollector.put RequestOutput.add
        rw [houtput]
        simp only [foldlM_cons, foldlM_nil, hadd, ok_bind]
        rfl
      · rw [houtputs']
        exact hnodup
      · rw [houtputs']
        intro c hc
        cases hfrom c hc with
        | inl hold => exact h.logged c (hpending ▸ hold)
        | inr hnew =>
          cases hnew with
          | inl heq => exact heq ▸ hnext
          | inr hmerged =>
            obtain ⟨c₀, hc₀, hindex, hsome⟩ := hmerged
            rw [hsome, h.logged c₀ (hpending ▸ hc₀), hindex]
      · intro β f hf i
        rw [houtputs', hpending]
        exact hcollected f hf i

end RequestOutputCollector

/-! ## One output of a request -/

namespace IncrementalDetokenizer

def lastOutputTextOffset : IncrementalDetokenizer σ → Nat
  | withoutText _ => 0
  | withText d => d.lastOutputTextOffset

def stopBufferLength : IncrementalDetokenizer σ → Nat
  | withoutText _ => 0
  | withText d => d.stopBufferLength

def stop : IncrementalDetokenizer σ → List (List Char)
  | withoutText _ => []
  | withText d => d.stop

theorem numOutputTokens_eq (d : IncrementalDetokenizer σ) :
    d.numOutputTokens = d.outputTokenIds.length := by
  cases d with
  | withoutText tokenIds => rfl
  | withText d => exact d.numOutputTokens_eq

theorem stopBufferLength_eq_zero {d : IncrementalDetokenizer σ} (h : d.stop = []) :
    d.stopBufferLength = 0 := by
  cases d with
  | withoutText tokenIds => rfl
  | withText d =>
    have hstop : d.stop = [] := h
    show d.stopBufferLength = 0
    unfold BaseIncrementalDetokenizer.stopBufferLength
    rw [if_neg (fun hne => hne.1 hstop)]

theorem update_spec (d : IncrementalDetokenizer σ) (newTokenIds : List Token)
    (stopTerminated : Bool) {stopString : Option (List Char)} {d' : IncrementalDetokenizer σ}
    (h : d.update newTokenIds stopTerminated = (stopString, d'))
    (hlast : d.lastOutputTextOffset ≤ d.outputText.length - d.stopBufferLength) :
    d'.outputTokenIds = d.outputTokenIds ++ newTokenIds ∧ d'.stop = d.stop ∧
      d'.lastOutputTextOffset = d.lastOutputTextOffset ∧
      d'.outputText.take d.lastOutputTextOffset = d.outputText.take d.lastOutputTextOffset ∧
      d.lastOutputTextOffset ≤ d'.outputText.length ∧
      (stopString = none → d.lastOutputTextOffset ≤ d'.outputText.length - d'.stopBufferLength) ∧
      ∀ s, stopString = some s → s ≠ [] ∧ d.stop ≠ [] := by
  cases d with
  | withoutText tokenIds =>
    cases h
    exact ⟨rfl, rfl, rfl, rfl, zero_le _, fun _ => zero_le _, fun s hs => by cases hs⟩
  | withText d =>
    have hupdated := d.update_spec newTokenIds stopTerminated
    cases h
    obtain ⟨htake, hle, hnone⟩ := hupdated.returned d.lastOutputTextOffset hlast
    exact ⟨hupdated.outputTokenIds, hupdated.stop, hupdated.lastOffset, htake, hle, hnone,
      hupdated.found⟩

theorem getNextOutputText_spec (d : IncrementalDetokenizer σ) (finished : Bool)
    {text : List Char} {d' : IncrementalDetokenizer σ}
    (h : d.getNextOutputText finished true = (text, d')) (hlast : d.lastOutputTextOffset ≤
      d.outputText.length - if finished then 0 else d.stopBufferLength) :
    d'.outputTokenIds = d.outputTokenIds ∧ d'.outputText = d.outputText ∧ d'.stop = d.stop ∧
      d'.stopBufferLength = d.stopBufferLength ∧
      d.outputText.take d.lastOutputTextOffset ++ text =
        d'.outputText.take d'.lastOutputTextOffset ∧
      d'.lastOutputTextOffset =
        d.outputText.length - (if finished then 0 else d.stopBufferLength) := by
  cases d with
  | withoutText tokenIds =>
    cases h
    exact ⟨rfl, rfl, rfl, rfl, rfl, by cases finished <;> rfl⟩
  | withText d =>
    obtain ⟨hsame, htext, hoffset⟩ := d.getNextOutputText_spec finished hlast
    cases h
    exact ⟨hsame.outputTokenIds, hsame.text, hsame.stop, hsame.stopBufferLength, htext, hoffset⟩

end IncrementalDetokenizer

namespace RequestState

/-- The number of tokens that were sent, when the last `new` were not. -/
def sentTokens (r : RequestState σ L) (new : Nat) : Nat :=
  if 1 < r.streamInterval then r.sentTokensOffset else r.detokenizer.numOutputTokens - new

/-- What was delivered of a request whose last `new` tokens were not: of its text, its tokens
and its log probabilities the parts before the three offsets. -/
structure Owes (r : RequestState σ L) (new : Nat) (held : Bool) (text : List Char)
    (tokenIds : List Token) (positions : List L) : Prop where
  text : text = r.detokenizer.outputText.take r.detokenizer.lastOutputTextOffset
  offset : r.detokenizer.lastOutputTextOffset ≤
    r.detokenizer.outputText.length - if held then r.detokenizer.stopBufferLength else 0
  sent : r.sentTokens new + new ≤ r.detokenizer.numOutputTokens
  tokenIds : tokenIds = r.detokenizer.outputTokenIds.take (r.sentTokens new)
  positions : positions = (r.logprobs.getD []).take (r.sentTokens new)
  aligned : ∀ ls, r.logprobs = some ls → ls.length = r.detokenizer.numOutputTokens

structure Settled (r : RequestState σ L) (text : List Char) (tokenIds : List Token)
    (positions : List L) : Prop where
  text : text = r.detokenizer.outputText
  tokenIds : tokenIds = r.detokenizer.outputTokenIds
  positions : positions = r.logprobs.getD []

/-- The parts of a request that its outputs do not change. -/
structure SameSettings (r r' : RequestState σ L) : Prop where
  requestIndex : r'.requestIndex = r.requestIndex
  outputKind : r'.outputKind = r.outputKind
  logged : r'.logprobs.isSome = r.logprobs.isSome
  stop : r'.detokenizer.stop = r.detokenizer.stop
  streamingInput : r'.streamingInput = r.streamingInput
  inputChunkQueue : r'.inputChunkQueue = r.inputChunkQueue

variable {r : RequestState σ L} {new : Nat} {positions : List L} {text : List Char}
  {tokenIds : List Token} {finishReason : Option FinishReason}

theorem SameSettings.trans {r₁ r₂ : RequestState σ L} (h₁ : r.SameSettings r₁)
    (h₂ : r₁.SameSettings r₂) : r.SameSettings r₂ :=
  { requestIndex := h₂.requestIndex.trans h₁.requestIndex
    outputKind := h₂.outputKind.trans h₁.outputKind
    logged := h₂.logged.trans h₁.logged
    stop := h₂.stop.trans h₁.stop
    streamingInput := h₂.streamingInput.trans h₁.streamingInput
    inputChunkQueue := h₂.inputChunkQueue.trans h₁.inputChunkQueue }

theorem Owes.weaken {held : Bool} (h : r.Owes new held text tokenIds positions) :
    r.Owes new false text tokenIds positions := by
  have hoffset := h.offset
  refine { h with offset := ?_ }
  rw [if_neg (by decide)]
  omega

theorem length_foldl_position (position : List L → R → L) (rows : List R) (ls : List L) :
    (rows.foldl (fun ls row => ls ++ [position ls row]) ls).length = ls.length + rows.length ∧
      ls <+: rows.foldl (fun ls row => ls ++ [position ls row]) ls := by
  induction rows generalizing ls with
  | nil => exact ⟨rfl, prefix_rfl⟩
  | cons row rows ih =>
    obtain ⟨hlength, hprefix⟩ := ih (ls ++ [position ls row])
    rw [length_append, length_singleton] at hlength
    rw [foldl_cons, length_cons]
    exact ⟨by omega, (prefix_append ls _).trans hprefix⟩

theorem updateLogprobs_spec (position : List L → R → L) {logprobs : Option (List L)}
    {newLogprobs : Option (List R)} {k : Nat}
    (h : newLogprobs.map List.length = logprobs.map fun _ => k) :
    ∃ logprobs', updateLogprobs position logprobs newLogprobs = .ok logprobs' ∧
      logprobs'.isSome = logprobs.isSome ∧ logprobs.getD [] <+: logprobs'.getD [] ∧
      ∀ ls', logprobs' = some ls' → ∃ ls, logprobs = some ls ∧ ls'.length = ls.length + k := by
  cases newLogprobs with
  | none =>
    cases logprobs with
    | none => exact ⟨none, rfl, rfl, prefix_rfl, fun ls' h' => by cases h'⟩
    | some ls => cases h
  | some rows =>
    cases logprobs with
    | none => cases h
    | some ls =>
      have hrows : rows.length = k := Option.some.inj h
      obtain ⟨hlength, hprefix⟩ := length_foldl_position position rows ls
      refine ⟨some (rows.foldl (fun ls row => ls ++ [position ls row]) ls), ?_, rfl, hprefix, ?_⟩
      · unfold updateLogprobs
        dsimp only
        rfl
      · intro ls' h'
        cases h'
        exact ⟨ls, rfl, by omega⟩

theorem Owes.updateFromOutput (h : r.Owes 0 true text tokenIds positions)
    (position : List L → R → L) {o : GeneratedOutput R}
    (hlogprobs : o.newLogprobs.map List.length = r.logprobs.map fun _ => o.newTokenIds.length) :
    ∃ stopString r', r.updateFromOutput position o = .ok (stopString, r') ∧
      r.SameSettings r' ∧
      r'.Owes o.newTokenIds.length stopString.isNone text tokenIds positions ∧
      o.newTokenIds = r'.detokenizer.outputTokenIds.drop
        (r'.detokenizer.numOutputTokens - o.newTokenIds.length) ∧
      r'.sentTokens o.newTokenIds.length = r.sentTokens 0 ∧
      r'.detokenizer.numOutputTokens =
        r.detokenizer.numOutputTokens + o.newTokenIds.length ∧
      ∀ s, stopString = some s → s ≠ [] ∧ r.detokenizer.stop ≠ [] := by
  obtain ⟨logprobs, hupdate, hlogged, hprefix, haligned⟩ := updateLogprobs_spec position hlogprobs
  have hoffset := h.offset
  obtain ⟨stopString, detokenizer, hdetokenizer⟩ : ∃ stopString detokenizer,
      r.detokenizer.update o.newTokenIds (decide (o.finishReason = some .stop)) =
        (stopString, detokenizer) := ⟨_, _, rfl⟩
  obtain ⟨htokens, hstop, hlast, htake, hle, hnone, hfound⟩ :=
    r.detokenizer.update_spec o.newTokenIds _ hdetokenizer hoffset
  have hnum : detokenizer.numOutputTokens =
      r.detokenizer.numOutputTokens + o.newTokenIds.length := by
    rw [IncrementalDetokenizer.numOutputTokens_eq, IncrementalDetokenizer.numOutputTokens_eq,
      htokens, length_append]
  have hold : r.detokenizer.numOutputTokens = r.detokenizer.outputTokenIds.length :=
    IncrementalDetokenizer.numOutputTokens_eq _
  have hsent : RequestState.sentTokens { r with detokenizer := detokenizer, logprobs := logprobs }
      o.newTokenIds.length = r.sentTokens 0 := by
    unfold RequestState.sentTokens
    dsimp only
    split
    · rfl
    · omega
  have hbound := h.sent
  refine ⟨stopString, { r with detokenizer := detokenizer, logprobs := logprobs }, ?_, ?_, ?_, ?_,
    hsent, hnum, hfound⟩
  · unfold RequestState.updateFromOutput
    rw [hdetokenizer]
    simp only [hupdate, ok_bind]
    rfl
  · exact ⟨rfl, rfl, hlogged, hstop, rfl, rfl⟩
  · constructor
    · show text = detokenizer.outputText.take detokenizer.lastOutputTextOffset
      rw [hlast, htake]
      exact h.text
    · show detokenizer.lastOutputTextOffset ≤ _
      rw [hlast]
      cases stopString with
      | none => exact hnone rfl
      | some s => exact hle
    · rw [hsent]
      show r.sentTokens 0 + o.newTokenIds.length ≤ detokenizer.numOutputTokens
      omega
    · rw [hsent]
      rw [htokens, take_append_of_le_length (by omega)]
      exact h.tokenIds
    · rw [hsent]
      rw [h.positions]
      obtain ⟨more, hmore⟩ := hprefix
      cases hr : r.logprobs with
      | none =>
        rw [hr] at hlogged
        have hnone : logprobs = none := not_isSome_iff_eq_none.mp (by
          rw [hlogged]
          exact Bool.false_ne_true)
        rw [hnone]
      | some ls =>
        have hlength := h.aligned ls hr
        rw [hr] at hmore
        rw [← hmore]
        exact (take_append_of_le_length (by rw [getD_some]; omega)).symm
    · intro ls' hls'
      obtain ⟨ls, hr, hlength⟩ := haligned ls' hls'
      have hls := h.aligned ls hr
      show ls'.length = detokenizer.numOutputTokens
      omega
  · show o.newTokenIds = detokenizer.outputTokenIds.drop _
    rw [htokens, hnum, Nat.add_sub_cancel, hold, drop_left]

theorem logprobsSlice_eq {ls : List L} {sent n : Nat} (hlength : ls.length = n) (hsent : sent ≤ n)
    (hne : sent < n ∨ ls = []) : logprobsSlice ls (n - sent) = ls.drop sent := by
  unfold logprobsSlice
  split
  · have hnil : ls = [] := by
      apply hne.resolve_left
      omega
    rw [hnil, drop_nil]
  · rw [hlength, Nat.sub_sub_self hsent]

theorem newCompletionOutput_spec {r : RequestState σ L} {sent : Nat}
    (finishReason : Option FinishReason) (stopReason : Option OutputStopReason)
    (hkind : r.outputKind = .delta)
    (hoffset : r.detokenizer.lastOutputTextOffset ≤ r.detokenizer.outputText.length -
      if finishReason.isSome then 0 else r.detokenizer.stopBufferLength) :
    ∃ c d, r.newCompletionOutput (r.detokenizer.outputTokenIds.drop sent) finishReason stopReason =
        (c, { r with detokenizer := d }) ∧
      c.index = r.requestIndex ∧ c.finishReason = finishReason ∧
      c.logprobs.isSome = r.logprobs.isSome ∧
      d.outputTokenIds = r.detokenizer.outputTokenIds ∧ d.outputText = r.detokenizer.outputText ∧
      d.stop = r.detokenizer.stop ∧ d.stopBufferLength = r.detokenizer.stopBufferLength ∧
      r.detokenizer.outputText.take r.detokenizer.lastOutputTextOffset ++ c.text =
        d.outputText.take d.lastOutputTextOffset ∧
      d.lastOutputTextOffset = r.detokenizer.outputText.length -
        (if finishReason.isSome then 0 else r.detokenizer.stopBufferLength) ∧
      c.tokenIds = r.detokenizer.outputTokenIds.drop sent ∧
      c.positions = logprobsSlice (r.logprobs.getD []) (r.detokenizer.numOutputTokens - sent) := by
  obtain ⟨text, d, htext⟩ : ∃ text d,
      r.detokenizer.getNextOutputText finishReason.isSome true = (text, d) := ⟨_, _, rfl⟩
  obtain ⟨htokens, houtput, hstop, hbuffer, hdelta, hlast⟩ :=
    r.detokenizer.getNextOutputText_spec finishReason.isSome htext hoffset
  have hnew : r.newCompletionOutput (r.detokenizer.outputTokenIds.drop sent) finishReason
      stopReason = ({ index := r.requestIndex
                      text := text
                      tokenIds := r.detokenizer.outputTokenIds.drop sent
                      logprobs := r.logprobs.map
                        (logprobsSlice · (r.detokenizer.outputTokenIds.drop sent).length)
                      finishReason := finishReason
                      stopReason := if finishReason.isSome then stopReason else none },
                    { r with detokenizer := d }) := by
    unfold newCompletionOutput
    simp only [hkind, decide_true, if_true, htext]
  refine ⟨_, d, hnew, rfl, rfl, isSome_map .., htokens, houtput, hstop, hbuffer, hdelta,
    hlast, rfl, ?_⟩
  rw [length_drop, ← IncrementalDetokenizer.numOutputTokens_eq]
  cases r.logprobs with
  | none =>
    show [] = logprobsSlice [] _
    unfold logprobsSlice
    rw [drop_nil, ite_self]
  | some ls => rfl

def counted (r : RequestState σ L) : RequestState σ L :=
  { r with
    sentTokensOffset := if 1 < r.streamInterval then r.detokenizer.numOutputTokens
      else r.sentTokensOffset }

theorem nextOutput_eq {newTokenIds : List Token} {stopReason : Option OutputStopReason}
    (hkind : r.outputKind = .delta)
    (hnew : newTokenIds = r.detokenizer.outputTokenIds.drop (r.detokenizer.numOutputTokens - new))
    (hsend : ¬(1 < r.streamInterval ∧ ¬(finishReason.isSome = true ∨ r.sentTokensOffset = 0 ∨
      r.sentTokensOffset + r.streamInterval ≤ r.detokenizer.numOutputTokens))) :
    r.nextOutput newTokenIds finishReason stopReason =
      some (r.counted.newCompletionOutput (r.detokenizer.outputTokenIds.drop (r.sentTokens new))
        finishReason stopReason) := by
  unfold RequestState.nextOutput counted sentTokens
  rw [if_neg (by rw [hkind]; exact fun hf => by cases hf.2), if_neg hsend]
  by_cases hinterval : 1 < r.streamInterval
  · rw [if_pos ⟨hinterval, hkind⟩, if_pos hinterval, if_pos hinterval]
  · rw [if_neg (fun hboth => hinterval hboth.1), if_neg hinterval, if_neg hinterval, hnew]

theorem Owes.logprobs_eq_nil {held : Bool} (h : r.Owes new held text tokenIds positions)
    (hnum : r.detokenizer.numOutputTokens = 0) : r.logprobs.getD [] = [] := by
  cases hr : r.logprobs with
  | none => rfl
  | some ls =>
    apply eq_nil_of_length_eq_zero
    rw [getD_some, h.aligned ls hr, hnum]

theorem Owes.nextOutput {newTokenIds : List Token} (stopReason : Option OutputStopReason)
    (h : r.Owes new (!finishReason.isSome) text tokenIds positions) (hkind : r.outputKind = .delta)
    (hnew : newTokenIds = r.detokenizer.outputTokenIds.drop (r.detokenizer.numOutputTokens - new))
    (hne : r.sentTokens new < r.detokenizer.numOutputTokens ∨ r.logprobs.getD [] = []) :
    (r.nextOutput newTokenIds finishReason stopReason = none ∧ finishReason = none ∧
        r.Owes 0 true text tokenIds positions) ∨
      ∃ c r', r.nextOutput newTokenIds finishReason stopReason = some (c, r') ∧
        c.index = r.requestIndex ∧ c.logprobs.isSome = r.logprobs.isSome ∧
        c.finishReason = finishReason ∧ r.SameSettings r' ∧
        r'.Owes 0 (!finishReason.isSome) (text ++ c.text) (tokenIds ++ c.tokenIds)
          (positions ++ c.positions) ∧
        (finishReason.isSome = true →
          r'.Settled (text ++ c.text) (tokenIds ++ c.tokenIds) (positions ++ c.positions)) := by
  have hoffset : r.detokenizer.lastOutputTextOffset ≤ r.detokenizer.outputText.length -
      if finishReason.isSome then 0 else r.detokenizer.stopBufferLength := by
    have hle := h.offset
    cases finishReason with
    | none => exact hle
    | some reason => exact hle
  have hbound := h.sent
  by_cases hwait : 1 < r.streamInterval ∧ ¬(finishReason.isSome = true ∨ r.sentTokensOffset = 0 ∨
      r.sentTokensOffset + r.streamInterval ≤ r.detokenizer.numOutputTokens)
  · have hnone : finishReason = none := by
      cases finishReason with
      | none => rfl
      | some reason => exact absurd (.inl rfl) hwait.2
    have hsent : r.sentTokens new = r.sentTokens 0 := by
      unfold sentTokens
      rw [if_pos hwait.1, if_pos hwait.1]
    left
    refine ⟨?_, hnone, ?_⟩
    · unfold RequestState.nextOutput
      rw [if_neg (by rw [hkind]; exact fun hf => by cases hf.2), if_pos hwait]
    · rw [hnone] at h
      exact ⟨h.text, h.offset, by omega, hsent ▸ h.tokenIds, hsent ▸ h.positions, h.aligned⟩
  · right
    obtain ⟨c, d, hout, hindex, hreason, hlogged, htokens, houtput, hstop, hbuffer, hdelta, hlast,
      hids, hslice⟩ := @newCompletionOutput_spec σ L r.counted (r.sentTokens new) finishReason
        stopReason hkind hoffset
    have hpositions : c.positions = (r.logprobs.getD []).drop (r.sentTokens new) := by
      rw [hslice]
      cases hr : r.logprobs with
      | none =>
        show logprobsSlice (r.logprobs.getD []) _ = _
        rw [hr]
        unfold logprobsSlice
        rw [getD_none, drop_nil, ite_self, drop_nil]
      | some ls =>
        show logprobsSlice (r.logprobs.getD []) (r.detokenizer.numOutputTokens - _) = _
        rw [hr] at hne ⊢
        exact logprobsSlice_eq (h.aligned ls hr) (by omega) hne
    have hnum : d.numOutputTokens = r.detokenizer.numOutputTokens := by
      rw [IncrementalDetokenizer.numOutputTokens_eq, htokens]
      exact (IncrementalDetokenizer.numOutputTokens_eq _).symm
    have hall : ∀ ids : List Token, ids = r.detokenizer.outputTokenIds →
        ids = d.outputTokenIds.take d.numOutputTokens := by
      intro ids hids
      rw [hids, hnum, IncrementalDetokenizer.numOutputTokens_eq, htokens]
      exact (take_length).symm
    have hsent : RequestState.sentTokens { r.counted with detokenizer := d } 0 =
        d.numOutputTokens := by
      unfold sentTokens counted
      split
      · exact hnum.symm
      · rfl
    have htext : text ++ c.text = d.outputText.take d.lastOutputTextOffset := by
      rw [h.text]
      exact hdelta
    have hjoined : tokenIds ++ c.tokenIds = r.detokenizer.outputTokenIds := by
      rw [h.tokenIds, hids]
      exact take_append_drop ..
    have hlps : positions ++ c.positions = r.logprobs.getD [] := by
      rw [h.positions, hpositions, take_append_drop]
    refine ⟨c, { r.counted with detokenizer := d }, ?_, hindex, hlogged, hreason,
      ⟨rfl, rfl, rfl, hstop, rfl, rfl⟩, ?_, ?_⟩
    · rw [nextOutput_eq hkind hnew hwait]
      exact congrArg some hout
    · constructor
      · exact htext
      · show d.lastOutputTextOffset ≤ d.outputText.length - _
        rw [houtput, hlast, hbuffer]
        cases finishReason with
        | none => exact le_refl _
        | some reason => exact le_refl _
      · rw [hsent]
        exact le_refl _
      · rw [hsent]
        exact hall _ hjoined
      · rw [hsent, hlps]
        show r.logprobs.getD [] = (r.logprobs.getD []).take d.numOutputTokens
        cases hr : r.logprobs with
        | none => exact (take_nil).symm
        | some ls =>
          have hlength := h.aligned ls hr
          rw [getD_some, take_of_length_le (by omega)]
      · intro ls hls
        exact (h.aligned ls hls).trans hnum.symm
    · intro hfinished
      rw [if_pos hfinished, Nat.sub_zero] at hlast
      constructor
      · rw [htext, hlast, ← houtput, take_length]
      · exact hjoined.trans htokens.symm
      · exact hlps

theorem Owes.nextOutput_repeats (stopReason : Option OutputStopReason)
    (h : r.Owes 0 (!finishReason.isSome) text tokenIds positions) (hkind : r.outputKind = .delta)
    (hfinish : finishReason.isSome = true)
    (hsent : r.sentTokens 0 = r.detokenizer.numOutputTokens) :
    ∃ c r', r.nextOutput [] finishReason stopReason = some (c, r') ∧ c.index = r.requestIndex ∧
      c.logprobs.isSome = r.logprobs.isSome ∧ c.finishReason = finishReason ∧
      r'.logprobs = r.logprobs ∧ r'.streamingInput = r.streamingInput ∧
      c.positions = r.logprobs.getD [] := by
  have hoffset : r.detokenizer.lastOutputTextOffset ≤ r.detokenizer.outputText.length -
      if finishReason.isSome then 0 else r.detokenizer.stopBufferLength := by
    have hle := h.offset
    rw [hfinish] at hle ⊢
    exact hle
  have hnil : ([] : List Token) = r.detokenizer.outputTokenIds.drop
      (r.detokenizer.numOutputTokens - 0) := by
    rw [Nat.sub_zero, IncrementalDetokenizer.numOutputTokens_eq, drop_length]
  obtain ⟨c, d, hout, hindex, hreason, hlogged, -, -, -, -, -, -, -, hslice⟩ :=
    @newCompletionOutput_spec σ L r.counted (r.sentTokens 0) finishReason stopReason hkind hoffset
  refine ⟨c, { r.counted with detokenizer := d }, ?_, hindex, hlogged, hreason, rfl, rfl, ?_⟩
  · rw [nextOutput_eq hkind hnil (fun hwait => hwait.2 (.inl hfinish))]
    exact congrArg some hout
  · rw [hslice]
    show logprobsSlice (r.logprobs.getD []) (r.detokenizer.numOutputTokens - r.sentTokens 0) = _
    rw [hsent, Nat.sub_self]
    exact if_pos rfl

end RequestState

end VllmCore
