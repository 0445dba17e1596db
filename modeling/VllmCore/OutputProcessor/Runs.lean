import VllmCore.OutputProcessor.Deltas
/-!
# Runs of the output processor

Whatever the engine returns, and whenever the caller takes the outputs, the deltas of a
finished request add up, unless it ends with an output that has no tokens left while it
has log probabilities: those are then delivered again.
-/

namespace VllmCore

open Function List Nat Option Support

variable {σ L R β : Type}

/-- A request before its first output; a session has no stop strings. -/
structure RequestState.Fresh (session : Bool) (i : Nat) (r : RequestState σ L) : Prop where
  requestIndex : r.requestIndex = i
  outputKind : r.outputKind = .delta
  outputTokenIds : r.detokenizer.outputTokenIds = []
  outputText : r.detokenizer.outputText = []
  offset : r.detokenizer.lastOutputTextOffset = 0
  stop : session = true → r.detokenizer.stop = []
  logprobs : r.logprobs.getD [] = []
  sentTokensOffset : r.sentTokensOffset = 0
  streamingInput : r.streamingInput = session
  inputChunkQueue : r.inputChunkQueue = if session then some [] else none

namespace OutputStream

/-- The requests of a caller that asks for `n` samples. -/
def start (states : Nat → RequestState σ L) (n : Nat) : OutputStream σ L where
  states := states
  requestStates := List.range n
  parentReq := if n = 1 then none else
    some { outputKind := .delta, childRequests := List.range n, outputAggregator := [] }
  queue := { aggregate := true }

/-- New requests; a session is a single request. -/
def Start (session : Bool) (s : OutputStream σ L) : Prop :=
  ∃ states n, (∀ i, RequestState.Fresh session i (states i)) ∧ (session = true → n = 1) ∧
    s = start states n

def AddsUp (s : OutputStream σ L) (i : Nat) : Prop :=
  (s.states i).Settled (collected CompletionOutput.text i s.allOutputs)
    (collected CompletionOutput.tokenIds i s.allOutputs)
    (collected CompletionOutput.positions i s.allOutputs)

/-- What the engine and the front-end promise: an output without tokens finishes its request,
there are as many log probabilities as tokens where they were asked for, a session has outputs
only for its input, and only a session gets more input. -/
def Allowed (session : Bool) (s : OutputStream σ L) : StreamOp R → Prop
  | .output i o => i ∈ s.requestStates →
      (o.newTokenIds ≠ [] ∨ o.finishReason.isSome = true) ∧
        o.newLogprobs.map List.length = ((s.states i).logprobs.map fun _ => o.newTokenIds.length) ∧
        (session = true → (s.states i).inputChunkQueue ≠ none)
  | .abort _ => True
  | .inputUpdate _ _ => session = true
  | .get => True

/-- A request does not end without tokens after all its tokens were sent, unless it has no log
probabilities. -/
def EndsWithTokens (s : OutputStream σ L) : StreamOp R → Prop
  | .output i o => i ∈ s.requestStates →
      o.newTokenIds ≠ [] ∨ (s.states i).sentTokens 0 < (s.states i).detokenizer.numOutputTokens ∨
        -- an empty list is handed out itself, and a session would go on to fill it
        (s.states i).logprobs.getD [] = [] ∧
          ((s.states i).logprobs = none ∨ (s.states i).streamingInput = false)
  | .abort i => i ∈ s.requestStates →
      (s.states i).sentTokens 0 < (s.states i).detokenizer.numOutputTokens ∨
        (s.states i).logprobs.getD [] = []
  | .inputUpdate _ _ => True
  | .get => True

/-- What was delivered in a state of a run. -/
structure Delivers (session : Bool) (logged : Nat → Bool) (s : OutputStream σ L) : Prop where
  requestIndex : ∀ i, (s.states i).requestIndex = i
  outputKind : ∀ i, (s.states i).outputKind = .delta
  logs : ∀ i, (s.states i).logprobs.isSome = logged i
  streamingInput : session = false → ∀ i, (s.states i).streamingInput = false
  stop : session = true → ∀ i, (s.states i).detokenizer.stop = []
  parent : ∀ p, s.parentReq = some p → session = false ∧ p.outputKind = .delta ∧
    p.childRequests.Nodup ∧ ∀ i ∈ s.requestStates, i ∈ p.childRequests
  queue : s.queue.Ready logged
  owes : ∀ i ∈ s.requestStates,
    (s.states i).Owes 0 true (collected CompletionOutput.text i s.allOutputs)
      (collected CompletionOutput.tokenIds i s.allOutputs)
      (collected CompletionOutput.positions i s.allOutputs)
  addsUp : ∀ i, i ∉ s.requestStates → s.AddsUp i
  waits : ∀ i, session = true → (s.states i).inputChunkQueue = none → s.AddsUp i

variable {s t : OutputStream σ L} {session : Bool} {logged : Nat → Bool} {i : Nat}
  {r : RequestState σ L} {o : GeneratedOutput R}

theorem Start.delivers (h : s.Start session) :
    s.Delivers session fun i => (s.states i).logprobs.isSome := by
  obtain ⟨states, n, hfresh, hsingle, rfl⟩ := h
  have hnum : ∀ i, (states i).detokenizer.numOutputTokens = 0 := by
    intro i
    rw [IncrementalDetokenizer.numOutputTokens_eq, (hfresh i).outputTokenIds]
    rfl
  have hsent : ∀ i, (states i).sentTokens 0 = 0 := by
    intro i
    unfold RequestState.sentTokens
    rw [(hfresh i).sentTokensOffset, hnum i]
    exact ite_self _
  constructor
  · exact fun i => (hfresh i).requestIndex
  · exact fun i => (hfresh i).outputKind
  · exact fun i => rfl
  · intro hsession i
    exact (hfresh i).streamingInput.trans hsession
  · exact fun hsession i => (hfresh i).stop hsession
  · intro p hp
    unfold start at hp
    split at hp
    · cases hp
    next hn =>
      cases hp
      refine ⟨?_, rfl, nodup_range, fun i hi => hi⟩
      cases session with
      | false => rfl
      | true => exact absurd (hsingle rfl) hn
  · exact ⟨rfl, nodup_nil, fun c hc => by cases hc⟩
  · intro i _
    constructor
    · show [] = (states i).detokenizer.outputText.take _
      rw [(hfresh i).outputText, take_nil]
    · rw [show (start states n).states i = states i from rfl, (hfresh i).offset]
      exact zero_le _
    · show (states i).sentTokens 0 + 0 ≤ _
      rw [hsent]
      exact zero_le _
    · show [] = (states i).detokenizer.outputTokenIds.take _
      rw [(hfresh i).outputTokenIds, take_nil]
    · show [] = ((states i).logprobs.getD []).take _
      rw [(hfresh i).logprobs, take_nil]
    · intro ls hls
      have hempty := (hfresh i).logprobs
      rw [show (start states n).states i = states i from rfl] at hls ⊢
      rw [hls, getD_some] at hempty
      rw [hnum, hempty]
      rfl
  · intro i _
    exact ⟨(hfresh i).outputText.symm, (hfresh i).outputTokenIds.symm, (hfresh i).logprobs.symm⟩
  · intro i _ _
    exact ⟨(hfresh i).outputText.symm, (hfresh i).outputTokenIds.symm, (hfresh i).logprobs.symm⟩

theorem Delivers.take (h : s.Delivers session logged) : s.take.Delivers session logged := by
  have hall : s.take.allOutputs = s.allOutputs := by
    unfold OutputStream.allOutputs OutputStream.take RequestOutputCollector.outputs
    rw [flatMap_append]
    exact append_nil _
  refine { h with
    queue := ⟨h.queue.aggregate, nodup_nil, fun c hc => by cases hc⟩
    owes := ?_
    addsUp := ?_
    waits := ?_ }
  · intro i hi
    rw [hall]
    exact h.owes i hi
  · intro i hi
    unfold AddsUp
    rw [hall]
    exact h.addsUp i hi
  · intro i hsession hi
    unfold AddsUp
    rw [hall]
    exact h.waits i hsession hi

theorem collected_other {f : CompletionOutput L → List β} {j : Nat} (h : j ≠ i)
    {outputs : List (CompletionOutput L)} (hindex : ∀ c ∈ outputs, c.index = i) :
    collected f j outputs = [] := by
  apply collected_eq_nil
  intro hmem
  obtain ⟨c, hc, hj⟩ := mem_map.mp hmem
  exact h (hj.symm.trans (hindex c hc))

/-- What an output of request `i` leaves: the collector, and the request in its new state. -/
structure Emitted (session : Bool) (logged : Nat → Bool) (s : OutputStream σ L) (i : Nat)
    (finished : Bool) (r : RequestState σ L) (parent : Option (ParentRequest L))
    (queue : RequestOutputCollector L) : Prop where
  ready : queue.Ready logged
  others : ∀ {β : Type} (f : CompletionOutput L → List β), Additive f → ∀ j, j ≠ i →
    collected f j queue.outputs = collected f j s.queue.outputs
  same : (s.states i).SameSettings r
  owes : r.Owes 0 (!finished)
    (collected CompletionOutput.text i (s.received.flatMap RequestOutput.outputs ++ queue.outputs))
    (collected CompletionOutput.tokenIds i
      (s.received.flatMap RequestOutput.outputs ++ queue.outputs))
    (collected CompletionOutput.positions i
      (s.received.flatMap RequestOutput.outputs ++ queue.outputs))
  settled : finished = true → r.Settled
    (collected CompletionOutput.text i (s.received.flatMap RequestOutput.outputs ++ queue.outputs))
    (collected CompletionOutput.tokenIds i
      (s.received.flatMap RequestOutput.outputs ++ queue.outputs))
    (collected CompletionOutput.positions i
      (s.received.flatMap RequestOutput.outputs ++ queue.outputs))
  parent : ∀ p, parent = some p → session = false ∧ p.outputKind = .delta ∧
    p.childRequests.Nodup ∧
    ∀ j ∈ s.requestStates, (finished = true → j ≠ i) → j ∈ p.childRequests

variable {c : CompletionOutput L} {parent : Option (ParentRequest L)}
  {queue : RequestOutputCollector L} {op : StreamOp R}

theorem getOutputs_spec {p : ParentRequest L}
    (hkind : p.outputKind = .delta) (hnodup : p.childRequests.Nodup)
    (hmem : c.index ∈ p.childRequests) :
    ∃ finished p', p.getOutputs c = ([c], finished, p') ∧ p'.outputKind = .delta ∧
      p'.childRequests.Nodup ∧
      ∀ j ∈ p.childRequests, (c.finishReason.isSome = true → j ≠ c.index) →
        j ∈ p'.childRequests := by
  obtain ⟨children, hchildren⟩ : ∃ children, children =
      if c.finishReason.isSome then p.childRequests.erase c.index else p.childRequests := ⟨_, rfl⟩
  refine ⟨children.isEmpty, { p with childRequests := children }, ?_, hkind, ?_, ?_⟩
  · unfold ParentRequest.getOutputs
    rw [← hchildren, if_pos (by rw [hkind]; decide), if_neg (fun hreturned => hreturned.2 hmem)]
  · show children.Nodup
    rw [hchildren]
    split
    · exact hnodup.erase _
    · exact hnodup
  · intro j hj hne
    rw [hchildren]
    split
    next hfinished => exact (mem_erase_of_ne (hne hfinished)).mpr hj
    · exact hj

theorem Delivers.deliver (h : s.Delivers session logged) (hi : i ∈ s.requestStates)
    {r' : RequestState σ L} {newTokenIds : List Token} {finishReason : Option FinishReason}
    {stopReason : Option OutputStopReason}
    (hout : r.nextOutput newTokenIds finishReason stopReason = some (c, r')) (hindex : c.index = i)
    (hlogged : c.logprobs.isSome = logged i) (hreason : c.finishReason = finishReason)
    (g : RequestOutput L → RequestOutput L) (hg : ∀ o, (g o).outputs = o.outputs) :
    ∃ output parent queue,
      r.makeRequestOutput s.parentReq newTokenIds finishReason stopReason = (output, r', parent) ∧
      (∀ t : OutputStream σ L, t.queue = s.queue →
        t.putOutput (output.map g) = .ok { t with queue := queue }) ∧
      queue.Ready logged ∧
      (∀ {β : Type} (f : CompletionOutput L → List β), Additive f → ∀ j, j ≠ i →
        collected f j queue.outputs = collected f j s.queue.outputs) ∧
      (∀ {β : Type} (f : CompletionOutput L → List β), Additive f →
        collected f i (s.received.flatMap RequestOutput.outputs ++ queue.outputs) =
          collected f i s.allOutputs ++ f c) ∧
      ∀ p, parent = some p → session = false ∧ p.outputKind = .delta ∧ p.childRequests.Nodup ∧
        ∀ j ∈ s.requestStates, (finishReason.isSome = true → j ≠ i) → j ∈ p.childRequests := by
  have hlogged' : ∀ c' ∈ [c], c'.logprobs.isSome = logged c'.index := by
    intro c' hc'
    rw [mem_singleton.mp hc', hindex]
    exact hlogged
  obtain ⟨finished, parent, hmake, hparent⟩ : ∃ finished parent,
      r.makeRequestOutput s.parentReq newTokenIds finishReason stopReason =
        (some { outputs := [c], finished := finished }, r', parent) ∧
      ∀ p, parent = some p → session = false ∧ p.outputKind = .delta ∧ p.childRequests.Nodup ∧
        ∀ j ∈ s.requestStates, (finishReason.isSome = true → j ≠ i) → j ∈ p.childRequests := by
    unfold RequestState.makeRequestOutput
    rw [hout]
    cases hp : s.parentReq with
    | none => exact ⟨_, none, rfl, fun p hp' => by cases hp'⟩
    | some p =>
      obtain ⟨hsession, hkind, hnodup, hchildren⟩ := h.parent p hp
      obtain ⟨finished, p', hget, hkind', hnodup', hrest⟩ :=
        getOutputs_spec hkind hnodup (hindex ▸ hchildren i hi)
      refine ⟨finished, some p', ?_, ?_⟩
      · simp only [hget]
        rfl
      · intro p'' hp''
        cases hp''
        refine ⟨hsession, hkind', hnodup', fun j hj hnot => ?_⟩
        apply hrest j (hchildren j hj)
        rw [hreason, hindex]
        exact hnot
  have hone : (g { outputs := [c], finished := finished }).outputs.length ≤ 1 := by
    rw [hg]
    exact le_refl 1
  obtain ⟨queue, hput, hready, hcollected⟩ := h.queue.put hone (by rw [hg]; exact hlogged')
  refine ⟨_, parent, queue, hmake, ?_, hready, ?_, ?_, hparent⟩
  · intro t ht
    unfold OutputStream.putOutput
    simp only [map_some, ht, hput, ok_bind]
    rfl
  · intro β f hf j hj
    have hnone : collected f j [c] = [] := collected_other hj (by
      intro c' hc'
      rw [mem_singleton.mp hc', hindex])
    rw [hcollected f hf, hg, hnone, append_nil]
  · intro β f hf
    unfold OutputStream.allOutputs
    rw [collected_append, collected_append, hcollected f hf, hg, ← append_assoc]
    congr 1
    rw [← hindex]
    exact collected_singleton f c

theorem Delivers.emit {session : Bool} {logged : Nat → Bool} {s : OutputStream σ L}
    (h : s.Delivers session logged) {i : Nat} (hi : i ∈ s.requestStates) {r : RequestState σ L}
    {new : Nat} {newTokenIds : List Token} {finishReason : Option FinishReason}
    (stopReason : Option OutputStopReason) (hsame : (s.states i).SameSettings r)
    (howes : r.Owes new (!finishReason.isSome) (collected CompletionOutput.text i s.allOutputs)
      (collected CompletionOutput.tokenIds i s.allOutputs)
      (collected CompletionOutput.positions i s.allOutputs))
    (hnew : newTokenIds = r.detokenizer.outputTokenIds.drop (r.detokenizer.numOutputTokens - new))
    (hne : r.sentTokens new < r.detokenizer.numOutputTokens ∨ r.logprobs.getD [] = [])
    (g : RequestOutput L → RequestOutput L) (hg : ∀ o, (g o).outputs = o.outputs) :
    ∃ output r' parent queue,
      r.makeRequestOutput s.parentReq newTokenIds finishReason stopReason = (output, r', parent) ∧
      (∀ t : OutputStream σ L, t.queue = s.queue →
        t.putOutput (output.map g) = .ok { t with queue := queue }) ∧
      s.Emitted session logged i finishReason.isSome r' parent queue := by
  have hkind : r.outputKind = .delta := hsame.outputKind.trans (h.outputKind i)
  have hindex : r.requestIndex = i := hsame.requestIndex.trans (h.requestIndex i)
  cases howes.nextOutput stopReason hkind hnew hne with
  | inl hwait =>
    obtain ⟨hnone, hreason, howes'⟩ := hwait
    refine ⟨none, r, s.parentReq, s.queue, ?_, ?_, ?_⟩
    · unfold RequestState.makeRequestOutput
      rw [hnone]
    · intro t ht
      rw [← ht]
      rfl
    · rw [hreason]
      refine ⟨h.queue, fun f _ j _ => rfl, hsame, howes', (fun hf => by cases hf), ?_⟩
      intro p hp
      obtain ⟨hsession, hparent, hnodup, hchildren⟩ := h.parent p hp
      exact ⟨hsession, hparent, hnodup, fun j hj _ => hchildren j hj⟩
  | inr hsend =>
    obtain ⟨c, r', hout, hcindex, hclogged, hcreason, hsame', howes', hsettled⟩ := hsend
    obtain ⟨output, parent, queue, hmake, hput, hready, hothers, hjoined, hparent⟩ :=
      h.deliver hi hout (hcindex.trans hindex)
        (hclogged.trans (hsame.logged.trans (h.logs i))) hcreason g hg
    refine ⟨output, r', parent, queue, hmake, hput, hready, hothers, hsame.trans hsame', ?_, ?_,
      hparent⟩
    · rw [hjoined _ CompletionOutput.additive_text, hjoined _ CompletionOutput.additive_tokenIds,
        hjoined _ CompletionOutput.additive_positions]
      exact howes'
    · intro hfinished
      rw [hjoined _ CompletionOutput.additive_text, hjoined _ CompletionOutput.additive_tokenIds,
        hjoined _ CompletionOutput.additive_positions]
      exact hsettled hfinished

theorem Delivers.emitted (h : s.Delivers session logged) (hi : i ∈ s.requestStates)
    {finished : Bool} {streaming : Bool} {chunks : Option (List Bool)}
    (he : s.Emitted session logged i finished r parent queue) (hstates : t.states =
      update s.states i { r with streamingInput := streaming, inputChunkQueue := chunks })
    (hstreaming : session = false → streaming = false)
    (hchunks : session = true → chunks = none → finished = true) (hparent : t.parentReq = parent)
    (hqueue : t.queue = queue) (hreceived : t.received = s.received)
    (hrequests : t.requestStates = s.requestStates ∧ (finished = true → session = true) ∨
      t.requestStates = s.requestStates.filter (· ≠ i) ∧ finished = true) :
    t.Delivers session logged := by
  have hself : t.states i = { r with streamingInput := streaming, inputChunkQueue := chunks } := by
    rw [hstates, update_self]
  have hother : ∀ j, j ≠ i → t.states j = s.states j := by
    intro j hj
    rw [hstates, update_of_ne hj]
  have hall : t.allOutputs = s.received.flatMap RequestOutput.outputs ++ queue.outputs := by
    unfold OutputStream.allOutputs
    rw [hreceived, hqueue]
  have hcollected : ∀ {β : Type} (f : CompletionOutput L → List β), Additive f → ∀ j, j ≠ i →
      collected f j t.allOutputs = collected f j s.allOutputs := by
    intro β f hf j hj
    rw [hall]
    unfold OutputStream.allOutputs
    rw [collected_append, collected_append, he.others f hf j hj]
  have hothers : ∀ j, j ≠ i → (j ∈ t.requestStates ↔ j ∈ s.requestStates) := by
    intro j hj
    cases hrequests with
    | inl hstay => rw [hstay.1]
    | inr hgone =>
      rw [hgone.1, mem_filter, decide_eq_true_eq]
      exact and_iff_left hj
  have hstays : i ∈ t.requestStates → finished = true → session = true := by
    intro hit hfinished
    cases hrequests with
    | inl hstay => exact hstay.2 hfinished
    | inr hgone =>
      rw [hgone.1, mem_filter, decide_eq_true_eq] at hit
      exact absurd rfl hit.2
  have hgoes : i ∉ t.requestStates → finished = true := by
    intro hit
    cases hrequests with
    | inl hstay => exact absurd (hstay.1 ▸ hi) hit
    | inr hgone => exact hgone.2
  constructor
  · intro j
    by_cases hj : j = i
    · rw [hj, hself]
      exact he.same.requestIndex.trans (h.requestIndex i)
    · rw [hother j hj]
      exact h.requestIndex j
  · intro j
    by_cases hj : j = i
    · rw [hj, hself]
      exact he.same.outputKind.trans (h.outputKind i)
    · rw [hother j hj]
      exact h.outputKind j
  · intro j
    by_cases hj : j = i
    · rw [hj, hself]
      exact he.same.logged.trans (h.logs i)
    · rw [hother j hj]
      exact h.logs j
  · intro hsession j
    by_cases hj : j = i
    · rw [hj, hself]
      exact hstreaming hsession
    · rw [hother j hj]
      exact h.streamingInput hsession j
  · intro hsession j
    by_cases hj : j = i
    · rw [hj, hself]
      exact he.same.stop.trans (h.stop hsession i)
    · rw [hother j hj]
      exact h.stop hsession j
  · intro p hp
    obtain ⟨hsession, hkind, hnodup, hchildren⟩ := he.parent p (hparent ▸ hp)
    refine ⟨hsession, hkind, hnodup, fun j hj => ?_⟩
    by_cases hji : j = i
    · apply hchildren j (hji ▸ hi)
      intro hfinished
      have hno := hstays (hji ▸ hj) hfinished
      rw [hsession] at hno
      cases hno
    · exact hchildren j ((hothers j hji).mp hj) fun _ => hji
  · exact hqueue ▸ he.ready
  · intro j hj
    by_cases hji : j = i
    · rw [hji] at hj ⊢
      have howes := he.owes
      rw [← hall] at howes
      rw [hself]
      refine ⟨howes.text, ?_, howes.sent, howes.tokenIds, howes.positions, howes.aligned⟩
      have hoffset := howes.offset
      cases hfinished : finished with
      | false =>
        rw [hfinished] at hoffset
        exact hoffset
      | true =>
        -- a session has nothing to hold back
        have hstop := he.same.stop.trans (h.stop (hstays hj hfinished) i)
        rw [hfinished] at hoffset
        rw [IncrementalDetokenizer.stopBufferLength_eq_zero hstop]
        exact hoffset
    · rw [hother j hji, hcollected _ CompletionOutput.additive_text j hji,
        hcollected _ CompletionOutput.additive_tokenIds j hji,
        hcollected _ CompletionOutput.additive_positions j hji]
      exact h.owes j ((hothers j hji).mp hj)
  · intro j hj
    unfold AddsUp
    by_cases hji : j = i
    · rw [hji] at hj ⊢
      have hsettled := he.settled (hgoes hj)
      rw [← hall] at hsettled
      rw [hself]
      exact ⟨hsettled.text, hsettled.tokenIds, hsettled.positions⟩
    · rw [hother j hji, hcollected _ CompletionOutput.additive_text j hji,
        hcollected _ CompletionOutput.additive_tokenIds j hji,
        hcollected _ CompletionOutput.additive_positions j hji]
      exact h.addsUp j fun hs => hj ((hothers j hji).mpr hs)
  · intro j hsession hj
    unfold AddsUp
    by_cases hji : j = i
    · rw [hji, hself] at hj
      have hsettled := he.settled (hchunks hsession hj)
      rw [← hall] at hsettled
      rw [hji, hself]
      exact ⟨hsettled.text, hsettled.tokenIds, hsettled.positions⟩
    · rw [hother j hji] at hj ⊢
      rw [hcollected _ CompletionOutput.additive_text j hji,
        hcollected _ CompletionOutput.additive_tokenIds j hji,
        hcollected _ CompletionOutput.additive_positions j hji]
      exact h.waits j hsession hj

theorem finishReasons_isSome {stopString : Option (List Char)}
    (h : ∀ s, stopString = some s → s ≠ []) :
    (o.finishReasons stopString).1.isSome = (stopString.isSome || o.finishReason.isSome) := by
  cases stopString with
  | none => rfl
  | some s =>
    cases s with
    | nil => exact absurd rfl (h [] rfl)
    | cons c rest => rfl

section

variable (h : s.Delivers session logged)

include h

theorem Delivers.updated (position : List L → R → L)
    (hi : i ∈ s.requestStates) (hallowed : s.Allowed session (.output i o)) :
    ∃ stopString r, (s.states i).updateFromOutput position o = .ok (stopString, r) ∧
      (s.states i).SameSettings r ∧
      r.Owes o.newTokenIds.length (!(o.finishReasons stopString).1.isSome)
        (collected CompletionOutput.text i s.allOutputs)
        (collected CompletionOutput.tokenIds i s.allOutputs)
        (collected CompletionOutput.positions i s.allOutputs) ∧
      o.newTokenIds = r.detokenizer.outputTokenIds.drop
        (r.detokenizer.numOutputTokens - o.newTokenIds.length) ∧
      r.sentTokens o.newTokenIds.length = (s.states i).sentTokens 0 ∧
      r.detokenizer.numOutputTokens =
        (s.states i).detokenizer.numOutputTokens + o.newTokenIds.length ∧
      (o.finishReason.isSome = true → (o.finishReasons stopString).1.isSome = true) := by
  obtain ⟨-, hlogprobs, -⟩ := hallowed hi
  obtain ⟨stopString, r, hupdate, hsame, howes, hnew, hsent, hnum, hfound⟩ :=
    (h.owes i hi).updateFromOutput position hlogprobs
  have hsome := finishReasons_isSome (o := o) fun s hs => (hfound s hs).1
  refine ⟨stopString, r, hupdate, hsame, ?_, hnew, hsent, hnum, ?_⟩
  · rw [hsome]
    cases stopString with
    | some stop => exact howes
    | none =>
      cases o.finishReason with
      | none => exact howes
      | some reason => exact howes.weaken
  · intro hfinish
    rw [hsome, hfinish, Bool.or_true]

theorem Delivers.afterFinish (hi : i ∈ s.requestStates)
    (he : s.Emitted session logged i true r parent queue)
    (ht : t = { s.setState i r with parentReq := parent, queue := queue }) :
    (t.afterFinish i).Delivers session logged := by
  have hself : t.states i = r := by
    rw [ht]
    exact update_self ..
  have hstreaming : session = false → r.streamingInput = false := fun hsession =>
    he.same.streamingInput.trans (h.streamingInput hsession i)
  have hset : ∀ r' : RequestState σ L, (t.setState i r').states = update s.states i r' := by
    intro r'
    rw [ht]
    exact update_idem ..
  unfold OutputStream.afterFinish
  rw [hself]
  dsimp only
  split
  next hstream =>
    have hsession : session = true := by
      by_contra hno
      rw [hstreaming (Bool.eq_false_of_not_eq_true hno)] at hstream
      cases hstream
    have hno : ∀ {b : Bool}, session = false → b = false := by
      intro b hfalse
      rw [hsession] at hfalse
      cases hfalse
    split
    · exact h.emitted hi he (hset _) hno (fun _ _ => rfl) (by rw [ht]; rfl) (by rw [ht]; rfl)
        (by rw [ht]; rfl)
        (.inl ⟨by rw [ht]; rfl, fun _ => hsession⟩)
    · exact h.emitted hi he (hset _) hno (fun _ _ => rfl) (by rw [ht]; rfl) (by rw [ht]; rfl)
        (by rw [ht]; rfl)
        (.inl ⟨by rw [ht]; rfl, fun _ => hsession⟩)
  · exact h.emitted hi he (by rw [ht]; rfl) hstreaming (fun _ _ => rfl) (by rw [ht]; rfl)
      (by rw [ht]; rfl) (by rw [ht]; rfl) (.inr ⟨by rw [ht]; rfl, rfl⟩)

theorem Delivers.processOutput (position : List L → R → L)
    (hallowed : s.Allowed session (.output i o)) (hends : s.EndsWithTokens (.output i o)) :
    ∃ t, s.processOutput position i o = .ok t ∧ t.Delivers session logged := by
  unfold OutputStream.processOutput
  by_cases hi : i ∈ s.requestStates
  · rw [if_neg (not_not.mpr hi)]
    obtain ⟨stopString, r, hupdate, hsame, howes, hnew, hsent, hnum, -⟩ :=
      h.updated position hi hallowed
    dsimp only
    rw [hupdate]
    simp only [ok_bind]
    generalize o.finishReasons stopString = reasons at howes
    obtain ⟨finishReason, stopReason⟩ := reasons
    have hne : r.sentTokens o.newTokenIds.length < r.detokenizer.numOutputTokens ∨
        r.logprobs.getD [] = [] := by
      have hbound := howes.sent
      by_cases hnil : o.newTokenIds = []
      · rw [hnil] at hsent hnum ⊢
        rw [hsent, hnum]
        cases (hends hi).resolve_left (not_not.mpr hnil) with
        | inl hunsent => exact .inl hunsent
        | inr hnone =>
          right
          cases hlp : (s.states i).logprobs with
          | none =>
            have hlogged := hsame.logged
            rw [hlp] at hlogged
            have hnone' : r.logprobs = none := by
              cases hr : r.logprobs with
              | none => rfl
              | some ls =>
                rw [hr] at hlogged
                cases hlogged
            rw [hnone']
            rfl
          | some ls =>
            have hzero := (h.owes i hi).aligned ls hlp
            rw [hlp, getD_some] at hnone
            rw [hnone.1, length_nil] at hzero
            apply howes.logprobs_eq_nil
            rw [hnum, ← hzero, length_nil]
      · left
        have hpos := length_pos_iff.mpr hnil
        omega
    obtain ⟨output, r', parent, queue, hmake, hput, hemitted⟩ :=
      h.emit hi stopReason hsame howes hnew hne
        (fun output => { output with finished := output.finished && !(s.states i).streamingInput })
        fun _ => rfl
    rw [hmake]
    rw [hemitted.same.streamingInput, hput _ (by rfl), ok_bind]
    refine ⟨_, rfl, ?_⟩
    cases hfinish : finishReason.isSome with
    | true =>
      rw [hfinish] at hemitted
      exact h.afterFinish hi hemitted rfl
    | false =>
      rw [hfinish] at hemitted
      exact h.emitted hi hemitted (by rfl)
        (fun hsession => hemitted.same.streamingInput.trans (h.streamingInput hsession i))
        (fun hsession hchunks => absurd (hemitted.same.inputChunkQueue.symm.trans hchunks)
          ((hallowed hi).2.2 hsession)) (by rfl) (by rfl) (by rfl)
            (.inl ⟨by rfl, fun hf => by cases hf⟩)
  · rw [if_pos hi]
    exact ⟨s, rfl, h⟩

theorem Delivers.abortRequest (hends : s.EndsWithTokens (R := R) (.abort i)) :
    ∃ t, s.abortRequest i = .ok t ∧ t.Delivers session logged := by
  unfold OutputStream.abortRequest
  by_cases hi : i ∈ s.requestStates
  · rw [if_neg (not_not.mpr hi)]
    have howes := (h.owes i hi).weaken
    have hnil : ([] : List Token) = (s.states i).detokenizer.outputTokenIds.drop
        ((s.states i).detokenizer.numOutputTokens - 0) := by
      rw [Nat.sub_zero, IncrementalDetokenizer.numOutputTokens_eq, drop_length]
    obtain ⟨output, r', parent, queue, hmake, hput, hemitted⟩ :=
      @emit σ L session logged s h i hi (s.states i) 0 [] (some .abort) none
        ⟨rfl, rfl, rfl, rfl, rfl, rfl⟩ howes hnil (hends hi) id fun _ => rfl
    rw [hmake]
    dsimp only
    rw [Option.map_id_fun, id_eq] at hput
    rw [hput _ (by rfl)]
    refine ⟨_, rfl, ?_⟩
    exact h.emitted hi hemitted (by rfl)
      (fun hsession => hemitted.same.streamingInput.trans (h.streamingInput hsession i))
      (fun _ _ => rfl) (by rfl) (by rfl) (by rfl) (.inr ⟨by rfl, rfl⟩)
  · rw [if_pos hi]
    exact ⟨s, rfl, h⟩

theorem Delivers.setStreaming (hsession : session = true) (i : Nat)
    (streaming : Bool) (chunks : List Bool) :
    (s.setState i { s.states i with
      streamingInput := streaming, inputChunkQueue := some chunks }).Delivers session logged := by
  obtain ⟨r, hr⟩ : ∃ r, r = { s.states i with
    streamingInput := streaming, inputChunkQueue := some chunks } := ⟨_, rfl⟩
  rw [← hr]
  have hself : (s.setState i r).states i = r := update_self ..
  have hother : ∀ j, j ≠ i → (s.setState i r).states j = s.states j :=
    fun j hj => update_of_ne hj ..
  refine { h with
    requestIndex := ?_, outputKind := ?_, logs := ?_, streamingInput := ?_, stop := ?_, owes := ?_
    addsUp := ?_, waits := ?_ }
  · intro j
    by_cases hj : j = i
    · rw [hj, hself, hr]
      exact h.requestIndex i
    · rw [hother j hj]
      exact h.requestIndex j
  · intro j
    by_cases hj : j = i
    · rw [hj, hself, hr]
      exact h.outputKind i
    · rw [hother j hj]
      exact h.outputKind j
  · intro j
    by_cases hj : j = i
    · rw [hj, hself, hr]
      exact h.logs i
    · rw [hother j hj]
      exact h.logs j
  · intro hno
    rw [hsession] at hno
    cases hno
  · intro _ j
    by_cases hj : j = i
    · rw [hj, hself, hr]
      exact h.stop hsession i
    · rw [hother j hj]
      exact h.stop hsession j
  · intro j hj
    by_cases hji : j = i
    · have howes := h.owes i (hji ▸ hj)
      rw [hji, hself, hr]
      exact ⟨howes.text, howes.offset, howes.sent, howes.tokenIds, howes.positions, howes.aligned⟩
    · rw [hother j hji]
      exact h.owes j hj
  · intro j hj
    unfold AddsUp
    by_cases hji : j = i
    · have hsettled := h.addsUp i (hji ▸ hj)
      rw [hji, hself, hr]
      exact ⟨hsettled.text, hsettled.tokenIds, hsettled.positions⟩
    · rw [hother j hji]
      exact h.addsUp j hj
  · intro j _ hj
    unfold AddsUp
    by_cases hji : j = i
    · rw [hji, hself, hr] at hj
      cases hj
    · rw [hother j hji] at hj ⊢
      exact h.waits j hsession hj

theorem Delivers.finishSession (hsession : session = true)
    (hchunks : (s.states i).inputChunkQueue = none) :
    ∃ t, (s.finishRequest i).putOutput (some .streamFinished) = .ok t ∧
      t.Delivers session logged := by
  have hone : (RequestOutput.streamFinished : RequestOutput L).outputs.length ≤ 1 := zero_le 1
  obtain ⟨queue, hput, hready, hcollected⟩ := h.queue.put hone fun c hc => by cases hc
  refine ⟨{ s.finishRequest i with queue := queue }, ?_, ?_⟩
  · unfold OutputStream.putOutput
    dsimp only
    rw [show (s.finishRequest i).queue = s.queue from rfl, hput, ok_bind]
    rfl
  · have hall : ∀ {β : Type} (f : CompletionOutput L → List β), Additive f → ∀ j,
        collected f j ({ s.finishRequest i with queue := queue } : OutputStream σ L).allOutputs =
          collected f j s.allOutputs := by
      intro β f hf j
      unfold OutputStream.allOutputs
      rw [collected_append, collected_append]
      rw [hcollected f hf j]
      exact congrArg _ (append_nil _)
    have hsettled : ∀ j, s.AddsUp j →
        ({ s.finishRequest i with queue := queue } : OutputStream σ L).AddsUp j := by
      intro j hj
      unfold AddsUp
      rw [hall _ CompletionOutput.additive_text, hall _ CompletionOutput.additive_tokenIds,
        hall _ CompletionOutput.additive_positions]
      exact hj
    have hmem : ∀ j, j ∈ (s.finishRequest i).requestStates ↔ j ∈ s.requestStates ∧ j ≠ i := by
      intro j
      show j ∈ s.requestStates.filter (· ≠ i) ↔ _
      rw [mem_filter, decide_eq_true_eq]
    refine { h with parent := ?_, queue := hready, owes := ?_, addsUp := ?_, waits := ?_ }
    · intro p hp
      have hno := (h.parent p hp).1
      rw [hsession] at hno
      cases hno
    · intro j hj
      rw [hall _ CompletionOutput.additive_text, hall _ CompletionOutput.additive_tokenIds,
        hall _ CompletionOutput.additive_positions]
      exact h.owes j ((hmem j).mp hj).1
    · intro j hj
      by_cases hji : j = i
      · rw [hji]
        exact hsettled i (h.waits i hsession hchunks)
      · exact hsettled j (h.addsUp j fun hs => hj ((hmem j).mpr ⟨hs, hji⟩))
    · exact fun j _ hj => hsettled j (h.waits j hsession hj)

theorem Delivers.updateStreamingRequestState (hsession : session = true) (i : Nat)
    (resumable : Bool) :
    ∃ t, s.updateStreamingRequestState i resumable = .ok t ∧ t.Delivers session logged := by
  unfold OutputStream.updateStreamingRequestState
  by_cases hi : i ∈ s.requestStates
  · rw [if_neg (not_not.mpr hi)]
    have hset := h.setStreaming hsession i
    dsimp only
    split
    next hchunks => exact h.finishSession hsession hchunks
    next hchunks =>
      have hsame := hset false []
      rw [← hchunks] at hsame
      exact ⟨_, rfl, hsame⟩
    next chunks _ hchunks =>
      exact ⟨_, rfl, hset (s.states i).streamingInput (chunks.dropLast ++ [true])⟩
    · exact ⟨_, rfl, hset true []⟩
    next chunks hchunks =>
      exact ⟨_, rfl, hset (s.states i).streamingInput (chunks ++ [false])⟩
  · rw [if_pos hi]
    exact ⟨s, rfl, h⟩

theorem Delivers.run (position : List L → R → L)
    (hallowed : s.Allowed session op) (hends : s.EndsWithTokens op) :
    ∃ t, s.run position op = .ok t ∧ t.Delivers session logged := by
  cases op with
  | output i o => exact h.processOutput position hallowed hends
  | abort i => exact h.abortRequest hends
  | inputUpdate i resumable => exact h.updateStreamingRequestState hallowed i resumable
  | get => exact ⟨s.take, rfl, h.take⟩

end

/-- What a last output without tokens leaves: its request is gone, and the log probabilities
were delivered twice. -/
theorem Delivers.not_addsUp {session : Bool} {logged : Nat → Bool} {s t : OutputStream σ L}
    (h : s.Delivers session logged) {i : Nat} (hi : i ∈ s.requestStates) {r : RequestState σ L}
    {finishReason : Option FinishReason} (stopReason : Option OutputStopReason)
    (hsame : (s.states i).SameSettings r)
    (howes : r.Owes 0 (!finishReason.isSome) (collected CompletionOutput.text i s.allOutputs)
      (collected CompletionOutput.tokenIds i s.allOutputs)
      (collected CompletionOutput.positions i s.allOutputs)) (hfinish : finishReason.isSome = true)
    (hsent : r.sentTokens 0 = r.detokenizer.numOutputTokens)
    (hlogprobs : r.logprobs.getD [] ≠ []) (g : RequestOutput L → RequestOutput L)
    (hg : ∀ o, (g o).outputs = o.outputs) :
    ∃ output r' parent queue,
      r.makeRequestOutput s.parentReq [] finishReason stopReason = (output, r', parent) ∧
      r'.streamingInput = r.streamingInput ∧
      (∀ t : OutputStream σ L, t.queue = s.queue →
        t.putOutput (output.map g) = .ok { t with queue := queue }) ∧
      ∀ t : OutputStream σ L, t.states i = r' → t.received = s.received → t.queue = queue →
        ¬t.AddsUp i := by
  obtain ⟨c, r', hout, hindex, hlogged, hreason, hkept, hstreaming, hpositions⟩ :=
    howes.nextOutput_repeats stopReason (hsame.outputKind.trans (h.outputKind i)) hfinish hsent
  obtain ⟨output, parent, queue, hmake, hput, -, -, hjoined, -⟩ :=
    h.deliver hi hout (hindex.trans (hsame.requestIndex.trans (h.requestIndex i)))
      (hlogged.trans (hsame.logged.trans (h.logs i))) hreason g hg
  refine ⟨output, r', parent, queue, hmake, hstreaming, hput, fun t hstate hreceived hqueue => ?_⟩
  intro hadds
  have htwice := hadds.positions
  unfold OutputStream.allOutputs at htwice
  rw [hstate, hreceived, hqueue, hjoined _ CompletionOutput.additive_positions, hkept, hpositions,
    howes.positions, hsent] at htwice
  have hall : (r.logprobs.getD []).take r.detokenizer.numOutputTokens = r.logprobs.getD [] := by
    cases hr : r.logprobs with
    | none => exact take_nil
    | some ls => rw [getD_some, ← howes.aligned ls hr, take_length]
  rw [hall] at htwice
  exact hlogprobs (append_right_eq_self.mp htwice)

theorem Delivers.repeats (h : s.Delivers false logged) (position : List L → R → L)
    (hallowed : s.Allowed false op) (hrun : s.run position op = .ok t)
    (hends : ¬s.EndsWithTokens op) : ∃ i, i ∉ t.requestStates ∧ ¬t.AddsUp i := by
  have hgone : ∀ i, i ∉ s.requestStates.filter (· ≠ i) := by
    intro i hi
    rw [mem_filter, decide_eq_true_eq] at hi
    exact hi.2 rfl
  cases op with
  | get => exact absurd trivial hends
  | inputUpdate i resumable => exact absurd trivial hends
  | abort i =>
    unfold OutputStream.EndsWithTokens at hends
    push Not at hends
    obtain ⟨hi, hsent, hlogprobs⟩ := hends
    have howes := h.owes i hi
    have hbound := howes.sent
    obtain ⟨output, r', parent, queue, hmake, -, hput, hnot⟩ :=
      @not_addsUp σ L false logged s s h i hi (s.states i) (some .abort) none
        ⟨rfl, rfl, rfl, rfl, rfl, rfl⟩ howes.weaken rfl (by omega) hlogprobs id fun _ => rfl
    change s.abortRequest i = .ok t at hrun
    unfold OutputStream.abortRequest at hrun
    rw [if_neg (not_not.mpr hi), hmake] at hrun
    dsimp only at hrun
    rw [Option.map_id_fun, id_eq] at hput
    rw [hput _ (by rfl)] at hrun
    cases hrun
    exact ⟨i, hgone i, hnot _ (update_self ..) rfl rfl⟩
  | output i o =>
    unfold OutputStream.EndsWithTokens at hends
    push Not at hends
    obtain ⟨hi, hnil, hsent, hlogprobs⟩ := hends
    have hstreaming := h.streamingInput rfl i
    have hreason := (hallowed hi).1.resolve_left (not_not.mpr hnil)
    obtain ⟨stopString, r, hupdate, hsame, howes, -, hsent', hnum, hfinish⟩ :=
      h.updated position hi hallowed
    rw [hnil] at howes hsent' hnum
    have holds := (h.owes i hi).sent
    have hlogprobs' : r.logprobs.getD [] ≠ [] := by
      intro hempty
      have hne : (s.states i).logprobs.getD [] ≠ [] := fun hno => (hlogprobs hno).2 hstreaming
      cases hlp : (s.states i).logprobs with
      | none =>
        rw [hlp] at hne
        exact hne rfl
      | some ls =>
        have hlength := (h.owes i hi).aligned ls hlp
        have hlogged := hsame.logged
        rw [hlp] at hne hlogged
        obtain ⟨ls', hls'⟩ := isSome_iff_exists.mp hlogged
        have hlength' := howes.aligned ls' hls'
        rw [hls', getD_some] at hempty
        rw [hempty, hnum, length_nil, length_nil] at hlength'
        rw [getD_some] at hne
        exact hne (eq_nil_of_length_eq_zero (by omega))
    obtain ⟨output, r', parent, queue, hmake, hstreaming', hput, hnot⟩ :=
      @not_addsUp σ L false logged s s h i hi r (o.finishReasons stopString).1
        (o.finishReasons stopString).2 hsame howes (hfinish hreason) (by
          show r.sentTokens ([] : List Token).length = _
          rw [hsent', hnum, length_nil]
          omega) hlogprobs'
        (fun output => { output with
          finished := output.finished && !(s.states i).streamingInput }) fun _ => rfl
    change s.processOutput position i o = .ok t at hrun
    unfold OutputStream.processOutput at hrun
    rw [if_neg (not_not.mpr hi)] at hrun
    dsimp only at hrun
    rw [hupdate] at hrun
    simp only [ok_bind] at hrun
    rw [hnil, hmake] at hrun
    rw [hstreaming'.trans hsame.streamingInput, hput _ (by rfl), ok_bind,
      if_pos (hfinish hreason)] at hrun
    cases hrun
    have hfalse := hstreaming'.trans (hsame.streamingInput.trans hstreaming)
    unfold OutputStream.afterFinish
    rw [show (s.setState i r').states i = r' from update_self .., if_neg (by
      rw [hfalse]
      decide)]
    exact ⟨i, hgone i, hnot _ (update_self ..) rfl rfl⟩

/-- The deltas of a finished request add up in every run without a last output that has no
tokens left while there are log probabilities.  Such an output delivers these twice. -/
theorem deltas_addUp {session : Bool} {position : List L → R → L} {s : OutputStream σ L}
    (h : Reachable (Start session)
      (OpStep (fun s op => s.Allowed session op ∧ s.EndsWithTokens op) (run position)) s) :
    (∀ i, i ∉ s.requestStates → s.AddsUp i) ∧
      ∀ op, s.Allowed session op →
        (s.EndsWithTokens op → ∃ t, s.run position op = .ok t) ∧
        (session = false → ∀ t, s.run position op = .ok t →
          (∀ i, i ∉ t.requestStates → t.AddsUp i) → s.EndsWithTokens op) := by
  obtain ⟨logged, hdelivers⟩ : ∃ logged, s.Delivers session logged := by
    apply h.invariant (P := fun s => ∃ logged, s.Delivers session logged)
    · exact fun s hs => ⟨_, hs.delivers⟩
    · intro s t hs hstep
      obtain ⟨logged, hs⟩ := hs
      obtain ⟨op, hop, hrun⟩ := hstep
      obtain ⟨t', hrun', ht'⟩ := hs.run position hop.1 hop.2
      rw [hrun] at hrun'
      cases hrun'
      exact ⟨logged, ht'⟩
  refine ⟨hdelivers.addsUp, fun op hallowed => ⟨fun hends => ?_, ?_⟩⟩
  · obtain ⟨t, hrun, -⟩ := hdelivers.run position hallowed hends
    exact ⟨t, hrun⟩
  · intro hsession t hrun hadds
    subst hsession
    by_contra hends
    obtain ⟨i, hi, hnot⟩ := hdelivers.repeats position hallowed hrun hends
    exact hnot (hadds i hi)

/-- Requests without a tokenizer that ask for log probabilities. -/
def plainRequest (i : Nat) : RequestState Unit Nat where
  requestIndex := i
  outputKind := .delta
  detokenizer := .withoutText []
  logprobs := some []
  streamInterval := 1

theorem start_plainRequest : Start false (start plainRequest 1) :=
  ⟨plainRequest, 1, fun _ => ⟨rfl, rfl, rfl, rfl, rfl, fun _ => rfl, rfl, rfl, rfl, rfl⟩,
    fun _ => rfl, rfl⟩

/-- Two tokens, of which the second finishes the request. -/
theorem deltas_addUp_plainRequest :
    ∃ s : OutputStream Unit Nat,
      runOps (run fun _ row => row) (start plainRequest 1)
        [.output 0 { newTokenIds := [7], newLogprobs := some [1] },
          .output 0 { newTokenIds := [8], newLogprobs := some [2], finishReason := some .stop }] =
            .ok s ∧ 0 ∉ s.requestStates ∧ s.AddsUp 0 := by
  have hstart : Reachable (Start false)
      (OpStep (fun s op => s.Allowed false op ∧ s.EndsWithTokens op) (run fun _ row => row))
      (start plainRequest 1) := .start start_plainRequest
  have hfirst := hstart.next ⟨.output 0 { newTokenIds := [7], newLogprobs := some [1] },
    ⟨fun _ => ⟨.inl (by decide), rfl, fun hf => by cases hf⟩, fun _ => .inl (by decide)⟩, rfl⟩
  have hsecond := hfirst.next ⟨.output 0
      { newTokenIds := [8], newLogprobs := some [2], finishReason := some .stop },
    ⟨fun _ => ⟨.inl (by decide), rfl, fun hf => by cases hf⟩, fun _ => .inl (by decide)⟩, rfl⟩
  exact ⟨_, rfl, by decide, (deltas_addUp hsecond).1 0 (by decide)⟩

/-- A request that is given up after its token was sent. -/
theorem deltas_repeated_plainRequest :
    ∃ s : OutputStream Unit Nat,
      Reachable (Start false) (OpStep (fun s (op : StreamOp Nat) => s.Allowed false op)
        (run fun _ row => row)) s ∧
      0 ∉ s.requestStates ∧ ¬s.AddsUp 0 := by
  have hstart : Reachable (Start false)
      (OpStep (fun s (op : StreamOp Nat) => s.Allowed false op) (run fun _ row => row))
      (start plainRequest 1) := .start start_plainRequest
  have hfirst := hstart.next ⟨.output 0 { newTokenIds := [7], newLogprobs := some [1] },
    fun _ => ⟨.inl (by decide), rfl, fun hf => by cases hf⟩, rfl⟩
  have hsecond := hfirst.next ⟨.abort 0, trivial, rfl⟩
  refine ⟨_, hsecond, by decide, fun hadds => ?_⟩
  have htwice : [1, 1] = [1] := hadds.positions
  exact absurd htwice (by decide)

end OutputStream

end VllmCore
