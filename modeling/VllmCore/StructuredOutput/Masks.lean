import Mathlib.Data.List.TakeWhile
import VllmCore.StructuredOutput.Backends
import VllmCore.StructuredOutput.Rows
/-!
# From the grammars to the logits

What a step does to the logits: the rows that the scheduler filled for a request mask the
rows of logits of that request, wherever it is in the batch.
-/

namespace VllmCore.StructuredOutput

open List Support Dict

variable {σ L : Type} {G : GrammarOps σ} {Valid : σ → Prop} {Validated : σ → List Int → Prop}

/-- The logits that are sampled from: without a grammar output they stay as they are. -/
def maskLogits (X : ApplyTokenBitmask L) (spec : Dict ReqId (List Int)) (reqIds : List ReqId)
    (logits : List (Logits L)) : Option (List ReqId × List Row) → Py (List (Logits L))
  | none => .ok logits
  | some (ids, bitmask) => applyGrammarBitmask X spec ids bitmask reqIds logits

def realDrafts (spec : Dict ReqId (List Int)) (reqId : ReqId) : List Int :=
  realTokens (draftsOf spec reqId)

def firstRow (spec : Dict ReqId (List Int)) (before : List ReqId) : Nat :=
  (before.map (numRows spec)).sum

variable {requests : Dict ReqId Request} {id : ReqId} {spec : Dict ReqId (List Int)} {i : Nat}

theorem mem_structuredOutputRequestIds {scheduled : List ReqId}
    (h : id ∈ structuredOutputRequestIds requests scheduled) : id ∈ requests.keys := by
  have hany := (mem_filter.mp h).2
  rw [mem_keys_iff]
  intro hnone
  rw [hnone] at hany
  cases hany

theorem rowsOf_getElem? {cfg : Config} {grammars : ReqId → σ}
    (hi : i ≤ (realDrafts spec id).length) :
    (rowsOf G cfg requests grammars spec id)[i]? =
      some (rowAt G (stateAfter G (grammars id) ((realDrafts spec id).take i))
        (constrained cfg requests id)) := by
  have hnot : -1 ∉ realDrafts spec id := by
    intro hmem
    have h := mem_takeWhile_imp hmem
    cases h
  obtain ⟨rest, hrest⟩ : ∃ rest, draftsOf spec id ++ [-1] = realDrafts spec id ++ -1 :: rest := by
    unfold realDrafts realTokens
    have hsplit := takeWhile_append_dropWhile (p := (· != -1)) (l := draftsOf spec id)
    cases hdrop : (draftsOf spec id).dropWhile (· != -1) with
    | nil =>
      rw [hdrop, append_nil] at hsplit
      rw [hsplit]
      exact ⟨[], rfl⟩
    | cons t ts =>
      have ht : t = -1 := by
        have hne : (draftsOf spec id).dropWhile (· != -1) ≠ [] := by
          rw [hdrop]
          exact cons_ne_nil t ts
        have h := head_dropWhile_not (· != -1) hne
        simp only [hdrop, head_cons] at h
        simpa using h
      rw [hdrop, ht] at hsplit
      refine ⟨ts ++ [-1], ?_⟩
      nth_rewrite 1 [← hsplit]
      rw [append_assoc]
      rfl
  unfold rowsOf
  rw [hrest]
  exact rowsFrom_getElem? hnot rest hi

theorem getElem?_flatMap_piece {rows : ReqId → List Row}
    (hrows : ∀ id, (rows id).length = numRows spec id) (ids before after : List ReqId)
    (id : ReqId) (hi : i < numRows spec id) :
    ((before ++ id :: after).flatMap (piece spec rows ids))[firstRow spec before + i]? =
      (piece spec rows ids id)[i]? := by
  have hstart : (before.flatMap (piece spec rows ids)).length = firstRow spec before :=
    length_flatMap_piece hrows ids before
  rw [flatMap_append, flatMap_cons, getElem?_append_right (by omega), hstart,
    Nat.add_sub_cancel_left, getElem?_append_left (by rw [length_piece hrows]; exact hi)]

/-- Whatever path fills the rows, the row of logits of a constrained request behind some of
its drafts is masked by what its grammar allows there, all other rows are left as they are,
and every grammar is left as the check for its first row leaves it. -/
theorem grammarBitmask_masks (hG : Lawful G Valid Validated) (X : ApplyTokenBitmask L)
    (cfg : Config) (m : Manager σ) (scheduled reqIds : List ReqId)
    (spec : Dict ReqId (List Int)) (logits : List (Logits L)) (hscheduled : scheduled.Nodup)
    (hseqs : scheduled.length ≤ cfg.maxNumSeqs)
    (hspec : ∀ id, (draftsOf spec id).length ≤ cfg.numSpeculativeTokens)
    (hbuffer : ∀ bitmask, m.bitmask = some bitmask →
      bitmask.length = cfg.maxNumSeqs * (1 + cfg.numSpeculativeTokens))
    (hdrafts : ∀ id ∈ structuredOutputRequestIds m.requests scheduled,
      constrained cfg m.requests id = true → realDrafts spec id ≠ [] →
      Valid (m.grammars id) ∧
        ∃ proposed, realDrafts spec id <+: G.validateTokens (m.grammars id) proposed)
    (hbatch : reqIds.Nodup) (hlogits : logits.length = (reqIds.map (numRows spec)).sum) :
    ∃ m' out logits',
      (∀ threshold size ex, getGrammarBitmask G { cfg with
          fillBitmaskParallelThreshold := threshold
          fillBitmaskParallelBatchSize := size } ex m scheduled spec = .ok (m', out)) ∧
      (∀ id, m'.grammars id =
        if id ∈ structuredOutputRequestIds m.requests scheduled then
          checked G (m.grammars id) (constrained cfg m.requests id)
        else m.grammars id) ∧
      (∀ id, Valid (m.grammars id) → m'.grammars id = m.grammars id) ∧
      maskLogits X spec reqIds logits out = .ok logits' ∧
      ∀ before id after, reqIds = before ++ id :: after → ∀ i < numRows spec id,
        (id ∉ structuredOutputRequestIds m.requests scheduled →
          logits'[firstRow spec before + i]? = logits[firstRow spec before + i]?) ∧
        (id ∈ structuredOutputRequestIds m.requests scheduled →
          i ≤ (realDrafts spec id).length →
          logits'[firstRow spec before + i]? = (logits[firstRow spec before + i]?).map
            (maskRow X (rowAt G (stateAfter G (m.grammars id) ((realDrafts spec id).take i))
              (constrained cfg m.requests id)))) := by
  have hsub : (structuredOutputRequestIds m.requests scheduled).length ≤ scheduled.length :=
    length_filter_le _ _
  have hids : (structuredOutputRequestIds m.requests scheduled).Nodup := hscheduled.filter _
  by_cases hnil : structuredOutputRequestIds m.requests scheduled = []
  · refine ⟨m, none, logits, ?_, ?_, fun _ _ => rfl, rfl, ?_⟩
    · intro threshold size ex
      unfold getGrammarBitmask
      dsimp only
      rw [if_pos hnil]
    · intro id
      rw [hnil, if_neg (not_mem_nil)]
    · intro before id after _ i _
      refine ⟨fun _ => rfl, ?_⟩
      intro hid
      rw [hnil] at hid
      cases hid
  · have hallocate : (allocate cfg m.bitmask).length =
        cfg.maxNumSeqs * (1 + cfg.numSpeculativeTokens) := by
      unfold allocate
      cases hb : m.bitmask with
      | none => exact length_replicate
      | some bitmask => exact hbuffer bitmask hb
    have hready : Ready G Valid Validated cfg m.requests m.grammars spec
        (structuredOutputRequestIds m.requests scheduled) := by
      constructor
      · exact fun id => mem_structuredOutputRequestIds
      · intro id hid hcons hreal
        obtain ⟨hvalid, proposed, rest, hprefix⟩ := hdrafts id hid hcons hreal
        have hvalidated := hG.validateTokens_validated _ proposed hvalid
        rw [← hprefix] at hvalidated
        exact ⟨hvalid, fun _ => hG.validated_prefix _ _ _ hvalidated⟩
    have hlen (id : ReqId) : (rowsOf G cfg m.requests m.grammars spec id).length =
        numRows spec id := length_rowsOf cfg m.requests m.grammars spec id
    refine ⟨⟨askAll cfg m.requests (structuredOutputRequestIds m.requests scheduled),
        leave G cfg m.requests (structuredOutputRequestIds m.requests scheduled) m.grammars,
        some (writeRows (allocate cfg m.bitmask) 0
          ((structuredOutputRequestIds m.requests scheduled).flatMap
            (rowsOf G cfg m.requests m.grammars spec)))⟩,
      some (structuredOutputRequestIds m.requests scheduled,
        (structuredOutputRequestIds m.requests scheduled).flatMap
          (rowsOf G cfg m.requests m.grammars spec)), _, ?_, fun _ => rfl, ?_,
      applyGrammarBitmask_spec X hlen hbatch hlogits, ?_⟩
    · intro threshold size ex
      have hrun := @grammarBitmask_spec _ G _ _ hG { cfg with
          fillBitmaskParallelThreshold := threshold
          fillBitmaskParallelBatchSize := size } ex m _ spec hnil
        ⟨hready.known, hready.validated⟩ hids
        (Nat.le_trans hsub hseqs) hspec hallocate
      unfold getGrammarBitmask
      dsimp only
      rw [if_neg hnil, hrun]
      rfl
    · intro id hvalid
      show leave G cfg m.requests _ m.grammars id = _
      unfold leave
      split
      · exact hG.checked_same hvalid _
      · rfl
    · rintro before id after rfl i hi
      have hrow := getElem?_flatMap_piece hlen (structuredOutputRequestIds m.requests scheduled)
        before after id hi
      have hpos : firstRow spec before + i < logits.length := by
        rw [hlogits, map_append, sum_append, map_cons, sum_cons]
        unfold firstRow
        omega
      rw [getElem?_zipWith, hrow, getElem?_eq_getElem hpos]
      constructor
      · intro hid
        unfold piece
        rw [if_neg hid, getElem?_replicate, if_pos hi]
        rfl
      · intro hid hreal
        unfold piece
        rw [if_pos hid, rowsOf_getElem? hreal]
        rfl

/-! ## Examples -/

/-- The batches of the executor one after another. -/
def inOrder : Executor := ⟨List.flatten, fun _ => List.Perm.refl _⟩

/-- Logits are integers, and `-inf` is a small one. -/
def integerLogits : ApplyTokenBitmask Int where
  negInf := -1000
  inplace logits bitmask indices := logits.zipIdx.map fun e =>
    if (∀ js, indices = some js → e.2 ∈ js) then
      fun token => if bitmask.getD e.2 fullMask token then e.1 token else -1000
    else e.1
  inplace_eq _ _ _ _ := rfl

/-- What is left of a text after the tokens read. -/
def textMatcherOps (text : List Int) : GrammarMatcherOps (List Int) where
  acceptToken m t := if text[m.length]? = some t then (m ++ [t], true) else (m, false)
  isTerminated m := m.length == text.length
  rollback m n := m.take (m.length - n)
  fillNextTokenBitmask m t := text[m.length]? == some t

theorem textMatcher_fold {text m ts : List Int} (h : (textMatcherOps text).Accepted m ts) :
    ts.foldl (fun m t => ((textMatcherOps text).acceptToken m t).1) m = m ++ ts := by
  induction ts generalizing m with
  | nil => exact (append_nil m).symm
  | cons t ts ih =>
    have hstep : (textMatcherOps text).acceptToken m t = (m ++ [t], true) := by
      have hacc := h.1
      unfold textMatcherOps at hacc ⊢
      dsimp only at hacc ⊢
      split at hacc
      · rw [if_pos ‹_›]
      · cases hacc
    have hrest := h.2
    rw [hstep] at hrest
    rw [foldl_cons, hstep, ih hrest, append_assoc]
    rfl

theorem textMatcher_rollback (text m ts : List Int) (h : (textMatcherOps text).Accepted m ts) :
    (textMatcherOps text).rollback
      (ts.foldl (fun m t => ((textMatcherOps text).acceptToken m t).1) m) ts.length = m := by
  rw [textMatcher_fold h]
  show (m ++ ts).take ((m ++ ts).length - ts.length) = m
  rw [length_append, Nat.add_sub_cancel]
  exact take_left

def textMatcher (text : List Int) : GrammarMatcher (List Int) :=
  ⟨textMatcherOps text, textMatcher_rollback text⟩

def threeRequests : Dict ReqId Request :=
  ((Dict.empty.set 0 {}).set 1 { useStructuredOutput := false }).set 2 {}

def twoDrafts : Dict ReqId (List Int) := (Dict.empty.set 0 [1, 1]).set 2 [1, -1]

/-- The third request of the batch is the first of the scheduler. -/
theorem grammarBitmask_masks_reversed : ∃ logits' : List (Logits Int),
    logits'[firstRow twoDrafts [2, 1] + 2]? = some (fun t => if t = 2 then 7 else -1000) := by
  have h := grammarBitmask_masks (@XgrammarGrammar.lawful _ (textMatcher [1, 1, 2]))
    integerLogits ⟨none, false, 4, 2, 128, 16⟩ ⟨threeRequests, fun _ => ⟨[], 0, false⟩, none⟩
    [0, 1, 2] [2, 1, 0] twoDrafts (List.replicate 7 fun _ => 7) (by decide) (by decide)
    (by
      intro id
      unfold draftsOf twoDrafts
      rw [get?_set, get?_set]
      split
      · decide
      · split
        · decide
        · rw [get?_empty]
          decide)
    (by
      intro bitmask hb
      cases hb)
    (by
      intro id hid _ _
      have hids : structuredOutputRequestIds threeRequests [0, 1, 2] = [0, 2] := by decide +kernel
      rw [show structuredOutputRequestIds _ [0, 1, 2] = [0, 2] from hids] at hid
      refine ⟨rfl, [1, 1, 5], ?_⟩
      obtain rfl | hid := mem_cons.mp hid
      · decide +kernel
      · obtain rfl := mem_singleton.mp hid
        decide +kernel)
    (by decide) (by decide +kernel)
  obtain ⟨m', out, logits', _, _, _, _, hrows⟩ := h
  refine ⟨logits', ?_⟩
  have hrow := (hrows [2, 1] 0 [] rfl 2 (by decide +kernel)).2 (by decide +kernel)
    (by decide +kernel)
  rw [hrow]
  show some _ = some _
  congr 1
  funext t
  show (if (([1, 1, 2] : List Int)[2]? == some t) = true then (7 : Int) else -1000) = _
  by_cases ht : t = 2
  · rw [ht]
    rfl
  · have hne : ¬(2 : Int) = t := fun heq => ht heq.symm
    simp [ht, hne]

/-- A guide through one text, which is finished when all but the end token is read. -/
def textGuide (text : List Int) : Guide (List Int) where
  acceptsTokens m ts := (m ++ ts).isPrefixOf text
  advance m t := m ++ [t]
  rollbackState m n := m.take (m.length - n)
  isFinished m := text.length ≤ m.length + 1
  writeMask m t := text[m.length]? == some t

/-- The manager before and after a grammar of outlines was asked for one row: its finished
flag has moved on, and a draft leaves it set although the draft is taken back. -/
theorem outlines_flag_moves :
    (∃ m' out, getGrammarBitmask (OutlinesGrammar.ops (textGuide [1, 2]))
        ⟨none, false, 4, 0, 128, 16⟩ inOrder
        ⟨Dict.empty.set 0 {}, fun _ => ⟨[1], 1, false⟩, none⟩ [0] .empty = .ok (m', out) ∧
      m'.grammars 0 = ⟨[1], 1, true⟩) ∧
    ∃ m' out, getGrammarBitmask (OutlinesGrammar.ops (textGuide [1, 2]))
        ⟨none, false, 4, 1, 128, 16⟩ inOrder
        ⟨Dict.empty.set 0 {}, fun _ => ⟨[], 0, false⟩, none⟩ [0] (Dict.empty.set 0 [1]) =
          .ok (m', out) ∧
      m'.grammars 0 = ⟨[], 0, true⟩ := by
  refine ⟨⟨_, _, rfl, ?_⟩, ⟨_, _, rfl, ?_⟩⟩
  · decide +kernel
  · decide +kernel

end VllmCore.StructuredOutput
