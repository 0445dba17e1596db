import VllmCore.SpecDecode.Sampling
import VllmCore.Scheduler.StopConditions
/-!
# Speculative decoding loses no token

A request is scheduled, scored with its drafts, and updated with what was sampled, over
and over; other requests share its batches.  Its tokens are those of decoding one token
at a time.  Its count of computed tokens covers all of them but the last, as long as no
accepted draft is a token at which the request stops: what follows such a draft is
dropped, and the count is not taken back.
-/

namespace VllmCore.SpecDecode

open List Nat Support

variable {D : Type} [DecidableEq D] {vocabSize : Nat}

/-! ## Token by token -/

/-- The tokens that greedy decoding appends to `ctx`. -/
def greedy (A : Argmax vocabSize) : List Token → Nat → List Token
  | _, 0 => []
  | ctx, k + 1 => A.next ctx :: greedy A (ctx ++ [A.next ctx]) k

/-- Decode up to `k` tokens one at a time, until the request stops. -/
def tokenByToken (A : Argmax vocabSize) (config : SchedulerConfig D) :
    Nat → Request D → Py (Bool × Request D)
  | 0, r => return (false, r)
  | k + 1, r => do
    let (_, stopped, r) ← Scheduler.appendUntilStop config [A.next r.allTokenIds] r
    if stopped then return (true, r) else tokenByToken A config k r

theorem length_greedy (A : Argmax vocabSize) (ctx : List Token) (k : Nat) :
    (greedy A ctx k).length = k := by
  induction k generalizing ctx with
  | zero => rfl
  | succ k ih => rw [greedy, length_cons, ih]

variable {k : Nat}
variable {j : Nat} {A : Argmax vocabSize} {r r' : Request D} {xs : List Token}
  {config : SchedulerConfig D} {p : SamplingParams}

theorem take_greedy (A : Argmax vocabSize) (ctx : List Token) (h : j ≤ k) :
    (greedy A ctx k).take j = greedy A ctx j := by
  induction k generalizing ctx j with
  | zero =>
    obtain rfl : j = 0 := by omega
    rfl
  | succ k ih =>
    cases j with
    | zero => rfl
    | succ j => rw [greedy, take_succ_cons, ih _ (by omega), greedy]

theorem verify_eq_greedy (A : Argmax vocabSize) (ctx ds : List Token) :
    ∃ k, k ≤ ds.length ∧ verify A ctx ds = greedy A ctx (k + 1) ∧
      ds.take k = greedy A ctx k ∧ (k < ds.length → ds.take (k + 1) ≠ greedy A ctx (k + 1)) := by
  induction ds generalizing ctx with
  | nil => exact ⟨0, le_refl 0, rfl, rfl, fun h => absurd h (lt_irrefl 0)⟩
  | cons d ds ih =>
    rw [verify]
    by_cases hd : d = A.next ctx
    · subst hd
      obtain ⟨k, hle, hverify, htake, hnot⟩ := ih (ctx ++ [A.next ctx])
      refine ⟨k + 1, by simpa using hle, ?_, ?_, ?_⟩
      · rw [if_pos rfl, hverify]
        rfl
      · rw [take_succ_cons, htake, greedy]
      · intro hlt heq
        rw [take_succ_cons, greedy, List.cons.injEq] at heq
        exact hnot (by simpa using hlt) heq.2
    · refine ⟨0, zero_le _, ?_, rfl, ?_⟩
      · rw [if_neg hd]
        rfl
      · intro _ heq
        rw [take_succ_cons, greedy, List.cons.injEq] at heq
        exact hd heq.1

theorem take_eq_greedy_iff {ctx ds : List Token} (hle : k ≤ ds.length)
    (htake : ds.take k = greedy A ctx k)
    (hnot : k < ds.length → ds.take (k + 1) ≠ greedy A ctx (k + 1)) (hj : j ≤ ds.length) :
    ds.take j = greedy A ctx j ↔ j ≤ k := by
  constructor
  · intro heq
    by_contra hlt
    have hk : k < ds.length := by omega
    apply hnot hk
    have hshort := congrArg (List.take (k + 1)) heq
    rwa [take_take, min_eq_left (by omega), take_greedy A ctx (by omega)] at hshort
  · intro hjk
    have hshort := congrArg (List.take j) htake
    rwa [take_take, min_eq_left hjk, take_greedy A ctx hjk] at hshort

/-! ## One token -/

/-- Whether `check_stop` stops the request once it has these further tokens. -/
def stopsAt (config : SchedulerConfig D) (p : SamplingParams) (r : Request D)
    (tokenIds : List Token) : Bool :=
  decide (p.minTokens ≤ r.numOutputTokens + tokenIds.length) &&
    (r.withOutput tokenIds).mustStop config.maxModelLen p

structure SameTokens (r r' : Request D) : Prop where
  output : r'.outputTokenIds = r.outputTokenIds
  all : r'.allTokenIds = r.allTokenIds
  maxTokens : r'.maxTokens = r.maxTokens

/-- `r'` is `r` with these further tokens; what the scheduler counts is as before. -/
structure Appended (r r' : Request D) (tokenIds : List Token) : Prop where
  output : r'.outputTokenIds = r.outputTokenIds ++ tokenIds
  all : r'.allTokenIds = r.allTokenIds ++ tokenIds
  maxTokens : r'.maxTokens = r.maxTokens
  computed : r'.numComputedTokens = r.numComputedTokens
  placeholders : r'.numOutputPlaceholders = r.numOutputPlaceholders
  spec : r'.specTokenIds = r.specTokenIds

theorem Appended.trans {r'' : Request D} {ys : List Token} (h : Appended r r' xs)
    (h' : Appended r' r'' ys) : Appended r r'' (xs ++ ys) where
  output := by rw [h'.output, h.output, append_assoc]
  all := by rw [h'.all, h.all, append_assoc]
  maxTokens := h'.maxTokens.trans h.maxTokens
  computed := h'.computed.trans h.computed
  placeholders := h'.placeholders.trans h.placeholders
  spec := h'.spec.trans h.spec

theorem appendOne {config : SchedulerConfig D} {r : Request D} {p : SamplingParams}
    {numPrompt : Nat} (h : r.Generating numPrompt p) (t : Token) :
    ∃ r', checkStop (r.appendOutputTokenIds config.blockHasher [t]) config.maxModelLen =
        .ok (r', stopsAt config p r [t]) ∧ Appended r r' [t] ∧
      (stopsAt config p r [t] = false → r'.Generating numPrompt p) := by
  obtain ⟨r', hcheck, hout, hall, hmax, hpooling, hsampling⟩ :=
    @Scheduler.appendToken D config r p numPrompt h t
  have happend := Request.appendOutputTokenIds_spec config.blockHasher r [t]
  obtain ⟨hspec, hsame, _⟩ := checkStop_spec hcheck
  refine ⟨r', hcheck, ⟨hout, hall, hmax, ?_, ?_, ?_⟩, ?_⟩
  · rw [hspec, happend]
  · rw [hspec, happend]
  · rw [hspec, happend]
  · intro hgoes
    have hstatus := (hsame hgoes).trans (congrArg Request.status happend)
    refine ⟨?_, hpooling, hsampling, ?_⟩
    · show r'.status.isFinished = false
      rw [hstatus]
      exact h.unfinished
    · have htokens := h.numTokens
      unfold Request.numTokens Request.numOutputTokens at htokens ⊢
      rw [hout, hall, length_append, length_append]
      omega

theorem stopsAt_congr (h : SameTokens r r') (tokenIds : List Token) :
    stopsAt config p r' tokenIds = stopsAt config p r tokenIds := by
  have hmust : (r'.withOutput tokenIds).mustStop config.maxModelLen p =
      (r.withOutput tokenIds).mustStop config.maxModelLen p := by
    apply Request.mustStop_congr
    · show r'.outputTokenIds ++ tokenIds = r.outputTokenIds ++ tokenIds
      rw [h.output]
    · show r'.allTokenIds ++ tokenIds = r.allTokenIds ++ tokenIds
      rw [h.all]
    · exact h.maxTokens
  unfold stopsAt Request.numOutputTokens
  rw [hmust, h.output]

theorem stopsAt_append (h : Appended r r' xs) (ys : List Token) :
    stopsAt config p r' ys = stopsAt config p r (xs ++ ys) := by
  have hmust : (r'.withOutput ys).mustStop config.maxModelLen p =
      (r.withOutput (xs ++ ys)).mustStop config.maxModelLen p := by
    apply Request.mustStop_congr
    · show r'.outputTokenIds ++ ys = r.outputTokenIds ++ (xs ++ ys)
      rw [h.output, append_assoc]
    · show r'.allTokenIds ++ ys = r.allTokenIds ++ (xs ++ ys)
      rw [h.all, append_assoc]
    · exact h.maxTokens
  unfold stopsAt Request.numOutputTokens
  rw [hmust, h.output, length_append, length_append, add_assoc]

/-! ## The tokens of a step -/

/-- Of the next `k` greedy tokens the first `j` are kept: they end at the first stop. -/
structure KeptGreedy (A : Argmax vocabSize) (config : SchedulerConfig D) (p : SamplingParams)
    (r : Request D) (k j : Nat) (stopped : Bool) : Prop where
  le : j ≤ k
  before : ∀ i, 0 < i → i < j → stopsAt config p r (greedy A r.allTokenIds i) = false
  stops : stopped = true → 0 < j ∧ stopsAt config p r (greedy A r.allTokenIds j) = true
  goesOn : stopped = false → j = k ∧ (0 < j → stopsAt config p r (greedy A r.allTokenIds j) = false)

theorem KeptGreedy.congr {stopped : Bool} (h : KeptGreedy A config p r k j stopped)
    (hsame : SameTokens r r') : KeptGreedy A config p r' k j stopped where
  le := h.le
  before := by
    intro i hpos hlt
    rw [stopsAt_congr hsame, hsame.all]
    exact h.before i hpos hlt
  stops := by
    intro hyes
    rw [stopsAt_congr hsame, hsame.all]
    exact h.stops hyes
  goesOn := by
    intro hno
    rw [stopsAt_congr hsame, hsame.all]
    exact h.goesOn hno

theorem appendUntilStop_greedy (A : Argmax vocabSize) {config : SchedulerConfig D}
    {p : SamplingParams} {numPrompt : Nat} (k : Nat) {r ref : Request D}
    (h : r.Generating numPrompt p) (href : ref.Generating numPrompt p) (hsame : SameTokens r ref) :
    ∃ j stopped r' ref',
      Scheduler.appendUntilStop config (greedy A r.allTokenIds k) r =
        .ok (greedy A r.allTokenIds j, stopped, r') ∧
      tokenByToken A config j ref = .ok (stopped, ref') ∧ SameTokens r' ref' ∧
      Appended r r' (greedy A r.allTokenIds j) ∧ KeptGreedy A config p r k j stopped ∧
      (stopped = false → r'.Generating numPrompt p ∧ ref'.Generating numPrompt p) := by
  induction k generalizing r ref with
  | zero =>
    refine ⟨0, false, r, ref, rfl, rfl, hsame, ⟨?_, ?_, rfl, rfl, rfl, rfl⟩, ⟨?_, ?_, ?_, ?_⟩,
      fun _ => ⟨h, href⟩⟩
    · exact (append_nil _).symm
    · exact (append_nil _).symm
    · omega
    · omega
    · intro hstop
      cases hstop
    · omega
  | succ k ih =>
    have hnext : A.next ref.allTokenIds = A.next r.allTokenIds := by rw [hsame.all]
    obtain ⟨r₁, hcheck, happended, hgoes⟩ :=
      @appendOne D _ config r p numPrompt h (A.next r.allTokenIds)
    obtain ⟨ref₁, hrefCheck, hrefAppended, hrefGoes⟩ :=
      @appendOne D _ config ref p numPrompt href (A.next r.allTokenIds)
    have hsame₁ : SameTokens r₁ ref₁ := by
      refine ⟨?_, ?_, ?_⟩
      · rw [hrefAppended.output, happended.output, hsame.output]
      · rw [hrefAppended.all, happended.all, hsame.all]
      · rw [hrefAppended.maxTokens, happended.maxTokens, hsame.maxTokens]
    rw [stopsAt_congr hsame] at hrefCheck hrefGoes
    have hrefOne : Scheduler.appendUntilStop config [A.next ref.allTokenIds] ref =
        .ok ([A.next r.allTokenIds], stopsAt config p r [A.next r.allTokenIds], ref₁) := by
      rw [hnext, Scheduler.appendUntilStop, hrefCheck]
      cases stopsAt config p r [A.next r.allTokenIds] <;> rfl
    cases hstop : stopsAt config p r [A.next r.allTokenIds] with
    | true =>
      rw [hstop] at hcheck hrefOne
      refine ⟨1, true, r₁, ref₁, ?_, ?_, hsame₁, happended, ⟨?_, ?_, ?_, ?_⟩, ?_⟩
      · rw [greedy, Scheduler.appendUntilStop, hcheck]
        rfl
      · rw [tokenByToken, hrefOne]
        rfl
      · omega
      · omega
      · exact fun _ => ⟨one_pos, hstop⟩
      · intro hno
        cases hno
      · intro hno
        cases hno
    | false =>
      rw [hstop] at hcheck hrefOne
      obtain ⟨j, stopped, r', ref', happend, href', hsame', hall, hkept, hgen⟩ :=
        ih (hgoes hstop) (hrefGoes hstop) hsame₁
      rw [happended.all] at happend hall
      have hstops : ∀ i, stopsAt config p r₁ (greedy A r₁.allTokenIds i) =
          stopsAt config p r (greedy A r.allTokenIds (i + 1)) := by
        intro i
        rw [stopsAt_append happended, happended.all]
        rfl
      refine ⟨j + 1, stopped, r', ref', ?_, ?_, hsame', happended.trans hall,
        ⟨?_, ?_, ?_, ?_⟩, hgen⟩
      · rw [greedy, Scheduler.appendUntilStop, hcheck]
        simp only [ok_bind, Bool.false_eq_true, if_false, happend]
        rfl
      · rw [tokenByToken, hrefOne]
        exact href'
      · have hle := hkept.le
        omega
      · intro i hpos hlt
        obtain ⟨i, rfl⟩ : ∃ m, i = m + 1 := ⟨i - 1, by omega⟩
        cases i with
        | zero => exact hstop
        | succ i =>
          rw [← hstops]
          exact hkept.before (i + 1) (succ_pos i) (by omega)
      · intro hyes
        rw [← hstops]
        exact ⟨succ_pos j, (hkept.stops hyes).2⟩
      · intro hno
        obtain ⟨hall, hend⟩ := hkept.goesOn hno
        refine ⟨by omega, fun _ => ?_⟩
        cases j with
        | zero => exact hstop
        | succ j =>
          rw [← hstops]
          exact hend (succ_pos j)

theorem tokenByToken_add (A : Argmax vocabSize) {ref : Request D}
    (h : tokenByToken A config k r = .ok (false, ref)) (j : Nat) :
    tokenByToken A config (k + j) r = tokenByToken A config j ref := by
  induction k generalizing r with
  | zero =>
    rw [zero_add]
    cases h
    rfl
  | succ k ih =>
    rw [succ_add, tokenByToken]
    obtain ⟨e, he, h⟩ := bind_ok.mp h
    rw [he, ok_bind]
    obtain ⟨kept, stopped, r₁⟩ := e
    cases stopped with
    | true => cases h
    | false => exact ih h

/-! ## Runs of a request -/

/-- A request under synchronous scheduling: the request object, the tokens whose keys
and values are in its blocks, what the last step returned for it, and whether it
stopped. -/
structure RequestRun (D : Type) where
  request : Request D
  kv : List Token := []
  generated : List Token := []
  stopped : Bool := false

namespace RequestRun

/-- What can happen to a request: a step that schedules `n` of its tokens, with other
requests before and after it in the batch; new drafts; a preemption; an admission with
`k` tokens found in the prefix cache. -/
inductive Op
  | step (n : Nat) (before after : List Row)
  | updateDraftTokenIds (specTokenIds : List Token)
  | preempt
  | start (k : Nat)

/-- The row of the request in a step that schedules `n` tokens, the drafts `spec` among
them. -/
def row (s : RequestRun D) (spec : List Token) (n : Nat) : Py Row :=
  let r := s.request
  let numComputed := r.numComputedTokens.toNat
  let inputIds := ((r.allTokenIds ++ spec).drop numComputed).take n
  if h : spec.length < inputIds.length then
    .ok
      { kv := s.kv.take numComputed
        inputIds := inputIds
        numDraftTokens := spec.length
        discard := numComputed + n < r.numTokens
        lt := h }
  else .error (.assertionError "num_draft_tokens < num_scheduled_tokens")

/-- The request once `n` of its tokens are scheduled. -/
def scheduled (n : Nat) (r : Request D) : Request D :=
  Scheduler.advanced n { r with specTokenIds := [] }

/-- A step: the request is scheduled, sampled and updated. -/
def step (A : Argmax vocabSize) (config : SchedulerConfig D) (s : RequestRun D) (n : Nat)
    (before after : List Row) : Py (RequestRun D) := do
  let spec := Scheduler.Pass.scheduledSpecTokens s.request n
  let row ← s.row spec n
  let r := scheduled n s.request
  let sampledTokenIds ← sampleTokens A (before ++ row :: after)
  let generated ← pyGet sampledTokenIds (before.length : Int)
  let r := Scheduler.afterRejection spec generated r
  let (kept, stopped, r) ← Scheduler.appendUntilStop config generated r
  return { request := r, kv := row.kv ++ row.inputIds, generated := kept, stopped := stopped }

def run (A : Argmax vocabSize) (config : SchedulerConfig D) (s : RequestRun D) :
    Op → Py (RequestRun D)
  | .step n before after => s.step A config n before after
  | .updateDraftTokenIds specTokenIds =>
    return { s with request := { s.request with
      specTokenIds := if s.request.isPrefillChunk then [] else specTokenIds } }
  | .preempt =>
    return { s with request := Scheduler.preempted s.request, kv := [], generated := [] }
  | .start k => return { s with
      request := { s.request with status := .running, numComputedTokens := k }
      kv := s.request.allTokenIds.take k
      generated := [] }

/-- When the scheduler does it: a step takes some of the tokens not computed yet, drafts
included; a cached prefix ends before the last token. -/
def Allowed (s : RequestRun D) : Op → Prop
  | .step n _ _ => s.stopped = false ∧ 0 < n ∧
      s.request.numComputedTokens + n ≤ s.request.numTokensWithSpec
  | .updateDraftTokenIds _ | .preempt => s.stopped = false
  | .start k => s.stopped = false ∧ s.request.numComputedTokens = 0 ∧ k < s.request.numTokens

instance (s : RequestRun D) (op : Op) : Decidable (s.Allowed op) :=
  match op with
  | .step _ _ _ => inferInstanceAs (Decidable (_ ∧ _ ∧ _))
  | .updateDraftTokenIds _ | .preempt => inferInstanceAs (Decidable (_ = _))
  | .start _ => inferInstanceAs (Decidable (_ ∧ _ ∧ _))

/-- No draft token that the model accepts is a token at which the request stops. -/
def DraftsGoOn (A : Argmax vocabSize) (config : SchedulerConfig D) (p : SamplingParams)
    (s : RequestRun D) : Op → Prop
  | .step n _ _ =>
    let spec := Scheduler.Pass.scheduledSpecTokens s.request n
    ∀ i, 0 < i → i ≤ spec.length → spec.take i = greedy A s.request.allTokenIds i →
      stopsAt config p s.request (spec.take i) = false
  | _ => True

abbrev ReachableBy (A : Argmax vocabSize) (config : SchedulerConfig D) (r : Request D)
    (guard : RequestRun D → Op → Prop) : RequestRun D → Prop :=
  Reachable (· = { request := r }) (OpStep guard (run A config))

/-- The count of computed tokens is exact: the keys and values up to it are those of the
tokens of the request, and after a step that sampled, all tokens but the last count. -/
structure Exact (s : RequestRun D) : Prop where
  kv : s.kv.take s.request.numComputedTokens.toNat =
    s.request.allTokenIds.take s.request.numComputedTokens.toNat
  count : s.generated ≠ [] → s.request.numComputedTokens + 1 = s.request.numTokens

/-! ### The invariant -/

/-- What holds of a request that has not stopped: the keys and values up to its count
are those of its tokens, and the last token is not among them. -/
structure Computed (numPrompt : Nat) (p : SamplingParams) (s : RequestRun D) : Prop where
  generating : s.request.Generating numPrompt p
  nonneg : 0 ≤ s.request.numComputedTokens
  lt : s.request.numComputedTokens < s.request.numTokens
  kv : s.kv.take s.request.numComputedTokens.toNat =
    s.request.allTokenIds.take s.request.numComputedTokens.toNat
  noPlaceholders : s.request.numOutputPlaceholders = 0
  count : s.generated ≠ [] → s.request.numComputedTokens + 1 = s.request.numTokens

/-- The request has the tokens of decoding one at a time, and stopped where it stops. -/
structure Lossless (A : Argmax vocabSize) (config : SchedulerConfig D) (r : Request D)
    (numPrompt : Nat) (p : SamplingParams) (s : RequestRun D) : Prop where
  decoded : ∃ ref, tokenByToken A config s.request.numOutputTokens r = .ok (s.stopped, ref) ∧
    SameTokens s.request ref ∧ (s.stopped = false → ref.Generating numPrompt p)
  computed : s.stopped = false → Computed numPrompt p s

variable {A : Argmax vocabSize} {config : SchedulerConfig D} {r : Request D} {numPrompt : Nat}
  {p : SamplingParams}

variable {c n k j : Nat} {s s' : RequestRun D} {spec : List Token}

theorem length_scheduledSpecTokens (h : Computed numPrompt p s)
    (hc : s.request.numComputedTokens = c)
    (hn : s.request.numComputedTokens + n ≤ s.request.numTokensWithSpec) :
    (Scheduler.Pass.scheduledSpecTokens s.request n).length = c + n - s.request.numTokens := by
  unfold Scheduler.Pass.scheduledSpecTokens
  unfold Request.numTokensWithSpec at hn
  unfold Request.numTokens
  rw [length_take, h.noPlaceholders]
  omega

theorem row_eq (h : Computed numPrompt p s) (hc : s.request.numComputedTokens = c) (hpos : 0 < n)
    (hspec : spec.length = c + n - s.request.numTokens) :
    ∃ row, s.row spec n = .ok row ∧
      row.kv ++ row.inputIds = (s.request.allTokenIds ++ spec).take (c + n) ∧
      row.discard = decide (c + n < s.request.numTokens) ∧
      (s.request.numTokens ≤ c + n →
        row.confirmed = s.request.allTokenIds ∧ row.drafts = spec) := by
  have hlt := h.lt
  have hkv := h.kv
  unfold row
  unfold Request.numTokens at hlt hspec ⊢
  rw [hc, Int.toNat_natCast] at hkv
  dsimp only
  rw [hc, Int.toNat_natCast]
  generalize s.request.allTokenIds = all at hlt hspec hkv ⊢
  have hlength : (((all ++ spec).drop c).take n).length = n := by
    rw [length_take, length_drop, length_append]
    omega
  have hprefix : ∀ m, all.take c ++ ((all ++ spec).drop c).take m = (all ++ spec).take (c + m) := by
    intro m
    rw [take_add, take_append_of_le_length (by omega)]
  rw [dif_pos (by rw [hlength]; omega)]
  refine ⟨_, rfl, ?_, rfl, ?_⟩
  · show s.kv.take c ++ _ = _
    rw [hkv, hprefix]
  · intro hend
    have hm : c + (n - spec.length) = all.length := by omega
    constructor
    · show s.kv.take c ++ (((all ++ spec).drop c).take n).take
        ((((all ++ spec).drop c).take n).length - spec.length) = all
      rw [hlength, take_take, min_eq_left (by omega), hkv, hprefix, hm,
        take_left]
    · show (((all ++ spec).drop c).take n).drop
        ((((all ++ spec).drop c).take n).length - spec.length) = spec
      rw [hlength, drop_take, drop_drop, hm, drop_left]
      exact take_of_length_le (by omega)

/-- What a step does that reaches the end of the tokens: the model accepts `k` drafts, and
`j` of the tokens it returns are kept. -/
structure Sampled (A : Argmax vocabSize) (config : SchedulerConfig D) (p : SamplingParams)
    (s s' : RequestRun D) (spec : List Token) (k j : Nat) : Prop where
  le : k ≤ spec.length
  accepted : spec.take k = greedy A s.request.allTokenIds k
  rejected : k < spec.length → spec.take (k + 1) ≠ greedy A s.request.allTokenIds (k + 1)
  kept : KeptGreedy A config p s.request (k + 1) j s'.stopped
  generated : s'.generated = greedy A s.request.allTokenIds j
  kv : s'.kv = s.request.allTokenIds ++ spec
  output : s'.request.outputTokenIds = s.request.outputTokenIds ++ greedy A s.request.allTokenIds j
  all : s'.request.allTokenIds = s.request.allTokenIds ++ greedy A s.request.allTokenIds j
  computed : s'.request.numComputedTokens = s.request.numTokens + k
  placeholders : s'.request.numOutputPlaceholders = 0

theorem sampled_row (A : Argmax vocabSize) (before after : List Row) (row : Row) :
    sampleTokens A (before ++ row :: after) =
        .ok ((before ++ row :: after).map (Row.sampled A)) ∧
      pyGet ((before ++ row :: after).map (Row.sampled A)) (before.length : Int) =
        .ok (row.sampled A) := by
  refine ⟨sampleTokens_eq A _, pyGet_natCast_ok.mpr ?_⟩
  rw [map_append, getElem?_append_right (by simp)]
  simp

theorem step_partial (A : Argmax vocabSize) (config : SchedulerConfig D)
    (h : Computed numPrompt p s) (before after : List Row) (hc : s.request.numComputedTokens = c)
    (hpos : 0 < n) (hn : s.request.numComputedTokens + n ≤ s.request.numTokensWithSpec)
    (hend : c + n < s.request.numTokens) :
    s.step A config n before after = .ok
      { request := scheduled n s.request, kv := s.request.allTokenIds.take (c + n) } := by
  have hlength := length_scheduledSpecTokens h hc hn
  obtain ⟨row, hrow, hkv, hdiscard, -⟩ := row_eq h hc hpos hlength
  obtain ⟨hsampled, hget⟩ := sampled_row A before after row
  have hnil : Scheduler.Pass.scheduledSpecTokens s.request n = [] :=
    eq_nil_of_length_eq_zero (by omega)
  have hnone : row.sampled A = [] := by
    unfold Row.sampled
    rw [hdiscard, decide_eq_true hend]
    rfl
  unfold step
  dsimp only
  rw [hrow, ok_bind, hsampled, ok_bind, hget, ok_bind, hkv, hnone, hnil, append_nil]
  rfl

theorem afterRejection_eq (spec generated : List Token) (r : Request D) :
    Scheduler.afterRejection spec generated r = { r with
      numComputedTokens := (Scheduler.afterRejection spec generated r).numComputedTokens
      numOutputPlaceholders :=
        (Scheduler.afterRejection spec generated r).numOutputPlaceholders } := by
  unfold Scheduler.afterRejection
  split <;> rfl

theorem computed_afterRejection (A : Argmax vocabSize) (ctx : List Token)
    (h : Computed numPrompt p s) (hc : s.request.numComputedTokens = c) (hpos : 0 < n)
    (hend : s.request.numTokens ≤ c + n) (hlength : spec.length = c + n - s.request.numTokens)
    (hle : k ≤ spec.length) :
    (Scheduler.afterRejection spec (greedy A ctx (k + 1))
        (scheduled n s.request)).numComputedTokens = s.request.numTokens + k ∧
      (Scheduler.afterRejection spec (greedy A ctx (k + 1))
        (scheduled n s.request)).numOutputPlaceholders = 0 := by
  have hplaceholders := h.noPlaceholders
  have hcount : (scheduled n s.request).numComputedTokens = c + n := by
    rw [← hc]
    rfl
  have hnone : (scheduled n s.request).numOutputPlaceholders = 0 := hplaceholders
  have hne : greedy A ctx (k + 1) ≠ [] := cons_ne_nil _ _
  unfold Scheduler.afterRejection
  by_cases hspec : spec = []
  · rw [if_neg (fun hboth => hboth.1 hspec), hcount, hnone]
    rw [hspec, length_nil] at hlength hle
    exact ⟨by omega, rfl⟩
  · rw [if_pos ⟨hspec, hne⟩]
    dsimp only [Scheduler.takeBackRejected]
    rw [hcount, hnone, if_pos (by omega), length_greedy]
    exact ⟨by omega, rfl⟩

theorem step_sampled (A : Argmax vocabSize) (config : SchedulerConfig D)
    (h : Computed numPrompt p s) {ref : Request D} (href : ref.Generating numPrompt p)
    (hsame : SameTokens s.request ref) (before after : List Row)
    (hc : s.request.numComputedTokens = c) (hpos : 0 < n)
    (hn : s.request.numComputedTokens + n ≤ s.request.numTokensWithSpec)
    (hend : s.request.numTokens ≤ c + n) :
    ∃ s' ref' k j, s.step A config n before after = .ok s' ∧
      Sampled A config p s s' (Scheduler.Pass.scheduledSpecTokens s.request n) k j ∧
      tokenByToken A config j ref = .ok (s'.stopped, ref') ∧ SameTokens s'.request ref' ∧
      (s'.stopped = false → s'.request.Generating numPrompt p ∧ ref'.Generating numPrompt p) := by
  have hlength := length_scheduledSpecTokens h hc hn
  obtain ⟨row, hrow, hkv, hdiscard, hconfirmed⟩ := row_eq h hc hpos hlength
  obtain ⟨hsampled, hget⟩ := sampled_row A before after row
  obtain ⟨hctx, hdrafts⟩ := hconfirmed hend
  unfold step
  dsimp only
  rw [hrow, ok_bind, hsampled, ok_bind, hget, ok_bind]
  generalize Scheduler.Pass.scheduledSpecTokens s.request n = spec at hlength hkv hdrafts ⊢
  obtain ⟨k, hle, hverify, haccepted, hrejected⟩ := verify_eq_greedy A s.request.allTokenIds spec
  have hgenerated : row.sampled A = greedy A s.request.allTokenIds (k + 1) := by
    unfold Row.sampled
    rw [hdiscard, decide_eq_false (by omega), hctx, hdrafts, ← hverify]
    rfl
  have hkv' : row.kv ++ row.inputIds = s.request.allTokenIds ++ spec := by
    rw [hkv]
    unfold Request.numTokens at hlength hend
    exact take_of_length_le (by rw [length_append]; omega)
  rw [hgenerated, hkv']
  -- the rejected drafts are taken back, the tokens are as before
  have hframe := afterRejection_eq spec (greedy A s.request.allTokenIds (k + 1))
    (scheduled n s.request)
  have hcomputed := computed_afterRejection A s.request.allTokenIds h hc hpos hend
    hlength hle
  generalize Scheduler.afterRejection spec (greedy A s.request.allTokenIds (k + 1))
    (scheduled n s.request) = r₁ at hframe hcomputed ⊢
  have hall : r₁.allTokenIds = s.request.allTokenIds := by rw [hframe]; rfl
  have htokens : SameTokens r₁ s.request := by
    refine ⟨?_, ?_, ?_⟩
    · rw [hframe]; rfl
    · rw [hframe]; rfl
    · rw [hframe]; rfl
  have hgen : r₁.Generating numPrompt p := by
    rw [hframe]
    exact ⟨h.generating.unfinished, h.generating.noPooling, h.generating.sampling,
      h.generating.numTokens⟩
  have hsame₁ : SameTokens r₁ ref :=
    ⟨hsame.output.trans htokens.output, hsame.all.trans htokens.all,
      hsame.maxTokens.trans htokens.maxTokens⟩
  obtain ⟨j, stopped, r', ref', happend, htoken, hsame', happended, hkept, hgens⟩ :=
    @appendUntilStop_greedy D _ vocabSize A config p numPrompt (k + 1) r₁ ref hgen href hsame₁
  rw [hall] at happend happended
  refine ⟨_, ref', k, j, by rw [happend]; rfl,
    ⟨hle, haccepted, hrejected, ?_, rfl, rfl, ?_, ?_, ?_, ?_⟩,
    htoken, hsame', hgens⟩
  · exact hkept.congr htokens
  · rw [happended.output, htokens.output]
  · rw [happended.all, htokens.all]
  · rw [happended.computed, hcomputed.1]
  · rw [happended.placeholders, hcomputed.2]

theorem Sampled.pos (h : Sampled A config p s s' spec k j) : 0 < j := by
  cases hstop : s'.stopped with
  | true => exact (h.kept.stops hstop).1
  | false =>
    have hall := (h.kept.goesOn hstop).1
    omega

theorem Sampled.exact (h : Sampled A config p s s' spec k j) (hj : j = k + 1) : Exact s' := by
  have hcount : s'.request.numComputedTokens.toNat = s.request.allTokenIds.length + k := by
    rw [h.computed]
    unfold Request.numTokens
    omega
  constructor
  · rw [hcount, h.kv, h.all, hj, take_length_add_append, take_length_add_append,
      h.accepted, take_greedy A _ (le_succ k)]
  · intro _
    rw [h.computed]
    unfold Request.numTokens
    rw [h.all, length_append, length_greedy]
    omega

theorem Sampled.exact_iff {before after : List Row}
    (h : Sampled A config p s s' (Scheduler.Pass.scheduledSpecTokens s.request n) k j) :
    Exact s' ↔ DraftsGoOn A config p s (.step n before after) := by
  have hle := h.le
  have hpos := h.pos
  constructor
  · intro hexact i hi hspec heq
    have hne : s'.generated ≠ [] := by
      apply ne_nil_of_length_pos
      rw [h.generated, length_greedy]
      exact hpos
    have hcount := hexact.count hne
    rw [h.computed] at hcount
    unfold Request.numTokens at hcount
    rw [h.all, length_append, length_greedy] at hcount
    have hik := (take_eq_greedy_iff hle h.accepted h.rejected hspec).mp heq
    rw [heq]
    exact h.kept.before i hi (by omega)
  · intro hgoes
    apply h.exact
    cases hstop : s'.stopped with
    | false => exact (h.kept.goesOn hstop).1
    | true =>
      have hbound := h.kept.le
      have hstops := (h.kept.stops hstop).2
      by_contra hne
      have haccepted :=
        (take_eq_greedy_iff hle h.accepted h.rejected (j := j) (by omega)).mpr (by omega)
      have hno := hgoes j hpos (by omega) haccepted
      rw [haccepted, hstops] at hno
      cases hno

theorem Sampled.computed_of_goesOn (h : Sampled A config p s s' spec k j)
    (hstop : s'.stopped = false) (hgen : s'.request.Generating numPrompt p) :
    Computed numPrompt p s' := by
  have hexact := h.exact (h.kept.goesOn hstop).1
  have hne : s'.generated ≠ [] := by
    apply ne_nil_of_length_pos
    rw [h.generated, length_greedy]
    exact h.pos
  have hcount := hexact.count hne
  have hcomputed := h.computed
  exact ⟨hgen, by omega, by omega, hexact.kv, h.placeholders, hexact.count⟩

theorem Computed.exact (h : Computed numPrompt p s) : Exact s :=
  ⟨h.kv, h.count⟩

theorem Lossless.frame (h : Lossless A config r numPrompt p s) (hstop : s'.stopped = s.stopped)
    (hsame : SameTokens s'.request s.request) (hcomputed : Computed numPrompt p s') :
    Lossless A config r numPrompt p s' := by
  obtain ⟨ref, htoken, href, hgen⟩ := h.decoded
  refine ⟨⟨ref, ?_, ?_, ?_⟩, fun _ => hcomputed⟩
  · unfold Request.numOutputTokens at htoken ⊢
    rw [← hsame.output, hstop, htoken]
  · exact ⟨href.output.trans hsame.output, href.all.trans hsame.all,
      href.maxTokens.trans hsame.maxTokens⟩
  · rw [hstop]
    exact hgen

/-- What an operation leaves: the invariant, and an exact count if and only if the request
does not stop at an accepted draft.  A step that reaches the end of the tokens adds one. -/
structure Follows (A : Argmax vocabSize) (config : SchedulerConfig D) (r : Request D)
    (numPrompt : Nat) (p : SamplingParams) (s : RequestRun D) (op : Op) (s' : RequestRun D) :
    Prop where
  lossless : Lossless A config r numPrompt p s'
  exact_iff : Exact s' ↔ DraftsGoOn A config p s op
  grows : ∀ n before after, op = .step n before after →
    s.request.numTokens ≤ s.request.numComputedTokens + n →
    s.request.numOutputTokens < s'.request.numOutputTokens

section

variable (h : Lossless A config r numPrompt p s)

include h

theorem follows_partial (before after : List Row)
    (hstop : s.stopped = false) (hc : s.request.numComputedTokens = c) (hpos : 0 < n)
    (hn : s.request.numComputedTokens + n ≤ s.request.numTokensWithSpec)
    (hend : c + n < s.request.numTokens) :
    Follows A config r numPrompt p s (.step n before after)
      { request := scheduled n s.request, kv := s.request.allTokenIds.take (c + n) } := by
  have hbefore := h.computed hstop
  have hlength := length_scheduledSpecTokens hbefore hc hn
  have hcount : (scheduled n s.request).numComputedTokens = (c + n : Nat) := by
    rw [cast_add, ← hc]
    rfl
  have hcomputed : Computed numPrompt p
      { request := scheduled n s.request, kv := s.request.allTokenIds.take (c + n) } := by
    refine ⟨⟨hbefore.generating.unfinished, hbefore.generating.noPooling,
      hbefore.generating.sampling, hbefore.generating.numTokens⟩, ?_, ?_, ?_,
      hbefore.noPlaceholders, fun hne => absurd rfl hne⟩
    · show 0 ≤ (scheduled n s.request).numComputedTokens
      omega
    · show (scheduled n s.request).numComputedTokens < s.request.numTokens
      omega
    · show (s.request.allTokenIds.take (c + n)).take
          (scheduled n s.request).numComputedTokens.toNat =
        s.request.allTokenIds.take (scheduled n s.request).numComputedTokens.toNat
      rw [hcount, Int.toNat_natCast, take_take, min_self]
  refine ⟨h.frame hstop.symm ⟨rfl, rfl, rfl⟩ hcomputed, iff_of_true hcomputed.exact ?_, ?_⟩
  · intro i hi hspec
    omega
  · intro m _ _ hop hreach
    cases hop
    omega

theorem follows_sampled (before after : List Row)
    (hstop : s.stopped = false) (hc : s.request.numComputedTokens = c) (hpos : 0 < n)
    (hn : s.request.numComputedTokens + n ≤ s.request.numTokensWithSpec)
    (hend : s.request.numTokens ≤ c + n) :
    ∃ s', s.step A config n before after = .ok s' ∧
      Follows A config r numPrompt p s (.step n before after) s' := by
  obtain ⟨ref, htoken, hsame, hrefGen⟩ := h.decoded
  rw [hstop] at htoken
  obtain ⟨s', ref', k, j, hstep, hsampled, htoken', hsame', hgen'⟩ :=
    step_sampled A config (h.computed hstop) (hrefGen hstop) hsame before after hc hpos hn hend
  have hnum : s'.request.numOutputTokens = s.request.numOutputTokens + j := by
    unfold Request.numOutputTokens
    rw [hsampled.output, length_append, length_greedy]
  have hpos := hsampled.pos
  refine ⟨s', hstep, ⟨⟨ref', ?_, hsame', fun hno => (hgen' hno).2⟩, ?_⟩, hsampled.exact_iff, ?_⟩
  · rw [hnum, tokenByToken_add A htoken, htoken']
  · intro hno
    exact hsampled.computed_of_goesOn hno (hgen' hno).1
  · intro _ _ _ _ _
    omega

theorem follows_step (n : Nat) (before after : List Row)
    (hallowed : s.Allowed (.step n before after)) :
    ∃ s', s.step A config n before after = .ok s' ∧
      Follows A config r numPrompt p s (.step n before after) s' := by
  obtain ⟨hstop, hpos, hn⟩ := hallowed
  have hcomputed := h.computed hstop
  obtain ⟨c, hc⟩ := Int.eq_ofNat_of_zero_le hcomputed.nonneg
  by_cases hend : s.request.numTokens ≤ c + n
  · exact follows_sampled h before after hstop hc hpos hn hend
  · exact ⟨_, step_partial A config hcomputed before after hc hpos hn (by omega),
      follows_partial h before after hstop hc hpos hn (by omega)⟩

end

theorem Computed.updateDraftTokenIds (h : Computed numPrompt p s) (specTokenIds : List Token) :
    Computed numPrompt p { s with request := { s.request with specTokenIds := specTokenIds } } :=
  ⟨⟨h.generating.unfinished, h.generating.noPooling, h.generating.sampling,
    h.generating.numTokens⟩, h.nonneg, h.lt, h.kv, h.noPlaceholders, h.count⟩

theorem Computed.preempt (h : Computed numPrompt p s) :
    Computed numPrompt p
      { s with request := Scheduler.preempted s.request, kv := [], generated := [] } := by
  have hlt := h.lt
  have hnonneg := h.nonneg
  refine ⟨⟨rfl, h.generating.noPooling, h.generating.sampling, h.generating.numTokens⟩,
    Int.le_refl 0, ?_, rfl, h.noPlaceholders, fun hne => absurd rfl hne⟩
  show (0 : Int) < s.request.numTokens
  omega

theorem Computed.start (h : Computed numPrompt p s) (hk : k < s.request.numTokens) :
    Computed numPrompt p { s with
      request := { s.request with status := .running, numComputedTokens := k }
      kv := s.request.allTokenIds.take k
      generated := [] } := by
  refine ⟨⟨rfl, h.generating.noPooling, h.generating.sampling, h.generating.numTokens⟩,
    Int.natCast_nonneg k, Int.ofNat_lt.mpr hk, ?_, h.noPlaceholders, fun hne => absurd rfl hne⟩
  rw [Int.toNat_natCast, take_take, min_self]

variable {op : Op}

theorem follows_of_computed (h : Lossless A config r numPrompt p s)
    (hop : ∀ n before after, op ≠ .step n before after) (hgoes : DraftsGoOn A config p s op)
    (hstop : s'.stopped = s.stopped) (hsame : SameTokens s'.request s.request)
    (hcomputed : Computed numPrompt p s') : Follows A config r numPrompt p s op s' :=
  ⟨h.frame hstop hsame hcomputed, iff_of_true hcomputed.exact hgoes,
    fun n before after heq => absurd heq (hop n before after)⟩

theorem follows_run (h : Lossless A config r numPrompt p s) (hallowed : s.Allowed op) :
    ∃ s', s.run A config op = .ok s' ∧ Follows A config r numPrompt p s op s' := by
  cases op with
  | step n before after => exact follows_step h n before after hallowed
  | updateDraftTokenIds specTokenIds =>
    exact ⟨_, rfl, follows_of_computed h (by simp) trivial rfl ⟨rfl, rfl, rfl⟩
      ((h.computed hallowed).updateDraftTokenIds _)⟩
  | preempt =>
    exact ⟨_, rfl, follows_of_computed h (by simp) trivial rfl ⟨rfl, rfl, rfl⟩
      (h.computed hallowed).preempt⟩
  | start k =>
    obtain ⟨hstop, -, hk⟩ := hallowed
    exact ⟨_, rfl, follows_of_computed h (by simp) trivial rfl ⟨rfl, rfl, rfl⟩
      ((h.computed hstop).start hk)⟩

structure Fresh (numPrompt : Nat) (p : SamplingParams) (r : Request D) : Prop where
  generating : r.Generating numPrompt p
  noOutput : r.outputTokenIds = []
  numComputedTokens : r.numComputedTokens = 0
  noPlaceholders : r.numOutputPlaceholders = 0
  hasTokens : r.allTokenIds ≠ []

theorem lossless_init (A : Argmax vocabSize) (config : SchedulerConfig D)
    (h : Fresh numPrompt p r) : Lossless A config r numPrompt p { request := r } := by
  refine ⟨⟨r, ?_, ⟨rfl, rfl, rfl⟩, fun _ => h.generating⟩, fun _ => ⟨h.generating, ?_, ?_, ?_,
    h.noPlaceholders, fun hne => absurd rfl hne⟩⟩
  · unfold Request.numOutputTokens
    rw [h.noOutput]
    rfl
  · exact Int.le_of_eq h.numComputedTokens.symm
  · have hpos := length_pos_of_ne_nil h.hasTokens
    show r.numComputedTokens < (r.allTokenIds.length : Int)
    rw [h.numComputedTokens]
    omega
  · show List.take _ [] = r.allTokenIds.take r.numComputedTokens.toNat
    rw [h.numComputedTokens]
    rfl

theorem lossless_of_reachable {guard : RequestRun D → Op → Prop}
    (hguard : ∀ s op, guard s op → s.Allowed op) (h : Fresh numPrompt p r)
    (hs : ReachableBy A config r guard s) : Lossless A config r numPrompt p s := by
  apply hs.invariant
  · intro t ht
    rw [ht]
    exact lossless_init A config h
  · intro t t' ht hstep
    obtain ⟨op, hop, hrun⟩ := hstep
    obtain ⟨t'', hrun', hfollows⟩ := follows_run ht (hguard t op hop)
    obtain rfl : t' = t'' := Except.ok.inj (hrun.symm.trans hrun')
    exact hfollows.lossless

/-- A run outputs the tokens of decoding one at a time.  The count of computed tokens is
exact after an operation if and only if the request does not stop at an accepted draft, and
it is exact throughout a run where it never does. -/
theorem lossless (A : Argmax vocabSize) (config : SchedulerConfig D) (r : Request D)
    (numPrompt : Nat) (p : SamplingParams) (h : Fresh numPrompt p r) :
    (∀ s, ReachableBy A config r Allowed s →
      (∃ ref, tokenByToken A config s.request.numOutputTokens r = .ok (s.stopped, ref) ∧
        s.request.outputTokenIds = ref.outputTokenIds) ∧
      ∀ op, s.Allowed op → ∃ s', s.run A config op = .ok s' ∧
        (Exact s' ↔ DraftsGoOn A config p s op) ∧
        ∀ n before after, op = .step n before after →
          s.request.numTokens ≤ s.request.numComputedTokens + n →
          s.request.numOutputTokens < s'.request.numOutputTokens) ∧
    ∀ s, ReachableBy A config r (fun s op => s.Allowed op ∧ DraftsGoOn A config p s op) s →
      Exact s := by
  constructor
  · intro s hs
    have hlossless := lossless_of_reachable (fun _ _ hop => hop) h hs
    constructor
    · obtain ⟨ref, htoken, hsame, -⟩ := hlossless.decoded
      exact ⟨ref, htoken, hsame.output.symm⟩
    · intro op hop
      obtain ⟨s', hrun, hfollows⟩ := follows_run hlossless hop
      exact ⟨s', hrun, hfollows.exact_iff, hfollows.grows⟩
  · intro s hs
    cases hs with
    | start hinit =>
      rw [hinit]
      exact ((lossless_init A config h).computed rfl).exact
    | next hs hstep =>
      obtain ⟨op, ⟨hallowed, hgoes⟩, hrun⟩ := hstep
      have hlossless := lossless_of_reachable (fun _ _ hop => hop.1) h hs
      obtain ⟨s'', hrun', hfollows⟩ := follows_run hlossless hallowed
      obtain rfl := Except.ok.inj (hrun.symm.trans hrun')
      exact hfollows.exact_iff.mpr hgoes

/-- A network that ends `[1, 2]` with the token 7. -/
def endsWithSeven : Argmax 16 where
  next ctx := if ctx = [1] then 2 else if ctx = [1, 2] then 7 else 9
  nonneg := by
    intro ctx
    split
    · decide
    · split <;> decide
  lt := by
    intro ctx
    split
    · decide
    · split <;> decide

/-- The prompt `[1]` of a streaming session, with 7 its end of sequence. -/
def chunk : Request Transcript where
  requestId := 0
  samplingParams := some { maxTokens := 8, eosTokenId := some 7 }
  status := .running
  maxTokens := 8
  promptTokenIds := some [1]
  numPromptTokens := 1
  allTokenIds := [1]
  resumable := true

theorem chunk_fresh : Fresh 1 { maxTokens := 8, eosTokenId := some 7 } chunk :=
  ⟨⟨rfl, rfl, rfl, rfl⟩, rfl, rfl, rfl, by decide⟩

/-- The prompt is computed, then the drafts 7 and 9 are scored. -/
def acceptsSeven : List Op :=
  [.step 1 [] [], .updateDraftTokenIds [7, 9], .step 3 [] []]

def nextChunk : StreamingUpdate where
  mmFeatures := []
  promptTokenIds := some [4, 5]
  maxTokens := 8
  arrivalTime := 1
  samplingParams := some { maxTokens := 8, eosTokenId := some 7 }

/-- Both drafts are accepted and the second is dropped, since the first stops the request;
it still counts.  Of the next chunk the first token counts as computed. -/
theorem not_exact_of_stop_at_draft :
    ∃ s next, ReachableBy endsWithSeven smallConfig chunk Allowed s ∧
      s.request.allTokenIds = [1, 2, 7] ∧ s.generated = [7] ∧
      s.request.numComputedTokens = 4 ∧ ¬Exact s ∧
      s.request.updateAsSession none nextChunk = .ok next ∧
      next.allTokenIds = [1, 2, 7, 4, 5] ∧ next.numComputedTokens = 4 := by
  obtain ⟨s, hrun, hs⟩ := okWith_iff.mp (by decide +kernel :
    okWith (runOps (checked Allowed (run endsWithSeven smallConfig)) { request := chunk }
      acceptsSeven) (fun s =>
        decide (s.request.allTokenIds = [1, 2, 7] ∧ s.generated = [7] ∧
          s.request.numComputedTokens = 4) &&
        okWith (s.request.updateAsSession none nextChunk) fun next =>
          decide (next.allTokenIds = [1, 2, 7, 4, 5] ∧ next.numComputedTokens = 4)) = true)
  rw [Bool.and_eq_true, decide_eq_true_eq] at hs
  obtain ⟨⟨hall, hgenerated, hcomputed⟩, hnext⟩ := hs
  obtain ⟨next, hupdate, hnext⟩ := okWith_iff.mp hnext
  obtain ⟨hnextAll, hnextComputed⟩ := of_decide_eq_true hnext
  have hstart : ReachableBy endsWithSeven smallConfig chunk Allowed { request := chunk } :=
    .start rfl
  refine ⟨s, next, hstart.runOps hrun, hall, hgenerated, hcomputed, ?_, hupdate,
    hnextAll, hnextComputed⟩
  intro hexact
  have hcount := hexact.count (by rw [hgenerated]; exact cons_ne_nil _ _)
  unfold Request.numTokens at hcount
  rw [hcomputed, hall] at hcount
  revert hcount
  decide

/-- The tokens are those of decoding one at a time all the same. -/
theorem lossless_chunk :
    Fresh 1 { maxTokens := 8, eosTokenId := some 7 } chunk ∧
      ∀ s, ReachableBy endsWithSeven smallConfig chunk Allowed s →
        ∃ ref, tokenByToken endsWithSeven smallConfig s.request.numOutputTokens chunk =
          .ok (s.stopped, ref) ∧ s.request.outputTokenIds = ref.outputTokenIds :=
  ⟨chunk_fresh, fun s hs =>
    ((lossless endsWithSeven smallConfig chunk 1 _ chunk_fresh).1 s hs).1⟩

end RequestRun

end VllmCore.SpecDecode
