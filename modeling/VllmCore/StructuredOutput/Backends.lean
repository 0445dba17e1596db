import VllmCore.StructuredOutput.Filling
/-!
# The grammars of the backends

`StructuredOutputGrammar` over the matchers that the backends wrap, for one token at a time.
In three of them `is_terminated` only looks; that of outlines answers what it was told the
time before.
-/

namespace VllmCore.StructuredOutput

open List Support

/-- Tokens are accepted one after another, as long as the grammar has not terminated. -/
def Taken {σ : Type} (G : GrammarOps σ) : σ → List Int → Prop
  | _, [] => True
  | s, t :: ts => terminated G s = true ∨
      (G.acceptToken s t).2 = true ∧ Taken G (accept G s t) ts

theorem Taken.of_append {σ : Type} {G : GrammarOps σ} {s : σ} {ts rest : List Int}
    (h : Taken G s (ts ++ rest)) : Taken G s ts := by
  induction ts generalizing s with
  | nil => trivial
  | cons t ts ih =>
    obtain hterm | hstep := h
    · exact .inl hterm
    · exact .inr ⟨hstep.1, ih hstep.2⟩

variable {M : Type}

/-! ## xgrammar -/

/-- What is used of `xgr.GrammarMatcher`. -/
structure GrammarMatcherOps (M : Type) where
  acceptToken : M → Int → M × Bool
  isTerminated : M → Bool
  rollback : M → Nat → M
  fillNextTokenBitmask : M → Row

/-- A matcher accepts tokens one after another. -/
def GrammarMatcherOps.Accepted (X : GrammarMatcherOps M) : M → List Int → Prop
  | _, [] => True
  | m, t :: ts => (X.acceptToken m t).2 = true ∧ X.Accepted (X.acceptToken m t).1 ts

/-- `xgr.GrammarMatcher`: `rollback` goes back over accepted tokens. -/
structure GrammarMatcher (M : Type) extends GrammarMatcherOps M where
  rollback_accepted : ∀ m ts, toGrammarMatcherOps.Accepted m ts →
    rollback (ts.foldl (fun m t => (acceptToken m t).1) m) ts.length = m

structure XgrammarGrammar (M : Type) where
  matcher : M
  numProcessedTokens : Nat := 0
  isTerminated : Bool := false
  deriving DecidableEq

namespace XgrammarGrammar

variable (X : GrammarMatcher M)

/-- `accept_tokens`, of one token. -/
def acceptToken (s : XgrammarGrammar M) (token : Int) : XgrammarGrammar M × Bool :=
  if s.isTerminated then (s, false)
  else
    match X.acceptToken s.matcher token with
    | (m, false) => ({ s with matcher := m }, false)
    | (m, true) => (⟨m, s.numProcessedTokens + 1, X.isTerminated m⟩, true)

/-- The loop of `validate_tokens`. -/
def validateLoop : M → List Int → List Int
  | _, [] => []
  | m, t :: ts =>
    match X.acceptToken m t with
    | (m, true) => t :: validateLoop m ts
    | (_, false) => []

def ops : GrammarOps (XgrammarGrammar M) where
  acceptToken := acceptToken X
  validateTokens s := validateLoop X s.matcher
  rollback s n := ⟨X.rollback s.matcher n, s.numProcessedTokens - n,
    X.isTerminated (X.rollback s.matcher n)⟩
  fillBitmask s := X.fillNextTokenBitmask s.matcher
  isTerminated s := (s, s.isTerminated)

variable {X}
variable {s : XgrammarGrammar M}

theorem acceptToken_ok {t : Int} (hterm : s.isTerminated = false)
    (h : ((ops X).acceptToken s t).2 = true) :
    (X.acceptToken s.matcher t).2 = true ∧
      accept (ops X) s t = ⟨(X.acceptToken s.matcher t).1, s.numProcessedTokens + 1,
        X.isTerminated (X.acceptToken s.matcher t).1⟩ := by
  have h : (acceptToken X s t).2 = true := h
  show _ ∧ (acceptToken X s t).1 = _
  unfold acceptToken at *
  rw [hterm, if_neg Bool.false_ne_true] at *
  cases hacc : X.acceptToken s.matcher t with
  | mk m b =>
    rw [hacc] at h
    cases b with
    | false => cases h
    | true => exact ⟨rfl, rfl⟩

theorem foldl_accept {ts : List Int} (h : Accepts (ops X) s ts) : X.Accepted s.matcher ts ∧
      (ts.foldl (accept (ops X)) s).matcher =
        ts.foldl (fun m t => (X.acceptToken m t).1) s.matcher ∧
      (ts.foldl (accept (ops X)) s).numProcessedTokens = s.numProcessedTokens + ts.length := by
  induction ts generalizing s with
  | nil => exact ⟨trivial, rfl, rfl⟩
  | cons t ts ih =>
    have hstep := acceptToken_ok h.1 h.2.1
    have hrest := ih h.2.2
    rw [hstep.2] at hrest
    rw [foldl_cons, foldl_cons, hstep.2, length_cons]
    exact ⟨⟨hstep.1, hrest.1⟩, hrest.2.1, by rw [hrest.2.2]; dsimp only; omega⟩

theorem taken_validateLoop (s : XgrammarGrammar M) (ts : List Int) :
    Taken (ops X) s (validateLoop X s.matcher ts) := by
  induction ts generalizing s with
  | nil => trivial
  | cons t ts ih =>
    unfold validateLoop
    cases hacc : X.acceptToken s.matcher t with
    | mk m b =>
      cases b with
      | false => trivial
      | true =>
        cases hterm : s.isTerminated with
        | true => exact .inl hterm
        | false =>
          have hrun : (ops X).acceptToken s t =
              (⟨m, s.numProcessedTokens + 1, X.isTerminated m⟩, true) := by
            show acceptToken X s t = _
            unfold acceptToken
            rw [hterm, if_neg Bool.false_ne_true, hacc]
          refine .inr ⟨by rw [hrun], ?_⟩
          unfold accept
          rw [hrun]
          exact ih ⟨m, s.numProcessedTokens + 1, X.isTerminated m⟩

theorem lawful : Lawful (ops X) (fun s => s.isTerminated = X.isTerminated s.matcher)
    (Taken (ops X)) where
  isTerminated_same _ _ := rfl
  accept_validated s t ts _ hterm htaken := by
    have hstep := htaken.resolve_left (by rw [hterm]; exact Bool.false_ne_true)
    refine ⟨hstep.1, ?_, hstep.2⟩
    rw [(acceptToken_ok hterm hstep.1).2]
  rollback_accepts s ts rest hvalid _ _ hacc := by
    have hfold := foldl_accept hacc
    have hback := X.rollback_accepted s.matcher ts hfold.1
    show XgrammarGrammar.mk _ _ _ = s
    rw [hfold.2.1, hfold.2.2, hback, Nat.add_sub_cancel, ← hvalid]
  validateTokens_validated s ts _ := taken_validateLoop s ts
  validated_prefix _ _ _ h := h.of_append

end XgrammarGrammar

/-! ## guidance -/

/-- What is used of `llguidance.LLMatcher`. -/
structure LLMatcherOps (M : Type) where
  consumeTokens : M → List Int → M × Bool
  isStopped : M → Bool
  rollback : M → Nat → M
  validateTokens : M → List Int → Nat
  fillNextTokenBitmask : M → Row

namespace LLMatcherOps

/-- Tokens are consumed one after another, none when the matcher has stopped. -/
def Consumed (X : LLMatcherOps M) : M → List Int → Prop
  | _, [] => True
  | m, t :: ts => X.isStopped m = false ∧ (X.consumeTokens m [t]).2 = true ∧
      X.Consumed (X.consumeTokens m [t]).1 ts

/-- Tokens that can be consumed one after another up to the end token, which a matcher that
has stopped allows as well. -/
def Checked (X : LLMatcherOps M) (eosToken : Int) : M → List Int → Prop
  | _, [] => True
  | m, t :: ts =>
    if X.isStopped m then t = eosToken
    else (X.consumeTokens m [t]).2 = true ∧
      (t = eosToken ∨ X.Checked eosToken (X.consumeTokens m [t]).1 ts)

theorem Checked.of_append {X : LLMatcherOps M} {eosToken : Int} {m : M} {ts rest : List Int}
    (h : X.Checked eosToken m (ts ++ rest)) : X.Checked eosToken m ts := by
  induction ts generalizing m with
  | nil => trivial
  | cons t ts ih =>
    rw [cons_append] at h
    unfold Checked at h ⊢
    split
    · rename_i hstop
      rw [if_pos hstop] at h
      exact h
    · rename_i hstop
      rw [if_neg hstop] at h
      exact ⟨h.1, h.2.imp_right ih⟩

end LLMatcherOps

/-- `llguidance.LLMatcher`: `rollback` goes back over consumed tokens, and `validate_tokens`
counts the tokens that can be consumed. -/
structure LLMatcher (M : Type) extends LLMatcherOps M where
  eosToken : Int
  rollback_consumed : ∀ m ts, toLLMatcherOps.Consumed m ts →
    rollback (ts.foldl (fun m t => (consumeTokens m [t]).1) m) ts.length = m
  validateTokens_checked : ∀ m (ts : List Int), isStopped m = false →
    toLLMatcherOps.Checked eosToken m (ts.take (validateTokens m ts))

structure GuidanceGrammar (M : Type) where
  llMatcher : M
  terminated : Bool := false
  rollbackLag : Nat := 0
  deriving DecidableEq

namespace GuidanceGrammar

variable (X : LLMatcher M)

/-- What `accept_tokens` does for an end token. -/
def noteEos (s : GuidanceGrammar M) (token : Int) : GuidanceGrammar M :=
  if token = X.eosToken then
    if X.isStopped s.llMatcher ∧ s.terminated = false then
      { s with rollbackLag := 1, terminated := true }
    else { s with terminated := true }
  else s

/-- `accept_tokens`, of one token. -/
def acceptToken (s : GuidanceGrammar M) (token : Int) : GuidanceGrammar M × Bool :=
  let s := noteEos X s token
  if X.isStopped s.llMatcher then (s, true)
  else
    let (m, r) := X.consumeTokens s.llMatcher [token]
    ({ s with llMatcher := m }, r)

def validateTokens (s : GuidanceGrammar M) (tokens : List Int) : List Int :=
  if tokens = [] then []
  else if X.isStopped s.llMatcher then []
  else tokens.take (X.validateTokens s.llMatcher tokens)

def rollback (s : GuidanceGrammar M) (n : Nat) : GuidanceGrammar M :=
  if 0 < n then ⟨X.rollback s.llMatcher (n - s.rollbackLag), false, 0⟩ else s

def ops : GrammarOps (GuidanceGrammar M) where
  acceptToken := acceptToken X
  validateTokens := validateTokens X
  rollback := rollback X
  fillBitmask s := X.fillNextTokenBitmask s.llMatcher
  isTerminated s := (s, s.terminated)

variable {X}

@[simp] theorem noteEos_llMatcher (s : GuidanceGrammar M) (t : Int) :
    (noteEos X s t).llMatcher = s.llMatcher := by
  unfold noteEos
  split
  · split <;> rfl
  · rfl

theorem noteEos_eos (s : GuidanceGrammar M) : (noteEos X s X.eosToken).terminated = true := by
  unfold noteEos
  rw [if_pos rfl]
  split <;> rfl

variable {t : Int} {s : GuidanceGrammar M}

theorem noteEos_of_ne (s : GuidanceGrammar M) (h : t ≠ X.eosToken) : noteEos X s t = s := if_neg h

theorem accept_of_stopped (hstop : X.isStopped s.llMatcher = true) :
    (ops X).acceptToken s t = (noteEos X s t, true) := by
  show acceptToken X s t = _
  unfold acceptToken
  dsimp only
  rw [noteEos_llMatcher, if_pos hstop]

theorem accept_of_not_stopped (hstop : X.isStopped s.llMatcher = false) :
    (ops X).acceptToken s t = ({ noteEos X s t with
      llMatcher := (X.consumeTokens s.llMatcher [t]).1 },
        (X.consumeTokens s.llMatcher [t]).2) := by
  show acceptToken X s t = _
  unfold acceptToken
  dsimp only
  rw [noteEos_llMatcher, if_neg (by rw [hstop]; exact Bool.false_ne_true)]

theorem foldl_accept {ts rest : List Int} (hlag : s.rollbackLag = 0)
    (hchecked : X.Checked X.eosToken s.llMatcher (ts ++ rest)) (hacc : Accepts (ops X) s ts) :
    ∃ us, X.Consumed s.llMatcher us ∧
      (ts.foldl (accept (ops X)) s).llMatcher =
        us.foldl (fun m t => (X.consumeTokens m [t]).1) s.llMatcher ∧
      us.length + (ts.foldl (accept (ops X)) s).rollbackLag = ts.length := by
  induction ts generalizing s with
  | nil => exact ⟨[], trivial, rfl, by rw [foldl_nil, hlag]; rfl⟩
  | cons t ts ih =>
    have hterm : s.terminated = false := hacc.1
    rw [cons_append] at hchecked
    unfold LLMatcherOps.Checked at hchecked
    cases hstop : X.isStopped s.llMatcher with
    | true =>
      -- the end token after the matcher has stopped is the one that lags
      rw [if_pos hstop] at hchecked
      have hnext : accept (ops X) s t = noteEos X s t := by
        unfold accept
        rw [accept_of_stopped hstop]
      have hnil : ts = [] := by
        apply hacc.2.2.eq_nil
        rw [hnext, hchecked]
        exact noteEos_eos s
      rw [hnil, foldl_cons, foldl_nil, hnext]
      refine ⟨[], trivial, noteEos_llMatcher s t, ?_⟩
      unfold noteEos
      rw [if_pos hchecked, if_pos ⟨hstop, hterm⟩]
      rfl
    | false =>
      rw [if_neg (by rw [hstop]; exact Bool.false_ne_true)] at hchecked
      have hnext : accept (ops X) s t = { noteEos X s t with
          llMatcher := (X.consumeTokens s.llMatcher [t]).1 } := by
        unfold accept
        rw [accept_of_not_stopped hstop]
      have hlag' : (accept (ops X) s t).rollbackLag = 0 := by
        rw [hnext]
        unfold noteEos
        split
        · rw [if_neg (by rw [hstop]; simp)]
          exact hlag
        · exact hlag
      by_cases heos : t = X.eosToken
      · have hnil : ts = [] := by
          apply hacc.2.2.eq_nil
          rw [hnext, heos]
          exact noteEos_eos s
        rw [hnil, foldl_cons, foldl_nil, hlag', hnext]
        exact ⟨[t], ⟨hstop, hchecked.1, trivial⟩, rfl, rfl⟩
      · have hrest := hchecked.2.resolve_left heos
        have hmatcher : (accept (ops X) s t).llMatcher =
            (X.consumeTokens s.llMatcher [t]).1 := by
          rw [hnext]
        obtain ⟨us, hus, hfold, hlen⟩ := ih hlag' (by rw [hmatcher]; exact hrest) hacc.2.2
        rw [hmatcher] at hus hfold
        refine ⟨t :: us, ⟨hstop, hchecked.1, hus⟩, hfold, ?_⟩
        rw [foldl_cons, length_cons, length_cons]
        omega

theorem lawful : Lawful (ops X) (fun s => s.terminated = false → s.rollbackLag = 0)
    (fun s ts => s.terminated = true ∨ X.Checked X.eosToken s.llMatcher ts) where
  isTerminated_same _ _ := rfl
  accept_validated s t ts hvalid hterm hchecked := by
    have hterm : s.terminated = false := hterm
    have hchecked := hchecked.resolve_left (by rw [hterm]; exact Bool.false_ne_true)
    unfold LLMatcherOps.Checked at hchecked
    unfold accept
    cases hstop : X.isStopped s.llMatcher with
    | true =>
      rw [if_pos hstop] at hchecked
      have heos : (noteEos X s t).terminated = true := by
        rw [hchecked]
        exact noteEos_eos s
      rw [accept_of_stopped hstop]
      refine ⟨rfl, ?_, .inl heos⟩
      intro h
      rw [heos] at h
      cases h
    | false =>
      rw [if_neg (by rw [hstop]; exact Bool.false_ne_true)] at hchecked
      rw [accept_of_not_stopped hstop]
      refine ⟨hchecked.1, ?_, ?_⟩
      · intro h
        by_cases heos : t = X.eosToken
        · rw [heos, noteEos_eos] at h
          cases h
        · rw [noteEos_of_ne s heos]
          exact hvalid hterm
      · obtain heos | hrest := hchecked.2
        · left
          rw [heos]
          exact noteEos_eos s
        · exact .inr hrest
  rollback_accepts s ts rest hvalid hchecked hne hacc := by
    have hterm : s.terminated = false := by
      cases ts with
      | nil => exact absurd rfl hne
      | cons t ts => exact hacc.1
    have hlag := hvalid hterm
    have hchecked := hchecked.resolve_left (by rw [hterm]; exact Bool.false_ne_true)
    obtain ⟨us, hus, hfold, hlen⟩ := foldl_accept hlag hchecked hacc
    have hback := X.rollback_consumed s.llMatcher us hus
    show rollback X _ _ = s
    unfold rollback
    rw [if_pos (length_pos_iff.mpr hne), hfold, ← hlen, Nat.add_sub_cancel, hback,
      ← hterm, ← hlag]
  validateTokens_validated s ts _ := by
    show s.terminated = true ∨ X.Checked X.eosToken s.llMatcher (validateTokens X s ts)
    unfold validateTokens
    split
    · exact .inr trivial
    · split
      · exact .inr trivial
      · rename_i hstop
        exact .inr (X.validateTokens_checked _ _ (by simpa using hstop))
  validated_prefix _ _ _ h := h.imp_right LLMatcherOps.Checked.of_append

end GuidanceGrammar

/-! ## lm-format-enforcer -/

/-- What is used of `lmformatenforcer.TokenEnforcer`. -/
structure TokenEnforcer where
  getAllowedTokens : List Int → Row
  eosTokenId : Int

namespace LMFormatEnforcerGrammar

variable (X : TokenEnforcer)

/-- `accept_tokens`, of one token, on `current_tokens_prefix`. -/
def acceptToken (s : List Int) (token : Int) : List Int × Bool :=
  if X.getAllowedTokens s token then (s ++ [token], true) else (s, false)

/-- The loop of `validate_tokens`, behind a prefix. -/
def validateLoop : List Int → List Int → List Int
  | _, [] => []
  | s, t :: ts => if X.getAllowedTokens s t then t :: validateLoop (s ++ [t]) ts else []

/-- The methods; `rollback` slices with `[:-num_tokens]`. -/
def ops : GrammarOps (List Int) where
  acceptToken := acceptToken X
  validateTokens := validateLoop X
  rollback s n := if n = 0 then [] else s.take (s.length - n)
  fillBitmask := X.getAllowedTokens
  isTerminated s := (s, s.getLast? == some X.eosTokenId)

variable {X}
variable {s : List Int}

theorem acceptToken_ok {t : Int} (h : ((ops X).acceptToken s t).2 = true) :
    accept (ops X) s t = s ++ [t] := by
  have h : (acceptToken X s t).2 = true := h
  show (acceptToken X s t).1 = _
  unfold acceptToken at *
  split at h
  · rw [if_pos ‹_›]
  · cases h

theorem foldl_accept {ts : List Int} (h : Accepts (ops X) s ts) :
    ts.foldl (accept (ops X)) s = s ++ ts := by
  induction ts generalizing s with
  | nil => exact (append_nil s).symm
  | cons t ts ih =>
    rw [foldl_cons, ih h.2.2, acceptToken_ok h.2.1, append_assoc]
    rfl

theorem taken_validateLoop (s ts : List Int) : Taken (ops X) s (validateLoop X s ts) := by
  induction ts generalizing s with
  | nil => trivial
  | cons t ts ih =>
    unfold validateLoop
    split
    · rename_i hallowed
      have hrun : (ops X).acceptToken s t = (s ++ [t], true) := if_pos hallowed
      refine .inr ⟨by rw [hrun], ?_⟩
      unfold accept
      rw [hrun]
      exact ih (s ++ [t])
    · trivial

theorem lawful : Lawful (ops X) (fun _ => True) (Taken (ops X)) where
  isTerminated_same _ _ := rfl
  accept_validated s t ts _ hterm htaken := by
    have hstep := htaken.resolve_left (by rw [hterm]; exact Bool.false_ne_true)
    exact ⟨hstep.1, trivial, hstep.2⟩
  rollback_accepts s ts rest _ _ hne hacc := by
    have hlen : ts.length ≠ 0 := fun h => hne (length_eq_zero_iff.mp h)
    show (if ts.length = 0 then [] else _) = s
    rw [if_neg hlen, foldl_accept hacc, length_append, Nat.add_sub_cancel]
    exact take_left
  validateTokens_validated s ts _ := taken_validateLoop s ts
  validated_prefix _ _ _ h := h.of_append

end LMFormatEnforcerGrammar

/-- Three of the backends keep what the bitmask relies on: a validated draft is accepted, and
`rollback` undoes it, also where the end token comes after the matcher of guidance has stopped. -/
theorem backends_keep_contract {N : Type} (X : GrammarMatcher M) (Y : LLMatcher N)
    (Z : TokenEnforcer) :
    Lawful (XgrammarGrammar.ops X) (fun s => s.isTerminated = X.isTerminated s.matcher)
        (Taken (XgrammarGrammar.ops X)) ∧
      Lawful (GuidanceGrammar.ops Y) (fun s => s.terminated = false → s.rollbackLag = 0)
        (fun s ts => s.terminated = true ∨ Y.Checked Y.eosToken s.llMatcher ts) ∧
      Lawful (LMFormatEnforcerGrammar.ops Z) (fun _ => True)
        (Taken (LMFormatEnforcerGrammar.ops Z)) :=
  ⟨XgrammarGrammar.lawful, GuidanceGrammar.lawful, LMFormatEnforcerGrammar.lawful⟩

/-! ## outlines -/

/-- What is used of `outlines_core.Guide`. -/
structure Guide (M : Type) where
  acceptsTokens : M → List Int → Bool
  advance : M → Int → M
  rollbackState : M → Nat → M
  isFinished : M → Bool
  writeMask : M → Row

structure OutlinesGrammar (M : Type) where
  guide : M
  numProcessedTokens : Nat := 0
  prevFinished : Bool := false
  deriving DecidableEq

namespace OutlinesGrammar

variable (X : Guide M)

/-- `accept_tokens`, of one token. -/
def acceptToken (s : OutlinesGrammar M) (token : Int) : OutlinesGrammar M × Bool :=
  if X.acceptsTokens s.guide [token] then
    ({ s with
      guide := X.advance s.guide token
      numProcessedTokens := s.numProcessedTokens + 1 }, true)
  else (s, false)

/-- The loop of `validate_tokens`. -/
def validateLoop (m : M) : List Int → List Int → List Int
  | accepted, [] => accepted
  | accepted, t :: ts =>
    if X.acceptsTokens m (accepted ++ [t]) then validateLoop m (accepted ++ [t]) ts
    else accepted

/-- The methods.  `is_terminated` answers with the flag of the time before. -/
def ops : GrammarOps (OutlinesGrammar M) where
  acceptToken := acceptToken X
  validateTokens s := validateLoop X s.guide []
  rollback s n := { s with
    guide := X.rollbackState s.guide n
    numProcessedTokens := s.numProcessedTokens - n }
  fillBitmask s := X.writeMask s.guide
  isTerminated s := ({ s with prevFinished := X.isFinished s.guide }, s.prevFinished)

end OutlinesGrammar

end VllmCore.StructuredOutput
