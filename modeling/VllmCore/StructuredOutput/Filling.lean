import VllmCore.StructuredOutput
/-!
# The rows of the bitmask

For grammars that are only looked at by `is_terminated` and that `rollback` brings back,
both paths of `grammar_bitmask` write the same rows and leave every grammar as it was.
-/

namespace VllmCore.StructuredOutput

open List Support

variable {σ : Type} (G : GrammarOps σ)

/-! ## Grammars -/

def terminated (s : σ) : Bool := (G.isTerminated s).2

def accept (s : σ) (token : Int) : σ := (G.acceptToken s token).1

/-- Tokens are accepted one after another by a grammar that has not terminated. -/
def Accepts : σ → List Int → Prop
  | _, [] => True
  | s, t :: ts => terminated G s = false ∧ (G.acceptToken s t).2 = true ∧ Accepts (accept G s t) ts

/-- A grammar after tokens; one that has terminated takes no more. -/
def stateAfter : σ → List Int → σ
  | s, [] => s
  | s, t :: ts => if terminated G s then s else stateAfter (accept G s t) ts

/-- What the methods promise of the grammars they are used on, and of the drafts that were
validated there: `is_terminated` only looks, a draft is accepted as long as the grammar has not
terminated, and `rollback` goes back over the drafts accepted last. -/
structure Lawful (Valid : σ → Prop) (Validated : σ → List Int → Prop) : Prop where
  isTerminated_same : ∀ s, Valid s → (G.isTerminated s).1 = s
  accept_validated : ∀ s t ts, Valid s → terminated G s = false → Validated s (t :: ts) →
    (G.acceptToken s t).2 = true ∧ Valid (accept G s t) ∧ Validated (accept G s t) ts
  rollback_accepts : ∀ s ts rest, Valid s → Validated s (ts ++ rest) → ts ≠ [] → Accepts G s ts →
    G.rollback (ts.foldl (accept G) s) ts.length = s
  validateTokens_validated : ∀ s ts, Valid s → Validated s (G.validateTokens s ts)
  validated_prefix : ∀ s ts rest, Validated s (ts ++ rest) → Validated s ts

/-- A grammar after the check that comes before a row is filled. -/
def checked (s : σ) (constrained : Bool) : σ :=
  if constrained then (G.isTerminated s).1 else s

def rowAt (s : σ) (constrained : Bool) : Row :=
  if constrained && !terminated G s then G.fillBitmask (G.isTerminated s).1 else fullMask

def rowsFrom : σ → Bool → List Int → List Row
  | _, _, [] => []
  | s, constrained, t :: ts =>
    rowAt G s constrained ::
      rowsFrom (if (constrained && t != -1) && !terminated G s then accept G s t else s)
        (constrained && t != -1) ts

@[simp] theorem length_rowsFrom (s : σ) (constrained : Bool) (ts : List Int) :
    (rowsFrom G s constrained ts).length = ts.length := by
  induction ts generalizing s constrained with
  | nil => rfl
  | cons t ts ih => simp [rowsFrom, ih]

variable {G}
variable {s : σ} {f : Filling σ} {e : Fill}

theorem Accepts.eq_nil {ts : List Int} (h : Accepts G s ts)
    (hterm : terminated G s = true) : ts = [] := by
  cases ts with
  | nil => rfl
  | cons t ts =>
    rw [h.1] at hterm
    cases hterm

theorem rowsFrom_false (s : σ) (ts : List Int) :
    rowsFrom G s false ts = List.replicate ts.length fullMask := by
  induction ts with
  | nil => rfl
  | cons t ts ih =>
    rw [rowsFrom, length_cons, replicate_succ]
    simp [rowAt, ih]

theorem rowsFrom_getElem? {constrained : Bool} {reals : List Int} (hreal : -1 ∉ reals)
    (rest : List Int) {i : Nat} (hi : i ≤ reals.length) :
    (rowsFrom G s constrained (reals ++ -1 :: rest))[i]? =
      some (rowAt G (stateAfter G s (reals.take i)) constrained) := by
  cases constrained with
  | false =>
    rw [rowsFrom_false, getElem?_replicate, if_pos (by simp; omega)]
    simp [rowAt]
  | true =>
    induction reals generalizing s i with
    | nil =>
      obtain rfl : i = 0 := by simpa using hi
      rfl
    | cons t reals ih =>
      cases i with
      | zero => rfl
      | succ i =>
        have ht : t ≠ -1 := fun heq => hreal (heq ▸ mem_cons_self)
        have hnot : -1 ∉ reals := fun h => hreal (mem_cons_of_mem _ h)
        have hi : i ≤ reals.length := by simpa using hi
        have hflag : (true && t != -1) = true := by simpa using ht
        rw [cons_append, rowsFrom, getElem?_cons_succ, hflag, Bool.true_and,
          ih hnot hi, take_succ_cons, stateAfter]
        cases hterm : terminated G s with
        | false => rfl
        | true =>
          -- the grammar takes no token any more, now or later
          have hstay : ∀ us, stateAfter G s us = s := by
            intro us
            cases us with
            | nil => rfl
            | cons u us => rw [stateAfter, if_pos hterm]
          simp [hstay]

/-! ## Writing rows -/

/-- Rows are written from an index on. -/
def writeRows : List Row → Nat → List Row → List Row
  | bitmask, _, [] => bitmask
  | bitmask, index, row :: rows => writeRows (bitmask.set index row) (index + 1) rows

@[simp] theorem length_writeRows (bitmask : List Row) (index : Nat) (rows : List Row) :
    (writeRows bitmask index rows).length = bitmask.length := by
  induction rows generalizing bitmask index with
  | nil => rfl
  | cons row rows ih => rw [writeRows, ih, length_set]

theorem writeRows_append (bitmask : List Row) (index : Nat) (rows rows' : List Row) :
    writeRows bitmask index (rows ++ rows') =
      writeRows (writeRows bitmask index rows) (index + rows.length) rows' := by
  induction rows generalizing bitmask index with
  | nil => rfl
  | cons row rows ih =>
    rw [cons_append, writeRows, ih, writeRows, length_cons]
    congr 1
    omega

theorem writeRows_middle (before middle after rows : List Row) (h : rows.length = middle.length) :
    writeRows (before ++ (middle ++ after)) before.length rows = before ++ (rows ++ after) := by
  induction rows generalizing before middle with
  | nil =>
    obtain rfl : middle = [] := length_eq_zero_iff.mp h.symm
    rfl
  | cons row rows ih =>
    cases middle with
    | nil => cases h
    | cons old middle =>
      have hlen : rows.length = middle.length := by simpa using h
      have hset : (before ++ (old :: middle ++ after)).set before.length row =
          (before ++ [row]) ++ (middle ++ after) := by
        simp
      have hih := ih (before ++ [row]) middle hlen
      rw [length_append, length_singleton] at hih
      rw [writeRows, hset, hih]
      simp

theorem take_writeRows {bitmask rows : List Row} (h : rows.length ≤ bitmask.length) :
    (writeRows bitmask 0 rows).take rows.length = rows := by
  have hmiddle : (bitmask.take rows.length).length = rows.length := by
    rw [length_take]
    omega
  have hwrite := writeRows_middle [] (bitmask.take rows.length) (bitmask.drop rows.length) rows
    hmiddle.symm
  rw [nil_append, take_append_drop, length_nil, nil_append] at hwrite
  rw [hwrite]
  exact take_left

/-! ## One item -/

theorem fillOne_ok (hindex : e.index < f.bitmask.length) : fillOne G f e =
      .ok ((f.setGrammar e.reqId (checked G (f.grammars e.reqId) e.applyBitmask)).setRow e.index
        (rowAt G (f.grammars e.reqId) e.applyBitmask)) := by
  unfold fillOne rowAt terminated checked
  rw [require_pos hindex, ok_bind]
  cases e.applyBitmask with
  | false =>
    have hset : f.setGrammar e.reqId (f.grammars e.reqId) = f := by
      unfold Filling.setGrammar
      rw [Function.update_eq_self]
    simp [hset]
    rfl
  | true =>
    cases G.isTerminated (f.grammars e.reqId) with
    | mk s b => cases b <;> rfl

theorem fillBitmasks_single (hindex : e.index < f.bitmask.length) : fillBitmasks G f [e] =
      .ok ((f.setGrammar e.reqId (checked G (f.grammars e.reqId) e.applyBitmask)).setRow e.index
        (rowAt G (f.grammars e.reqId) e.applyBitmask)) := by
  unfold fillBitmasks
  rw [foldlM_cons, fillOne_ok hindex]
  rfl

variable {Valid : σ → Prop} {Validated : σ → List Int → Prop}

theorem Lawful.checked_same (hG : Lawful G Valid Validated) (h : Valid s)
    (constrained : Bool) : checked G s constrained = s := by
  unfold checked
  split
  · exact hG.isTerminated_same s h
  · rfl

theorem advance_ok (hG : Lawful G Valid Validated) {reqId : ReqId} {token : Int}
    (adv : Nat) (hvalid : Valid (f.grammars reqId))
    (hacc : terminated G (f.grammars reqId) = false →
      (G.acceptToken (f.grammars reqId) token).2 = true) :
    advance G f reqId token adv = if terminated G (f.grammars reqId) then .ok (f, adv)
      else .ok (f.setGrammar reqId (accept G (f.grammars reqId) token), adv + 1) := by
  have hsame := hG.isTerminated_same _ hvalid
  have hset : f.setGrammar reqId (f.grammars reqId) = f := by
    unfold Filling.setGrammar
    rw [Function.update_eq_self]
  unfold advance terminated accept
  unfold terminated at hacc
  cases hterm : G.isTerminated (f.grammars reqId) with
  | mk s b =>
    rw [hterm] at hsame hacc
    cases hsame
    cases b with
    | true =>
      show Except.ok (f.setGrammar reqId (f.grammars reqId), adv) = _
      rw [hset]
      rfl
    | false =>
      have hacc := hacc rfl
      cases hres : G.acceptToken (f.grammars reqId) token with
      | mk s' b' =>
        rw [hres] at hacc
        cases hacc
        simp [hres]

end VllmCore.StructuredOutput
