import VllmCore.Support.Dict
import VllmCore.Support.Splice
import Mathlib.Data.List.Sort
/-!
# Prompt updates of multimodal items

Each multimodal item brings updates, of which one is applied: it inserts the item's
placeholder tokens behind a target in the prompt, or replaces the target by them
(`multimodal/processing/processor.py`).  The same code works on tokens and on text; what
differs is how a sequence is turned into one or the other, and that an empty text is found
everywhere while an empty token sequence is not.

A text is a list of characters.  `applied` is the history of the updates that were applied;
nothing reads it.
-/

namespace VllmCore.MultiModal

open Support

abbrev TokenId := Int

inductive PromptSeq
  | tokens (ids : List TokenId)
  | text (chars : List Char)
  deriving DecidableEq

structure Tokenizer where
  encode : List Char → List TokenId
  decode : List TokenId → List Char

def seq2text (tokenizer : Option Tokenizer) : PromptSeq → Py (List Char)
  | .text chars => pure chars
  | .tokens ids =>
    match tokenizer with
    | none => throw (.valueError
        "You cannot decode tokens when `skip_tokenizer_init=True`")
    | some t => pure (t.decode ids)

def seq2tokens (tokenizer : Option Tokenizer) : PromptSeq → Py (List TokenId)
  | .tokens ids => pure ids
  | .text chars =>
    match tokenizer with
    | none => throw (.valueError
        "You cannot encode text when `skip_tokenizer_init=True`")
    | some t => pure (t.encode chars)

/-- What a prompt is made of: how a sequence becomes a part of the prompt, and whether an
empty target is found. -/
structure PromptKind (α : Type) where
  resolve : PromptSeq → Py (List α)
  findsEmpty : Bool

def tokenPrompt (tokenizer : Option Tokenizer) : PromptKind TokenId where
  resolve := seq2tokens tokenizer
  findsEmpty := false

def textPrompt (tokenizer : Option Tokenizer) : PromptKind Char where
  resolve := seq2text tokenizer
  findsEmpty := true

/-! ## Targets -/

/-- `UpdateTarget`: a sequence, or one of `PromptIndexTargets`. -/
inductive UpdateTarget
  | seq (s : PromptSeq)
  | atStart
  | afterPrefix (s : PromptSeq)
  | atEnd
  deriving DecidableEq

inductive UpdateMode
  | insert
  | replace
  deriving DecidableEq, Repr

structure PromptUpdateDetails where
  full : PromptSeq
  isEmbed : Option (Option Tokenizer → PromptSeq → List Bool) := none

structure ResolvedPromptUpdate where
  modality : String
  itemIdx : Nat
  mode : UpdateMode
  target : UpdateTarget
  content : PromptUpdateDetails

structure PromptTargetMatch where
  startIdx : Nat
  endIdx : Nat
  deriving DecidableEq, Repr

/-- Tuples are compared from the left. -/
def PromptTargetMatch.LE (m n : PromptTargetMatch) : Prop :=
  m.startIdx < n.startIdx ∨ m.startIdx = n.startIdx ∧ m.endIdx ≤ n.endIdx

instance : DecidableRel PromptTargetMatch.LE :=
  fun _ _ => inferInstanceAs (Decidable (_ ∨ _))

section

variable {α : Type} [DecidableEq α]

/-- The loop of `iter_token_matches`; every turn moves `start_idx` on. -/
def scanMatches (ids matchIds : List α) : Nat → Nat → List PromptTargetMatch
  | 0, _ => []
  | fuel + 1, startIdx =>
    if startIdx + matchIds.length < ids.length + 1 then
      let endIdx := startIdx + matchIds.length
      if (ids.take endIdx).drop startIdx = matchIds then
        ⟨startIdx, endIdx⟩ :: scanMatches ids matchIds fuel endIdx
      else scanMatches ids matchIds fuel (startIdx + 1)
    else []

/-- `iter_token_matches`: empty matches are ignored. -/
def iterTokenMatches (ids matchIds : List α) (startIdx : Nat) : List PromptTargetMatch :=
  if matchIds.isEmpty then [] else scanMatches ids matchIds (ids.length + 1) startIdx

/-- `re.finditer` of an escaped text: an empty text is found at every position. -/
def finditer (ids matchIds : List α) (startIdx : Nat) : List PromptTargetMatch :=
  if matchIds.isEmpty then
    (List.range' startIdx (ids.length + 1 - startIdx)).map fun i => ⟨i, i⟩
  else scanMatches ids matchIds (ids.length + 1) startIdx

/-- `get_match_index` of the index targets. -/
def UpdateTarget.getMatchIndex (kind : PromptKind α) (prompt : List α) (startIdx : Nat) :
    UpdateTarget → Py (Option Nat)
  | .seq _ => pure none
  | .atStart => pure (some 0)
  | .afterPrefix s =>
    if startIdx ≠ 0 then pure none
    else do
      let start ← kind.resolve s
      pure (if prompt.take start.length = start then some start.length else none)
  | .atEnd => pure (some prompt.length)

def ResolvedPromptUpdate.iterMatches (u : ResolvedPromptUpdate) (kind : PromptKind α)
    (prompt : List α) (startIdx : Nat) : Py (List PromptTargetMatch) :=
  match u.target with
  | .seq s => do
    let target ← kind.resolve s
    pure (if kind.findsEmpty then finditer prompt target startIdx
      else iterTokenMatches prompt target startIdx)
  | target => do
    let matchIdx ← target.getMatchIndex kind prompt startIdx
    pure (matchIdx.toList.map fun i => ⟨i, i⟩)

/-! ## Finding matches -/

abbrev ItemKey := String × Nat

/-- `MultiModalPromptUpdates`: the updates of each item, by modality. -/
abbrev MultiModalPromptUpdates := Dict String (List (List ResolvedPromptUpdate))

def items (updates : MultiModalPromptUpdates) : List (ItemKey × List ResolvedPromptUpdate) :=
  updates.entries.flatMap fun entry =>
    entry.2.zipIdx.map fun item => ((entry.1, item.2), item.1)

/-- A match that is to be applied, with its update and the index of the update. -/
structure MatchToApply where
  key : ItemKey
  found : PromptTargetMatch
  updateIdx : Nat
  update : ResolvedPromptUpdate

/-- The loop over the matches of an update: all matches share the same mode. -/
def firstOfMode (mode : Option UpdateMode) (u : ResolvedPromptUpdate) :
    List PromptTargetMatch → Option (UpdateMode × PromptTargetMatch)
  | [] => none
  | m :: rest =>
    match mode with
    | none => some (u.mode, m)
    | some mode => if mode ≠ u.mode then firstOfMode (some mode) u rest else some (mode, m)

/-- The loop over the updates of an item, until one is found. -/
def findForItem (kind : PromptKind α) (prompt : List α) (prevEndIdx : Nat) (key : ItemKey)
    (mode : Option UpdateMode) :
    List (ResolvedPromptUpdate × Nat) → Py (Option (UpdateMode × MatchToApply))
  | [] => pure none
  | (u, updateIdx) :: rest => do
    let found ← u.iterMatches kind prompt prevEndIdx
    match firstOfMode mode u found with
    | some (mode, m) => pure (some (mode, ⟨key, m, updateIdx, u⟩))
    | none => findForItem kind prompt prevEndIdx key mode rest

/-- The loops of `_find_matches`: the mode, and one match for each item that has one. -/
def collectMatches (kind : PromptKind α) (prompt : List α) (prevEndIdx : Nat)
    (currentResult : ItemKey → Option Nat) :
    List (ItemKey × List ResolvedPromptUpdate) → Option UpdateMode →
      Py (Option UpdateMode × List MatchToApply)
  | [], mode => pure (mode, [])
  | (key, itemUpdates) :: rest, mode =>
    if (currentResult key).isSome then
      collectMatches kind prompt prevEndIdx currentResult rest mode
    else do
      match ← findForItem kind prompt prevEndIdx key mode itemUpdates.zipIdx with
      | some (mode, m) =>
        let (mode, found) ←
          collectMatches kind prompt prevEndIdx currentResult rest (some mode)
        pure (mode, m :: found)
      | none => collectMatches kind prompt prevEndIdx currentResult rest mode

/-- Of the non-empty matches only the first one is kept. -/
def oneNonEmpty : Bool → List MatchToApply → List MatchToApply
  | _, [] => []
  | hasNonEmpty, m :: rest =>
    if m.found.startIdx = m.found.endIdx then m :: oneNonEmpty hasNonEmpty rest
    else if hasNonEmpty then oneNonEmpty hasNonEmpty rest
    else m :: oneNonEmpty true rest

def findMatches (kind : PromptKind α) (updates : MultiModalPromptUpdates) (prompt : List α)
    (prevEndIdx : Nat) (currentResult : ItemKey → Option Nat) :
    Py (Option UpdateMode × List MatchToApply) := do
  let (mode, found) ← collectMatches kind prompt prevEndIdx currentResult (items updates) none
  -- Prioritize earlier matches.
  let matchesToApply := found.insertionSort fun m n => m.found.LE n.found
  pure (mode,
    if mode = some .replace then oneNonEmpty false matchesToApply else matchesToApply)

/-! ## Applying them -/

structure AppliedUpdate (α : Type) where
  toApply : MatchToApply
  mode : UpdateMode
  content : List α

/-- The variables of `_apply_matches`. -/
structure Applying (α : Type) where
  prevEndIdx : Nat := 0
  outSeqs : List (List α) := []
  outResult : ItemKey → Option Nat := fun _ => none
  applied : List (AppliedUpdate α) := []

def MatchToApply.endIdxToInsert (mode : UpdateMode) (m : MatchToApply) : Nat :=
  match mode with
  | .insert => m.found.endIdx
  | .replace => m.found.startIdx

def Applying.applyMatch (kind : PromptKind α) (prompt : List α) (mode : UpdateMode)
    (st : Applying α) (m : MatchToApply) : Py (Applying α) := do
  let content ← kind.resolve m.update.content.full
  pure
    { prevEndIdx := m.found.endIdx
      outSeqs := st.outSeqs ++
        [(prompt.take (m.endIdxToInsert mode)).drop st.prevEndIdx, content]
      outResult := Function.update st.outResult m.key (some m.updateIdx)
      applied := st.applied ++ [⟨m, mode, content⟩] }

/-- `_all_items_found`, with the counts of the results that are there. -/
def allItemsFound (updates : MultiModalPromptUpdates) (result : ItemKey → Option Nat) : Bool :=
  updates.entries.all fun entry =>
    entry.2.length ≤
      ((List.range entry.2.length).filter fun i => (result (entry.1, i)).isSome).length

/-- The loop of `_apply_matches`, with a bound on the number of its turns; none when the
bound is reached. -/
def applyLoop (kind : PromptKind α) (updates : MultiModalPromptUpdates) (prompt : List α) :
    Nat → Applying α → Py (Option (Applying α))
  | 0, _ => pure none
  | fuel + 1, st => do
    let (mode, matchesToApply) ← findMatches kind updates prompt st.prevEndIdx st.outResult
    match mode with
    | none => pure (some st)
    | some mode =>
      let st ← matchesToApply.foldlM (Applying.applyMatch kind prompt mode) st
      if allItemsFound updates st.outResult then pure (some st)
      else applyLoop kind updates prompt fuel st

/-- The number of turns that is enough: every turn applies an update. -/
def maxTurns (updates : MultiModalPromptUpdates) : Nat := (items updates).length + 1

/-- `_apply_matches`, with its variables at the end. -/
def applyMatches (kind : PromptKind α) (updates : MultiModalPromptUpdates) (prompt : List α) :
    Py (List (List α) × Applying α) :=
  if allItemsFound updates fun _ => none then pure ([prompt], {})
  else do
    match ← applyLoop kind updates prompt (maxTurns updates) {} with
    | none => throw (.runtimeError "the loop has not ended")
    | some st => pure (st.outSeqs ++ [prompt.drop st.prevEndIdx], st)

end

def applyTokenMatches (tokenizer : Option Tokenizer) (prompt : List TokenId)
    (updates : MultiModalPromptUpdates) : Py (List TokenId × Applying TokenId) := do
  let (tokenIdSeqs, st) ← applyMatches (tokenPrompt tokenizer) updates prompt
  pure (tokenIdSeqs.flatten, st)

def applyTextMatches (tokenizer : Option Tokenizer) (prompt : List Char)
    (updates : MultiModalPromptUpdates) : Py (List Char × Applying Char) := do
  let (texts, st) ← applyMatches (textPrompt tokenizer) updates prompt
  pure (texts.flatten, st)

end VllmCore.MultiModal
