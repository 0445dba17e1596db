import VllmCore.MultiModal.PromptUpdates
/-!
# Finding the placeholders of multimodal items

Where the contents of the updates went is not recorded: they are searched for in the
updated prompt from left to right, the items of each modality in order.
-/

namespace VllmCore.MultiModal

open Support

structure PlaceholderFeaturesInfo where
  modality : String
  itemIdx : Nat
  startIdx : Nat
  tokens : List TokenId
  isEmbed : Option (List Bool)
  deriving DecidableEq

def PlaceholderFeaturesInfo.length (p : PlaceholderFeaturesInfo) : Nat := p.tokens.length

def placeholderOf (tokenizer : Option Tokenizer) (modality : String) (itemIdx startIdx : Nat)
    (u : ResolvedPromptUpdate) (tokens : List TokenId) : PlaceholderFeaturesInfo :=
  ⟨modality, itemIdx, startIdx, tokens,
    u.content.isEmbed.map fun isEmbed => isEmbed tokenizer u.content.full⟩

def findContent (tokenizer : Option Tokenizer) (prompt : List TokenId) (startIdx : Nat) :
    List ResolvedPromptUpdate → Py (Option (ResolvedPromptUpdate × List TokenId))
  | [] => pure none
  | u :: rest => do
    let contentTokensFull ← seq2tokens tokenizer u.content.full
    let endIdxFull := startIdx + contentTokensFull.length
    if contentTokensFull.length = 0 ∨ prompt.length < endIdxFull then
      findContent tokenizer prompt startIdx rest
    else if (prompt.take endIdxFull).drop startIdx = contentTokensFull then
      pure (some (u, contentTokensFull))
    else findContent tokenizer prompt startIdx rest

def placeholderAt (tokenizer : Option Tokenizer) (prompt : List TokenId)
    (itemIdxByModality : String → Nat) (startIdx : Nat) :
    List (String × List (List ResolvedPromptUpdate)) → Py (Option PlaceholderFeaturesInfo)
  | [] => pure none
  | (modality, modalityUpdates) :: rest =>
    match modalityUpdates[itemIdxByModality modality]? with
    | none => placeholderAt tokenizer prompt itemIdxByModality startIdx rest
    | some itemUpdates => do
      match ← findContent tokenizer prompt startIdx itemUpdates with
      | none => placeholderAt tokenizer prompt itemIdxByModality startIdx rest
      | some (u, tokens) =>
        pure (some (placeholderOf tokenizer modality (itemIdxByModality modality) startIdx
          u tokens))

/-- `_all_items_found`, of the items that were counted off. -/
def allCountedOff (updates : MultiModalPromptUpdates) (itemIdxByModality : String → Nat) : Bool :=
  updates.entries.all fun entry => entry.2.length ≤ itemIdxByModality entry.1

/-- The loop of `_iter_placeholders`, with a bound on the number of its turns. -/
def placeholdersFrom (tokenizer : Option Tokenizer) (prompt : List TokenId)
    (updates : MultiModalPromptUpdates) :
    Nat → (String → Nat) → Nat → Py (List PlaceholderFeaturesInfo)
  | 0, _, _ => throw (.runtimeError "the loop has not ended")
  | fuel + 1, itemIdxByModality, startIdx =>
    if startIdx < prompt.length then do
      match ← placeholderAt tokenizer prompt itemIdxByModality startIdx updates.entries with
      | some p =>
        let itemIdxByModality := Function.update itemIdxByModality p.modality
          (itemIdxByModality p.modality + 1)
        if allCountedOff updates itemIdxByModality then pure [p]
        else do
          let rest ← placeholdersFrom tokenizer prompt updates fuel itemIdxByModality
            (startIdx + p.length)
          pure (p :: rest)
      | none =>
        placeholdersFrom tokenizer prompt updates fuel itemIdxByModality (startIdx + 1)
    else pure []

/-- `_iter_placeholders`; every turn moves `start_idx` on. -/
def iterPlaceholders (tokenizer : Option Tokenizer) (prompt : List TokenId)
    (updates : MultiModalPromptUpdates) : Py (List PlaceholderFeaturesInfo) :=
  if allCountedOff updates fun _ => 0 then pure []
  else placeholdersFrom tokenizer prompt updates (prompt.length + 1) (fun _ => 0) 0

abbrev MultiModalPlaceholders := Dict String (List PlaceholderFeaturesInfo)

def findMmPlaceholders (tokenizer : Option Tokenizer) (prompt : List TokenId)
    (updates : MultiModalPromptUpdates) : Py MultiModalPlaceholders := do
  let found ← iterPlaceholders tokenizer prompt updates
  pure (Dict.grouped (found.map fun p => (p.modality, p)))

/-! ## With the updates that were applied -/

def allApplied (updates : MultiModalPromptUpdates) (result : ItemKey → Option Nat) : Bool :=
  (items updates).all fun item => (result item.1).isSome

/-- The update of an item that was applied. -/
def matchedUpdate (result : ItemKey → Option Nat)
    (item : ItemKey × List ResolvedPromptUpdate) :
    Py (String × List ResolvedPromptUpdate) := do
  match result item.1 with
  | none => throw (.assertionError ("Failed to apply prompt replacement for mm_items['" ++
      item.1.1 ++ "'][" ++ toString item.1.2 ++ "]"))
  | some updateIdx => do
    let u ← pyGet item.2 updateIdx
    pure (item.1.1, [u])

def matchedUpdates (updates : MultiModalPromptUpdates) (result : ItemKey → Option Nat) :
    Py MultiModalPromptUpdates := do
  let matched ← (items updates).mapM (matchedUpdate result)
  pure (Dict.grouped matched)

/-- `_apply_prompt_updates`: on the tokens, and if that does not apply all updates, on the
text. -/
def applyPromptUpdates (tokenizer : Option Tokenizer) (tokenIds : List TokenId)
    (updates : MultiModalPromptUpdates) : Py (List TokenId × MultiModalPlaceholders) := do
  let (newTokenIds, st) ← applyTokenMatches tokenizer tokenIds updates
  let (newTokenIds, matchResult) ←
    if allApplied updates st.outResult then pure (newTokenIds, st.outResult)
    else do
      let text ← seq2text tokenizer (.tokens tokenIds)
      let (newText, st) ← applyTextMatches tokenizer text updates
      let newTokenIds ← seq2tokens tokenizer (.text newText)
      pure (newTokenIds, st.outResult)
  let matched ← matchedUpdates updates matchResult
  let placeholders ← findMmPlaceholders tokenizer newTokenIds matched
  pure (newTokenIds, placeholders)

end VllmCore.MultiModal
