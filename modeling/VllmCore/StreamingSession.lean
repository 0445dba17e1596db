import VllmCore.BlockHash
/-!
# Streaming sessions

A resumable request takes further input chunks.  The next chunk replaces the last
sampled token, which was never computed.
-/

namespace VllmCore

open Support

variable {D : Type}

/-- Move the items of an update behind the tokens of the session. -/
def shiftMmFeatures (base : Nat) (features : List MultiModalFeatureSpec) :
    List MultiModalFeatureSpec :=
  features.map fun f =>
    { f with mmPosition := { f.mmPosition with offset := f.mmPosition.offset + base } }

/-- The session with the tokens and the items of an update, before its new blocks are
hashed. -/
def Request.extendSession (session : Request D) (update : StreamingUpdate)
    (promptTokenIds : List Token) : Request D :=
  let numComputedTokens := sliceBound session.allTokenIds.length session.numComputedTokens
  let keptOutputTokens :=
    (session.allTokenIds.take numComputedTokens).drop session.numPromptTokens
  let kept := session.allTokenIds.take numComputedTokens
  { session with
    outputTokenIds := []
    mmFeatures := session.mmFeatures ++ shiftMmFeatures kept.length update.mmFeatures
    allTokenIds := kept ++ update.promptTokenIds.getD []
    promptTokenIds := some (promptTokenIds ++ keptOutputTokens ++ update.promptTokenIds.getD []) }

/-- `_update_request_as_session`, besides the count of sessions that wait for input. -/
def Request.updateAsSession (hasher : Option (Request D → List D)) (session : Request D)
    (update : StreamingUpdate) : Py (Request D) :=
  match session.promptTokenIds with
  | none => throw (.assertionError "session.prompt_token_ids is not None")
  | some promptTokenIds =>
    let session := Request.updateBlockHashes hasher (session.extendSession update promptTokenIds)
    pure
      { session with
        numPromptTokens := (session.promptTokenIds.getD []).length
        arrivalTime := update.arrivalTime
        samplingParams := update.samplingParams
        status := .waiting }

end VllmCore
