import VllmCore.Engine
/-!
# The checks of the input processor

A prompt is checked before its request is handed to the engine: its length against the
model length, its multimodal items against the encoder cache, and its token ids against
the vocabulary.  A model that generates needs room for one token behind the prompt; a
pooling model takes a prompt of the whole model length.
-/

namespace VllmCore

open Support

inductive RunnerType
  | generate
  | pooling
  | draft
  deriving DecidableEq, Repr

/-- Which of the two prompts of an encoder-decoder model is meant. -/
inductive PromptType
  | encoder
  | decoder
  deriving DecidableEq, Repr

def PromptType.name : PromptType → String
  | .encoder => "encoder"
  | .decoder => "decoder"

/-- A prompt: token ids or embeddings, and the placeholders of its multimodal items. -/
structure SingletonInput where
  promptTokenIds : Option (List Token)
  promptEmbeds : Option (List Nat) := none
  mmPlaceholders : List (String × List PlaceholderRange) := []

structure InputProcessor where
  maxModelLen : Nat
  runnerType : RunnerType := .generate
  vocabSize : Nat
  tokenizerMaxTokenId : Option Token := none
  supportsMmInputs : Bool := false
  mmEncoderCacheSize : Nat := 0
  skipPromptLengthCheck : Bool := false

namespace InputProcessor

variable {D : Type}

def validatePromptLen (ip : InputProcessor) (promptLen : Nat) (promptType : PromptType) :
    Py Unit :=
  if ip.skipPromptLengthCheck then pure ()
  else if promptLen = 0 ∧ promptType = .decoder then
    throw (.valueError s!"The {promptType.name} prompt cannot be empty")
  else
    let maxPromptLen :=
      if promptType = .decoder then ip.maxModelLen else ip.mmEncoderCacheSize
    if maxPromptLen < promptLen then
      let suggestion :=
        if ip.supportsMmInputs then
          "Make sure that `max_model_len` is no smaller than the number of text tokens " ++
          "plus multimodal tokens. For image inputs, the number of image tokens depends " ++
          "on the number of images, and possibly their aspect ratios as well."
        else
          "Make sure that `max_model_len` is no smaller than the number of text tokens."
      throw (.valueError (s!"The {promptType.name} prompt (length {promptLen}) is " ++
        s!"longer than the maximum model length of {maxPromptLen}. " ++ suggestion))
    else if promptLen = maxPromptLen ∧ ip.runnerType = .generate then
      let suggestion :=
        "Make sure that `max_model_len` is no smaller than the number of text tokens " ++
        "(prompt + requested output tokens)."
      throw (.valueError (s!"The {promptType.name} prompt (length {promptLen}) plus the " ++
        s!"number of requested output tokens (at least 1) is longer than the maximum " ++
        s!"model length of {maxPromptLen}. " ++ suggestion))
    else pure ()

def validateMmItem (ip : InputProcessor) (promptType : PromptType) (modality : String)
    (mmPosition : PlaceholderRange) : Py Unit :=
  let embedLength := mmPosition.getNumEmbeds
  if ip.mmEncoderCacheSize < embedLength then
    throw (.valueError (s!"The {promptType.name} prompt contains a(n) {modality} item " ++
      s!"with length {embedLength}, which exceeds the pre-allocated encoder cache size " ++
      s!"{ip.mmEncoderCacheSize}. Please reduce the input size or increase the encoder " ++
      "cache size by setting --limit-mm-per-prompt at startup."))
  else pure ()

/-- The check of the token ids; without a tokenizer there is none. -/
def validateTokenIds (ip : InputProcessor) (promptIds : Option (List Token)) : Py Unit :=
  match promptIds, ip.tokenizerMaxTokenId with
  | some (t :: ts), some maxTokenId =>
    let maxInputId := ts.foldl max t
    if max maxTokenId (ip.vocabSize - 1) < maxInputId then
      throw (.valueError s!"Token id {maxInputId} is out of vocabulary")
    else pure ()
  | _, _ => pure ()

def validateModelInput (ip : InputProcessor) (input : SingletonInput) (promptType : PromptType) :
    Py Unit := do
  let promptLen ← Request.lengthFromPromptTokenIdsOrEmbeds input.promptTokenIds input.promptEmbeds
  ip.validatePromptLen promptLen promptType
  input.mmPlaceholders.forM fun item => item.2.forM (ip.validateMmItem promptType item.1)
  ip.validateTokenIds input.promptTokenIds

/-- The requests of a run are made from prompts that the input processor accepts. -/
def Accepts {C : KVConnector D} (ip : InputProcessor) : EngineCore.Call C → Prop
  | .addRequest args => ∃ input : SingletonInput, input.promptTokenIds = args.promptTokenIds ∧
      input.promptEmbeds = args.promptEmbeds ∧ ip.validateModelInput input .decoder = .ok ()
  | _ => True

theorem validatePromptLen_ok {ip : InputProcessor} {promptLen : Nat}
    (hcheck : ip.skipPromptLengthCheck = false) :
    ip.validatePromptLen promptLen .decoder = .ok () ↔ 0 < promptLen ∧
      promptLen ≤ ip.maxModelLen ∧ (ip.runnerType = .generate → promptLen < ip.maxModelLen) := by
  have hraises : ∀ e : PyError, (throw e : Py Unit) ≠ .ok () := by
    intro e he
    cases he
  unfold validatePromptLen
  rw [if_neg (by rw [hcheck]; exact Bool.false_ne_true)]
  by_cases hempty : promptLen = 0
  · rw [if_pos ⟨hempty, rfl⟩]
    constructor
    · exact fun h => absurd h (hraises _)
    · omega
  · rw [if_neg (fun h => hempty h.1), if_pos rfl]
    by_cases hlong : ip.maxModelLen < promptLen
    · rw [if_pos hlong]
      constructor
      · exact fun h => absurd h (hraises _)
      · omega
    · rw [if_neg hlong]
      by_cases hfull : promptLen = ip.maxModelLen ∧ ip.runnerType = .generate
      · rw [if_pos hfull]
        constructor
        · exact fun h => absurd h (hraises _)
        · intro h
          have hless := h.2.2 hfull.2
          omega
      · rw [if_neg hfull]
        refine ⟨fun _ => ⟨by omega, by omega, fun hgenerate => ?_⟩, fun _ => rfl⟩
        have hne : promptLen ≠ ip.maxModelLen := fun heq => hfull ⟨heq, hgenerate⟩
        omega

end InputProcessor

end VllmCore
