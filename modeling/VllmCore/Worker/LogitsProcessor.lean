import VllmCore.Worker.InputBatch
/-!
# Logits processors

The logits processors keep state for the rows of the batch.  Once a step they get the
changes of the batch as one `BatchUpdate` and bring their state up to date from it: first
the added requests, then the removed ones, then the moves.
-/

namespace VllmCore.Worker

open Function Support

/-! ## Sparse state -/

section ProcessDictUpdates

variable {T : Type}

/-- The loop of `process_dict_updates` over the added requests. -/
def processAdded (newState : SamplingParams → Option (List Token) → List Token → Option T)
    (st : Bool × Dict Nat T) (added : AddedRequest) : Bool × Dict Nat T :=
  match newState added.params added.promptTokIds added.outputTokIds with
  | some state => (true, st.2.set added.index state)
  | none =>
    if (st.2.get? added.index).isSome then (true, st.2.erase added.index) else st

/-- The loop over the removed rows.  `truthy` is Python's truth value of a state. -/
def processRemoved (truthy : T → Bool) (st : Bool × Dict Nat T) (index : Nat) :
    Bool × Dict Nat T :=
  (st.1 || (st.2.get? index).elim false truthy, st.2.erase index)

def processMoved (st : Bool × Dict Nat T) (moved : Nat × Nat × MoveDirectionality) :
    Bool × Dict Nat T :=
  let (aIndex, bIndex, direct) := moved
  let aEntry := st.2.get? aIndex
  let entries := st.2.erase aIndex
  let bEntry := entries.get? bIndex
  let entries := entries.erase bIndex
  let entries := match aEntry with
    | some a => entries.set bIndex a
    | none => entries
  let entries := match bEntry, direct with
    | some b, .swap => entries.set aIndex b
    | _, _ => entries
  (st.1 || aEntry.isSome || bEntry.isSome, entries)

/-- `process_dict_updates`: whether something changed, and the entries. -/
def processDictUpdates
    (newState : SamplingParams → Option (List Token) → List Token → Option T) (truthy : T → Bool)
    (reqEntries : Dict Nat T) (batchUpdate : Option BatchUpdate) : Bool × Dict Nat T :=
  match batchUpdate with
  | none => (false, reqEntries)
  | some u =>
    let st := u.added.foldl (processAdded newState) (false, reqEntries)
    if st.2.entries.isEmpty then st
    else u.moved.foldl processMoved (u.removed.foldl (processRemoved truthy) st)

end ProcessDictUpdates

/-! ## Min-p -/

/-- `MinPLogitsProcessor`, besides the copy of the values on the device.  `float32` is the
rounding of the array. -/
structure MinPLogitsProcessor where
  float32 : ℚ → ℚ := id
  minPCpu : Nat → ℚ := fun _ => 0
  minPCount : Int := 0

namespace MinPLogitsProcessor

def addMinP (st : MinPLogitsProcessor) (added : AddedRequest) : MinPLogitsProcessor :=
  let minP := added.params.minP
  let minPBefore := st.minPCpu added.index
  if minPBefore ≠ st.float32 minP then
    { st with
      minPCpu := update st.minPCpu added.index (st.float32 minP)
      minPCount :=
        if minP ≠ 0 ∧ minPBefore = 0 then st.minPCount + 1
        else if minP = 0 ∧ minPBefore ≠ 0 then st.minPCount - 1
        else st.minPCount }
  else st

def removeMinP (st : MinPLogitsProcessor) (index : Nat) : MinPLogitsProcessor :=
  if st.minPCpu index ≠ 0 then
    { st with
      minPCpu := update st.minPCpu index 0
      minPCount := st.minPCount - 1 }
  else st

def moveMinP (st : MinPLogitsProcessor) (moved : Nat × Nat × MoveDirectionality) :
    MinPLogitsProcessor :=
  let (adx, bdx, direct) := moved
  let minPA := st.minPCpu adx
  let minPB := st.minPCpu bdx
  let minPCpu :=
    if minPA ≠ minPB then
      let minPCpu := update st.minPCpu bdx minPA
      if direct = .swap then update minPCpu adx minPB else minPCpu
    else st.minPCpu
  if direct = .unidirectional then
    { st with
      minPCpu := if minPA ≠ 0 then update minPCpu adx 0 else minPCpu
      minPCount := if minPB ≠ 0 then st.minPCount - 1 else st.minPCount }
  else { st with minPCpu := minPCpu }

def updateState (st : MinPLogitsProcessor) (batchUpdate : Option BatchUpdate) :
    MinPLogitsProcessor :=
  match batchUpdate with
  | none => st
  | some u =>
    let st := u.added.foldl addMinP st
    if st.minPCount ≠ 0 then u.moved.foldl moveMinP (u.removed.foldl removeMinP st) else st

end MinPLogitsProcessor

/-! ## The thinking budget -/

structure ReasoningConfig where
  reasoningStartTokenIds : List Token
  reasoningEndTokenIds : List Token
  deriving DecidableEq

/-- The state of a request with a thinking budget.  `outputTokIds` names the list of a
request, which grows in place. -/
structure ThinkState where
  inThink : Bool
  inEnd : Bool
  checkCountDown : Int
  thinkCount : Int
  endCount : Nat := 0
  promptTokIds : Option (List Token)
  outputTokIds : ReqId
  thinkingTokenBudget : Int
  prevOutputLength : Nat := 0
  deriving DecidableEq

def findLastSequenceIndex (targetList tokenIds : List Token) : Int :=
  if tokenIds = [] then -1
  else
    match (List.range (targetList.length + 1 - tokenIds.length)).reverse.find? fun i =>
      (targetList.drop i).take tokenIds.length = tokenIds with
    | some i => i
    | none => -1

namespace ReasoningConfig

/-- `_init_state_entry`, with the list of the output tokens. -/
def initStateEntry (c : ReasoningConfig) (promptTokIds : Option (List Token))
    (thinkingTokenBudget : Int) (outputTokIds : ReqId) : ThinkState :=
  let (inThink, thinkCount) : Bool × Int := match promptTokIds with
    | none => (false, 0)
    | some prompt =>
      let lastStart := findLastSequenceIndex prompt c.reasoningStartTokenIds
      let lastEnd := findLastSequenceIndex prompt c.reasoningEndTokenIds
      if lastStart > lastEnd then
        (true, prompt.length - (lastStart + c.reasoningStartTokenIds.length))
      else (false, 0)
  { inThink := inThink
    inEnd := inThink && thinkingTokenBudget = 0
    checkCountDown := thinkingTokenBudget
    thinkCount := thinkCount
    promptTokIds := promptTokIds
    outputTokIds := outputTokIds
    thinkingTokenBudget := thinkingTokenBudget }

/-- The part of `_update_think_state` that looks for the start and the end of the
reasoning in the new tokens. -/
def scanThinkState (c : ReasoningConfig) (state : ThinkState) (output : List Token)
    (prevLength : Nat) : ThinkState :=
  let startLen := c.reasoningStartTokenIds.length
  let checkStartIdx := prevLength + 1 - max startLen c.reasoningEndTokenIds.length
  let recentTokens := output.drop checkStartIdx
  let recentStartPos := findLastSequenceIndex recentTokens c.reasoningStartTokenIds
  let recentEndPos := findLastSequenceIndex recentTokens c.reasoningEndTokenIds
  let newThinkCount : Int := output.length - (checkStartIdx + recentStartPos + startLen)
  if recentStartPos ≥ 0 ∧ (recentEndPos ≥ 0 → recentStartPos > recentEndPos) then
    { state with inThink := true, thinkCount := newThinkCount }
  else if recentEndPos ≥ 0 then { state with inThink := false, thinkCount := 0 }
  else if state.inThink then
    { state with thinkCount := state.thinkCount + (output.drop prevLength).length }
  else state

/-- The part of `_update_think_state` that sets the countdown and enters the end mode. -/
def countDownThinkState (state : ThinkState) : ThinkState :=
  let budget := state.thinkingTokenBudget
  let state := { state with
    checkCountDown :=
      if state.inThink then max 0 (max 0 (budget - state.thinkCount) - 1) else budget }
  if state.inThink ∧ state.thinkCount ≥ budget then
    { state with inThink := false, inEnd := true, endCount := 0, checkCountDown := budget }
  else state

/-- `_update_think_state`, with what the output list holds now. -/
def updateThinkState (c : ReasoningConfig) (outputs : ReqId → List Token) (state : ThinkState) :
    ThinkState :=
  let output := outputs state.outputTokIds
  if state.inEnd = false ∧ 0 < state.checkCountDown then
    { state with checkCountDown := state.checkCountDown - 1 }
  else if output.length ≤ state.prevOutputLength then state
  else
    let prevLength := state.prevOutputLength
    let state := { state with prevOutputLength := output.length }
    if state.inEnd = false then countDownThinkState (c.scanThinkState state output prevLength)
    else if state.endCount + 1 ≥ c.reasoningEndTokenIds.length then
      { state with
        inEnd := false
        endCount := 0
        checkCountDown := state.thinkingTokenBudget }
    else { state with endCount := state.endCount + 1 }

end ReasoningConfig

/-- `ThinkingTokenBudgetLogitsProcessor`: the states by row. -/
structure ThinkingTokenBudgetLogitsProcessor where
  reasoningConfig : Option ReasoningConfig
  state : Dict Nat ThinkState := .empty

namespace ThinkingTokenBudgetLogitsProcessor

def addThinking (c : ReasoningConfig) (state : Dict Nat ThinkState) (added : AddedRequest) :
    Dict Nat ThinkState :=
  match added.params.thinkingTokenBudget with
  | some budget =>
    state.set added.index (c.initStateEntry added.promptTokIds budget added.reqId)
  | none => state.erase added.index

/-- A one-way or two-way move.  A one-way move of a row without a state leaves the row it
goes to as it is. -/
def moveThinking (state : Dict Nat ThinkState) (moved : Nat × Nat × MoveDirectionality) :
    Dict Nat ThinkState :=
  let (i₁, i₂, direction) := moved
  let state₁ := state.get? i₁
  let rest := state.erase i₁
  match direction with
  | .swap =>
    let state₂ := rest.get? i₂
    let rest := rest.erase i₂
    let rest := match state₁ with
      | some s => rest.set i₂ s
      | none => rest
    match state₂ with
    | some s => rest.set i₁ s
    | none => rest
  | .unidirectional =>
    match state₁ with
    | some s => rest.set i₂ s
    | none => rest

/-- `update_state`; `outputs` is what the output lists of the requests hold. -/
def updateState (p : ThinkingTokenBudgetLogitsProcessor) (batchUpdate : Option BatchUpdate)
    (outputs : ReqId → List Token) : ThinkingTokenBudgetLogitsProcessor :=
  match p.reasoningConfig with
  | none => p
  | some c =>
    let state := match batchUpdate with
      | none => p.state
      | some u =>
        u.moved.foldl moveThinking
          (u.removed.foldl (fun state index => state.erase index)
            (u.added.foldl (addThinking c) p.state))
    { p with state := state.mapValues (c.updateThinkState outputs) }

end ThinkingTokenBudgetLogitsProcessor

end VllmCore.Worker
