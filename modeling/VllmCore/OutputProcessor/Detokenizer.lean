import VllmCore.Request
import Mathlib.Data.List.MinMax
/-!
# Incremental detokenization

The text of a request grows token by token.  Where a stop string has to stay out of the
output, the last characters are held back: a match can only begin in what was not yet
returned.  The decoder of the tokenizer is a parameter.
-/

namespace VllmCore

open List Nat Support

/-- `str.find(pattern, start)` for a start that is not negative. -/
def findFrom (text pattern : List Char) (start : Nat) : Option Nat :=
  ((List.range (text.length + 1)).drop start).find? fun i => pattern.isPrefixOf (text.drop i)

theorem findFrom_some {text pattern : List Char} {start i : Nat}
    (h : findFrom text pattern start = some i) : start ≤ i ∧ i + pattern.length ≤ text.length := by
  have hprefix : pattern <+: text.drop i := by
    simpa [List.isPrefixOf_iff_prefix] using find?_some h
  have hmem := mem_of_find?_eq_some h
  rw [mem_drop_iff_getElem] at hmem
  obtain ⟨j, hj, hi⟩ := hmem
  rw [length_range] at hj
  rw [getElem_range] at hi
  have hlength := hprefix.length_le
  rw [length_drop] at hlength
  omega

/-- `check_stop_strings`: the stop string, and where the text is cut. -/
def checkStopStrings (outputText : List Char) (newCharCount : Nat) (stop : List (List Char))
    (includeInOutput : Bool) : Option (List Char × Option Nat) :=
  if newCharCount = 0 ∨ stop = [] then none
  else
    stop.findSome? fun stopStr =>
      -- the text that was searched before is skipped
      let start := sliceBound outputText.length (1 - newCharCount - stopStr.length)
      (findFrom outputText stopStr start).map fun stopIndex =>
        if includeInOutput then
          if outputText.length ≤ stopIndex + stopStr.length then (stopStr, none)
          else (stopStr, some (stopIndex + stopStr.length))
        else (stopStr, some stopIndex)

variable {outputText stopStr : List Char} {newCharCount : Nat} {stop : List (List Char)}
  {includeInOutput : Bool}

theorem checkStopStrings_mem {cut : Option Nat}
    (h : checkStopStrings outputText newCharCount stop includeInOutput = some (stopStr, cut)) :
    stopStr ∈ stop := by
  unfold checkStopStrings at h
  split at h
  · cases h
  · obtain ⟨s, hmem, hs⟩ := exists_of_findSome?_eq_some h
    rw [Option.map_eq_some_iff] at hs
    obtain ⟨i, -, hresult⟩ := hs
    have hfirst := congrArg Prod.fst hresult
    dsimp only at hfirst
    rw [apply_ite Prod.fst, apply_ite Prod.fst, ite_self, ite_self] at hfirst
    exact hfirst ▸ hmem

theorem checkStopStrings_some {cut : Nat} (hne : ∀ s ∈ stop, s ≠ [])
    (hcount : newCharCount ≤ outputText.length)
    (h : checkStopStrings outputText newCharCount stop includeInOutput = some (stopStr, some cut)) :
    stopStr ∈ stop ∧ cut ≤ outputText.length ∧
      outputText.length - newCharCount + 1 ≤
        cut + (if includeInOutput then 0 else stopStr.length) := by
  unfold checkStopStrings at h
  split at h
  · cases h
  next hsearch =>
    obtain ⟨s, hmem, hs⟩ := exists_of_findSome?_eq_some h
    rw [Option.map_eq_some_iff] at hs
    obtain ⟨i, hfind, hresult⟩ := hs
    obtain ⟨hstart, hend⟩ := findFrom_some hfind
    have hlength : 0 < s.length := length_pos_iff.mpr (hne s hmem)
    unfold sliceBound at hstart
    rw [if_pos (by omega)] at hstart
    cases includeInOutput with
    | true =>
      simp only [if_true] at hresult ⊢
      split at hresult
      · cases hresult
      · cases hresult
        exact ⟨hmem, by omega, by omega⟩
    | false =>
      simp only [Bool.false_eq_true, if_false] at hresult ⊢
      cases hresult
      exact ⟨hmem, by omega, by omega⟩

/-- `BaseIncrementalDetokenizer`.  The slow detokenizer keeps the prompt in `token_ids`. -/
structure BaseIncrementalDetokenizer (σ : Type) where
  tokenIds : List Token := []
  promptLen : Nat := 0
  promptLen_le : promptLen ≤ tokenIds.length
  stop : List (List Char) := []
  stop_ne : ∀ s ∈ stop, s ≠ []
  minTokens : Nat := 0
  includeStopStrInOutput : Bool := false
  lastOutputTextOffset : Nat := 0
  outputText : List Char := []
  decodeNext : σ → List Token → List Char × σ
  decoder : σ

namespace BaseIncrementalDetokenizer

variable {σ : Type}

def stopBufferLength (d : BaseIncrementalDetokenizer σ) : Nat :=
  if d.stop ≠ [] ∧ d.includeStopStrInOutput = false then
    (d.stop.map List.length).foldr max 0 - 1
  else 0

def outputTokenIds (d : BaseIncrementalDetokenizer σ) : List Token := d.tokenIds.drop d.promptLen

def numOutputTokens (d : BaseIncrementalDetokenizer σ) : Nat := d.tokenIds.length - d.promptLen

/-- `token_ids.append`. -/
def appendTokens (d : BaseIncrementalDetokenizer σ) (tokenIds : List Token) :
    BaseIncrementalDetokenizer σ :=
  { d with
    tokenIds := d.tokenIds ++ tokenIds
    promptLen_le := by
      have h := d.promptLen_le
      rw [length_append]
      omega }

def decodeToken (d : BaseIncrementalDetokenizer σ) (newTokenId : Token) :
    BaseIncrementalDetokenizer σ :=
  let d := d.appendTokens [newTokenId]
  let (text, decoder) := d.decodeNext d.decoder d.tokenIds
  { d with outputText := d.outputText ++ text, decoder := decoder }

/-- The loop of `update`, with the offset from which stop strings count. -/
def decodeTokens : List Token → BaseIncrementalDetokenizer σ → Nat →
    BaseIncrementalDetokenizer σ × Nat
  | [], d, stopCheckOffset => (d, stopCheckOffset)
  | t :: rest, d, stopCheckOffset =>
    let d := d.decodeToken t
    decodeTokens rest d
      (if d.minTokens ≠ 0 ∧ d.numOutputTokens ≤ d.minTokens then d.outputText.length
       else stopCheckOffset)

/-- The tokens of `update` without a stop token that is not shown. -/
def detokenize (d : BaseIncrementalDetokenizer σ) (newTokenIds : List Token)
    (stopTerminated : Bool) : BaseIncrementalDetokenizer σ × Nat :=
  if stopTerminated ∧ d.includeStopStrInOutput = false then
    let (d', stopCheckOffset) := decodeTokens newTokenIds.dropLast d d.outputText.length
    (d'.appendTokens newTokenIds.getLast?.toList, stopCheckOffset)
  else decodeTokens newTokenIds d d.outputText.length

/-- `BaseIncrementalDetokenizer.update`: the stop string that was found. -/
def update (d : BaseIncrementalDetokenizer σ) (newTokenIds : List Token) (stopTerminated : Bool) :
    Option (List Char) × BaseIncrementalDetokenizer σ :=
  if newTokenIds = [] then (none, d)
  else
    let (d, stopCheckOffset) := d.detokenize newTokenIds stopTerminated
    if d.stop ≠ [] ∧ d.minTokens < d.numOutputTokens then
      match checkStopStrings d.outputText (d.outputText.length - stopCheckOffset) d.stop
          d.includeStopStrInOutput with
      | none => (none, d)
      | some (stopString, none) => (some stopString, d)
      | some (stopString, some truncateTo) =>
        (some stopString, { d with outputText := d.outputText.take truncateTo })
    else (none, d)

def getNextOutputText (d : BaseIncrementalDetokenizer σ) (finished delta : Bool) :
    List Char × BaseIncrementalDetokenizer σ :=
  let length := d.outputText.length - (if finished then 0 else d.stopBufferLength)
  if delta = false then (d.outputText.take length, d)
  else if d.lastOutputTextOffset < length then
    ((d.outputText.take length).drop d.lastOutputTextOffset,
      { d with lastOutputTextOffset := length })
  else ([], d)

/-! ## What an update keeps -/

/-- The parameters stay, and tokens and text are appended. -/
structure Extends (d : BaseIncrementalDetokenizer σ) (newTokenIds : List Token)
    (d' : BaseIncrementalDetokenizer σ) : Prop where
  outputTokenIds : d'.outputTokenIds = d.outputTokenIds ++ newTokenIds
  text : d.outputText <+: d'.outputText
  stop : d'.stop = d.stop
  includeStop : d'.includeStopStrInOutput = d.includeStopStrInOutput
  lastOffset : d'.lastOutputTextOffset = d.lastOutputTextOffset

section

variable (d : BaseIncrementalDetokenizer σ)

include d

theorem numOutputTokens_eq :
    d.numOutputTokens = d.outputTokenIds.length := by
  unfold numOutputTokens outputTokenIds
  rw [length_drop]

theorem extends_appendTokens (tokenIds : List Token) :
    d.Extends tokenIds (d.appendTokens tokenIds) :=
  { outputTokenIds := drop_append_of_le_length d.promptLen_le
    text := prefix_rfl
    stop := rfl
    includeStop := rfl
    lastOffset := rfl }

theorem extends_decodeToken (t : Token) :
    d.Extends [t] (d.decodeToken t) :=
  { outputTokenIds := drop_append_of_le_length d.promptLen_le
    text := prefix_append _ _
    stop := rfl
    includeStop := rfl
    lastOffset := rfl }

end

variable {d d' : BaseIncrementalDetokenizer σ} {ts : List Token}

theorem Extends.trans {d₁ d₂ : BaseIncrementalDetokenizer σ} {us : List Token}
    (h₁ : d.Extends ts d₁) (h₂ : d₁.Extends us d₂) : d.Extends (ts ++ us) d₂ :=
  { outputTokenIds := by rw [h₂.outputTokenIds, h₁.outputTokenIds, append_assoc]
    text := h₁.text.trans h₂.text
    stop := h₂.stop.trans h₁.stop
    includeStop := h₂.includeStop.trans h₁.includeStop
    lastOffset := h₂.lastOffset.trans h₁.lastOffset }

theorem decodeTokens_spec (ts : List Token) (d : BaseIncrementalDetokenizer σ) {offset bound : Nat}
    (hbound : bound ≤ offset) (hoffset : offset ≤ d.outputText.length) :
    d.Extends ts (decodeTokens ts d offset).1 ∧ bound ≤ (decodeTokens ts d offset).2 ∧
      (decodeTokens ts d offset).2 ≤ (decodeTokens ts d offset).1.outputText.length := by
  induction ts generalizing d offset with
  | nil => exact ⟨⟨(append_nil _).symm, prefix_rfl, rfl, rfl, rfl⟩, hbound, hoffset⟩
  | cons t rest ih =>
    have hfirst := d.extends_decodeToken t
    have hlength := hfirst.text.length_le
    unfold decodeTokens
    dsimp only
    split
    · obtain ⟨hrest, hafter⟩ := @ih (d.decodeToken t) (d.decodeToken t).outputText.length
        (by omega) (by omega)
      exact ⟨hfirst.trans hrest, hafter⟩
    · obtain ⟨hrest, hafter⟩ := @ih (d.decodeToken t) offset hbound (by omega)
      exact ⟨hfirst.trans hrest, hafter⟩

theorem detokenize_spec (d : BaseIncrementalDetokenizer σ) (newTokenIds : List Token)
    (stopTerminated : Bool) :
    d.Extends newTokenIds (d.detokenize newTokenIds stopTerminated).1 ∧
      d.outputText.length ≤ (d.detokenize newTokenIds stopTerminated).2 ∧
      (d.detokenize newTokenIds stopTerminated).2 ≤
        (d.detokenize newTokenIds stopTerminated).1.outputText.length := by
  unfold detokenize
  split
  · obtain ⟨hextends, hafter⟩ := decodeTokens_spec newTokenIds.dropLast d
      (le_refl d.outputText.length) (le_refl _)
    refine ⟨?_, hafter⟩
    have happend := hextends.trans (extends_appendTokens _ newTokenIds.getLast?.toList)
    have hsplit : newTokenIds.dropLast ++ newTokenIds.getLast?.toList = newTokenIds := by
      cases hlast : newTokenIds.getLast? with
      | none => rw [getLast?_eq_none_iff.mp hlast]; rfl
      | some t => exact dropLast_append_getLast? t hlast
    rwa [hsplit] at happend
  · exact decodeTokens_spec newTokenIds d (le_refl d.outputText.length) (le_refl _)

theorem length_le_stopBufferLength {s : List Char}
    (hs : s ∈ d.stop) (hinclude : d.includeStopStrInOutput = false) :
    s.length ≤ d.stopBufferLength + 1 := by
  unfold stopBufferLength
  rw [if_pos ⟨ne_nil_of_mem hs, hinclude⟩]
  have hle : s.length ≤ (d.stop.map List.length).foldr max 0 :=
    le_max_of_le (mem_map_of_mem hs) (le_refl _)
  omega

/-- What `update` leaves of a text of which `last` characters were returned. -/
structure Updated (d : BaseIncrementalDetokenizer σ) (newTokenIds : List Token)
    (stopString : Option (List Char)) (d' : BaseIncrementalDetokenizer σ) : Prop where
  outputTokenIds : d'.outputTokenIds = d.outputTokenIds ++ newTokenIds
  stop : d'.stop = d.stop
  stopBufferLength : d'.stopBufferLength = d.stopBufferLength
  lastOffset : d'.lastOutputTextOffset = d.lastOutputTextOffset
  returned : ∀ last, last ≤ d.outputText.length - d.stopBufferLength →
    d'.outputText.take last = d.outputText.take last ∧ last ≤ d'.outputText.length ∧
      (stopString = none → last ≤ d'.outputText.length - d'.stopBufferLength)
  found : ∀ s, stopString = some s → s ≠ [] ∧ d.stop ≠ []

theorem Extends.stopBufferLength
    (h : d.Extends ts d') : d'.stopBufferLength = d.stopBufferLength := by
  unfold BaseIncrementalDetokenizer.stopBufferLength
  rw [h.stop, h.includeStop]

theorem Extends.updated {stopString : Option (List Char)} (h : d.Extends ts d')
    (hfound : ∀ s, stopString = some s → s ≠ [] ∧ d.stop ≠ []) : d.Updated ts stopString d' := by
  refine ⟨h.outputTokenIds, h.stop, h.stopBufferLength, h.lastOffset, ?_, hfound⟩
  intro last hlast
  have hlength := h.text.length_le
  have hbuffer := h.stopBufferLength
  refine ⟨?_, by omega, fun _ => by omega⟩
  obtain ⟨more, hmore⟩ := h.text
  rw [← hmore, take_append_of_le_length (by omega)]

theorem update_spec (d : BaseIncrementalDetokenizer σ) (newTokenIds : List Token)
    (stopTerminated : Bool) :
    d.Updated newTokenIds (d.update newTokenIds stopTerminated).1
      (d.update newTokenIds stopTerminated).2 := by
  unfold update
  split
  next hnone =>
    rw [hnone]
    exact Extends.updated ⟨(append_nil _).symm, prefix_rfl, rfl, rfl, rfl⟩
      (fun s hs => by cases hs)
  · obtain ⟨hextends, hbefore, hwithin⟩ := d.detokenize_spec newTokenIds stopTerminated
    generalize d.detokenize newTokenIds stopTerminated = result at hextends hbefore hwithin
    obtain ⟨d', offset⟩ := result
    dsimp only at hextends hbefore hwithin ⊢
    split
    next hsearch =>
      split
      · exact hextends.updated (fun s hs => by cases hs)
      next stopString heq =>
        refine hextends.updated (fun s hs => ?_)
        cases hs
        refine ⟨?_, hextends.stop ▸ hsearch.1⟩
        exact d'.stop_ne _ (checkStopStrings_mem heq)
      next stopString truncateTo heq =>
        obtain ⟨hmem, hcut, hbehind⟩ := checkStopStrings_some d'.stop_ne (by omega) heq
        have hbuffer := hextends.stopBufferLength
        refine ⟨hextends.outputTokenIds, hextends.stop, hextends.stopBufferLength,
          hextends.lastOffset, ?_, ?_⟩
        · intro last hlast
          have hlast' : last ≤ truncateTo := by
            cases hinclude : d'.includeStopStrInOutput with
            | true =>
              rw [hinclude, if_pos rfl] at hbehind
              omega
            | false =>
              have hlength := length_le_stopBufferLength hmem hinclude
              rw [hinclude, if_neg (by decide)] at hbehind
              omega
          obtain ⟨more, hmore⟩ := hextends.text
          refine ⟨?_, ?_, (fun hno => by cases hno)⟩
          · show (d'.outputText.take truncateTo).take last = d.outputText.take last
            rw [take_take, min_eq_left hlast', ← hmore,
              take_append_of_le_length (by omega)]
          · show last ≤ (d'.outputText.take truncateTo).length
            rw [length_take]
            omega
        · intro s hs
          cases hs
          exact ⟨d'.stop_ne _ hmem, hextends.stop ▸ hsearch.1⟩
    · exact hextends.updated (fun s hs => by cases hs)

structure Returns (d d' : BaseIncrementalDetokenizer σ) : Prop where
  outputTokenIds : d'.outputTokenIds = d.outputTokenIds
  text : d'.outputText = d.outputText
  stop : d'.stop = d.stop
  stopBufferLength : d'.stopBufferLength = d.stopBufferLength

theorem getNextOutputText_spec (d : BaseIncrementalDetokenizer σ) (finished : Bool)
    (hlast : d.lastOutputTextOffset ≤
      d.outputText.length - if finished then 0 else d.stopBufferLength) :
    d.Returns (d.getNextOutputText finished true).2 ∧
      d.outputText.take d.lastOutputTextOffset ++ (d.getNextOutputText finished true).1 =
        (d.getNextOutputText finished true).2.outputText.take
          (d.getNextOutputText finished true).2.lastOutputTextOffset ∧
      (d.getNextOutputText finished true).2.lastOutputTextOffset =
        d.outputText.length - if finished then 0 else d.stopBufferLength := by
  unfold getNextOutputText
  rw [if_neg (by decide)]
  generalize d.outputText.length - (if finished then 0 else d.stopBufferLength) = length at hlast
  by_cases hmore : d.lastOutputTextOffset < length
  · rw [if_pos hmore]
    refine ⟨⟨rfl, rfl, rfl, rfl⟩, ?_, rfl⟩
    have hsplit := take_append_drop d.lastOutputTextOffset (d.outputText.take length)
    rwa [take_take, min_eq_left hlast] at hsplit
  · rw [if_neg hmore]
    refine ⟨⟨rfl, rfl, rfl, rfl⟩, append_nil _, ?_⟩
    show d.lastOutputTextOffset = length
    omega

end BaseIncrementalDetokenizer

end VllmCore
