import VllmCore.OutputProcessor.StopStrings
import VllmCore.Support.PySlice
import Mathlib.Data.List.Infix
import Mathlib.Tactic.IntervalCases
/-!
# Reasoning between think tokens

`DeepSeekR1ReasoningParser` and `Qwen3ReasoningParser` split the output of a model in
reasoning and content: the whole text at its tags, a stream delta by delta where the special
tokens are among the ids.
-/

namespace VllmCore.Reasoning

open List Support

abbrev Text := List Char

def startToken : Text := ['<', 't', 'h', 'i', 'n', 'k', '>']

def endToken : Text := ['<', '/', 't', 'h', 'i', 'n', 'k', '>']

/-- A tokenizer whose tokens decode to fixed texts. -/
structure ThinkTokenizer where
  startTokenId : Token
  endTokenId : Token
  text : Token → Text
  start_text : text startTokenId = startToken
  end_text : text endTokenId = endToken

structure DeltaMessage where
  reasoning : Option Text := none
  content : Option Text := none

/-! ## Strings -/

/-- `text.find(pattern)`. -/
def find (text pattern : Text) : Int := ((findFrom text pattern 0).map Int.ofNat).getD (-1)

/-- `text[:stop]`. -/
def sliceTo (text : Text) (stop : Int) : Text := pySlice text 0 stop

/-- `text[start:]`. -/
def sliceFrom (text : Text) (start : Int) : Text := pySlice text start text.length

/-- `text.partition(sep)`. -/
def partition (text sep : Text) : Text × Text × Text :=
  match findFrom text sep 0 with
  | some i => (text.take i, sep, text.drop (i + sep.length))
  | none => (text, [], [])

/-- `text or None`, also `text if text else None`. -/
def orNone (text : Text) : Option Text := if text = [] then none else some text

/-! ## The parsers -/

namespace ThinkTokenizer

variable (tok : ThinkTokenizer)

/-- `BaseThinkingReasoningParser.extract_reasoning_streaming`. -/
def baseStreaming (previous delta : List Token) (deltaText : Text) : Option DeltaMessage :=
  let endIndex := find deltaText endToken
  let content := sliceFrom deltaText (endIndex + endToken.length)
  if delta.length = 1 ∧ (delta.head? = some tok.startTokenId ∨ delta.head? = some tok.endTokenId)
  then none
  else if tok.startTokenId ∈ previous then
    if tok.endTokenId ∈ delta then
      some { reasoning := some (sliceTo deltaText endIndex), content := orNone content }
    else if tok.endTokenId ∈ previous then some { content := some deltaText }
    else some { reasoning := some deltaText }
  else if tok.startTokenId ∈ delta then
    if tok.endTokenId ∈ delta then
      let startIndex := find deltaText startToken
      some
        { reasoning := some (pySlice deltaText (startIndex + startToken.length) endIndex)
          content := orNone content }
    else some { reasoning := some deltaText }
  else some { content := some deltaText }

/-- `DeepSeekR1ReasoningParser.extract_reasoning_streaming`. -/
def deepSeekStreaming (previous delta : List Token) (deltaText : Text) : Option DeltaMessage :=
  let ret := tok.baseStreaming previous delta deltaText
  if ret.isSome ∧ tok.startTokenId ∉ previous ∧ tok.startTokenId ∉ delta then
    if tok.endTokenId ∈ delta then
      let endIndex := find deltaText endToken
      some
        { reasoning := some (sliceTo deltaText endIndex)
          content := orNone (sliceFrom deltaText (endIndex + endToken.length)) }
    else if tok.endTokenId ∈ previous then some { content := some deltaText }
    else some { reasoning := some deltaText }
  else ret

/-- `Qwen3ReasoningParser.extract_reasoning_streaming`. -/
def qwen3Streaming (previous delta : List Token) (deltaText : Text) : Option DeltaMessage :=
  let deltaText :=
    if tok.startTokenId ∈ delta then
      let startIdx := find deltaText startToken
      if 0 ≤ startIdx then sliceFrom deltaText (startIdx + startToken.length) else deltaText
    else deltaText
  if tok.endTokenId ∈ delta then
    let endIndex := find deltaText endToken
    if 0 ≤ endIndex then
      let reasoning := sliceTo deltaText endIndex
      let content := sliceFrom deltaText (endIndex + endToken.length)
      if reasoning = [] ∧ content = [] then none
      else some { reasoning := orNone reasoning, content := orNone content }
    else none
  else if deltaText = [] then none
  else if tok.endTokenId ∈ previous then some { content := some deltaText }
  else some { reasoning := some deltaText }

end ThinkTokenizer

/-- The text behind the first start token, or all of it. -/
def stripStart (modelOutput : Text) : Text :=
  let parts := partition modelOutput startToken
  if parts.2.1 ≠ [] then parts.2.2 else parts.1

/-- `BaseThinkingReasoningParser.extract_reasoning`, which DeepSeek-R1 inherits. -/
def extractReasoning (modelOutput : Text) : Option Text × Option Text :=
  let modelOutput := stripStart modelOutput
  if ¬endToken <:+: modelOutput then (some modelOutput, none)
  else
    let parts := partition modelOutput endToken
    (some parts.1, orNone parts.2.2)

/-- `Qwen3ReasoningParser.extract_reasoning`. -/
def qwen3ExtractReasoning (thinkingEnabled : Bool) (modelOutput : Text) :
    Option Text × Option Text :=
  let modelOutput := stripStart modelOutput
  if ¬endToken <:+: modelOutput then
    if ¬thinkingEnabled then (none, some modelOutput) else (some modelOutput, none)
  else
    let parts := partition modelOutput endToken
    (some parts.1, orNone parts.2.2)

/-! ## Streams -/

namespace ThinkTokenizer

variable (tok : ThinkTokenizer)

def decode (ids : List Token) : Text := ids.flatMap tok.text

/-- The texts of a message, `None` counting as empty. -/
def texts (m : Option DeltaMessage) : Text × Text :=
  ((m.bind (·.reasoning)).getD [], (m.bind (·.content)).getD [])

/-- The concatenated reasoning and content that a stream of deltas yields. -/
def stream (streaming : List Token → List Token → Text → Option DeltaMessage) :
    List Token → List (List Token) → Text × Text
  | _, [] => ([], [])
  | previous, delta :: deltas =>
    let m := texts (streaming previous delta (tok.decode delta))
    let rest := stream streaming (previous ++ delta) deltas
    (m.1 ++ rest.1, m.2 ++ rest.2)

/-- The stream yields what the whole text does, `None` counting as empty. -/
def SameSplit (streaming : List Token → List Token → Text → Option DeltaMessage)
    (extract : Text → Option Text × Option Text) (deltas : List (List Token)) : Prop :=
  let extracted := extract (tok.decode deltas.flatten)
  tok.stream streaming [] deltas = (extracted.1.getD [], extracted.2.getD [])

/-- The deltas without the start token. -/
def stripped : List (List Token) → List (List Token)
  | [] => []
  | delta :: deltas =>
    (if delta.head? = some tok.startTokenId then delta.tail else delta) :: deltas

/-- Tokens other than the start token spell no start tag, and no end tag begins before the
delta with the end token. -/
structure TagsAreTokens (deltas : List (List Token)) : Prop where
  start : deltas.flatten.head? = some tok.startTokenId ∨
    ¬startToken <:+: tok.decode deltas.flatten
  noEnd : ∀ i < (tok.decode ((tok.stripped deltas).takeWhile (tok.endTokenId ∉ ·)).flatten).length,
    ¬endToken <+: (tok.decode (tok.stripped deltas).flatten).drop i

/-- The first delta has the start token and text behind it, but not the end token. -/
def StartsWithText (deltas : List (List Token)) : Prop :=
  ∃ delta rest, deltas = (tok.startTokenId :: delta) :: rest ∧ delta ≠ [] ∧ tok.endTokenId ∉ delta

end ThinkTokenizer

/-! ## Occurrences -/

/-- The pattern occurs at `i` for the first time. -/
def FirstAt (text pattern : Text) (i : Nat) : Prop :=
  pattern <+: text.drop i ∧ ∀ j < i, ¬pattern <+: text.drop j

variable {text pre post pattern : Text} {i j : Nat}

theorem findFrom_eq_iff (hne : pattern ≠ []) :
    findFrom text pattern 0 = some i ↔ FirstAt text pattern i := by
  have hends : ∀ j, EndsAt pattern text (j + pattern.length) ↔ pattern <+: text.drop j := by
    intro j
    rw [endsAt_iff]
    refine ⟨fun h => h.2, fun h => ⟨?_, h⟩⟩
    have hlength := h.length_le
    have hpos := length_pos_iff.mpr hne
    rw [length_drop] at hlength
    omega
  rw [findFrom_eq_some_iff, hends]
  refine ⟨fun h => ⟨h.2.1, fun j hj hp => ?_⟩, fun h => ⟨Nat.zero_le _, h.1, fun j _ hp => ?_⟩⟩
  · have hle := h.2.2 j (Nat.zero_le _) ((hends j).mpr hp)
    omega
  · by_contra hlt
    exact h.2 j (by omega) ((hends j).mp hp)

theorem infix_iff_exists : pattern <:+: text ↔ ∃ i, pattern <+: text.drop i := by
  constructor
  · rintro ⟨pre, post, rfl⟩
    refine ⟨pre.length, post, ?_⟩
    rw [append_assoc, drop_left]
  · rintro ⟨i, h⟩
    exact h.isInfix.trans (drop_suffix i text).isInfix

theorem exists_firstAt (h : pattern <:+: text) : ∃ i, FirstAt text pattern i := by
  have hex := infix_iff_exists.mp h
  classical
  exact ⟨Nat.find hex, Nat.find_spec hex, fun j hj => Nat.find_min hex hj⟩

theorem partition_of_firstAt (hne : pattern ≠ []) (h : FirstAt text pattern i) :
    partition text pattern = (text.take i, pattern, text.drop (i + pattern.length)) := by
  unfold partition
  rw [(findFrom_eq_iff hne).mpr h]

theorem partition_of_no_match (hne : pattern ≠ []) (h : ¬pattern <:+: text) :
    partition text pattern = (text, [], []) := by
  unfold partition
  cases hfind : findFrom text pattern 0 with
  | none => rfl
  | some i => exact absurd (infix_iff_exists.mpr ⟨i, ((findFrom_eq_iff hne).mp hfind).1⟩) h

theorem partition_append (hne : pattern ≠ []) (h : pattern <:+: text) :
    (partition text pattern).1 ++ (pattern ++ (partition text pattern).2.2) = text := by
  obtain ⟨i, hi⟩ := exists_firstAt h
  obtain ⟨post, hpost⟩ := hi.1
  rw [partition_of_firstAt hne hi, ← drop_drop, ← hpost, drop_left, hpost, take_append_drop]

theorem find_of_firstAt (hne : pattern ≠ []) (h : FirstAt text pattern i) :
    find text pattern = i := by
  rw [find, (findFrom_eq_iff hne).mpr h]
  rfl

theorem find_slices (hne : pattern ≠ []) (h : pattern <:+: text) :
    0 ≤ find text pattern ∧ sliceTo text (find text pattern) = (partition text pattern).1 ∧
      sliceFrom text (find text pattern + pattern.length) = (partition text pattern).2.2 := by
  obtain ⟨i, hi⟩ := exists_firstAt h
  have hfrom : (i : Int) + pattern.length = ((i + pattern.length : Nat) : Int) := by omega
  rw [partition_of_firstAt hne hi, find_of_firstAt hne hi, hfrom]
  refine ⟨by omega, pySlice_natCast text 0 i, ?_⟩
  rw [sliceFrom, pySlice_natCast, take_length]

/-- The tag is found behind text as well, unless it begins in that text. -/
theorem partition_middle (hne : pattern ≠ []) (h : pattern <:+: text) :
    (pre ++ (partition text pattern).1, (partition text pattern).2.2 ++ post) =
        ((partition (pre ++ (text ++ post)) pattern).1,
          (partition (pre ++ (text ++ post)) pattern).2.2) ↔
      ∀ i < pre.length, ¬pattern <+: (pre ++ (text ++ post)).drop i := by
  obtain ⟨k, hk, hbefore⟩ := exists_firstAt h
  have hlength := hk.length_le
  have hpos := length_pos_iff.mpr hne
  rw [length_drop] at hlength
  have hdrop : ∀ m ≤ text.length,
      (pre ++ (text ++ post)).drop (pre.length + m) = text.drop m ++ post := by
    intro m hm
    rw [← drop_drop, drop_left, drop_append_of_le_length (by omega)]
  have hinside : pattern <+: (pre ++ (text ++ post)).drop (pre.length + k) := by
    rw [hdrop k (by omega)]
    exact hk.trans (prefix_append ..)
  rw [partition_of_firstAt hne ⟨hk, hbefore⟩]
  constructor
  · intro heq i hi hp
    obtain ⟨i', hi'⟩ := exists_firstAt (infix_iff_exists.mpr ⟨i, hp⟩)
    rw [partition_of_firstAt hne hi'] at heq
    have hle : i' ≤ i := not_lt.mp fun hlt => hi'.2 i hlt hp
    have hfst := congrArg (·.1.length) heq
    simp only [length_append, length_take] at hfst
    omega
  · intro hpre
    have hfirst : FirstAt (pre ++ (text ++ post)) pattern (pre.length + k) := by
      refine ⟨hinside, fun j hj hp => ?_⟩
      by_cases hjpre : j < pre.length
      · exact hpre j hjpre hp
      obtain ⟨m, rfl⟩ := Nat.exists_eq_add_of_le (not_lt.mp hjpre)
      rw [hdrop m (by omega)] at hp
      exact hbefore m (by omega)
        (prefix_of_prefix_length_le hp (prefix_append ..) (by rw [length_drop]; omega))
    rw [partition_of_firstAt hne hfirst, take_length_add_append,
      take_append_of_le_length (by omega), add_assoc, hdrop _ (by omega)]

/-! ## Deltas without the start token -/

/-- Reasoning and content of the whole text. -/
def whole (text : Text) : Text × Text :=
  if endToken <:+: text then ((partition text endToken).1, (partition text endToken).2.2)
  else (text, [])

namespace ThinkTokenizer

variable (tok : ThinkTokenizer)

/-- What a delta without the start token adds. -/
def piece (ended : Bool) (delta : List Token) : Text × Text :=
  if tok.endTokenId ∈ delta then whole (tok.decode delta)
  else if ended then ([], tok.decode delta) else (tok.decode delta, [])

def joined : Bool → List (List Token) → Text × Text
  | _, [] => ([], [])
  | ended, delta :: deltas =>
    let rest := joined (ended || decide (tok.endTokenId ∈ delta)) deltas
    ((tok.piece ended delta).1 ++ rest.1, (tok.piece ended delta).2 ++ rest.2)

/-- A delta without the start token adds its piece. -/
def AddsPieces (streaming : List Token → List Token → Text → Option DeltaMessage) : Prop :=
  ∀ previous delta, tok.startTokenId ∉ delta →
    texts (streaming previous delta (tok.decode delta)) =
      tok.piece (decide (tok.endTokenId ∈ previous)) delta

variable {tok : ThinkTokenizer} {ids delta previous : List Token} {deltas : List (List Token)}
  {streaming : List Token → List Token → Text → Option DeltaMessage}

@[simp] theorem getD_orNone : (orNone text).getD [] = text := by
  unfold orNone
  split <;> simp_all

theorem decode_nil : tok.decode [] = [] := rfl

theorem decode_append (ids ids' : List Token) :
    tok.decode (ids ++ ids') = tok.decode ids ++ tok.decode ids' := flatMap_append ..

theorem decode_start : tok.decode (tok.startTokenId :: ids) = startToken ++ tok.decode ids := by
  rw [decode, flatMap_cons, tok.start_text]
  rfl

theorem endToken_occurs (h : tok.endTokenId ∈ ids) : endToken <:+: tok.decode ids := by
  rw [← tok.end_text, decode, flatMap_def]
  exact infix_of_mem_flatten (mem_map_of_mem h)

theorem stream_eq_joined (hpieces : tok.AddsPieces streaming)
    (hstart : tok.startTokenId ∉ deltas.flatten) :
    tok.stream streaming previous deltas =
      tok.joined (decide (tok.endTokenId ∈ previous)) deltas := by
  induction deltas generalizing previous with
  | nil => rfl
  | cons delta deltas ih =>
    rw [flatten_cons, mem_append, not_or] at hstart
    have hpiece := hpieces previous delta hstart.1
    rw [stream, joined, ih hstart.2, ← hpiece]
    simp only [mem_append, Bool.decide_or]

theorem joined_true (hend : tok.endTokenId ∉ deltas.flatten) :
    tok.joined true deltas = ([], tok.decode deltas.flatten) := by
  induction deltas with
  | nil => rfl
  | cons delta deltas ih =>
    rw [flatten_cons, mem_append, not_or] at hend
    rw [joined, Bool.true_or, ih hend.2, piece, if_neg hend.1, flatten_cons, decode_append]
    rfl

theorem qwen3_addsPieces : tok.AddsPieces tok.qwen3Streaming := by
  intro previous delta hstart
  unfold qwen3Streaming piece whole texts
  rw [if_neg hstart]
  by_cases hend : tok.endTokenId ∈ delta
  · have hoccurs := endToken_occurs hend
    obtain ⟨hle, hto, hfrom⟩ := find_slices (by decide) hoccurs
    simp only [if_pos hend, if_pos hle, hto, hfrom, if_pos hoccurs]
    split
    next h => simp [h.1, h.2]
    next => simp
  · simp only [if_neg hend, decide_eq_true_eq]
    split
    next h => simp [h]
    next => split <;> simp

theorem deepSeek_addsPieces : tok.AddsPieces tok.deepSeekStreaming := by
  intro previous delta hstart
  unfold deepSeekStreaming baseStreaming piece texts
  by_cases hsingle : delta.length = 1 ∧
      (delta.head? = some tok.startTokenId ∨ delta.head? = some tok.endTokenId)
  · obtain ⟨t, rfl⟩ := length_eq_one_iff.mp hsingle.1
    have hend : t = tok.endTokenId := by grind
    have hwhole : whole endToken = ([], []) := by decide
    simp [hend, decode, tok.end_text, hwhole]
  by_cases hend : tok.endTokenId ∈ delta
  · have hoccurs := endToken_occurs hend
    obtain ⟨-, hto, hfrom⟩ := find_slices (by decide) hoccurs
    by_cases hprev : tok.startTokenId ∈ previous <;>
      simp [hsingle, hprev, hstart, hend, hto, hfrom, whole, hoccurs]
  · by_cases hprev : tok.startTokenId ∈ previous <;>
      by_cases hended : tok.endTokenId ∈ previous <;>
        simp [hsingle, hprev, hstart, hend, hended]

/-! ## The first delta -/

theorem end_ne_start : tok.endTokenId ≠ tok.startTokenId := by
  intro h
  have htext := tok.start_text
  rw [← h, tok.end_text] at htext
  exact absurd htext (by decide)

theorem end_mem_start : tok.endTokenId ∈ tok.startTokenId :: ids ↔ tok.endTokenId ∈ ids := by
  rw [mem_cons, or_iff_right end_ne_start]

theorem not_endToken_in_start (hj : j < 7) : ¬endToken <+: (startToken ++ text).drop j := by
  interval_cases j <;> simp [startToken, endToken]

theorem firstAt_behind_start (h : FirstAt text endToken i) :
    FirstAt (startToken ++ text) endToken (7 + i) := by
  have hdrop : ∀ m, (startToken ++ text).drop (7 + m) = text.drop m := by
    intro m
    rw [← drop_drop]
    rfl
  refine ⟨hdrop i ▸ h.1, fun j hj hp => ?_⟩
  by_cases hlt : j < 7
  · exact not_endToken_in_start hlt hp
  obtain ⟨m, rfl⟩ := Nat.exists_eq_add_of_le (not_lt.mp hlt)
  exact h.2 m (by omega) (hdrop m ▸ hp)

theorem find_startToken : find (startToken ++ text) startToken = 0 :=
  find_of_firstAt (by decide) ⟨prefix_append .., fun j hj => absurd hj (Nat.not_lt_zero j)⟩

theorem sliceFrom_startToken : sliceFrom (startToken ++ text) (0 + startToken.length) = text := by
  refine (pySlice_natCast _ 7 _).trans ?_
  rw [take_length]
  rfl

/-- How the first delta and the pieces of the others join. -/
theorem stream_first (hpieces : tok.AddsPieces streaming)
    (hrest : tok.startTokenId ∉ deltas.flatten) (extra : Text)
    (hfirst : texts (streaming [] (tok.startTokenId :: delta) (startToken ++ tok.decode delta)) =
      (extra ++ (tok.piece false delta).1, (tok.piece false delta).2)) :
    tok.stream streaming [] ((tok.startTokenId :: delta) :: deltas) =
      (extra ++ (tok.joined false (delta :: deltas)).1,
        (tok.joined false (delta :: deltas)).2) := by
  rw [stream, decode_start, hfirst, stream_eq_joined hpieces hrest]
  simp only [nil_append, end_mem_start, joined, Bool.false_or, append_assoc]

theorem qwen3_first (hstart : tok.startTokenId ∉ delta) :
    texts (tok.qwen3Streaming [] (tok.startTokenId :: delta) (startToken ++ tok.decode delta)) =
      tok.piece false delta := by
  have heq : tok.qwen3Streaming [] (tok.startTokenId :: delta) (startToken ++ tok.decode delta) =
      tok.qwen3Streaming [] delta (tok.decode delta) := by
    unfold qwen3Streaming
    rw [if_pos mem_cons_self, if_neg hstart]
    simp only [find_startToken, le_refl, if_true, sliceFrom_startToken, end_mem_start]
  rw [heq]
  exact qwen3_addsPieces [] delta hstart

theorem deepSeek_first (htext : delta = [] ∨ tok.endTokenId ∈ delta) :
    texts (tok.deepSeekStreaming [] (tok.startTokenId :: delta) (startToken ++ tok.decode delta)) =
      tok.piece false delta := by
  obtain rfl | hend := htext
  · simp [deepSeekStreaming, baseStreaming, texts, piece, decode]
  obtain ⟨i, hi⟩ := exists_firstAt (endToken_occurs hend)
  have hbehind := find_of_firstAt (by decide) (firstAt_behind_start hi)
  have hne : delta ≠ [] := ne_nil_of_mem hend
  have hreasoning : pySlice (startToken ++ tok.decode delta) startToken.length (7 + i) =
      (tok.decode delta).take i := by
    refine (pySlice_natCast _ 7 (7 + i)).trans ?_
    rw [drop_take, Nat.add_sub_cancel_left]
    rfl
  have hcontent : sliceFrom (startToken ++ tok.decode delta) (7 + i + endToken.length) =
      (tok.decode delta).drop (i + endToken.length) := by
    refine (pySlice_natCast _ (7 + i + 8) _).trans ?_
    rw [take_length, add_assoc, ← drop_drop]
    rfl
  simp [deepSeekStreaming, baseStreaming, texts, piece, whole, hne, hend, endToken_occurs hend,
    find_startToken, hbehind, hreasoning, hcontent, partition_of_firstAt (by decide) hi]

theorem deepSeek_first_text (hne : delta ≠ []) (hend : tok.endTokenId ∉ delta) :
    texts (tok.deepSeekStreaming [] (tok.startTokenId :: delta) (startToken ++ tok.decode delta)) =
      (startToken ++ (tok.piece false delta).1, (tok.piece false delta).2) := by
  simp [deepSeekStreaming, baseStreaming, texts, piece, hne, hend, end_ne_start]

/-! ## The whole text -/

theorem whole_length :
    (whole text).1.length + (whole text).2.length + (if endToken <:+: text then 8 else 0) =
      text.length := by
  unfold whole
  by_cases h : endToken <:+: text
  · have hlength := congrArg length (partition_append (by decide) h)
    rw [length_append, length_append] at hlength
    simp only [if_pos h]
    have h8 : endToken.length = 8 := rfl
    omega
  · simp only [if_neg h, length_nil, add_zero]

theorem eq_whole_iff : (text, []) = whole text ↔ ∀ i < text.length, ¬endToken <+: text.drop i := by
  constructor
  · intro heq i _ hp
    have hoccurs := infix_iff_exists.mpr ⟨i, hp⟩
    have hlength := @whole_length text
    rw [← heq, if_pos hoccurs] at hlength
    exact absurd hlength (by simp)
  · intro h
    have hnot : ¬endToken <:+: text := by
      intro hoccurs
      obtain ⟨i, hp⟩ := infix_iff_exists.mp hoccurs
      have hle := hp.length_le
      rw [length_drop, show endToken.length = 8 from rfl] at hle
      exact h i (by omega) hp
    rw [whole, if_neg hnot]

theorem joined_length (hend : deltas.flatten.count tok.endTokenId ≤ 1) (ended : Bool) :
    (tok.joined ended deltas).1.length + (tok.joined ended deltas).2.length +
      8 * deltas.flatten.count tok.endTokenId = (tok.decode deltas.flatten).length := by
  induction deltas generalizing ended with
  | nil => rfl
  | cons delta deltas ih =>
    rw [flatten_cons, count_append] at hend ⊢
    have hrest := ih (by omega) (ended || decide (tok.endTokenId ∈ delta))
    rw [joined, decode_append, length_append, length_append, length_append, ← hrest, piece]
    by_cases hmem : tok.endTokenId ∈ delta
    · have hpos := count_pos_iff.mpr hmem
      have hlength := @whole_length (tok.decode delta)
      rw [if_pos (endToken_occurs hmem)] at hlength
      rw [if_pos hmem]
      omega
    · rw [if_neg hmem, count_eq_zero.mpr hmem]
      split <;> simp only [length_nil] <;> omega

/-- The pieces join to the split of the whole text, unless tokens before the delta with the end
token spell the tag. -/
theorem joined_eq_whole_iff (hend : deltas.flatten.count tok.endTokenId ≤ 1) :
    (pre ++ (tok.joined false deltas).1, (tok.joined false deltas).2) =
        whole (pre ++ tok.decode deltas.flatten) ↔
      ∀ i < (pre ++ tok.decode (deltas.takeWhile (tok.endTokenId ∉ ·)).flatten).length,
        ¬endToken <+: (pre ++ tok.decode deltas.flatten).drop i := by
  induction deltas generalizing pre with
  | nil =>
    rw [joined, takeWhile_nil, flatten_nil, decode_nil, append_nil]
    exact eq_whole_iff
  | cons delta deltas ih =>
    rw [flatten_cons, count_append] at hend
    rw [flatten_cons, decode_append, joined, piece, takeWhile_cons]
    by_cases hmem : tok.endTokenId ∈ delta
    · have hpos := count_pos_iff.mpr hmem
      have hoccurs := endToken_occurs hmem
      have hwhole : endToken <:+: pre ++ (tok.decode delta ++ tok.decode deltas.flatten) :=
        hoccurs.trans (infix_append' ..)
      have hrest : tok.joined true deltas = ([], tok.decode deltas.flatten) :=
        joined_true (count_eq_zero.mp (by omega))
      simp only [hmem, if_true, decide_true, Bool.or_true, hrest, append_nil, not_true,
        decide_false, Bool.false_eq_true, if_false, flatten_nil, decode_nil]
      rw [whole, if_pos hoccurs, whole, if_pos hwhole]
      exact partition_middle (by decide) hoccurs
    · have hrest := @ih (pre ++ tok.decode delta) (by omega)
      simp only [hmem, if_false, decide_false, Bool.or_false, Bool.false_eq_true,
        not_false_eq_true, decide_true, if_true, nil_append, flatten_cons, decode_append,
        ← append_assoc]
      exact hrest

theorem stripStart_start : stripStart (startToken ++ text) = text := by
  have hfirst : FirstAt (startToken ++ text) startToken 0 :=
    ⟨prefix_append .., fun j hj => absurd hj (Nat.not_lt_zero j)⟩
  rw [stripStart, partition_of_firstAt (by decide) hfirst]
  rfl

/-- A start tag that other tokens spell is cut off the whole text only. -/
theorem joined_ne_of_spelled (hend : deltas.flatten.count tok.endTokenId ≤ 1)
    (hoccurs : startToken <:+: tok.decode deltas.flatten) :
    tok.joined false deltas ≠ whole (stripStart (tok.decode deltas.flatten)) := by
  intro heq
  obtain ⟨i, hi⟩ := exists_firstAt hoccurs
  obtain ⟨post, hpost⟩ := hi.1
  have hstrip : stripStart (tok.decode deltas.flatten) = post := by
    rw [stripStart, partition_of_firstAt (by decide) hi, ← drop_drop, ← hpost, drop_left]
    rfl
  have hlength := congrArg length hpost
  have hjoined := joined_length hend false
  have hwhole := @whole_length post
  rw [length_append, length_drop, show startToken.length = 7 from rfl] at hlength
  rw [heq, hstrip] at hjoined
  -- only one letter before the tag, and the end token behind it, would make the lengths agree
  have hone : i = 1 ∧ ¬endToken <:+: post ∧ tok.endTokenId ∈ deltas.flatten := by
    rw [← count_pos_iff]
    split at hwhole <;> refine ⟨?_, ?_, ?_⟩ <;> first | assumption | omega
  obtain ⟨rfl, hpost', hmem⟩ := hone
  obtain ⟨j, hj⟩ := infix_iff_exists.mp (endToken_occurs hmem)
  cases htext : tok.decode deltas.flatten with
  | nil =>
    rw [htext] at hj
    simp [endToken] at hj
  | cons c rest =>
    rw [htext] at hpost hj
    obtain rfl : startToken ++ post = rest := hpost
    cases j with
    | zero => simp [endToken, startToken] at hj
    | succ j =>
      rw [drop_succ_cons] at hj
      by_cases hlt : j < 7
      · exact not_endToken_in_start hlt hj
      · obtain ⟨m, rfl⟩ := Nat.exists_eq_add_of_le (not_lt.mp hlt)
        rw [← drop_drop] at hj
        exact hpost' (infix_iff_exists.mpr ⟨m, hj⟩)

theorem flatten_stripped (hne : ∀ delta ∈ deltas, delta ≠ []) :
    deltas.flatten =
      if deltas.flatten.head? = some tok.startTokenId then
        tok.startTokenId :: (tok.stripped deltas).flatten
      else (tok.stripped deltas).flatten := by
  match deltas, hne with
  | [], _ => rfl
  | [] :: _, hne => exact absurd rfl (hne [] mem_cons_self)
  | (t :: delta) :: rest, _ =>
    by_cases ht : t = tok.startTokenId <;> simp [stripped, ht]

/-- The pieces join to the split of the whole text exactly where the tags are tokens. -/
theorem joined_stripped_iff (hne : ∀ delta ∈ deltas, delta ≠ [])
    (hend : deltas.flatten.count tok.endTokenId ≤ 1) :
    tok.joined false (tok.stripped deltas) = whole (stripStart (tok.decode deltas.flatten)) ↔
      tok.TagsAreTokens deltas := by
  have hflatten := @flatten_stripped tok deltas hne
  have hiff := fun h => @joined_eq_whole_iff [] tok (tok.stripped deltas) h
  simp only [nil_append] at hiff
  by_cases hhead : deltas.flatten.head? = some tok.startTokenId
  · rw [if_pos hhead] at hflatten
    rw [hflatten, decode_start, stripStart_start]
    rw [hflatten, count_cons_of_ne end_ne_start.symm] at hend
    exact (hiff hend).trans ⟨fun h => ⟨.inl hhead, h⟩, TagsAreTokens.noEnd⟩
  rw [if_neg hhead] at hflatten
  by_cases hspelled : startToken <:+: tok.decode deltas.flatten
  · refine iff_of_false ?_ fun h => h.start.elim hhead (· hspelled)
    rw [hflatten] at hend hspelled ⊢
    exact joined_ne_of_spelled hend hspelled
  · have hstrip : stripStart (tok.decode deltas.flatten) = tok.decode deltas.flatten := by
      rw [stripStart, partition_of_no_match (by decide) hspelled]
      rfl
    rw [hstrip, hflatten]
    rw [hflatten] at hend
    exact (hiff hend).trans ⟨fun h => ⟨.inr hspelled, h⟩, TagsAreTokens.noEnd⟩

theorem stream_eq_joined_stripped (hpieces : tok.AddsPieces streaming)
    (hne : ∀ delta ∈ deltas, delta ≠ []) (hstart : tok.startTokenId ∉ deltas.flatten.tail)
    (hfirst : ∀ delta rest, deltas = (tok.startTokenId :: delta) :: rest →
      texts (streaming [] (tok.startTokenId :: delta) (startToken ++ tok.decode delta)) =
        tok.piece false delta) :
    tok.stream streaming [] deltas = tok.joined false (tok.stripped deltas) := by
  match deltas, hne with
  | [], _ => rfl
  | [] :: _, hne => exact absurd rfl (hne [] mem_cons_self)
  | (t :: delta) :: rest, _ =>
    rw [flatten_cons, cons_append, tail_cons] at hstart
    by_cases ht : t = tok.startTokenId
    · subst ht
      rw [stripped, head?_cons, if_pos rfl, tail_cons]
      refine stream_first hpieces (fun h => hstart (mem_append_right _ h)) [] ?_
      exact hfirst delta rest rfl
    · rw [stripped, head?_cons, if_neg (by simpa using ht)]
      refine stream_eq_joined hpieces ?_
      rw [flatten_cons, cons_append, mem_cons, not_or]
      exact ⟨Ne.symm ht, hstart⟩

theorem extractReasoning_eq :
    ((extractReasoning text).1.getD [], (extractReasoning text).2.getD []) =
      whole (stripStart text) := by
  unfold extractReasoning whole
  by_cases h : endToken <:+: stripStart text <;> simp [h]

theorem qwen3ExtractReasoning_eq :
    ((qwen3ExtractReasoning true text).1.getD [], (qwen3ExtractReasoning true text).2.getD []) =
      whole (stripStart text) := by
  unfold qwen3ExtractReasoning whole
  by_cases h : endToken <:+: stripStart text <;> simp [h]

theorem qwen3_sameSplit_iff (hne : ∀ delta ∈ deltas, delta ≠ [])
    (hstart : tok.startTokenId ∉ deltas.flatten.tail)
    (hend : deltas.flatten.count tok.endTokenId ≤ 1) :
    tok.SameSplit tok.qwen3Streaming (qwen3ExtractReasoning true) deltas ↔
      tok.TagsAreTokens deltas := by
  rw [SameSplit, qwen3ExtractReasoning_eq, ← joined_stripped_iff hne hend,
    stream_eq_joined_stripped qwen3_addsPieces hne hstart]
  rintro delta rest rfl
  exact qwen3_first fun h => hstart (mem_append_left _ h)

theorem deepSeek_sameSplit_iff (hne : ∀ delta ∈ deltas, delta ≠ [])
    (hstart : tok.startTokenId ∉ deltas.flatten.tail)
    (hend : deltas.flatten.count tok.endTokenId ≤ 1) :
    tok.SameSplit tok.deepSeekStreaming extractReasoning deltas ↔
      tok.TagsAreTokens deltas ∧ ¬tok.StartsWithText deltas := by
  rw [SameSplit, extractReasoning_eq]
  by_cases htext : tok.StartsWithText deltas
  · refine iff_of_false (fun heq => ?_) (fun h => h.2 htext)
    obtain ⟨delta, rest, rfl, hdelta, hmem⟩ := htext
    have hrest : tok.startTokenId ∉ rest.flatten := fun h => hstart (mem_append_right _ h)
    have hcount : (delta :: rest).flatten.count tok.endTokenId ≤ 1 := by
      rwa [flatten_cons, cons_append, count_cons_of_ne end_ne_start.symm] at hend
    have hjoined := joined_length hcount false
    rw [stream_first deepSeek_addsPieces hrest startToken (deepSeek_first_text hdelta hmem),
      flatten_cons, cons_append, decode_start, stripStart_start] at heq
    have hwhole := @whole_length (tok.decode (delta ++ rest.flatten))
    rw [← heq] at hwhole
    simp only [length_append, show startToken.length = 7 from rfl] at hwhole
    rw [flatten_cons] at hjoined
    -- a tag that stays adds seven letters, one cut off takes eight
    split at hwhole <;> omega
  · rw [and_iff_left htext, ← joined_stripped_iff hne hend,
      stream_eq_joined_stripped deepSeek_addsPieces hne hstart]
    rintro delta rest rfl
    refine deepSeek_first (or_iff_not_imp_left.mpr fun hdelta => ?_)
    by_contra hmem
    exact htext ⟨delta, rest, rfl, hdelta, hmem⟩

/-- Streaming splits the output as the whole parse does exactly where the tags are tokens and,
for DeepSeek-R1, the first delta has no text behind a start token alone. -/
theorem reasoning_split_iff (tok : ThinkTokenizer) (deltas : List (List Token))
    (hne : ∀ delta ∈ deltas, delta ≠ []) (hstart : tok.startTokenId ∉ deltas.flatten.tail)
    (hend : deltas.flatten.count tok.endTokenId ≤ 1) :
    (tok.SameSplit tok.deepSeekStreaming extractReasoning deltas ↔
      tok.TagsAreTokens deltas ∧ ¬tok.StartsWithText deltas) ∧
    (tok.SameSplit tok.qwen3Streaming (qwen3ExtractReasoning true) deltas ↔
      tok.TagsAreTokens deltas) :=
  ⟨deepSeek_sameSplit_iff hne hstart hend, qwen3_sameSplit_iff hne hstart hend⟩

/-- Token 1 is the start token, 2 the end token, the others decode to `a`. -/
def letters : ThinkTokenizer where
  startTokenId := 1
  endTokenId := 2
  text t := if t = 1 then startToken else if t = 2 then endToken else ['a']
  start_text := rfl
  end_text := rfl

theorem reasoning_split_letters :
    letters.SameSplit letters.deepSeekStreaming extractReasoning [[1], [3], [2, 3]] ∧
      letters.SameSplit letters.qwen3Streaming (qwen3ExtractReasoning true) [[1], [3], [2, 3]] := by
  obtain ⟨hdeepSeek, hqwen3⟩ :=
    reasoning_split_iff letters [[1], [3], [2, 3]] (by decide) (by decide) (by decide)
  have htags : letters.TagsAreTokens [[1], [3], [2, 3]] := ⟨.inl rfl, by decide⟩
  refine ⟨hdeepSeek.mpr ⟨htags, ?_⟩, hqwen3.mpr htags⟩
  rintro ⟨delta, rest, heq, hdelta, -⟩
  simp only [cons.injEq] at heq
  exact hdelta heq.1.2.symm

/-- A first delta of the start token and one more: its tag stays in the reasoning. -/
theorem deepSeek_split_depends :
    ¬∀ (tok : ThinkTokenizer) (deltas : List (List Token)), (∀ delta ∈ deltas, delta ≠ []) →
      tok.startTokenId ∉ deltas.flatten.tail → deltas.flatten.count tok.endTokenId ≤ 1 →
        tok.SameSplit tok.deepSeekStreaming extractReasoning deltas ∧
          tok.SameSplit tok.qwen3Streaming (qwen3ExtractReasoning true) deltas := by
  intro h
  have hsplit := (h letters [[1, 3]] (by decide) (by decide) (by decide)).1
  unfold SameSplit at hsplit
  revert hsplit
  decide

end ThinkTokenizer

end VllmCore.Reasoning
