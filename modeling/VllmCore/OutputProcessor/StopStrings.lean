import VllmCore.OutputProcessor.Detokenizer
/-!
# Stop strings and the batching of tokens

An update searches the text that its tokens added, and reports the first stop string of
the list that ends there.  The same tokens in smaller updates are searched in smaller
pieces of text, so that a stop string that ends earlier is reported although one that
ends later stands before it in the list.
-/

namespace VllmCore

open List Option Support

/-! ## Where a pattern ends -/

/-- The pattern stands in the text and ends at `e`. -/
def EndsAt (s text : List Char) (e : Nat) : Prop := e ≤ text.length ∧ s <:+ text.take e

/-- The pattern ends in the text behind `w`. -/
def EndsBehind (s text : List Char) (w : Nat) : Prop := ∃ e, w < e ∧ EndsAt s text e

variable {e w : Nat} {s text : List Char} {stop : List (List Char)}

theorem EndsAt.length_le (h : EndsAt s text e) : s.length ≤ e := by
  have := h.2.length_le
  rw [length_take] at this
  omega

theorem endsAt_iff {i : Nat} :
    EndsAt s text (i + s.length) ↔ i ≤ text.length ∧ s <+: text.drop i := by
  constructor
  · intro ⟨hle, hsuffix⟩
    rcases hsuffix with ⟨pre, hpre⟩
    have hlen := congrArg List.length hpre
    rw [length_append, length_take] at hlen
    refine ⟨by omega, text.drop (i + s.length), ?_⟩
    have htext : text = pre ++ s ++ text.drop (i + s.length) := by
      rw [hpre, take_append_drop]
    have hi : pre.length = i := by omega
    conv => rhs; rw [htext, append_assoc]
    rw [← hi, drop_left]
  · intro ⟨hle, hprefix⟩
    rcases hprefix with ⟨post, hpost⟩
    have hlen := congrArg List.length hpost
    rw [length_append, length_drop] at hlen
    refine ⟨by omega, text.take i, ?_⟩
    have htext : text = text.take i ++ s ++ post := by
      rw [append_assoc, hpost, take_append_drop]
    have htake : (text.take i ++ s).length = i + s.length := by
      rw [length_append, length_take, Nat.min_eq_left hle]
    conv => rhs; rw [htext]
    rw [← htake, take_left]

theorem endsAt_extend {text' : List Char} (h : text <+: text') (he : e ≤ text.length) :
    EndsAt s text' e ↔ EndsAt s text e := by
  rcases h with ⟨more, rfl⟩
  unfold EndsAt
  rw [take_append_of_le_length he, length_append]
  constructor
  · intro ⟨_, hs⟩
    exact ⟨he, hs⟩
  · intro ⟨_, hs⟩
    exact ⟨by omega, hs⟩

theorem infix_iff_endsAt : s <:+: text ↔ ∃ e, EndsAt s text e := by
  constructor
  · intro ⟨pre, post, heq⟩
    refine ⟨(pre ++ s).length, ?_, ?_⟩
    · rw [← heq, @length_append _ _ post]
      omega
    · rw [← heq, take_left]
      exact suffix_append _ _
  · intro ⟨e, _, hs⟩
    exact hs.isInfix.trans (List.take_prefix e text).isInfix

/-- The first end of the pattern behind `w`. -/
def findEnd (text : List Char) (w : Nat) (s : List Char) : Option Nat :=
  (findFrom text s (w + 1 - s.length)).map (· + s.length)

theorem findFrom_eq_some_iff {start i : Nat} :
    findFrom text s start = some i ↔
      start ≤ i ∧ EndsAt s text (i + s.length) ∧
        ∀ j, start ≤ j → EndsAt s text (j + s.length) → i ≤ j := by
  unfold findFrom
  rw [find?_eq_some_iff_getElem]
  constructor
  · intro ⟨hi, n, hn, hget, hbefore⟩
    rw [getElem_drop, getElem_range] at hget
    rw [length_drop, length_range] at hn
    rw [List.isPrefixOf_iff_prefix] at hi
    refine ⟨by omega, endsAt_iff.mpr ⟨by omega, hi⟩, ?_⟩
    intro j hj hend
    by_contra hlt
    have hend' := endsAt_iff.mp hend
    have hskip := hbefore (j - start) (by omega)
    rw [getElem_drop, getElem_range, show start + (j - start) = j by omega] at hskip
    rw [List.isPrefixOf_iff_prefix.mpr hend'.2] at hskip
    cases hskip
  · intro ⟨hstart, hend, hfirst⟩
    have hend' := endsAt_iff.mp hend
    refine ⟨List.isPrefixOf_iff_prefix.mpr hend'.2, i - start, ?_, ?_, ?_⟩
    · rw [length_drop, length_range]
      omega
    · rw [getElem_drop, getElem_range]
      omega
    · intro j hj
      rw [getElem_drop, getElem_range]
      cases hp : s.isPrefixOf (text.drop (start + j)) with
      | false => rfl
      | true =>
        have := hfirst (start + j) (by omega)
          (endsAt_iff.mpr ⟨by omega, isPrefixOf_iff_prefix.mp hp⟩)
        omega

theorem findFrom_eq_none_iff {start : Nat} :
    findFrom text s start = none ↔ ∀ i, start ≤ i → ¬ EndsAt s text (i + s.length) := by
  unfold findFrom
  rw [find?_eq_none]
  constructor
  · intro h i hi hend
    have hend' := endsAt_iff.mp hend
    apply h i
    · rw [mem_drop_iff_getElem]
      refine ⟨i - start, ?_, ?_⟩
      · rw [length_range]
        omega
      · rw [getElem_range]
        omega
    · exact isPrefixOf_iff_prefix.mpr hend'.2
  · intro h i hi hp
    rw [mem_drop_iff_getElem] at hi
    rcases hi with ⟨j, hj, hij⟩
    rw [length_range] at hj
    rw [getElem_range] at hij
    exact h i (by omega) (endsAt_iff.mpr ⟨by omega, isPrefixOf_iff_prefix.mp hp⟩)

theorem findEnd_eq_some_iff :
    findEnd text w s = some e ↔
      w < e ∧ EndsAt s text e ∧ ∀ e', w < e' → EndsAt s text e' → e ≤ e' := by
  unfold findEnd
  rw [map_eq_some_iff]
  constructor
  · intro ⟨i, hi, he⟩
    rw [findFrom_eq_some_iff] at hi
    rw [← he]
    refine ⟨by omega, hi.2.1, ?_⟩
    intro e' hw hend
    have hle := hend.length_le
    have := hi.2.2 (e' - s.length) (by omega) (by rwa [Nat.sub_add_cancel hle])
    omega
  · intro ⟨hw, hend, hfirst⟩
    have hle := hend.length_le
    refine ⟨e - s.length, ?_, Nat.sub_add_cancel hle⟩
    rw [findFrom_eq_some_iff, Nat.sub_add_cancel hle]
    refine ⟨by omega, hend, ?_⟩
    intro j hj hendj
    have := hfirst (j + s.length) (by omega) hendj
    omega

theorem findEnd_eq_none_iff : findEnd text w s = none ↔ ¬ EndsBehind s text w := by
  unfold findEnd
  rw [map_eq_none_iff, findFrom_eq_none_iff]
  constructor
  · intro h ⟨e, hw, hend⟩
    have hle := hend.length_le
    exact h (e - s.length) (by omega) (by rwa [Nat.sub_add_cancel hle])
  · intro h i hi hend
    exact h ⟨i + s.length, by omega, hend⟩

/-- The first stop string of the list that ends behind `w`, and where it first ends there. -/
def firstStop (stop : List (List Char)) (text : List Char) (w : Nat) : Option (List Char × Nat) :=
  stop.findSome? fun s => (findEnd text w s).map fun e => (s, e)

theorem firstStop_eq_none_iff :
    firstStop stop text w = none ↔ ∀ s ∈ stop, ¬ EndsBehind s text w := by
  unfold firstStop
  rw [findSome?_eq_none_iff]
  simp only [map_eq_none_iff, findEnd_eq_none_iff]

theorem firstStop_eq_some (h : firstStop stop text w = some (s, e)) :
    ∃ k : Nat, stop[k]? = some s ∧ findEnd text w s = some e ∧
      ∀ k' < k, ∀ s', stop[k']? = some s' → ¬ EndsBehind s' text w := by
  unfold firstStop at h
  rw [findSome?_eq_some_iff] at h
  rcases h with ⟨before, s₀, after, hstop, hs, hbefore⟩
  rw [map_eq_some_iff] at hs
  rcases hs with ⟨e₀, hfind, heq⟩
  rw [Prod.mk.injEq] at heq
  rw [heq.1, heq.2] at hfind
  rw [heq.1] at hstop
  refine ⟨before.length, ?_, hfind, ?_⟩
  · rw [hstop, getElem?_append_right (Nat.le_refl _), Nat.sub_self]
    rfl
  · intro k' hk' s' hs'
    rw [hstop, getElem?_append_left hk'] at hs'
    have := hbefore s' (mem_of_getElem? hs')
    rw [map_eq_none_iff, findEnd_eq_none_iff] at this
    exact this

theorem findSome?_congr {α β : Type} {f g : α → Option β} {xs : List α}
    (h : ∀ x ∈ xs, f x = g x) : xs.findSome? f = xs.findSome? g := by
  induction xs with
  | nil => rfl
  | cons x xs ih =>
    rw [findSome?_cons, findSome?_cons, h x mem_cons_self,
      ih fun y hy => h y (mem_cons_of_mem _ hy)]

theorem checkStopStrings_eq {includeInOutput : Bool} (hne : ∀ s ∈ stop, s ≠ [])
    (hw : w ≤ text.length) :
    checkStopStrings text (text.length - w) stop includeInOutput =
      (firstStop stop text w).map fun found => if includeInOutput then
          if text.length ≤ found.2 then (found.1, none) else (found.1, some found.2)
        else (found.1, some (found.2 - found.1.length)) := by
  unfold checkStopStrings
  split
  next hskip =>
    symm
    rw [map_eq_none_iff, firstStop_eq_none_iff]
    intro s hs ⟨e, hwe, hend⟩
    rcases hskip with hzero | hnil
    · have := hend.1
      omega
    · rw [hnil] at hs
      exact not_mem_nil hs
  next hskip =>
    unfold firstStop
    rw [map_findSome?]
    apply findSome?_congr
    intro s hs
    have hpos : 0 < s.length := length_pos_iff.mpr (hne s hs)
    have hstart : sliceBound text.length (1 - (text.length - w : Nat) - s.length) =
        w + 1 - s.length := by
      unfold sliceBound
      rw [if_pos (by omega)]
      omega
    dsimp only [Function.comp_apply]
    unfold findEnd
    rw [hstart, Option.map_map, Option.map_map]
    congr 1
    funext i
    dsimp only [Function.comp_apply]
    rw [Nat.add_sub_cancel]

namespace BaseIncrementalDetokenizer

variable {σ : Type}

/-! ## One update -/

/-- The tokens become text, and no stop string is searched. -/
def decodeAll (ts : List Token) (d : BaseIncrementalDetokenizer σ) : BaseIncrementalDetokenizer σ :=
  ts.foldl decodeToken d

/-- The length of the text behind which an update with the tokens searches: the text before, and
the text of those tokens that are among the first `min_tokens`. -/
def windowStart (d : BaseIncrementalDetokenizer σ) (ts : List Token) : Nat :=
  (decodeAll (ts.take (d.minTokens - d.numOutputTokens)) d).outputText.length

theorem decodeAll_append (us vs : List Token) (d : BaseIncrementalDetokenizer σ) :
    decodeAll (us ++ vs) d = decodeAll vs (decodeAll us d) := foldl_append

structure Decoded (d : BaseIncrementalDetokenizer σ) (n : Nat) (d' : BaseIncrementalDetokenizer σ) :
    Prop where
  text : d.outputText <+: d'.outputText
  stop : d'.stop = d.stop
  minTokens : d'.minTokens = d.minTokens
  includeStop : d'.includeStopStrInOutput = d.includeStopStrInOutput
  numOutputTokens : d'.numOutputTokens = d.numOutputTokens + n

theorem decoded_decodeAll (ts : List Token) (d : BaseIncrementalDetokenizer σ) :
    d.Decoded ts.length (decodeAll ts d) := by
  induction ts generalizing d with
  | nil => exact ⟨prefix_rfl, rfl, rfl, rfl, rfl⟩
  | cons t ts ih =>
    have hrest := ih (d.decodeToken t)
    have hfirst := d.extends_decodeToken t
    have hnum : (d.decodeToken t).numOutputTokens = d.numOutputTokens + 1 := by
      rw [numOutputTokens_eq, numOutputTokens_eq, hfirst.outputTokenIds, length_append]
      rfl
    exact ⟨hfirst.text.trans hrest.text, hrest.stop, hrest.minTokens, hrest.includeStop, by
      rw [length_cons]
      have := hrest.numOutputTokens
      show (decodeAll ts (d.decodeToken t)).numOutputTokens = _
      omega⟩

theorem decodeTokens_eq (ts : List Token) (d : BaseIncrementalDetokenizer σ) (offset : Nat) :
    (decodeTokens ts d offset).1 = decodeAll ts d ∧
      (decodeTokens ts d offset).2 = if d.minTokens ≤ d.numOutputTokens ∨ ts = [] then offset
        else d.windowStart ts := by
  induction ts generalizing d offset with
  | nil => exact ⟨rfl, (if_pos (Or.inr rfl)).symm⟩
  | cons t ts ih =>
    have hdec := decoded_decodeAll [t] d
    have hnum : (d.decodeToken t).numOutputTokens = d.numOutputTokens + 1 := hdec.numOutputTokens
    have hmin : (d.decodeToken t).minTokens = d.minTokens := rfl
    unfold decodeTokens
    dsimp only
    rw [hmin, hnum]
    generalize hoff : (if d.minTokens ≠ 0 ∧ d.numOutputTokens + 1 ≤ d.minTokens then
      (d.decodeToken t).outputText.length else offset) = offset'
    have hrest := ih (d.decodeToken t) offset'
    refine ⟨hrest.1, ?_⟩
    rw [hrest.2, hmin, hnum]
    by_cases hdone : d.minTokens ≤ d.numOutputTokens
    · rw [if_pos (Or.inl (by omega)), if_pos (Or.inl hdone), ← hoff, if_neg (by omega)]
    · have hstart : d.windowStart (t :: ts) = (decodeAll (ts.take
          (d.minTokens - (d.numOutputTokens + 1))) (d.decodeToken t)).outputText.length := by
        unfold windowStart
        rw [show d.minTokens - d.numOutputTokens =
          d.minTokens - (d.numOutputTokens + 1) + 1 by omega, take_succ_cons]
        rfl
      rw [if_neg (c := d.minTokens ≤ d.numOutputTokens ∨ t :: ts = []) (by
        intro hor
        rcases hor with hor | hor
        · exact hdone hor
        · cases hor), hstart]
      split
      next hshort =>
        rw [← hoff, if_pos (by omega)]
        rcases hshort with hshort | hshort
        · rw [show d.minTokens - (d.numOutputTokens + 1) = 0 by omega, take_zero]
          rfl
        · rw [hshort, take_nil]
          rfl
      · unfold windowStart
        rw [hmin, hnum]

theorem windowStart_le (d : BaseIncrementalDetokenizer σ) (ts : List Token) :
    d.outputText.length ≤ d.windowStart ts ∧
      d.windowStart ts ≤ (decodeAll ts d).outputText.length := by
  have hfirst := decoded_decodeAll (ts.take (d.minTokens - d.numOutputTokens)) d
  have hrest := decoded_decodeAll (ts.drop (d.minTokens - d.numOutputTokens))
    (decodeAll (ts.take (d.minTokens - d.numOutputTokens)) d)
  rw [← decodeAll_append, take_append_drop] at hrest
  exact ⟨hfirst.text.length_le, hrest.text.length_le⟩

def cutAt (d : BaseIncrementalDetokenizer σ) (found : List Char × Nat) :
    BaseIncrementalDetokenizer σ :=
  { d with
    outputText := d.outputText.take
      (if d.includeStopStrInOutput then found.2 else found.2 - found.1.length) }

def stopped (d : BaseIncrementalDetokenizer σ) :
    Option (List Char × Nat) → Option (List Char) × BaseIncrementalDetokenizer σ
  | none => (none, d)
  | some found => (some found.1, d.cutAt found)

theorem update_eq (d : BaseIncrementalDetokenizer σ) {ts : List Token} (hts : ts ≠ []) :
    d.update ts false = (decodeAll ts d).stopped
        (firstStop d.stop (decodeAll ts d).outputText (d.windowStart ts)) := by
  have hdecode := decodeTokens_eq ts d d.outputText.length
  have hdecoded := decoded_decodeAll ts d
  have hwindow := d.windowStart_le ts
  have hoffset : (decodeTokens ts d d.outputText.length).2 = d.windowStart ts := by
    rw [hdecode.2]
    split
    next hshort =>
      rcases hshort with hshort | hshort
      · unfold windowStart
        rw [show d.minTokens - d.numOutputTokens = 0 by omega]
        rfl
      · exact absurd hshort hts
    · rfl
  have hpair : d.detokenize ts false = (decodeAll ts d, d.windowStart ts) := by
    unfold detokenize
    rw [if_neg (by simp), ← hdecode.1, ← hoffset]
  have hne : ∀ s ∈ (decodeAll ts d).stop, s ≠ [] := (decodeAll ts d).stop_ne
  rw [← hdecoded.stop]
  unfold update
  rw [if_neg hts, hpair]
  dsimp only
  rw [checkStopStrings_eq hne hwindow.2]
  split
  next hsearch =>
    cases hfound :
      firstStop (decodeAll ts d).stop (decodeAll ts d).outputText (d.windowStart ts) with
    | none => rfl
    | some found =>
      rcases firstStop_eq_some hfound with ⟨k, _, hend, _⟩
      dsimp only [map_some]
      unfold stopped cutAt
      by_cases hinclude : (decodeAll ts d).includeStopStrInOutput = true
      · by_cases hfull : (decodeAll ts d).outputText.length ≤ found.2
        · simp only [if_pos hinclude, if_pos hfull, take_of_length_le hfull]
        · simp only [if_pos hinclude, if_neg hfull]
      · simp only [if_neg hinclude]
  next hsearch =>
    -- without stop strings, or with too few tokens, nothing ends in the window
    have hnone : firstStop (decodeAll ts d).stop (decodeAll ts d).outputText
        (d.windowStart ts) = none := by
      rw [firstStop_eq_none_iff]
      intro s hs hends
      rcases hends with ⟨e, hw, hend⟩
      have hstop := ne_nil_of_mem hs
      have hfew : ts.length ≤ d.minTokens - d.numOutputTokens := by
        have hnum := hdecoded.numOutputTokens
        have hmin := hdecoded.minTokens
        by_contra hmany
        exact hsearch ⟨hstop, by omega⟩
      unfold windowStart at hw
      rw [take_of_length_le hfew] at hw
      have := hend.1
      omega
    rw [hnone]
    rfl

end BaseIncrementalDetokenizer

end VllmCore
