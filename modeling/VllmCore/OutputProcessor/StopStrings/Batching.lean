import VllmCore.OutputProcessor.StopStrings
/-!
# The same tokens in different updates

Up to the first stop string that ends, any batching of the tokens gives the same text.
In the update in which it ends, the batchings agree unless a stop string that stands
before it in the list ends later in the same update.
-/

namespace VllmCore.BaseIncrementalDetokenizer

open List

variable {σ : Type}

/-- Updates in turn, up to the first that reports a stop string. -/
def feed : List (List Token) → BaseIncrementalDetokenizer σ →
    Option (List Char) × BaseIncrementalDetokenizer σ
  | [], d => (none, d)
  | call :: calls, d =>
    match d.update call false with
    | (none, d') => feed calls d'
    | (some stopString, d') => (some stopString, d')

def singles (ts : List Token) : List (List Token) := ts.map fun t => [t]

/-- The stop string ends in the text of the tokens, those among the first `min_tokens` apart. -/
def Ends (d : BaseIncrementalDetokenizer σ) (ts : List Token) (s : List Char) : Prop :=
  EndsBehind s (decodeAll ts d).outputText (d.windowStart ts)

def Quiet (d : BaseIncrementalDetokenizer σ) (ts : List Token) : Prop :=
  ∀ s ∈ d.stop, ¬ d.Ends ts s

/-! ## Windows -/

section

variable (d : BaseIncrementalDetokenizer σ)

include d

theorem windowStart_append_lt (us vs : List Token) (e : Nat) :
    d.windowStart (us ++ vs) < e ↔
      (d.windowStart us < e ∧ e ≤ (decodeAll us d).outputText.length) ∨
        (decodeAll us d).windowStart vs < e := by
  have hdec := decoded_decodeAll us d
  have hle := (d.windowStart_le us).2
  have hleft : (decodeAll us d).minTokens - (decodeAll us d).numOutputTokens =
      d.minTokens - d.numOutputTokens - us.length := by
    rw [hdec.minTokens, hdec.numOutputTokens]
    omega
  by_cases hcover : d.minTokens - d.numOutputTokens ≤ us.length
  · have hall : d.windowStart (us ++ vs) = d.windowStart us := by
      unfold windowStart
      rw [take_append_of_le_length hcover]
    have hrest : (decodeAll us d).windowStart vs = (decodeAll us d).outputText.length := by
      unfold windowStart
      rw [hleft, show d.minTokens - d.numOutputTokens - us.length = 0 by omega, take_zero]
      rfl
    omega
  · have hfirst : d.windowStart us = (decodeAll us d).outputText.length := by
      unfold windowStart
      rw [take_of_length_le (by omega)]
    have hall : d.windowStart (us ++ vs) = (decodeAll us d).windowStart vs := by
      unfold windowStart
      rw [hleft, take_append, take_of_length_le (by omega), decodeAll_append]
    omega

theorem ends_append (us vs : List Token) (s : List Char) :
    d.Ends (us ++ vs) s ↔ d.Ends us s ∨ (decodeAll us d).Ends vs s := by
  have htext := (decoded_decodeAll vs (decodeAll us d)).text
  rw [← decodeAll_append] at htext
  unfold Ends EndsBehind
  rw [← decodeAll_append]
  simp only [windowStart_append_lt]
  constructor
  · intro ⟨e, hwindow, hend⟩
    rcases hwindow with ⟨hw, hle⟩ | hw
    · exact Or.inl ⟨e, hw, (endsAt_extend htext hle).mp hend⟩
    · exact Or.inr ⟨e, hw, hend⟩
  · intro hor
    rcases hor with ⟨e, hw, hend⟩ | ⟨e, hw, hend⟩
    · exact ⟨e, Or.inl ⟨hw, hend.1⟩, (endsAt_extend htext hend.1).mpr hend⟩
    · exact ⟨e, Or.inr hw, hend⟩

theorem quiet_append (us vs : List Token) :
    d.Quiet (us ++ vs) ↔ d.Quiet us ∧ (decodeAll us d).Quiet vs := by
  unfold Quiet
  rw [(decoded_decodeAll us d).stop]
  constructor
  · intro h
    refine ⟨fun s hs hend => h s hs ?_, fun s hs hend => h s hs ?_⟩
    · exact (ends_append d us vs s).mpr (Or.inl hend)
    · exact (ends_append d us vs s).mpr (Or.inr hend)
  · intro ⟨hu, hv⟩ s hs hend
    rcases (ends_append d us vs s).mp hend with hend | hend
    · exact hu s hs hend
    · exact hv s hs hend

theorem quiet_nil : d.Quiet [] := by
  intro s _ ⟨e, hw, hend⟩
  have hle := hend.1
  have hstart := (d.windowStart_le []).1
  have heq : (decodeAll [] d).outputText.length = d.outputText.length := rfl
  omega

end

/-! ## Runs -/

variable {d : BaseIncrementalDetokenizer σ} {ts : List Token}

theorem update_quiet (h : d.Quiet ts) : d.update ts false = (none, decodeAll ts d) := by
  by_cases hts : ts = []
  · rw [hts]
    rfl
  · rw [update_eq d hts, firstStop_eq_none_iff.mpr h]
    rfl

variable {before calls : List (List Token)} {us vs : List Token} {t : Token} {s : List Char}

theorem feed_append (h : d.Quiet before.flatten) (after : List (List Token)) :
    feed (before ++ after) d = feed after (decodeAll before.flatten d) := by
  induction before generalizing d with
  | nil => rfl
  | cons call before ih =>
    rw [flatten_cons, quiet_append] at h
    rw [cons_append, feed, update_quiet h.1, flatten_cons, decodeAll_append]
    exact ih h.2

theorem feed_quiet (h : d.Quiet calls.flatten) :
    feed calls d = (none, decodeAll calls.flatten d) := by
  have happend := feed_append h []
  rwa [append_nil] at happend

theorem feed_stop {d : BaseIncrementalDetokenizer σ} {before after : List (List Token)}
    {call : List Token} (h : d.Quiet before.flatten)
    (hstop : ¬ (decodeAll before.flatten d).Quiet call) :
    ∃ found, firstStop d.stop (decodeAll (before.flatten ++ call) d).outputText
        ((decodeAll before.flatten d).windowStart call) = some found ∧
      feed (before ++ call :: after) d =
        (some found.1, (decodeAll (before.flatten ++ call) d).cutAt found) := by
  have hne : call ≠ [] := by
    intro hnil
    rw [hnil] at hstop
    exact hstop (quiet_nil _)
  have hupdate := update_eq (decodeAll before.flatten d) hne
  rw [← decodeAll_append, (decoded_decodeAll before.flatten d).stop] at hupdate
  cases hfound : firstStop d.stop (decodeAll (before.flatten ++ call) d).outputText
      ((decodeAll before.flatten d).windowStart call) with
  | none =>
    rw [firstStop_eq_none_iff, decodeAll_append] at hfound
    refine absurd ?_ hstop
    intro s hs
    rw [(decoded_decodeAll before.flatten d).stop] at hs
    exact hfound s hs
  | some found =>
    rw [hfound] at hupdate
    refine ⟨found, rfl, ?_⟩
    rw [feed_append h, feed, hupdate]
    rfl

theorem exists_stop : ∀ {d : BaseIncrementalDetokenizer σ},
    ¬ d.Quiet calls.flatten → ∃ before call after, calls = before ++ call :: after ∧
      d.Quiet before.flatten ∧ ¬ (decodeAll before.flatten d).Quiet call := by
  induction calls with
  | nil => exact fun h => absurd (quiet_nil _) h
  | cons call calls ih =>
    intro d h
    by_cases hcall : d.Quiet call
    · have hrest : ¬ (decodeAll call d).Quiet calls.flatten := by
        intro hquiet
        apply h
        rw [flatten_cons, quiet_append]
        exact ⟨hcall, hquiet⟩
      rcases ih hrest with ⟨before, c, after, hcalls, hbefore, hstop⟩
      refine ⟨call :: before, c, after, by rw [hcalls]; rfl, ?_, ?_⟩
      · rw [flatten_cons, quiet_append]
        exact ⟨hcall, hbefore⟩
      · rwa [flatten_cons, decodeAll_append]
    · exact ⟨[], call, calls, rfl, quiet_nil d, hcall⟩

theorem flatten_singles (ts : List Token) : (singles ts).flatten = ts := by
  unfold singles
  induction ts with
  | nil => rfl
  | cons t ts ih => rw [map_cons, flatten_cons, ih, singleton_append]

theorem exists_stop_token (h : ¬ d.Quiet ts) :
    ∃ us t vs, ts = us ++ t :: vs ∧ d.Quiet us ∧ ¬ (decodeAll us d).Quiet [t] := by
  rw [← flatten_singles ts] at h
  rcases exists_stop h with ⟨before, call, after, hcalls, hbefore, hstop⟩
  have hall : ∀ c ∈ singles ts, ∃ t, c = [t] := by
    intro c hc
    rcases mem_map.mp hc with ⟨t, _, ht⟩
    exact ⟨t, ht.symm⟩
  rcases hall call (by rw [hcalls]; exact mem_append_right _ mem_cons_self) with ⟨t, ht⟩
  refine ⟨before.flatten, t, after.flatten, ?_, hbefore, by rwa [ht] at hstop⟩
  rw [← flatten_singles ts, hcalls, flatten_append, flatten_cons, ht]
  rfl

/-! ## The update in which a stop string ends -/

/-- A stop string that ends in the tokens behind `t` has one that is listed no later and that ends
in `t` already. -/
def ListedFirst (d : BaseIncrementalDetokenizer σ) (us : List Token) (t : Token)
    (vs : List Token) : Prop :=
  ∀ (k : Nat) s, d.stop[k]? = some s → (decodeAll (us ++ [t]) d).Ends vs s →
    ∃ k' ≤ k, ∃ s', d.stop[k']? = some s' ∧ (decodeAll us d).Ends [t] s'

theorem ends_call (d : BaseIncrementalDetokenizer σ) (us : List Token) (t : Token)
    (vs : List Token) (s : List Char) :
    d.Ends (us ++ t :: vs) s ↔ d.Ends us s ∨ (decodeAll us d).Ends [t] s ∨
      (decodeAll (us ++ [t]) d).Ends vs s := by
  rw [ends_append, ← singleton_append (l := vs), ends_append, decodeAll_append]

theorem endsAt_call {d : BaseIncrementalDetokenizer σ} {us vs : List Token} {t : Token}
    (hquiet : d.Quiet us) {s : List Char} (hs : s ∈ d.stop) {e : Nat}
    (he : e ≤ (decodeAll (us ++ [t]) d).outputText.length) :
    (d.windowStart (us ++ t :: vs) < e ∧ EndsAt s (decodeAll (us ++ t :: vs) d).outputText e) ↔
      ((decodeAll us d).windowStart [t] < e ∧ EndsAt s (decodeAll (us ++ [t]) d).outputText e) := by
  have hsplit : us ++ t :: vs = us ++ [t] ++ vs := by simp
  have htext := (decoded_decodeAll vs (decodeAll (us ++ [t]) d)).text
  have hbefore := (decoded_decodeAll [t] (decodeAll us d)).text
  rw [← decodeAll_append] at htext hbefore
  rw [hsplit, endsAt_extend htext he]
  have hlast := ((decodeAll (us ++ [t]) d).windowStart_le vs).1
  have hstep := windowStart_append_lt d (us ++ [t]) vs e
  have hfirst := windowStart_append_lt d us [t] e
  constructor
  · intro ⟨hw, hend⟩
    refine ⟨?_, hend⟩
    rcases hstep.mp hw with ⟨hw, _⟩ | hw
    · rcases hfirst.mp hw with ⟨hw, hle⟩ | hw
      · exact absurd ⟨e, hw, (endsAt_extend hbefore hle).mp hend⟩ (hquiet s hs)
      · exact hw
    · omega
  · intro ⟨hw, hend⟩
    exact ⟨hstep.mpr (Or.inl ⟨hfirst.mpr (Or.inr hw), he⟩), hend⟩

theorem same_stop_iff (hquiet : d.Quiet us)
    {found found' : List Char × Nat} (h : firstStop d.stop (decodeAll (us ++ [t]) d).outputText
      ((decodeAll us d).windowStart [t]) = some found)
    (h' : firstStop d.stop (decodeAll (us ++ t :: vs) d).outputText
      (d.windowStart (us ++ t :: vs)) = some found') :
    (found'.1 = found.1 ∧ ((decodeAll (us ++ t :: vs) d).cutAt found').outputText =
      ((decodeAll (us ++ [t]) d).cutAt found).outputText) ↔ d.ListedFirst us t vs := by
  rcases firstStop_eq_some h with ⟨k, hk, hfind, hbefore⟩
  rcases firstStop_eq_some h' with ⟨k', hk', hfind', hbefore'⟩
  rw [findEnd_eq_some_iff] at hfind hfind'
  have hends : ∀ s, (decodeAll us d).Ends [t] s ↔
      EndsBehind s (decodeAll (us ++ [t]) d).outputText ((decodeAll us d).windowStart [t]) := by
    intro s
    unfold Ends
    rw [decodeAll_append]
  have hmem := mem_of_getElem? hk
  constructor
  · intro ⟨heq, _⟩ j s hj hend
    have hcall : d.Ends (us ++ t :: vs) s := (ends_call d us t vs s).mpr (Or.inr (Or.inr hend))
    have hle : k' ≤ j := by
      by_contra hlt
      exact hbefore' j (by omega) s hj hcall
    refine ⟨k', hle, found.1, by rw [hk', heq], ?_⟩
    exact (hends _).mpr ⟨found.2, hfind.1, hfind.2.1⟩
  · intro hlisted
    have hcall : d.Ends (us ++ t :: vs) found.1 :=
      (ends_call d us t vs _).mpr (Or.inr (Or.inl ((hends _).mpr ⟨found.2, hfind.1, hfind.2.1⟩)))
    have hle : k' ≤ k := by
      by_contra hlt
      exact hbefore' k (by omega) found.1 hk hcall
    have hge : k ≤ k' := by
      rcases (ends_call d us t vs _).mp ⟨found'.2, hfind'.1, hfind'.2.1⟩ with hend | hend | hend
      · exact absurd hend (hquiet _ (mem_of_getElem? hk'))
      · by_contra hlt
        exact hbefore k' (by omega) found'.1 hk' ((hends _).mp hend)
      · rcases hlisted k' _ hk' hend with ⟨j, hj, s, hs, hend⟩
        by_contra hlt
        exact hbefore j (by omega) s hs ((hends _).mp hend)
    have hsame : found'.1 = found.1 := by
      rw [show k' = k by omega, hk, Option.some.injEq] at hk'
      exact hk'.symm
    refine ⟨hsame, ?_⟩
    rw [hsame] at hfind'
    have hin := (@endsAt_call _ d us vs t hquiet _ hmem _ hfind.2.1.1).mpr ⟨hfind.1, hfind.2.1⟩
    have hupper := hfind'.2.2 found.2 hin.1 hin.2
    have hin' := (@endsAt_call _ d us vs t hquiet _ hmem _ (hupper.trans hfind.2.1.1)).mp
      ⟨hfind'.1, hfind'.2.1⟩
    have hlower := hfind.2.2 found'.2 hin'.1 hin'.2
    have hfound : found' = found := Prod.ext hsame (by omega)
    have htext := (decoded_decodeAll vs (decodeAll (us ++ [t]) d)).text
    rw [← decodeAll_append] at htext
    have hinc := (decoded_decodeAll (us ++ t :: vs) d).includeStop
    have hinc' := (decoded_decodeAll (us ++ [t]) d).includeStop
    rw [hfound]
    unfold cutAt
    rw [hinc, hinc', show us ++ t :: vs = us ++ [t] ++ vs by simp]
    rcases htext with ⟨more, hmore⟩
    have hend := hfind.2.1.1
    rw [← hmore, take_append_of_le_length (by split <;> omega)]

/-! ## Whole runs -/

/-- In the update in which the first stop string ends, with the token `t`, the stop strings that
end in the tokens behind `t` are not listed before all that end in `t`. -/
def StopsListedFirst (d : BaseIncrementalDetokenizer σ) (calls : List (List Token)) : Prop :=
  ∀ before after us t vs, calls = before ++ (us ++ t :: vs) :: after →
    d.Quiet (before.flatten ++ us) → ¬ (decodeAll (before.flatten ++ us) d).Quiet [t] →
    (decodeAll before.flatten d).ListedFirst us t vs

/-- In the update in which the first stop string ends, no stop string stands in the text before
the first place of the stop string that is listed first of those that end in it. -/
def NoneBeforeCut (d : BaseIncrementalDetokenizer σ) (calls : List (List Token)) : Prop :=
  ∀ before call after, calls = before ++ call :: after → d.Quiet before.flatten →
    ∀ (k : Nat) s e, d.stop[k]? = some s →
      (∀ k' < k, ∀ s', d.stop[k']? = some s' → ¬ (decodeAll before.flatten d).Ends call s') →
      findEnd (decodeAll (before.flatten ++ call) d).outputText
        ((decodeAll before.flatten d).windowStart call) s = some e →
      ∀ s' ∈ d.stop,
        ¬ s' <:+: (decodeAll (before.flatten ++ call) d).outputText.take (e - s.length)

theorem singles_append (us vs : List Token) : singles (us ++ vs) = singles us ++ singles vs :=
  map_append

theorem same_run_iff {after : List (List Token)} (hquiet : d.Quiet (before.flatten ++ us))
    (hstop : ¬ (decodeAll (before.flatten ++ us) d).Quiet [t]) :
    ((feed (before ++ (us ++ t :: vs) :: after) d).1 =
        (feed (singles (before ++ (us ++ t :: vs) :: after).flatten) d).1 ∧
      (feed (before ++ (us ++ t :: vs) :: after) d).2.outputText =
        (feed (singles (before ++ (us ++ t :: vs) :: after).flatten) d).2.outputText) ↔
      (decodeAll before.flatten d).ListedFirst us t vs := by
  have hsplit := (quiet_append d before.flatten us).mp hquiet
  rw [decodeAll_append] at hstop
  have hcall : ¬ (decodeAll before.flatten d).Quiet (us ++ t :: vs) := by
    intro hall
    apply hstop
    rw [quiet_append] at hall
    have htail := hall.2
    rw [← singleton_append (l := vs), quiet_append] at htail
    exact htail.1
  rcases @feed_stop _ d before after _ hsplit.1 hcall with ⟨found', hfound', hrun'⟩
  have hsingles : singles (before ++ (us ++ t :: vs) :: after).flatten =
      singles (before.flatten ++ us) ++ [t] :: singles (vs ++ after.flatten) := by
    rw [flatten_append, flatten_cons, append_assoc, ← append_assoc,
      singles_append]
    rfl
  have hquiet' : d.Quiet (singles (before.flatten ++ us)).flatten := by
    rwa [flatten_singles]
  rcases @feed_stop _ d _ (singles (vs ++ after.flatten)) [t] hquiet' (by
    rwa [flatten_singles, decodeAll_append]) with ⟨found, hfound, hrun⟩
  rw [flatten_singles] at hfound hrun
  have hstopEq := (decoded_decodeAll before.flatten d).stop
  rw [← hstopEq, append_assoc, decodeAll_append, decodeAll_append before.flatten us] at hfound
  rw [← hstopEq, decodeAll_append] at hfound'
  rw [hsingles, hrun, hrun', ← same_stop_iff hsplit.2 hfound hfound', Option.some.injEq,
    append_assoc, decodeAll_append before.flatten (us ++ t :: vs),
    decodeAll_append before.flatten (us ++ [t])]

theorem same_runs_iff (d : BaseIncrementalDetokenizer σ) (calls : List (List Token)) :
    ((feed calls d).1 = (feed (singles calls.flatten) d).1 ∧
      (feed calls d).2.outputText = (feed (singles calls.flatten) d).2.outputText) ↔
      d.StopsListedFirst calls := by
  constructor
  · intro hsame before after us t vs hcalls hquiet hstop
    rw [hcalls] at hsame
    exact (same_run_iff hquiet hstop).mp hsame
  · intro hlisted
    by_cases hquiet : d.Quiet calls.flatten
    · have hsingles : d.Quiet (singles calls.flatten).flatten := by
        rwa [flatten_singles]
      rw [feed_quiet hquiet, feed_quiet hsingles, flatten_singles]
      exact ⟨rfl, rfl⟩
    · rcases exists_stop hquiet with ⟨before, call, after, hcalls, hbefore, hstop⟩
      rcases exists_stop_token hstop with ⟨us, t, vs, hcall, hus, ht⟩
      rw [← decodeAll_append] at ht
      have hall := (quiet_append d before.flatten us).mpr ⟨hbefore, hus⟩
      rw [hcall] at hcalls
      rw [hcalls]
      exact (same_run_iff hall ht).mpr (hlisted before after us t vs hcalls hall ht)

theorem firstStop_of {stop : List (List Char)} {text : List Char} {w e k : Nat}
    (hk : stop[k]? = some s)
    (hbefore : ∀ k' < k, ∀ s', stop[k']? = some s' → ¬ EndsBehind s' text w)
    (hfind : findEnd text w s = some e) : firstStop stop text w = some (s, e) := by
  have hend := findEnd_eq_some_iff.mp hfind
  cases hfirst : firstStop stop text w with
  | none =>
    rw [firstStop_eq_none_iff] at hfirst
    exact absurd ⟨e, hend.1, hend.2.1⟩ (hfirst s (mem_of_getElem? hk))
  | some found =>
    rcases firstStop_eq_some hfirst with ⟨j, hj, hfind', hbefore'⟩
    have hend' := findEnd_eq_some_iff.mp hfind'
    have hkj : j = k := by
      rcases Nat.lt_trichotomy j k with hlt | heq | hgt
      · exact absurd ⟨found.2, hend'.1, hend'.2.1⟩ (hbefore j hlt found.1 hj)
      · exact heq
      · exact absurd ⟨e, hend.1, hend.2.1⟩ (hbefore' k hgt s hk)
    rw [hkj, hk, Option.some.injEq] at hj
    rw [← hj, hfind, Option.some.injEq] at hfind'
    rw [Option.some.injEq]
    exact Prod.ext hj.symm hfind'.symm

theorem quiet_iff_not_infix (hnew : d.outputText = []) (hmin : d.minTokens = 0)
    (hquiet : d.Quiet ts) (hs : s ∈ d.stop) :
    ¬ s <:+: (decodeAll ts d).outputText := by
  intro hinfix
  rcases infix_iff_endsAt.mp hinfix with ⟨e, hend⟩
  have hlen := hend.length_le
  have hpos := length_pos_iff.mpr (d.stop_ne s hs)
  have hstart : d.windowStart ts = 0 := by
    unfold windowStart
    rw [hmin, Nat.zero_sub, take_zero]
    show d.outputText.length = 0
    rw [hnew]
    rfl
  exact hquiet s hs ⟨e, by omega, hend⟩

theorem none_in_text_iff (hnew : d.outputText = []) (hmin : d.minTokens = 0)
    (hinclude : d.includeStopStrInOutput = false) (calls : List (List Token)) :
    (∀ s ∈ d.stop, ¬ s <:+: (feed calls d).2.outputText) ↔ d.NoneBeforeCut calls := by
  constructor
  · intro hnone before call after hcalls hbefore k s e hk hfirst hfind s' hs'
    have hstopEq := (decoded_decodeAll before.flatten d).stop
    have hend := findEnd_eq_some_iff.mp hfind
    have hcall : ¬ (decodeAll before.flatten d).Quiet call := by
      intro hquiet
      apply hquiet s
      · rw [hstopEq]
        exact mem_of_getElem? hk
      · unfold Ends
        rw [← decodeAll_append]
        exact ⟨e, hend.1, hend.2.1⟩
    rcases @feed_stop _ d before after _ hbefore hcall with ⟨found, hfound, hrun⟩
    have hsame := firstStop_of hk (by
      intro k' hk' s'' hs''
      have := hfirst k' hk' s'' hs''
      unfold Ends at this
      rwa [← decodeAll_append] at this) hfind
    rw [hsame, Option.some.injEq] at hfound
    have hresult := hnone s' hs'
    rw [hcalls, hrun, ← hfound] at hresult
    unfold cutAt at hresult
    rw [(decoded_decodeAll _ d).includeStop, hinclude] at hresult
    exact hresult
  · intro hcut s' hs'
    by_cases hquiet : d.Quiet calls.flatten
    · rw [feed_quiet hquiet]
      exact quiet_iff_not_infix hnew hmin hquiet hs'
    · rcases exists_stop hquiet with ⟨before, call, after, hcalls, hbefore, hstop⟩
      rcases @feed_stop _ d before after _ hbefore hstop with ⟨found, hfound, hrun⟩
      rcases firstStop_eq_some hfound with ⟨k, hk, hfind, hfirst⟩
      have hresult := hcut before call after hcalls hbefore k found.1 found.2 hk (by
        intro k' hk' s'' hs''
        have := hfirst k' hk' s'' hs''
        unfold Ends
        rwa [← decodeAll_append]) hfind s' hs'
      rw [hcalls, hrun]
      unfold cutAt
      rw [(decoded_decodeAll _ d).includeStop, hinclude]
      exact hresult

/-- For every batching of the tokens of a new request: the batching reports the stop string and
leaves the text that single tokens do, and where stop strings are left out and nothing is skipped
the text contains none, exactly when the stop strings end in the order in which they are listed:
in the update in which the first one ends, none that ends in a later token is listed before all
that end in the first, and none stands before the place where the text is cut. -/
theorem stopStrings_batching_iff (d : BaseIncrementalDetokenizer σ)
    (hnew : d.outputText = [] ∧ d.numOutputTokens = 0) (calls : List (List Token)) :
    (((feed calls d).1 = (feed (singles calls.flatten) d).1 ∧
        (feed calls d).2.outputText = (feed (singles calls.flatten) d).2.outputText) ∧
      (d.includeStopStrInOutput = false → d.minTokens = 0 →
        ∀ s ∈ d.stop, ¬ s <:+: (feed calls d).2.outputText)) ↔
    d.StopsListedFirst calls ∧
      (d.includeStopStrInOutput = false → d.minTokens = 0 → d.NoneBeforeCut calls) := by
  rw [same_runs_iff]
  constructor
  · intro ⟨hlisted, hnone⟩
    exact ⟨hlisted, fun hinclude hmin =>
      (none_in_text_iff hnew.1 hmin hinclude calls).mp (hnone hinclude hmin)⟩
  · intro ⟨hlisted, hcut⟩
    exact ⟨hlisted, fun hinclude hmin =>
      (none_in_text_iff hnew.1 hmin hinclude calls).mpr (hcut hinclude hmin)⟩

theorem listed_ne : ∀ s ∈ [['b'], ['a']], s ≠ [] := by decide

/-- Every token is one letter: the token 0 is `a`, any other is `b`. -/
def letterDetokenizer : BaseIncrementalDetokenizer Unit where
  promptLen_le := Nat.le_refl 0
  stop := [['b'], ['a']]
  stop_ne := listed_ne
  decodeNext := fun _ ids => (if ids.getLast? = some 0 then ['a'] else ['b'], ())
  decoder := ()

/-- In one update `b` is found and the `a` before it stays in the text; token by token `a` is
found. -/
theorem letters_found_in_list_order :
    ((feed [[0, 1]] letterDetokenizer).1 = some ['b'] ∧
      (feed [[0, 1]] letterDetokenizer).2.outputText = ['a']) ∧
    ((feed [[0], [1]] letterDetokenizer).1 = some ['a'] ∧
      (feed [[0], [1]] letterDetokenizer).2.outputText = []) ∧
    ¬ ((feed [[0, 1]] letterDetokenizer).1 = (feed (singles [[0, 1]].flatten) letterDetokenizer).1 ∧
      (feed [[0, 1]] letterDetokenizer).2.outputText =
        (feed (singles [[0, 1]].flatten) letterDetokenizer).2.outputText) ∧
    ¬ ∀ s ∈ letterDetokenizer.stop, ¬ s <:+: (feed [[0, 1]] letterDetokenizer).2.outputText := by
  decide +kernel

/-- In the other order the token that is found first is also listed first. -/
theorem stopStrings_batching_iff_letters :
    (letterDetokenizer.outputText = [] ∧ letterDetokenizer.numOutputTokens = 0) ∧
      letterDetokenizer.StopsListedFirst [[1, 0]] ∧ letterDetokenizer.NoneBeforeCut [[1, 0]] := by
  have hnew : letterDetokenizer.outputText = [] ∧ letterDetokenizer.numOutputTokens = 0 :=
    ⟨rfl, rfl⟩
  have hiff := (stopStrings_batching_iff letterDetokenizer hnew [[1, 0]]).mp (by decide +kernel)
  exact ⟨hnew, hiff.1, hiff.2 rfl rfl⟩

end VllmCore.BaseIncrementalDetokenizer
