import VllmCore.Worker.LogitsProcessor.Replay
/-!
# What the processors make of an update

Each processor brings its state up to date in a loop of its own.  Where it does what the
replay says is settled here, a loop at a time: for the sparse states always, for min-p
where no added value rounds to zero in a row that had one, and for the thinking budget
where no one-way move takes a row without a state onto one with a state.
-/

namespace VllmCore.Worker

open Function List Support Dict

def MovesApart (moved : List (Nat × Nat × MoveDirectionality)) : Prop :=
  ∀ m ∈ moved, m.2.2 = .unidirectional → m.1 ≠ m.2.1

/-! ## Sparse state -/

section ProcessDictUpdates

variable {T : Type} {newState : SamplingParams → Option (List Token) → List Token → Option T}
  {truthy : T → Bool}

def sparseRow (newState : SamplingParams → Option (List Token) → List Token → Option T)
    (added : AddedRequest) : Option T :=
  newState added.params added.promptTokIds added.outputTokIds

variable {V : Type}

theorem get?_set_eq_update (d : Dict Nat V) (k : Nat) (v : V) :
    (d.set k v).get? = update d.get? k (some v) := by
  funext j
  rw [get?_set, update_apply]

theorem get?_erase_eq_update (d : Dict Nat V) (k : Nat) :
    (d.erase k).get? = update d.get? k none := by
  funext j
  rw [get?_erase, update_apply]

theorem get?_processAdded (st : Bool × Dict Nat T) (added : AddedRequest) :
    (processAdded newState st added).2.get? = addRow (sparseRow newState) st.2.get? added := by
  unfold processAdded addRow sparseRow
  split
  next state hstate => rw [hstate, get?_set_eq_update]
  next hnone =>
    rw [hnone]
    split
    · exact get?_erase_eq_update st.2 added.index
    next hget =>
      rw [Option.not_isSome_iff_eq_none] at hget
      rw [← hget, update_eq_self]

theorem get?_foldl_processAdded (added : List AddedRequest) (st : Bool × Dict Nat T) :
    (added.foldl (processAdded newState) st).2.get? =
      added.foldl (addRow (sparseRow newState)) st.2.get? := by
  induction added generalizing st with
  | nil => rfl
  | cons a added ih => rw [foldl_cons, foldl_cons, ih, get?_processAdded]

theorem get?_foldl_processRemoved (removed : List Nat) (st : Bool × Dict Nat T) :
    (removed.foldl (processRemoved truthy) st).2.get? = clearEntries none st.2.get? removed := by
  induction removed generalizing st with
  | nil => rw [foldl_nil, clearEntries_nil]
  | cons k removed ih =>
    rw [foldl_cons, ih, clearEntries_cons]
    unfold processRemoved
    rw [get?_erase_eq_update]

theorem get?_processMoved (st : Bool × Dict Nat T) {m : Nat × Nat × MoveDirectionality}
    (h : m.2.2 = .unidirectional → m.1 ≠ m.2.1) :
    (processMoved st m).2.get? = moveRow none st.2.get? m := by
  obtain ⟨src, tgt, direct⟩ := m
  funext k
  cases direct with
  | unidirectional =>
    show _ = moveEntry none st.2.get? src tgt k
    rw [moveEntry_apply]
    unfold processMoved
    cases hsrc : st.2.get? src with
    | none =>
      by_cases hk : k = src <;> by_cases hk' : k = tgt <;>
        simp [get?_erase, hsrc, hk, hk']
    | some a =>
      by_cases hk : k = src <;> by_cases hk' : k = tgt <;>
        simp_all [get?_erase, get?_set]
  | swap =>
    show _ = swapEntries st.2.get? src tgt k
    rw [swapEntries_apply]
    unfold processMoved
    by_cases hne : src = tgt
    · subst hne
      cases hsrc : st.2.get? src <;> by_cases hk : k = src <;>
        simp [get?_erase, get?_set, hsrc, hk]
    · have hne' : tgt ≠ src := fun heq => hne heq.symm
      cases hsrc : st.2.get? src <;> cases htgt : st.2.get? tgt <;>
        by_cases hk : k = src <;> by_cases hk' : k = tgt <;>
          simp_all [get?_erase, get?_set]

theorem get?_foldl_processMoved {moved : List (Nat × Nat × MoveDirectionality)}
    (h : MovesApart moved) (st : Bool × Dict Nat T) :
    (moved.foldl processMoved st).2.get? = moved.foldl (moveRow none) st.2.get? := by
  induction moved generalizing st with
  | nil => rfl
  | cons m moved ih =>
    rw [foldl_cons, foldl_cons, ih fun m' hm' => h m' (mem_cons_of_mem m hm'),
      get?_processMoved st (h m mem_cons_self)]

/-- `process_dict_updates` replays the update.  Where it returns early there is nothing to
remove or to move. -/
theorem get?_processDictUpdates {u : BatchUpdate} (h : MovesApart u.moved)
    (reqEntries : Dict Nat T) :
    (processDictUpdates newState truthy reqEntries (some u)).2.get? =
      replay none (sparseRow newState) u.added u.removed u.moved reqEntries.get? := by
  have hadded : (u.added.foldl (processAdded newState) (false, reqEntries)).2.get? = _ :=
    get?_foldl_processAdded u.added (false, reqEntries)
  unfold processDictUpdates
  dsimp only
  split
  next hempty =>
    have hnone : (u.added.foldl (processAdded newState) (false, reqEntries)).2.get? =
        fun _ => none := by
      funext k
      rw [List.isEmpty_iff] at hempty
      unfold Dict.get?
      rw [hempty, lookup_nil]
    have hreplay := replay_empty none (sparseRow newState) u.removed u.moved
    unfold replay at hreplay ⊢
    rw [← hadded, hnone]
    exact hreplay.symm
  · rw [get?_foldl_processMoved h, get?_foldl_processRemoved, hadded]
    rfl

end ProcessDictUpdates

/-! ## Min-p -/

namespace MinPLogitsProcessor

def minPRow (float32 : ℚ → ℚ) (added : AddedRequest) : ℚ := float32 added.params.minP

/-- An added value other than zero does not round to zero where the row has one. -/
def KeepsMinP (float32 : ℚ → ℚ) (rows : Nat → ℚ) : List AddedRequest → Prop
  | [] => True
  | a :: added =>
    (a.params.minP ≠ 0 → float32 a.params.minP = 0 → rows a.index = 0) ∧
      KeepsMinP float32 (addRow (minPRow float32) rows a) added

instance decidableKeepsMinP (float32 : ℚ → ℚ) : ∀ (rows : Nat → ℚ) (added : List AddedRequest),
    Decidable (KeepsMinP float32 rows added)
  | _, [] => inferInstanceAs (Decidable True)
  | rows, a :: added =>
    have := decidableKeepsMinP float32 (addRow (minPRow float32) rows a) added
    inferInstanceAs (Decidable (_ ∧ _))

/-- The count is the number of the rows with a value. -/
structure Counted (st : MinPLogitsProcessor) : Prop where
  zero : st.float32 0 = 0
  count : Occupied 0 st.minPCpu st.minPCount

variable {st : MinPLogitsProcessor}

theorem addMinP_float32 (st : MinPLogitsProcessor) (a : AddedRequest) :
    (st.addMinP a).float32 = st.float32 := by
  unfold addMinP
  dsimp only
  split <;> rfl

theorem addMinP_minPCpu (st : MinPLogitsProcessor) (a : AddedRequest) :
    (st.addMinP a).minPCpu = addRow (minPRow st.float32) st.minPCpu a := by
  unfold addMinP addRow minPRow
  dsimp only
  split
  · rfl
  next hsame =>
    rw [ne_eq, not_not] at hsame
    rw [← hsame, update_eq_self]

theorem Counted.addMinP (h : st.Counted) {a : AddedRequest}
    (hkeep : a.params.minP ≠ 0 → st.float32 a.params.minP = 0 → st.minPCpu a.index = 0) :
    (st.addMinP a).Counted := by
  refine ⟨(congrFun (addMinP_float32 st a) 0).trans h.zero, ?_⟩
  have hzero := h.zero
  have hcount := h.count.update a.index (st.float32 a.params.minP)
  unfold MinPLogitsProcessor.addMinP
  dsimp only
  split
  next hdiff =>
    -- the three branches of the count, against the value that is really stored
    convert hcount using 1
    by_cases hminP : a.params.minP = 0
    · rw [hminP, hzero] at hdiff ⊢
      simp [hdiff]
    · by_cases hbefore : st.minPCpu a.index = 0
      · rw [hbefore] at hdiff ⊢
        simp [hminP, hdiff.symm]
      · have hstored : st.float32 a.params.minP ≠ 0 := fun hround =>
          hbefore (hkeep hminP hround)
        simp [hminP, hbefore, hstored]
  · exact h.count

theorem foldl_addMinP (added : List AddedRequest) (st : MinPLogitsProcessor) :
    (added.foldl addMinP st).float32 = st.float32 ∧
      (added.foldl addMinP st).minPCpu = added.foldl (addRow (minPRow st.float32)) st.minPCpu := by
  induction added generalizing st with
  | nil => exact ⟨rfl, rfl⟩
  | cons a added ih =>
    obtain ⟨hfloat, hcpu⟩ := ih (st.addMinP a)
    rw [addMinP_float32] at hfloat hcpu
    rw [addMinP_minPCpu] at hcpu
    exact ⟨hfloat, hcpu⟩

theorem Counted.foldl_addMinP {added : List AddedRequest} (h : st.Counted)
    (hkeep : KeepsMinP st.float32 st.minPCpu added) :
    (added.foldl MinPLogitsProcessor.addMinP st).Counted := by
  induction added generalizing st with
  | nil => exact h
  | cons a added ih =>
    apply ih (h.addMinP hkeep.1)
    rw [addMinP_float32, addMinP_minPCpu]
    exact hkeep.2

theorem removeMinP_minPCpu (st : MinPLogitsProcessor) (k : Nat) :
    (st.removeMinP k).minPCpu = update st.minPCpu k 0 := by
  unfold removeMinP
  split
  · rfl
  next hzero =>
    rw [ne_eq, not_not] at hzero
    rw [← hzero, update_eq_self]

theorem Counted.removeMinP (h : st.Counted) (k : Nat) : (st.removeMinP k).Counted := by
  unfold MinPLogitsProcessor.removeMinP
  split
  next hvalue =>
    refine ⟨h.zero, ?_⟩
    have hcount := h.count.update k 0
    rw [if_pos rfl, if_neg hvalue, Int.add_zero] at hcount
    exact hcount
  · exact h

theorem foldl_removeMinP_minPCpu (removed : List Nat) (st : MinPLogitsProcessor) :
    (removed.foldl removeMinP st).minPCpu = clearEntries 0 st.minPCpu removed := by
  induction removed generalizing st with
  | nil => rw [foldl_nil, clearEntries_nil]
  | cons k removed ih => rw [foldl_cons, ih, clearEntries_cons, removeMinP_minPCpu]

theorem Counted.foldl_removeMinP (h : st.Counted) (removed : List Nat) :
    (removed.foldl MinPLogitsProcessor.removeMinP st).Counted := by
  induction removed generalizing st with
  | nil => exact h
  | cons k removed ih => exact ih (h.removeMinP k)

variable {m : Nat × Nat × MoveDirectionality} {moved : List (Nat × Nat × MoveDirectionality)}

theorem moveMinP_minPCpu (st : MinPLogitsProcessor) (h : m.2.2 = .unidirectional → m.1 ≠ m.2.1) :
    (st.moveMinP m).minPCpu = moveRow 0 st.minPCpu m := by
  obtain ⟨src, tgt, direct⟩ := m
  funext k
  cases direct with
  | unidirectional =>
    show _ = moveEntry 0 st.minPCpu src tgt k
    rw [moveEntry_apply]
    by_cases hsame : st.minPCpu src = st.minPCpu tgt <;> by_cases hsrc : st.minPCpu src = 0 <;>
      by_cases hk : k = src <;> by_cases hk' : k = tgt <;>
        simp_all [moveMinP]
  | swap =>
    show _ = swapEntries st.minPCpu src tgt k
    rw [swapEntries_apply]
    by_cases hsame : st.minPCpu src = st.minPCpu tgt <;>
      by_cases hk : k = src <;> by_cases hk' : k = tgt <;>
        simp_all [moveMinP]

theorem Counted.moveMinP (hc : st.Counted)
    (h : m.2.2 = .unidirectional → m.1 ≠ m.2.1) : (st.moveMinP m).Counted := by
  have hcpu := moveMinP_minPCpu st h
  obtain ⟨src, tgt, direct⟩ := m
  cases direct with
  | unidirectional =>
    refine ⟨hc.zero, ?_⟩
    have hcount := hc.count.moveEntry (h rfl)
    have hmoves : (st.moveMinP (src, tgt, .unidirectional)).minPCount =
        st.minPCount - if st.minPCpu tgt = 0 then 0 else 1 := by
      unfold MinPLogitsProcessor.moveMinP
      by_cases htgt : st.minPCpu tgt = 0 <;> simp [htgt]
    rw [hcpu, hmoves]
    exact hcount
  | swap =>
    refine ⟨hc.zero, ?_⟩
    rw [hcpu]
    exact hc.count.swapEntries src tgt

theorem foldl_moveMinP_minPCpu (h : MovesApart moved) (st : MinPLogitsProcessor) :
    (moved.foldl moveMinP st).minPCpu = moved.foldl (moveRow 0) st.minPCpu := by
  induction moved generalizing st with
  | nil => rfl
  | cons m moved ih =>
    rw [foldl_cons, foldl_cons, ih fun m' hm' => h m' (mem_cons_of_mem m hm'),
      moveMinP_minPCpu st (h m mem_cons_self)]

theorem Counted.foldl_moveMinP (hc : st.Counted) (h : MovesApart moved) :
    (moved.foldl MinPLogitsProcessor.moveMinP st).Counted := by
  induction moved generalizing st with
  | nil => exact hc
  | cons m moved ih =>
    exact ih (hc.moveMinP (h m mem_cons_self)) fun m' hm' =>
      h m' (mem_cons_of_mem m hm')

theorem updateState_float32 (st : MinPLogitsProcessor) (u : BatchUpdate) :
    (st.updateState (some u)).float32 = st.float32 := by
  have hremoved : ∀ (removed : List Nat) (st : MinPLogitsProcessor),
      (removed.foldl removeMinP st).float32 = st.float32 := by
    intro removed
    induction removed with
    | nil => exact fun _ => rfl
    | cons k removed ih =>
      intro st
      rw [foldl_cons, ih]
      unfold removeMinP
      split <;> rfl
  have hmoved : ∀ (moved : List (Nat × Nat × MoveDirectionality)) (st : MinPLogitsProcessor),
      (moved.foldl moveMinP st).float32 = st.float32 := by
    intro moved
    induction moved with
    | nil => exact fun _ => rfl
    | cons m moved ih =>
      intro st
      rw [foldl_cons, ih]
      unfold moveMinP
      dsimp only
      split <;> rfl
  unfold updateState
  dsimp only
  split
  · rw [hmoved, hremoved]
    exact (foldl_addMinP u.added st).1
  · exact (foldl_addMinP u.added st).1

theorem Counted.updateState (hc : st.Counted) {u : BatchUpdate} (h : MovesApart u.moved)
    (hkeep : KeepsMinP st.float32 st.minPCpu u.added) :
    (st.updateState (some u)).Counted ∧
      (st.updateState (some u)).minPCpu =
        replay 0 (minPRow st.float32) u.added u.removed u.moved st.minPCpu := by
  have hadded := hc.foldl_addMinP hkeep
  obtain ⟨_, hcpu⟩ := MinPLogitsProcessor.foldl_addMinP u.added st
  unfold MinPLogitsProcessor.updateState
  dsimp only
  split
  · refine ⟨(hadded.foldl_removeMinP u.removed).foldl_moveMinP h, ?_⟩
    rw [foldl_moveMinP_minPCpu h, foldl_removeMinP_minPCpu, hcpu]
    rfl
  next hcount =>
    rw [ne_eq, not_not] at hcount
    have hoccupied := hadded.count
    rw [hcount] at hoccupied
    have hrows := hoccupied.eq_empty
    have hreplay := replay_empty 0 (minPRow st.float32) u.removed u.moved
    refine ⟨hadded, ?_⟩
    unfold replay at hreplay ⊢
    rw [← hcpu, hrows]
    exact hreplay.symm

end MinPLogitsProcessor

/-! ## The thinking budget -/

namespace ThinkingTokenBudgetLogitsProcessor

def thinkRow (c : ReasoningConfig) (added : AddedRequest) : Option ThinkState :=
  added.params.thinkingTokenBudget.map fun budget =>
    c.initStateEntry added.promptTokIds budget added.reqId

/-- A one-way move takes no row without a state onto a row with one. -/
def KeepsThinking (rows : Nat → Option ThinkState) :
    List (Nat × Nat × MoveDirectionality) → Prop
  | [] => True
  | m :: moved =>
    (m.2.2 = .unidirectional → rows m.1 = none → rows m.2.1 = none) ∧
      KeepsThinking (moveRow none rows m) moved

instance decidableKeepsThinking : ∀ (rows : Nat → Option ThinkState)
    (moved : List (Nat × Nat × MoveDirectionality)), Decidable (KeepsThinking rows moved)
  | _, [] => inferInstanceAs (Decidable True)
  | rows, m :: moved =>
    have := decidableKeepsThinking (moveRow none rows m) moved
    inferInstanceAs (Decidable (_ ∧ _))

theorem get?_addThinking (c : ReasoningConfig) (state : Dict Nat ThinkState) (a : AddedRequest) :
    (addThinking c state a).get? = addRow (thinkRow c) state.get? a := by
  unfold addThinking addRow thinkRow
  cases a.params.thinkingTokenBudget with
  | some budget => exact get?_set_eq_update state a.index _
  | none => exact get?_erase_eq_update state a.index

theorem get?_foldl_addThinking (c : ReasoningConfig) (added : List AddedRequest)
    (state : Dict Nat ThinkState) :
    (added.foldl (addThinking c) state).get? = added.foldl (addRow (thinkRow c)) state.get? := by
  induction added generalizing state with
  | nil => rfl
  | cons a added ih => rw [foldl_cons, foldl_cons, ih, get?_addThinking]

theorem get?_foldl_erase (removed : List Nat) (state : Dict Nat ThinkState) :
    (removed.foldl (fun state k => state.erase k) state).get? =
      clearEntries none state.get? removed := by
  induction removed generalizing state with
  | nil => rw [foldl_nil, clearEntries_nil]
  | cons k removed ih => rw [foldl_cons, ih, clearEntries_cons, get?_erase_eq_update]

theorem get?_moveThinking (state : Dict Nat ThinkState) {m : Nat × Nat × MoveDirectionality}
    (h : m.2.2 = .unidirectional → m.1 ≠ m.2.1)
    (hkeep : m.2.2 = .unidirectional → state.get? m.1 = none → state.get? m.2.1 = none) :
    (moveThinking state m).get? = moveRow none state.get? m := by
  obtain ⟨src, tgt, direct⟩ := m
  funext k
  cases direct with
  | unidirectional =>
    have hstale := hkeep rfl
    show _ = moveEntry none state.get? src tgt k
    rw [moveEntry_apply]
    unfold moveThinking
    cases hsrc : state.get? src with
    | none =>
      have htgt : state.get? tgt = none := hstale hsrc
      by_cases hk : k = src <;> by_cases hk' : k = tgt <;>
        simp [get?_erase, hsrc, htgt, hk, hk']
    | some a =>
      by_cases hk : k = src <;> by_cases hk' : k = tgt <;>
        simp_all [get?_erase, get?_set]
  | swap =>
    show _ = swapEntries state.get? src tgt k
    rw [swapEntries_apply]
    unfold moveThinking
    by_cases hne : src = tgt
    · subst hne
      cases hsrc : state.get? src <;> by_cases hk : k = src <;>
        simp [get?_erase, get?_set, hsrc, hk]
    · have hne' : tgt ≠ src := fun heq => hne heq.symm
      cases hsrc : state.get? src <;> cases htgt : state.get? tgt <;>
        by_cases hk : k = src <;> by_cases hk' : k = tgt <;>
          simp_all [get?_erase, get?_set]

theorem get?_foldl_moveThinking {moved : List (Nat × Nat × MoveDirectionality)}
    (h : MovesApart moved) (state : Dict Nat ThinkState) (hkeep : KeepsThinking state.get? moved) :
    (moved.foldl moveThinking state).get? = moved.foldl (moveRow none) state.get? := by
  induction moved generalizing state with
  | nil => rfl
  | cons m moved ih =>
    have hfirst := get?_moveThinking state (h m mem_cons_self) hkeep.1
    rw [foldl_cons, foldl_cons, ← hfirst]
    apply ih fun m' hm' => h m' (mem_cons_of_mem m hm')
    rw [hfirst]
    exact hkeep.2

/-- `update_state` of the thinking budget replays the update, and then brings each state up
to date with the tokens of its request. -/
theorem get?_updateState {p : ThinkingTokenBudgetLogitsProcessor} {c : ReasoningConfig}
    (hc : p.reasoningConfig = some c) {u : BatchUpdate} (h : MovesApart u.moved)
    (hkeep : KeepsThinking
      (clearEntries none (u.added.foldl (addRow (thinkRow c)) p.state.get?) u.removed) u.moved)
    (outputs : ReqId → List Token) (k : Nat) :
    (p.updateState (some u) outputs).state.get? k =
      (replay none (thinkRow c) u.added u.removed u.moved p.state.get? k).map
        (c.updateThinkState outputs) := by
  have hrows : (u.removed.foldl (fun state k => state.erase k)
      (u.added.foldl (addThinking c) p.state)).get? =
        clearEntries none (u.added.foldl (addRow (thinkRow c)) p.state.get?) u.removed := by
    rw [get?_foldl_erase, get?_foldl_addThinking]
  rw [← hrows] at hkeep
  unfold updateState replay
  rw [hc]
  rw [get?_mapValues, get?_foldl_moveThinking h _ hkeep, hrows]

end ThinkingTokenBudgetLogitsProcessor

end VllmCore.Worker
