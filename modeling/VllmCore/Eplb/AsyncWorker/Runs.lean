import VllmCore.Eplb.AsyncWorker.Moves
/-!
# Runs of both threads

In every run each layer is moved from the buffer that was filled for it, its maps are
committed with its weights, and every rearrangement commits every layer once.  A wake-up is
lost when the event is set after the worker has passed a model and before it clears the event.
-/

namespace VllmCore.Eplb

open Nat

variable {Row Load Logical : Type} (policy : Policy Row Load Logical)

/-! ## The invariant of both threads -/

def workerView (s : EplbState Row Load Logical) (model : Nat) :
    Option (WorkerStage Row × WorkerLocals Row Load) :=
  match s.worker with
  | .working i stage loc => if i = model then some (stage, loc) else none
  | _ => none

def mainView (s : EplbState Row Load Logical) (model : Nat) : MainView Row :=
  match s.main with
  | .moving i stage => if i = model then .moving stage else .elsewhere
  | .rearranging i stage => if i = model then .rearranging stage else .elsewhere
  | _ => .elsewhere

/-- No model from one on is rebalanced. -/
def RestFrom (s : EplbState Row Load Logical) (model : Nat) : Prop :=
  ∀ i, model ≤ i → i < s.numModels → (s.modelStates i).rebalanced = false

/-- What the main thread has found of all models. -/
def Checked (s : EplbState Row Load Logical) : Prop :=
  match s.main with
  | .checking i => ∀ j < i, (s.modelStates j).rebalanced = false
  | .rearranging i _ => RestFrom s (i + 1)
  | _ => True

def LayersAt (s : EplbState Row Load Logical) (view : Nat → MainView Row) : Prop :=
  ∀ model, LayerInv policy (s.modelStates model) (workerView s model) (view model)

structure Inv (s : EplbState Row Load Logical) : Prop where
  layers : LayersAt policy s (mainView s)
  checked : Checked s

variable {policy} {s : EplbState Row Load Logical}
variable {i : Nat} {v : MainView Row} {x' : EplbModelState Row Load Logical}
  {s' : EplbState Row Load Logical}

section

variable (h : LayersAt policy s fun _ => .elsewhere)

include h

theorem Inv.rearrangingFrom (hrest : RestFrom s i) :
    Inv policy { s with main := rearrangingFrom s i } := by
  unfold VllmCore.Eplb.rearrangingFrom
  split
  · rename_i hi
    refine ⟨?_, fun j hj => hrest j (by omega)⟩
    intro model
    show LayerInv policy (s.modelStates model) (workerView s model)
      (if i = model then .rearranging .setStats else .elsewhere)
    split
    · rename_i heq
      rw [← heq]
      exact (h i).turn (.inl rfl) _ (.inr (.inr ⟨rfl, hrest i (Nat.le_refl i) hi⟩))
    · exact h model
  · exact ⟨h, trivial⟩

theorem Inv.checkingFrom (hrest : ∀ j < i, (s.modelStates j).rebalanced = false) :
    Inv policy (checkingFrom s i) := by
  unfold VllmCore.Eplb.checkingFrom
  split
  · exact ⟨h, hrest⟩
  · rename_i hi
    exact Inv.rearrangingFrom (s := { s with expertRearrangementStep := 0 }) h
      fun j _ hj => hrest j (by have hlt : j < s.numModels := hj; omega)

theorem Inv.movingFrom (i : Nat) :
    Inv policy (movingFrom s i) := by
  unfold VllmCore.Eplb.movingFrom
  split
  · refine ⟨?_, trivial⟩
    intro model
    show LayerInv policy (s.modelStates model) (workerView s model)
      (if i = model then .moving .readPending else .elsewhere)
    split
    · exact (h model).turn (.inl rfl) _ (.inr (.inl rfl))
    · exact h model
  · split
    · exact Inv.checkingFrom h fun j hj => absurd hj (not_lt_zero j)
    · exact ⟨h, trivial⟩

end

section

variable (h : LayersAt policy s (mainView s))

include h

theorem LayersAt.step {v' : MainView Row}
    (hview : ∀ model, mainView s model = if i = model then v else .elsewhere)
    (hx' : LayerInv policy x' (workerView s i) v') :
    LayersAt policy { s with modelStates := Function.update s.modelStates i x' }
      fun model => if i = model then v' else .elsewhere := by
  intro model
  show LayerInv policy (Function.update s.modelStates i x' model) (workerView s model)
    (if i = model then v' else .elsewhere)
  by_cases hm : i = model
  · rw [if_pos hm, ← hm, Function.update_self]
    exact hx'
  · have hmodel := h model
    rw [hview, if_neg hm] at hmodel
    rw [if_neg hm, Function.update_of_ne (Ne.symm hm)]
    exact hmodel

theorem LayersAt.step_elsewhere (hview : ∀ model,
    mainView s model = if i = model then v else .elsewhere)
    (hx' : LayerInv policy x' (workerView s i) .elsewhere) :
    LayersAt policy { s with modelStates := Function.update s.modelStates i x' }
      fun _ => .elsewhere := by
  simpa only [ite_self] using h.step hview hx'

theorem LayersAt.of_mainView (hmain : ∀ model, mainView s model = .elsewhere) :
    LayersAt policy s fun _ => .elsewhere := by
  intro model
  have hmodel := h model
  rw [hmain model] at hmodel
  exact hmodel

end

theorem RestFrom.update (h : RestFrom s i) {j : Nat} (hj : j < i)
    (x' : EplbModelState Row Load Logical) :
    RestFrom { s with modelStates := Function.update s.modelStates j x' } i := by
  intro k hk hlt
  show (Function.update s.modelStates j x' k).rebalanced = false
  rw [Function.update_of_ne (by omega)]
  exact h k hk hlt

variable [DecidableEq Row]

theorem Inv.mainStep (h : Inv policy s) (given : Surroundings Load) :
    Inv policy (mainStep policy given s) := by
  have hlayers := h.layers
  have hchecked := h.checked
  unfold Checked at hchecked
  unfold VllmCore.Eplb.mainStep
  cases hmain : s.main with
  | idle =>
    have hall := hlayers.of_mainView fun _ => by unfold mainView; rw [hmain]
    exact Inv.movingFrom
      (s := { s with expertRearrangementStep := s.expertRearrangementStep + 1 }) hall 0
  | moving i stage =>
    have hview : ∀ model, mainView s model = if i = model then .moving stage else .elsewhere := by
      intro model
      unfold mainView
      rw [hmain]
    have hi := hlayers i
    rw [hview, if_pos rfl] at hi
    dsimp only
    cases hmove : (s.modelStates i).move policy given.othersReady stage with
    | mk next x' =>
      have hx' := hi.move hmove
      cases next with
      | goto stage' => exact ⟨hlayers.step hview hx', trivial⟩
      | leave => exact Inv.movingFrom (hlayers.step_elsewhere hview hx') (i + 1)
      | fail => exact ⟨hlayers.step_elsewhere hview hx', trivial⟩
  | checking i =>
    rw [hmain] at hchecked
    have hall := hlayers.of_mainView fun _ => by unfold mainView; rw [hmain]
    dsimp only
    split
    · exact ⟨hall, trivial⟩
    · rename_i hrest
      apply Inv.checkingFrom hall
      intro j hj
      by_cases hji : j = i
      · rw [hji]
        exact Bool.not_eq_true _ ▸ hrest
      · exact hchecked j (by omega)
  | rearranging i stage =>
    rw [hmain] at hchecked
    have hview : ∀ model, mainView s model =
        if i = model then .rearranging stage else .elsewhere := by
      intro model
      unfold mainView
      rw [hmain]
    have hi := hlayers i
    rw [hview, if_pos rfl] at hi
    dsimp only
    cases hstep : (s.modelStates i).rearrange given.load stage with
    | mk next x' =>
      have hx' := hi.rearrange hstep
      have hrest := hchecked.update (lt_succ_self i) x'
      cases next with
      | goto stage' => exact ⟨hlayers.step hview hx', hrest⟩
      | leave => exact Inv.rearrangingFrom (hlayers.step_elsewhere hview hx') hrest
      | fail => exact ⟨hlayers.step_elsewhere hview hx', trivial⟩
  | settingEvent =>
    exact ⟨hlayers.of_mainView fun _ => by unfold mainView; rw [hmain], trivial⟩
  | raised =>
    refine ⟨hlayers, ?_⟩
    unfold Checked
    trivial

omit [DecidableEq Row] in
theorem Checked.of_same (h : Checked s)
    (hmain : s'.main = s.main) (hmodels : s'.numModels = s.numModels) (hrebalanced : ∀ model,
      (s'.modelStates model).rebalanced = (s.modelStates model).rebalanced) : Checked s' := by
  unfold Checked RestFrom at h ⊢
  rw [hmain, hmodels]
  simp only [hrebalanced]
  exact h

omit [DecidableEq Row] in
theorem Inv.workerFrom (h : ∀ model, LayerInv policy (s.modelStates model) none (mainView s model))
    (hchecked : Checked s) (i : Nat) : Inv policy { s with worker := workerFrom s i } := by
  refine ⟨?_, hchecked.of_same rfl rfl fun _ => rfl⟩
  intro model
  unfold VllmCore.Eplb.workerFrom
  split
  · show LayerInv policy (s.modelStates model)
      (if i = model then some (.readRebalanced, {}) else none) (mainView s model)
    split
    · exact (h model).enter
    · exact h model
  · exact h model

theorem Inv.workerStep (h : Inv policy s) : Inv policy (workerStep policy s) := by
  have hlayers := h.layers
  unfold VllmCore.Eplb.workerStep
  cases hworker : s.worker with
  | waiting =>
    have hview : ∀ model, workerView s model = none := fun _ => by unfold workerView; rw [hworker]
    dsimp only
    split
    · apply Inv.workerFrom _ h.checked
      intro model
      rw [← hview model]
      exact hlayers model
    · exact h
  | working i stage loc =>
    have hview : ∀ model, workerView s model = if i = model then some (stage, loc) else none := by
      intro model
      unfold workerView
      rw [hworker]
    have hi := hlayers i
    rw [hview, if_pos rfl] at hi
    have hframe := work_frame policy (s.modelStates i) loc stage
    dsimp only
    cases hwork : (s.modelStates i).work policy loc stage with
    | mk next out =>
      obtain ⟨loc', x'⟩ := out
      rw [hwork] at hframe
      have hx' := hi.work hwork
      have hrebalanced : ∀ model, (Function.update s.modelStates i x' model).rebalanced =
          (s.modelStates model).rebalanced := by
        intro model
        by_cases hm : model = i
        · rw [hm, Function.update_self]
          exact hframe.1
        · rw [Function.update_of_ne hm]
      have hstep : ∀ model, LayerInv policy (Function.update s.modelStates i x' model)
          (if i = model then next.view loc' else none) (mainView s model) := by
        intro model
        by_cases hm : i = model
        · rw [if_pos hm, ← hm, Function.update_self]
          exact hx'
        · have hmodel := hlayers model
          rw [hview, if_neg hm] at hmodel
          rw [if_neg hm, Function.update_of_ne (Ne.symm hm)]
          exact hmodel
      cases next with
      | goto stage' => exact ⟨hstep, h.checked.of_same rfl rfl hrebalanced⟩
      | leave =>
        have hleft : ∀ model, LayerInv policy (Function.update s.modelStates i x' model) none
            (mainView s model) := by
          simpa only [Next.view, ite_self] using hstep
        exact Inv.workerFrom
          (s := { s with modelStates := Function.update s.modelStates i x' }) hleft
          (h.checked.of_same rfl rfl hrebalanced) (i + 1)
      | fail =>
        have hleft : ∀ model, LayerInv policy (Function.update s.modelStates i x' model) none
            (mainView s model) := by
          simpa only [Next.view, ite_self] using hstep
        exact ⟨hleft, h.checked.of_same rfl rfl hrebalanced⟩
  | clearing =>
    refine ⟨?_, h.checked.of_same rfl rfl fun _ => rfl⟩
    intro model
    have hmodel := hlayers model
    unfold workerView at hmodel
    rw [hworker] at hmodel
    exact hmodel
  | dead => exact h

theorem Inv.act (h : Inv policy s) (action : Action Load) : Inv policy (act policy s action) := by
  cases action with
  | main given => exact h.mainStep given
  | worker => exact h.workerStep

def run (policy : Policy Row Load Logical) (s : EplbState Row Load Logical)
    (actions : List (Action Load)) : EplbState Row Load Logical := actions.foldl (act policy) s

omit [DecidableEq Row] in
theorem inv_started (policy : Policy Row Load Logical) (numModels step interval : Nat)
    (numMoeLayers : Nat → Nat) (indices : Nat → Nat → Row) :
    Inv policy (started policy numModels step interval numMoeLayers indices) := by
  refine ⟨?_, trivial⟩
  intro model
  exact {
    mainLock := by constructor <;> rintro ⟨⟩
    workerLock := by
      constructor
      · rintro ⟨⟩
      · rintro ⟨_, _, ⟨⟩, _⟩
    empty := by rintro _ _ ⟨⟩
    full := by rintro ⟨⟩
    filled := by rintro ⟨⟩
    bound := zero_le _
    atRest := fun _ _ => rfl
    pending := by rintro ⟨⟩
    inRearrangement := by rintro ⟨⟩
    weights := fun _ _ => rfl
    between := by rintro ⟨⟩
    logical := fun _ => rfl
    counted := by rintro ⟨⟩
    commits := by
      intro g
      have hdue : (if g = 0 ∨ 0 < g then [] else
          if g = 0 ∧ false = true then List.range 0 else List.range (numMoeLayers model)) = [] :=
        if_pos (Nat.eq_zero_or_pos g)
      exact hdue.symm
    copied := by rintro _ _ ⟨⟩
    worker := by rintro _ _ ⟨⟩
    main := trivial }

theorem Inv.run (h : Inv policy s) (actions : List (Action Load)) :
    Inv policy (run policy s actions) := by
  induction actions generalizing s with
  | nil => exact h
  | cons action actions ih => exact ih (h.act action)

/-! ## Wake-ups -/

/-- The worker has passed a model in its round, and has not cleared the event. -/
def passed (s : EplbState Row Load Logical) (model : Nat) : Bool :=
  match s.worker with
  | .working i _ _ => model < i
  | .clearing => true
  | _ => false

/-- The main thread is in `rearrange`, where it sets the event at last. -/
def MainPc.inRearrange : MainPc Row → Bool
  | .rearranging .. | .settingEvent => true
  | _ => false

/-- A model is rebalanced and has layers left. -/
def LayersLeft (x : EplbModelState Row Load Logical) : Prop :=
  x.rebalanced = true ∧ x.layerToTransfer < x.numMoeLayers

/-- A model is rebalanced and has layers left, while the worker waits and the event is
cleared; the main thread is not about to set it. -/
def Stranded (s : EplbState Row Load Logical) : Prop :=
  (∃ model < s.numModels, LayersLeft (s.modelStates model)) ∧ s.worker = .waiting ∧
    s.rearrangeEvent = false ∧ s.main.inRearrange = false

/-- Whenever the event is set, the worker has passed no model that has layers. -/
def setsInTime (policy : Policy Row Load Logical) :
    EplbState Row Load Logical → List (Action Load) → Bool
  | _, [] => true
  | s, action :: actions =>
    (match action, s.main with
    | .main _, .settingEvent => (List.range s.numModels).all fun model =>
      (s.modelStates model).numMoeLayers == 0 || !passed s model
    | _, _ => true) && setsInTime policy (act policy s action) actions

omit [DecidableEq Row] in
theorem layersLeft_update {x : EplbModelState Row Load Logical}
    (h : LayersLeft x → LayersLeft (s.modelStates i)) (model : Nat)
    (hmodel : LayersLeft (Function.update s.modelStates i x model)) :
    LayersLeft (s.modelStates model) := by
  by_cases hm : model = i
  · rw [hm, Function.update_self] at hmodel
    exact hm ▸ h hmodel
  · rwa [Function.update_of_ne hm] at hmodel

/-- A model that has layers left is not passed, and wakes the worker. -/
def Wakes (s : EplbState Row Load Logical) : Prop :=
  s.main.inRearrange = false → ∀ model < s.numModels, LayersLeft (s.modelStates model) →
    passed s model = false ∧ (s.worker = .waiting → s.rearrangeEvent = true)

omit [DecidableEq Row] in
theorem Wakes.workerFrom
    (h : s.main.inRearrange = false → ∀ model < s.numModels, LayersLeft (s.modelStates model) →
      i ≤ model) : Wakes { s with worker := workerFrom s i } := by
  intro hmain model hlt hleft
  have hle : i ≤ model := h hmain model hlt hleft
  unfold VllmCore.Eplb.workerFrom
  split
  · exact ⟨decide_eq_false (Nat.not_lt.mpr hle), by rintro ⟨⟩⟩
  · rename_i hge
    have hlt' : model < s.numModels := hlt
    omega

theorem Wakes.workerStep (h : Wakes s) (hinv : Inv policy s) :
    Wakes (workerStep policy s) := by
  have hlayers := hinv.layers
  unfold VllmCore.Eplb.workerStep
  unfold Wakes passed at h
  cases hworker : s.worker with
  | waiting =>
    dsimp only
    split
    · exact Wakes.workerFrom fun _ model _ _ => zero_le model
    · unfold Wakes passed
      exact h
  | working i stage loc =>
    rw [hworker] at h
    have hi := hlayers i
    unfold workerView at hi
    rw [hworker] at hi
    dsimp only at hi
    rw [if_pos rfl] at hi
    have hframe := work_frame policy (s.modelStates i) loc stage
    dsimp only
    cases hwork : (s.modelStates i).work policy loc stage with
    | mk next out =>
      obtain ⟨loc', x'⟩ := out
      rw [hwork] at hframe
      have hleft := @layersLeft_update _ _ _ s i x' fun hx => by
        unfold LayersLeft at hx ⊢
        rwa [hframe.1, hframe.2.1, hframe.2.2] at hx
      cases next with
      | goto stage' =>
        intro hmain model hlt hmodel
        exact ⟨(h hmain model hlt (hleft model hmodel)).1, by rintro ⟨⟩⟩
      | leave =>
        refine Wakes.workerFrom
          (s := { s with modelStates := Function.update s.modelStates i x' }) ?_
        intro hmain model hlt hmodel
        have hbefore := hleft model hmodel
        have hnot := of_decide_eq_false (h hmain model hlt hbefore).1
        -- the model that is left has no layers left
        have hne : model ≠ i := by
          rintro rfl
          obtain hrest | hle := hi.work_leave hwork
          · rw [hbefore.1] at hrest
            cases hrest
          · have hlt := hbefore.2
            omega
        omega
      | fail =>
        intro _ _ _ _
        exact ⟨rfl, by rintro ⟨⟩⟩
  | clearing =>
    rw [hworker] at h
    intro hmain model hlt hmodel
    cases (h hmain model hlt hmodel).1
  | dead =>
    unfold Wakes passed
    exact h

theorem LayerInv.move_left {x : EplbModelState Row Load Logical} {stage : MoveStage Row}
    {w : Option (WorkerStage Row × WorkerLocals Row Load)} {othersReady : Bool}
    (h : LayerInv policy x w (.moving stage)) {next : Next (MoveStage Row)}
    (hmove : x.move policy othersReady stage = (next, x')) (hleft : LayersLeft x') :
    LayersLeft x := by
  have hok := h.main
  unfold LayersLeft at hleft ⊢
  cases stage with
  | advanceLayer =>
    cases hmove
    exact ⟨hleft.1, lt_of_succ_lt hleft.2⟩
  | resetLayer =>
    cases hmove
    exact absurd (hok.2.2.symm.trans hleft.1) (by decide)
  | clearRebalanced =>
    cases hmove
    cases hleft.1
  | _ =>
    simp only [EplbModelState.move] at hmove
    grind

omit [DecidableEq Row] in
theorem Wakes.of_main (h : Wakes s) (hs : s.main.inRearrange = false)
    (hworker : s'.worker = s.worker)
    (hevent : s'.rearrangeEvent = s.rearrangeEvent) (hmodels : s'.numModels = s.numModels)
    (hleft : ∀ model, LayersLeft (s'.modelStates model) → LayersLeft (s.modelStates model)) :
    Wakes s' := by
  intro _ model hlt hmodel
  unfold Wakes passed at h
  unfold passed
  rw [hworker, hevent]
  exact h hs model (hmodels ▸ hlt) (hleft model hmodel)

omit [DecidableEq Row] in
theorem checkingFrom_frame (s : EplbState Row Load Logical) (i : Nat) :
    (checkingFrom s i).worker = s.worker ∧
      (checkingFrom s i).rearrangeEvent = s.rearrangeEvent ∧
      (checkingFrom s i).numModels = s.numModels ∧
      (checkingFrom s i).modelStates = s.modelStates := by
  unfold checkingFrom
  split <;> exact ⟨rfl, rfl, rfl, rfl⟩

omit [DecidableEq Row] in
theorem movingFrom_frame (s : EplbState Row Load Logical) (i : Nat) :
    (movingFrom s i).worker = s.worker ∧ (movingFrom s i).rearrangeEvent = s.rearrangeEvent ∧
      (movingFrom s i).numModels = s.numModels ∧ (movingFrom s i).modelStates = s.modelStates := by
  unfold movingFrom
  split
  · exact ⟨rfl, rfl, rfl, rfl⟩
  · split
    · exact checkingFrom_frame s 0
    · exact ⟨rfl, rfl, rfl, rfl⟩

theorem Wakes.mainStep (h : Wakes s) (hinv : Inv policy s) (given : Surroundings Load)
    (htime : s.main = .settingEvent → ∀ model < s.numModels,
      (s.modelStates model).numMoeLayers = 0 ∨ passed s model = false) :
    Wakes (mainStep policy given s) := by
  have hlayers := hinv.layers
  unfold VllmCore.Eplb.mainStep
  cases hmain : s.main with
  | idle =>
    refine h.of_main (by rw [hmain]; rfl) (movingFrom_frame _ 0).1 (movingFrom_frame _ 0).2.1
      (movingFrom_frame _ 0).2.2.1 ?_
    intro model
    rw [(movingFrom_frame _ 0).2.2.2]
    exact id
  | moving i stage =>
    have hrearrange : s.main.inRearrange = false := by rw [hmain]; rfl
    have hi := hlayers i
    unfold mainView at hi
    rw [hmain] at hi
    dsimp only at hi
    rw [if_pos rfl] at hi
    dsimp only
    cases hmove : (s.modelStates i).move policy given.othersReady stage with
    | mk next x' =>
      have hleft := @layersLeft_update _ _ _ s i x' (hi.move_left hmove)
      cases next with
      | goto stage' => exact h.of_main hrearrange rfl rfl rfl hleft
      | leave =>
        refine h.of_main hrearrange (movingFrom_frame _ (i + 1)).1
          (movingFrom_frame _ (i + 1)).2.1 (movingFrom_frame _ (i + 1)).2.2.1 ?_
        intro model
        rw [(movingFrom_frame _ (i + 1)).2.2.2]
        exact hleft model
      | fail => exact h.of_main hrearrange rfl rfl rfl hleft
  | checking i =>
    have hrearrange : s.main.inRearrange = false := by rw [hmain]; rfl
    dsimp only
    split
    · exact h.of_main hrearrange rfl rfl rfl fun _ => id
    · have hframe := checkingFrom_frame s (i + 1)
      refine h.of_main hrearrange hframe.1 hframe.2.1 hframe.2.2.1 ?_
      intro model
      rw [hframe.2.2.2]
      exact id
  | rearranging i stage =>
    -- the event is still to be set
    dsimp only
    cases stage with
    | setPending =>
      intro hout
      have hin : (rearrangingFrom s (i + 1)).inRearrange = true := by
        unfold rearrangingFrom
        split <;> rfl
      exact absurd (hin.symm.trans hout) (by decide)
    | _ =>
      intro hout
      cases hout
  | settingEvent =>
    intro _ model hlt hmodel
    obtain hzero | hnot := htime hmain model hlt
    · have hlayer : (s.modelStates model).layerToTransfer < _ := hmodel.2
      rw [hzero] at hlayer
      omega
    · exact ⟨hnot, fun _ => rfl⟩
  | raised => exact h.of_main (by rw [hmain]; rfl) rfl rfl rfl fun _ => id

theorem Wakes.run (h : Wakes s) (hinv : Inv policy s) {actions : List (Action Load)}
    (htime : setsInTime policy s actions = true) : Wakes (run policy s actions) := by
  induction actions generalizing s with
  | nil => exact h
  | cons action actions ih =>
    unfold setsInTime at htime
    rw [Bool.and_eq_true] at htime
    apply ih _ (hinv.act action) htime.2
    cases action with
    | worker => exact h.workerStep hinv
    | main given =>
      apply h.mainStep hinv
      intro hmain model hlt
      have hall := htime.1
      rw [hmain] at hall
      have hmodel := List.all_eq_true.mp hall model (List.mem_range.mpr hlt)
      rw [Bool.or_eq_true, beq_iff_eq, Bool.not_eq_true'] at hmodel
      exact hmodel

/-! ## Consistency -/

variable (policy) in
omit [DecidableEq Row] in
/-- Layers are moved from the buffers that were filled for them, committed with their weights,
and committed once by every rearrangement. -/
structure Consistent (s : EplbState Row Load Logical) : Prop where
  consumes : ∀ model layer newIndices,
    s.main = .moving model (.moveFromBuffer layer newIndices) →
      layer = (s.modelStates model).layerToTransfer ∧
      (s.modelStates model).newPhysicalToLogicalMap.map (· layer) = some newIndices ∧
      Filled (s.modelStates model)
        ⟨layer, (s.modelStates model).physicalToLogicalMap layer, newIndices⟩
  together : ∀ model, (mainView s model).between = false → ∀ layer,
    (s.modelStates model).expertWeights layer =
        some ((s.modelStates model).physicalToLogicalMap layer) ∧
      (s.modelStates model).logicalMaps layer =
        policy.computeLogicalMaps ((s.modelStates model).physicalToLogicalMap layer)
  once : ∀ model rearrangement, 0 < rearrangement →
    rearrangement ≤ (s.modelStates model).rearrangements →
      committedIn (s.modelStates model).commits rearrangement =
        if rearrangement = (s.modelStates model).rearrangements ∧
            (s.modelStates model).rebalanced = true then
          List.range (nextLayer (s.modelStates model) (mainView s model))
        else List.range (s.modelStates model).numMoeLayers

omit [DecidableEq Row] in
theorem Inv.consistent (h : Inv policy s) : Consistent policy s where
  consumes := by
    intro model layer newIndices hmain
    have hmodel := h.layers model
    unfold mainView at hmodel
    rw [hmain] at hmodel
    dsimp only at hmodel
    rw [if_pos rfl] at hmodel
    obtain ⟨rfl, new, hnew, rfl⟩ := hmodel.main
    obtain ⟨t, ⟨_, new', hnew', rfl⟩, hfilled⟩ := hmodel.filled (hmodel.full rfl) rfl
    rw [hnew] at hnew'
    cases hnew'
    rw [hnew]
    exact ⟨rfl, rfl, hfilled⟩
  together := fun model hbetween layer =>
    ⟨(h.layers model).weights hbetween layer, (h.layers model).logical layer⟩
  once := by
    intro model rearrangement hpos hle
    rw [(h.layers model).commits]
    unfold dueLayers
    rw [if_neg (by omega)]

/-- Every state of every run is consistent, and no wake-up is lost in a run that always sets
the event in time. -/
theorem rearrangements_consistent (policy : Policy Row Load Logical)
    (numModels step interval : Nat) (numMoeLayers : Nat → Nat) (indices : Nat → Nat → Row)
    (actions : List (Action Load)) :
    Consistent policy
        (run policy (started policy numModels step interval numMoeLayers indices) actions) ∧
      (setsInTime policy (started policy numModels step interval numMoeLayers indices) actions =
          true →
        ¬Stranded
          (run policy (started policy numModels step interval numMoeLayers indices) actions)) := by
  have hinv := inv_started policy numModels step interval numMoeLayers indices
  refine ⟨(hinv.run actions).consistent, ?_⟩
  rintro htime ⟨⟨model, hlt, hleft⟩, hwaiting, hcleared, hmain⟩
  have hwakes : Wakes (started policy numModels step interval numMoeLayers indices) := by
    rintro _ _ _ ⟨⟨⟩, _⟩
  have hset := ((hwakes.run hinv htime) hmain model hlt hleft).2 hwaiting
  rw [hcleared] at hset
  cases hset

def shiftRows : Policy Nat Unit Unit where
  rebalanceExperts _ indices := fun layer => indices layer + 1
  computeLogicalMaps _ := ()

def oneLayer : EplbState Nat Unit Unit := started shiftRows 1 1 1 (fun _ => 1) fun _ _ => 0

def mainSteps (n : Nat) : List (Action Unit) := List.replicate n (.main ⟨true, ()⟩)

def workerSteps (n : Nat) : List (Action Unit) := List.replicate n .worker

/-- The worker fills the buffer, the main thread takes the layer, and the worker clears the
event before the next rearrangement: then the worker wakes up for it. -/
theorem rearrangements_consistent_in_time :
    let actions := mainSteps 10 ++ workerSteps 26 ++ mainSteps 17 ++ workerSteps 2 ++ mainSteps 10
    setsInTime shiftRows oneLayer actions = true ∧
      Consistent shiftRows (run shiftRows oneLayer actions) ∧
      (run shiftRows oneLayer actions).rearrangeEvent = true ∧
      ¬Stranded (run shiftRows oneLayer actions) := by
  intro actions
  have h := rearrangements_consistent shiftRows 1 1 1 (fun _ => 1) (fun _ _ => 0) actions
  have htime : setsInTime shiftRows oneLayer actions = true := by decide +kernel
  exact ⟨htime, h.1, by decide +kernel, h.2 htime⟩

/-- The worker leaves the model once it is no longer rebalanced, the main thread goes on with
the next rearrangement and sets the event, and then the worker clears it. -/
theorem late_wake_up_strands :
    Stranded (run shiftRows oneLayer
      (mainSteps 10 ++ workerSteps 26 ++ mainSteps 17 ++ workerSteps 1 ++ mainSteps 10 ++
        workerSteps 1)) :=
  ⟨⟨0, by decide, by decide +kernel, by decide +kernel⟩, rfl, by decide +kernel, by decide +kernel⟩

end VllmCore.Eplb
