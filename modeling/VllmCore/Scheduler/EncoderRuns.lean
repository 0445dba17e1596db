import VllmCore.Scheduler.EncoderInputs
import VllmCore.EncoderCacheManager.References
/-!
# Runs of the encoder cache managers

The scheduler looks at the inputs of a request, may preempt other requests, and takes the
space of the inputs only if the request is scheduled.  Inputs are freed when they were
consumed, and when a request leaves.  The decoder-only manager keeps its accounts over all
such runs.  The other one does not know what it gave back, and gives an input back again.
-/

namespace VllmCore

open EncoderCacheManager List Support

variable {D : Type} {size : MmHash → Nat}

/-! ## Decoder-only models -/

/-- What the scheduler does with the encoder cache. -/
inductive EncoderOp (D : Type)
  | schedule (request : Request D) (numComputedTokens numNewTokens encoderComputeBudget : Int)
      (ecHasCacheItem : Nat → Bool) (preempted : List (Request D)) (scheduled : Bool)
  | freeEncoderInputs (request : Request D)
  | free (request : Request D)
  | getFreedMmHashes
  | reset

namespace EncoderOp

def requests : EncoderOp D → List (Request D)
  | schedule r _ _ _ _ preempted _ => r :: preempted
  | freeEncoderInputs r => [r]
  | free r => [r]
  | _ => []

def run (config : SchedulerConfig D) (cache : EncoderCache) : EncoderOp D → Py EncoderCache
  | schedule r numComputedTokens numNewTokens encoderComputeBudget ecHasCacheItem preempted
      scheduled => do
      let args : EncoderArgs D :=
        { request := r
          numComputedTokens := numComputedTokens
          shiftComputedTokens := if config.useEagle then 1 else 0
          isEncoderDecoder := config.isEncoderDecoder
          disableChunkedMmInput := config.disableChunkedMmInput
          ecHasCacheItem := ecHasCacheItem }
      let st ← args.scan r.mmFeatures.zipIdx
        { cache := cache
          encoderComputeBudget := encoderComputeBudget
          numNewTokens := numNewTokens }
      let cache ← preempted.foldlM (fun cache r => cache.free r) st.cache
      if scheduled then
        (st.encoderInputsToSchedule ++ st.externalLoadEncoderInput).foldlM
          (EncoderCache.allocate r) cache
      else pure cache
  | freeEncoderInputs r =>
    ((cache.getCachedInputIds r).filter (Scheduler.encoderInputDone config r)).foldlM
      (EncoderCache.freeEncoderInput r) cache
  | free r => cache.free r
  | getFreedMmHashes => pure cache.getFreedMmHashes.2
  | reset => pure cache.reset

variable {config : SchedulerConfig D} {m : EncoderCacheManager} {r : Request D} {op : EncoderOp D}

theorem foldlM_free_ok {rs : List (Request D)} (hrs : ∀ r ∈ rs, r.WellSized size) :
    ∀ {m : EncoderCacheManager}, SlotInv size m →
      ∃ m', rs.foldlM EncoderCacheManager.free m = .ok m' ∧ SlotInv size m' ∧ NoNew m m' := by
  induction rs with
  | nil => exact fun {m} hm => ⟨m, rfl, hm, .refl m⟩
  | cons r rs ih =>
    intro m hm
    obtain ⟨m₁, hone, hm₁, hnew₁⟩ := free_ok hm (hrs r mem_cons_self).embeds
    obtain ⟨m', hrun, hm', hnew'⟩ := ih (fun r hr => hrs r (mem_cons_of_mem _ hr)) hm₁
    refine ⟨m', ?_, hm', hnew₁.trans hnew'⟩
    rw [foldlM_cons, hone, ok_bind, hrun]

theorem run_ok (hdecoder : config.isEncoderDecoder = false) (hm : SlotInv size m)
    (hop : ∀ r ∈ op.requests, r.WellSized size) :
    ∃ m', op.run config (.encoder m) = .ok (.encoder m') ∧ SlotInv size m' := by
  cases op with
  | schedule r c n budget has preempted scheduled =>
    have hr := hop r mem_cons_self
    obtain ⟨st, m₁, hscan, hinv, _⟩ := EncoderArgs.scan_all
      (a := {
        request := r
        numComputedTokens := c
        shiftComputedTokens := if config.useEagle then 1 else 0
        isEncoderDecoder := config.isEncoderDecoder
        disableChunkedMmInput := config.disableChunkedMmInput
        ecHasCacheItem := has }) hdecoder hr (by dsimp only; split <;> omega) hm budget n
    obtain ⟨m₂, hfree, hm₂, hnew⟩ :=
      foldlM_free_ok (fun r hr => hop r (mem_cons_of_mem _ hr)) hinv.inv
    unfold run
    dsimp only
    rw [hscan, ok_bind, hinv.cache, EncoderCache.foldlM_encoder (g := EncoderCacheManager.free)
      (fun _ _ => rfl), hfree]
    cases scheduled with
    | false => exact ⟨m₂, rfl, hm₂⟩
    | true =>
      have hfits := hinv.fits
      rw [hinv.embeds, ← slots_perm hinv.named] at hfits
      obtain ⟨m', hrun, hm'⟩ := foldlM_allocate_ok hr.embeds hm₂ hinv.valid
        (hinv.named.nodup_iff.mpr hinv.nodup)
        (fun h hh => hnew.absent h (hinv.absent h (hinv.named.mem_iff.mp hh)))
        (hfits.trans hnew.free_le)
      refine ⟨m', ?_, hm'⟩
      change List.foldlM _ (EncoderCache.encoder m₂) _ = _
      rw [EncoderCache.foldlM_encoder (g := fun m i => m.allocate r i) (fun _ _ => rfl), hrun]
      rfl
  | freeEncoderInputs r =>
    obtain ⟨m', hrun, hm', _⟩ := foldlM_freeEncoderInput_ok
      ((m.getCachedInputIds r).filter (Scheduler.encoderInputDone config r))
      (hop r mem_cons_self).embeds hm fun i hi =>
        mem_range.mp (mem_filter.mp (mem_filter.mp hi).1).1
    exact ⟨m', (EncoderCache.foldlM_encoder (g := EncoderCacheManager.freeEncoderInput r)
      (fun _ _ => rfl) _ m).trans (congrArg (EncoderCache.encoder <$> ·) hrun), hm'⟩
  | free r =>
    obtain ⟨m', hrun, hm', _⟩ := free_ok hm (hop r mem_cons_self).embeds
    exact ⟨m', congrArg (EncoderCache.encoder <$> ·) hrun, hm'⟩
  | getFreedMmHashes =>
    exact ⟨_, rfl, hm.unreferenced, hm.freeable_size, hm.used, hm.freeable, hm.free_nonneg⟩
  | reset => exact ⟨_, rfl, reset_slotInv hm⟩

def CacheReachable (size : MmHash → Nat) (config : SchedulerConfig D) : EncoderCache → Prop :=
  Reachable (· = EncoderCache.create config.isEncoderDecoder config.encoderCacheSize)
    (OpStep (fun _ op => ∀ r ∈ op.requests, r.WellSized size) (run config))

/-- The accounts of the encoder cache in every reachable state; no call raises. -/
theorem cache_accounts (hdecoder : config.isEncoderDecoder = false) {cache : EncoderCache}
    (h : CacheReachable size config cache) :
    ∃ m, cache = .encoder m ∧ (∀ h, m.cached.get? h = some [] ↔ h ∈ m.freeable.keys) ∧
      slots size m.cached.keys = m.cacheSize - m.numFreeSlots ∧
      (∀ h n, m.freeable.get? h = some n → n = size h) ∧
      m.numFreeableSlots = m.numFreeSlots + slots size m.freeable.keys ∧
      0 ≤ m.numFreeSlots ∧ m.numFreeSlots ≤ m.numFreeableSlots ∧
      m.numFreeableSlots ≤ m.cacheSize ∧
      ∀ op : EncoderOp D, (∀ r ∈ op.requests, r.WellSized size) →
        ∃ cache', op.run config cache = .ok cache' := by
  have hinv : ∃ m, cache = .encoder m ∧ SlotInv size m := by
    refine Reachable.invariant (P := fun c => ∃ m, c = .encoder m ∧ SlotInv size m) ?_ ?_ h
    · rintro c rfl
      rw [hdecoder]
      exact ⟨_, rfl, create_slotInv _⟩
    · rintro c c' ⟨m, rfl, hm⟩ ⟨op, hop, hrun⟩
      obtain ⟨m', hok, hm'⟩ := run_ok hdecoder hm hop
      rw [hok] at hrun
      exact ⟨m', (Except.ok.inj hrun).symm, hm'⟩
  obtain ⟨m, rfl, hm⟩ := hinv
  refine ⟨m, rfl, hm.unreferenced, hm.used, hm.freeable_size, hm.freeable, hm.free_nonneg,
    hm.bounds.1, hm.bounds.2, fun op hop => ?_⟩
  obtain ⟨m', hok, _⟩ := run_ok hdecoder hm hop
  exact ⟨_, hok⟩

def imageOps : List (EncoderOp Transcript) :=
  [.schedule Scheduler.Pass.imageRequest 0 8 8 (fun _ => false) [] true,
    .free Scheduler.Pass.imageRequest]

theorem cache_accounts_image :
    ∃ cache, runOps (run { smallConfig with encoderCacheSize := 8 }) (.create false 8)
        imageOps = .ok cache ∧
      ∃ m, cache = .encoder m ∧ m.numFreeSlots ≤ m.numFreeableSlots ∧
        m.numFreeableSlots ≤ m.cacheSize := by
  obtain ⟨cache, hrun⟩ : ∃ cache,
      runOps (run { smallConfig with encoderCacheSize := 8 }) (.create false 8)
        imageOps = .ok cache := ⟨_, rfl⟩
  have hops : ∀ op ∈ imageOps, ∀ r ∈ op.requests, r.WellSized fun _ => 4 := by
    intro op hop r hr
    have himage : r = Scheduler.Pass.imageRequest := by
      simp only [imageOps, mem_cons, not_mem_nil, or_false] at hop
      rcases hop with rfl | rfl <;> exact mem_singleton.mp hr
    exact himage ▸ Scheduler.Pass.imageRequest_wellSized
  have hreach : CacheReachable (fun _ => 4) { smallConfig with encoderCacheSize := 8 } cache :=
    Reachable.runOps_of_forall (.start rfl) (fun op hop _ => hops op hop) hrun
  obtain ⟨m, hm, _, _, _, _, _, hle, hle', _⟩ := cache_accounts rfl hreach
  exact ⟨cache, hrun, m, hm, hle, hle'⟩

end EncoderOp

/-! ## Encoder-decoder models -/

/-- An encoder input: its request, its position there and its embeddings. -/
abbrev EncoderInput := ReqId × Nat × Nat

def encoderInputs (r : Request D) (ids : List Nat) : List EncoderInput :=
  ids.filterMap fun i =>
    r.mmFeatures[i]?.map fun f => (r.requestId, i, f.mmPosition.getNumEmbeds)

def inputSlots (inputs : Multiset EncoderInput) : Nat := (inputs.map fun e => e.2.2).sum

/-- The manager, and the inputs that were allocated and not freed since then, which nothing
reads. -/
structure EncoderDecoderRun where
  manager : EncoderDecoderCacheManager
  outstanding : Multiset EncoderInput := 0

/-- The calls that change the accounts of the encoder-decoder manager, or may. -/
inductive EncoderDecoderOp (D : Type)
  | allocate (request : Request D) (inputId : Nat)
  | freeEncoderInputs (request : Request D)
  | free (request : Request D)
  | getFreedMmHashes
  | reset

namespace EncoderDecoderOp

def freedIds (config : SchedulerConfig D) (m : EncoderDecoderCacheManager) :
    EncoderDecoderOp D → List EncoderInput
  | freeEncoderInputs r => encoderInputs r
      (((EncoderCache.encoderDecoder m).getCachedInputIds r).filter
        (Scheduler.encoderInputDone config r))
  | free r => encoderInputs r (List.range r.mmFeatures.length)
  | _ => []

def run (config : SchedulerConfig D) (s : EncoderDecoderRun) (op : EncoderDecoderOp D) :
    Py EncoderDecoderRun :=
  match op with
  | allocate r i => do
    let m ← s.manager.allocate r i
    pure { manager := m, outstanding := s.outstanding + encoderInputs r [i] }
  | freeEncoderInputs r => do
    let m ← (((EncoderCache.encoderDecoder s.manager).getCachedInputIds r).filter
      (Scheduler.encoderInputDone config r)).foldlM
        (EncoderDecoderCacheManager.freeEncoderInput r) s.manager
    pure { manager := m, outstanding := s.outstanding - op.freedIds config s.manager }
  | free r => do
    let m ← s.manager.free r
    pure { manager := m, outstanding := s.outstanding - op.freedIds config s.manager }
  | getFreedMmHashes => pure { s with manager := s.manager.getFreedMmHashes.2 }
  | reset => pure { manager := s.manager.reset }

/-- The free slots are those that no outstanding input takes. -/
def Accounted (s : EncoderDecoderRun) : Prop :=
  s.manager.numFreeSlots = s.manager.cacheSize - inputSlots s.outstanding

/-- Only outstanding inputs are freed, apart from those without embeddings. -/
def FreesOutstanding (config : SchedulerConfig D) (s : EncoderDecoderRun)
    (op : EncoderDecoderOp D) : Prop :=
  ∀ e ∈ (op.freedIds config s.manager : Multiset EncoderInput) - s.outstanding, e.2.2 = 0

instance (config : SchedulerConfig D) (s : EncoderDecoderRun) (op : EncoderDecoderOp D) :
    Decidable (FreesOutstanding config s op) := by
  unfold FreesOutstanding
  infer_instance

variable {config : SchedulerConfig D} {s s' : EncoderDecoderRun} {op : EncoderDecoderOp D}
  {r : Request D} {m m' : EncoderDecoderCacheManager} {i : Nat}

theorem getNumEncoderEmbeds_eq {n : Nat} (h : r.getNumEncoderEmbeds i = .ok n) :
    encoderInputs r [i] = [(r.requestId, i, n)] := by
  unfold Request.getNumEncoderEmbeds at h
  unfold encoderInputs
  cases hf : r.mmFeatures[i]? with
  | none =>
    rw [hf] at h
    cases h
  | some f =>
    rw [hf] at h
    cases h
    simp [hf]

theorem foldlM_freeEncoderInput {ids : List Nat}
    (h : ids.foldlM (EncoderDecoderCacheManager.freeEncoderInput r) m = .ok m') :
    m'.cacheSize = m.cacheSize ∧
      m'.numFreeSlots = m.numFreeSlots + inputSlots (encoderInputs r ids) := by
  induction ids generalizing m with
  | nil =>
    rw [foldlM_nil, pure_ok] at h
    subst h
    exact ⟨rfl, (Int.add_zero _).symm⟩
  | cons i ids ih =>
    rw [foldlM_cons, bind_ok] at h
    obtain ⟨m₁, hone, hrest⟩ := h
    simp only [EncoderDecoderCacheManager.freeEncoderInput, bind_ok, pure_ok] at hone
    obtain ⟨n, hn, rfl⟩ := hone
    obtain ⟨hsize, hfree⟩ := ih hrest
    refine ⟨hsize, hfree.trans ?_⟩
    have hcons : encoderInputs r (i :: ids) = encoderInputs r [i] ++ encoderInputs r ids := by
      rw [encoderInputs, ← singleton_append, filterMap_append]
      rfl
    rw [hcons, getNumEncoderEmbeds_eq hn]
    simp only [inputSlots, singleton_append, Multiset.map_coe, map_cons,
      Multiset.sum_coe, sum_cons]
    omega

theorem inputSlots_add (a b : Multiset EncoderInput) :
    inputSlots (a + b) = inputSlots a + inputSlots b := by
  simp [inputSlots]

theorem inputSlots_eq_zero {a : Multiset EncoderInput} :
    inputSlots a = 0 ↔ ∀ e ∈ a, e.2.2 = 0 := by
  simp only [inputSlots, Multiset.sum_eq_zero_iff, Multiset.mem_map, forall_exists_index, and_imp,
    forall_apply_eq_imp_iff₂]

theorem accounted_free (hs : Accounted s) {freed : Multiset EncoderInput}
    (hsize : m.cacheSize = s.manager.cacheSize)
    (hfree : m.numFreeSlots = s.manager.numFreeSlots + inputSlots freed) :
    Accounted { manager := m, outstanding := s.outstanding - freed } ↔
      ∀ e ∈ freed - s.outstanding, e.2.2 = 0 := by
  have hout := congrArg inputSlots (Multiset.sub_add_inter s.outstanding freed)
  have hfreed := congrArg inputSlots (Multiset.sub_add_inter freed s.outstanding)
  rw [inputSlots_add] at hout hfreed
  rw [Multiset.inter_comm] at hfreed
  unfold Accounted at hs ⊢
  dsimp only
  rw [← inputSlots_eq_zero, hsize, hfree, hs]
  omega

theorem run_accounted_iff (hs : Accounted s) (h : op.run config s = .ok s') :
    Accounted s' ↔ FreesOutstanding config s op := by
  cases op with
  | allocate r i =>
    simp only [run, EncoderDecoderCacheManager.allocate, bind_ok, pure_ok] at h
    obtain ⟨m, ⟨n, hn, _, _, rfl⟩, rfl⟩ := h
    refine iff_of_true ?_ fun e he => ?_
    · unfold Accounted at hs ⊢
      rw [getNumEncoderEmbeds_eq hn, inputSlots_add, hs]
      simp only [inputSlots, Multiset.coe_singleton, Multiset.map_singleton,
        Multiset.sum_singleton]
      omega
    · simp [freedIds] at he
  | freeEncoderInputs r =>
    simp only [run, bind_ok, pure_ok] at h
    obtain ⟨m, hrun, rfl⟩ := h
    obtain ⟨hsize, hfree⟩ := foldlM_freeEncoderInput hrun
    exact accounted_free hs hsize hfree
  | free r =>
    simp only [run, bind_ok, pure_ok] at h
    obtain ⟨m, hrun, rfl⟩ := h
    obtain ⟨hsize, hfree⟩ := foldlM_freeEncoderInput hrun
    exact accounted_free hs hsize hfree
  | getFreedMmHashes =>
    cases h
    exact iff_of_true hs fun e he => by simp [freedIds] at he
  | reset =>
    cases h
    refine iff_of_true ?_ fun e he => by simp [freedIds] at he
    simp [Accounted, EncoderDecoderCacheManager.reset, inputSlots]

def Initial (s : EncoderDecoderRun) : Prop :=
  ∃ cacheSize, s = { manager := .create cacheSize }

/-- The accounts hold in every run that only frees what is outstanding, and the first call that
frees something else breaks them. -/
theorem accounted_iff (config : SchedulerConfig D)
    (h : Reachable Initial (OpStep (FreesOutstanding config) (run config)) s) :
    Accounted s ∧ s.manager.numFreeSlots ≤ s.manager.cacheSize ∧
      ∀ (op : EncoderDecoderOp D) (s'), op.run config s = .ok s' →
        (Accounted s' ↔ FreesOutstanding config s op) := by
  have hs : Accounted s := by
    refine Reachable.invariant (P := Accounted) ?_ ?_ h
    · rintro s ⟨cacheSize, rfl⟩
      simp [Accounted, EncoderDecoderCacheManager.create, inputSlots]
    · rintro s s' hs ⟨op, hop, hrun⟩
      exact (run_accounted_iff hs hrun).mpr hop
  refine ⟨hs, ?_, fun op s' hrun => run_accounted_iff hs hrun⟩
  unfold Accounted at hs
  omega

def encoderDecoderConfig : SchedulerConfig Transcript :=
  { smallConfig with isEncoderDecoder := true, encoderCacheSize := 8 }

def decoding : Request Transcript := { Scheduler.Pass.imageRequest with numComputedTokens := 8 }

theorem accounted_iff_image :
    ∃ s, runOps (run encoderDecoderConfig) { manager := .create 8 }
        [.allocate decoding 0, .freeEncoderInputs decoding] = .ok s ∧
      s.manager.numFreeSlots ≤ s.manager.cacheSize := by
  refine ⟨_, rfl, (accounted_iff encoderDecoderConfig
    (.next (.next (.start ⟨8, rfl⟩) ⟨.allocate decoding 0, ?_, rfl⟩)
      ⟨.freeEncoderInputs decoding, ?_, rfl⟩)).2.1⟩
  · decide
  · decide

/-- A second decoding step frees the encoder input again. -/
theorem not_accounted :
    ¬∀ s, Reachable Initial (OpStep (fun _ _ => True) (run encoderDecoderConfig)) s →
      Accounted s ∧ s.manager.numFreeSlots ≤ s.manager.cacheSize := by
  intro h
  obtain ⟨s, hrun, hfree⟩ : ∃ s, runOps (run encoderDecoderConfig) { manager := .create 8 }
      [.allocate decoding 0, .freeEncoderInputs decoding, .freeEncoderInputs decoding] = .ok s ∧
      s.manager.cacheSize < s.manager.numFreeSlots := ⟨_, rfl, by decide⟩
  have hle := (h s (Reachable.runOps_of_forall (.start ⟨8, rfl⟩) (fun _ _ _ => trivial) hrun)).2
  omega

end EncoderDecoderOp

end VllmCore
