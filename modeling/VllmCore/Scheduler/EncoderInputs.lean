import VllmCore.Engine
import VllmCore.Scheduler.PassSteps
import VllmCore.EncoderCacheManager.Slots
import VllmCore.Support.PySlice
/-!
# The encoder inputs of a chunk

What `_try_schedule_encoder_inputs` leaves behind for a decoder-only model: the items
that it names are distinct, are not cached and fit the cache together, and every item
with an embedding in the chunk is named or holds a reference in the cache.
-/

namespace VllmCore

open EncoderCacheManager List Support

variable {D : Type} {size : MmHash → Nat}

/-- Whether a position of the prompt gets an embedding of the item. -/
def PlaceholderRange.Embeds (p : PlaceholderRange) (pos : Int) : Prop :=
  p.offset ≤ pos ∧ pos < p.offset + p.length ∧
    ∀ mask, p.isEmbed = some mask → mask[(pos - p.offset).toNat]? = some true

/-- The sizes of the items are those of their hashes, and a mask covers its placeholder. -/
structure Request.WellSized (size : MmHash → Nat) (r : Request D) : Prop where
  embeds : ∀ f ∈ r.mmFeatures, f.mmPosition.getNumEmbeds = size f.identifier
  mask : ∀ f ∈ r.mmFeatures, ∀ mask, f.mmPosition.isEmbed = some mask →
    mask.length = f.mmPosition.length ∧ 0 < mask.length

variable {k : Nat}

theorem pyGet_cumsum {mask : List Bool} (hpos : 0 < k) (hle : k ≤ mask.length) :
    pyGet ((List.range mask.length).map fun i => ((mask.take (i + 1)).count true : Int))
      ((k : Int) - 1) = .ok ((mask.take k).count true : Int) := by
  have hk : ((k : Int) - 1) = ((k - 1 : Nat) : Int) := by omega
  rw [hk, pyGet_natCast_ok, getElem?_map, getElem?_range (by omega), Option.map_some,
    Nat.sub_add_cancel hpos]

theorem count_take_mono (mask : List Bool) {j : Nat} (h : j ≤ k) :
    (mask.take j).count true ≤ (mask.take k).count true :=
  (take_sublist_take_left h).count_le true

theorem getEmbedsIndicesInRange_ok {p : PlaceholderRange} {s e : Int}
    (hmask : ∀ mask, p.isEmbed = some mask → mask.length = p.length ∧ 0 < mask.length)
    (hs : 0 ≤ s) (hsl : s ≤ p.length) (he : 0 ≤ e) (hel : e ≤ p.length) :
    ∃ range, p.getEmbedsIndicesInRange s e = .ok range ∧
      (range.2 - range.1 = 0 → ∀ pos, p.Embeds pos →
        ¬ (s ≤ pos - p.offset ∧ pos - p.offset < e)) := by
  unfold PlaceholderRange.getEmbedsIndicesInRange
  cases hp : p.isEmbed with
  | none => exact ⟨(s, e), rfl, fun h pos _ => by dsimp only at h; omega⟩
  | some mask =>
    obtain ⟨hlen, hpos⟩ := hmask mask hp
    lift s to Nat using hs
    lift e to Nat using he
    have hstart : (if 0 < (s : Int) then pyGet ((List.range mask.length).map fun i =>
        ((mask.take (i + 1)).count true : Int)) ((s : Int) - 1) else pure 0 : Py Int) =
        .ok ((mask.take s).count true : Int) := by
      split
      · exact pyGet_cumsum (by omega) (by omega)
      · obtain rfl : s = 0 := by omega
        rfl
    have hend : ∃ x, pyGet ((List.range mask.length).map fun i =>
        ((mask.take (i + 1)).count true : Int)) ((e : Int) - 1) = .ok x ∧
          (0 < e → x = ((mask.take e).count true : Int)) := by
      rcases Nat.eq_zero_or_pos e with rfl | hepos
      · -- The position before the first one is the last one.
        have hne : ((List.range mask.length).map fun i =>
            ((mask.take (i + 1)).count true : Int)) ≠ [] := by
          simpa using length_pos_iff.mp hpos
        exact ⟨_, pyGet_last _ hne, fun h => absurd h (Nat.lt_irrefl 0)⟩
      · exact ⟨_, pyGet_cumsum hepos (by omega), fun _ => rfl⟩
    obtain ⟨x, hx, hcount⟩ := hend
    refine ⟨((mask.take s).count true, x), ?_, ?_⟩
    · dsimp only
      rw [hstart, ok_bind, hx, ok_bind]
      rfl
    · intro hzero pos hembeds hin
      obtain ⟨q, hq⟩ : ∃ q : Nat, pos - p.offset = q := ⟨_, (Int.toNat_of_nonneg (by omega)).symm⟩
      have htrue := hembeds.2.2 mask hp
      rw [hq, Int.toNat_natCast] at htrue
      have hlow := count_take_mono mask (show s ≤ q by omega)
      have hhigh := count_take_mono mask (show q + 1 ≤ e by omega)
      rw [take_add_one, htrue, count_append] at hhigh
      simp only [Option.toList_some, count_singleton_self] at hhigh
      omega

namespace EncoderArgs

variable {a : EncoderArgs D} {m m' : EncoderCacheManager} {st : EncoderScan} {i : Nat}
  {f : MultiModalFeatureSpec} {budget : Int}

structure ScanInv (size : MmHash → Nat) (a : EncoderArgs D) (budget : Int) (st : EncoderScan)
    (m : EncoderCacheManager) : Prop where
  cache : st.cache = .encoder m
  inv : SlotInv size m
  named : (mmHashes a.request (st.encoderInputsToSchedule ++ st.externalLoadEncoderInput)).Perm
    st.mmHashesToSchedule
  valid : ∀ i ∈ st.encoderInputsToSchedule ++ st.externalLoadEncoderInput,
    i < a.request.mmFeatures.length
  nodup : st.mmHashesToSchedule.Nodup
  absent : ∀ h ∈ st.mmHashesToSchedule, m.cached.get? h = none
  embeds : st.numEmbedsToSchedule = slots size st.mmHashesToSchedule
  fits : st.numEmbedsToSchedule ≤ m.numFreeSlots
  budget_nonneg : 0 ≤ budget → 0 ≤ st.encoderComputeBudget

/-- Where the range has an embedding of the item, the item is named or cached. -/
def Covered (a : EncoderArgs D) (st : EncoderScan) (m : EncoderCacheManager)
    (f : MultiModalFeatureSpec) : Prop :=
  ∀ pos, f.mmPosition.Embeds pos → a.numComputedTokens ≤ pos →
    pos < a.numComputedTokens + st.numNewTokens → f.identifier ∈ st.mmHashesToSchedule ∨
      ∃ ids, m.cached.get? f.identifier = some ids ∧ a.request.requestId ∈ ids

structure ScanStep (size : MmHash → Nat) (a : EncoderArgs D) (budget : Int) (st : EncoderScan)
    (m : EncoderCacheManager) (st' : EncoderScan) (m' : EncoderCacheManager) : Prop where
  inv : ScanInv size a budget st' m'
  hashes : st.mmHashesToSchedule ⊆ st'.mmHashesToSchedule
  referenced : KeepsReferenced m m'

theorem ScanStep.trans {st₁ st₂ st₃ : EncoderScan} {m₁ m₂ m₃ : EncoderCacheManager}
    (h : ScanStep size a budget st₁ m₁ st₂ m₂) (h' : ScanStep size a budget st₂ m₂ st₃ m₃) :
    ScanStep size a budget st₁ m₁ st₃ m₃ :=
  ⟨h'.inv, List.Subset.trans h.hashes h'.hashes, h.referenced.trans h'.referenced⟩

theorem Covered.step {st' : EncoderScan} (hc : a.Covered st m f)
    (h : ScanStep size a budget st m st' m')
    (hle : st'.numNewTokens ≤ st.numNewTokens ∨ st'.numNewTokens = 0) : a.Covered st' m' f := by
  intro pos hembeds hlow hhigh
  rcases hc pos hembeds hlow (by omega) with hmem | ⟨ids, hget, hin⟩
  · exact .inl (h.hashes hmem)
  · obtain ⟨ids', hget', hsub⟩ := h.referenced _ ids hget (ne_nil_of_mem hin)
    exact .inr ⟨ids', hget', hsub hin⟩

theorem ScanInv.withCache (h : ScanInv size a budget st m) (hm' : SlotInv size m')
    (hnew : NoNew m m') (hits : List MmHash) (n : Int) :
    ScanInv size a budget { st with
      cache := .encoder m'
      hits := hits
      numNewTokens := n } m' := { h with
  cache := rfl
  inv := hm'
  absent k hk := hnew.absent k (h.absent k hk)
  fits := h.fits.trans hnew.free_le }

theorem ScanInv.name (h : ScanInv size a budget st m) (hf : a.request.mmFeatures[i]? = some f)
    (hsize : f.mmPosition.getNumEmbeds = size f.identifier)
    (hnew : f.identifier ∉ st.mmHashesToSchedule) (habsent : m.cached.get? f.identifier = none)
    (hfits : f.mmPosition.getNumEmbeds + st.numEmbedsToSchedule ≤ m.numFreeSlots)
    {scheduled external : List Nat} {left : Int}
    (hids : (scheduled ++ external).Perm
      (i :: (st.encoderInputsToSchedule ++ st.externalLoadEncoderInput)))
    (hleft : 0 ≤ budget → 0 ≤ left) :
    ScanInv size a budget { st with
      encoderInputsToSchedule := scheduled
      externalLoadEncoderInput := external
      mmHashesToSchedule := st.mmHashesToSchedule ++ [f.identifier]
      numEmbedsToSchedule := st.numEmbedsToSchedule + f.mmPosition.getNumEmbeds
      encoderComputeBudget := left } m where
  cache := h.cache
  inv := h.inv
  named := by
    refine (hids.filterMap _).trans ?_
    change (mmHashes a.request (i :: _)).Perm _
    rw [mmHashes_cons hf]
    exact (h.named.cons _).trans (perm_append_singleton _ _).symm
  valid j hj := by
    rcases mem_cons.mp (hids.mem_iff.mp hj) with rfl | hj
    · exact (List.getElem?_eq_some_iff.mp hf).1
    · exact h.valid j hj
  nodup := by
    rw [← concat_eq_append]
    exact h.nodup.concat hnew
  absent k hk := by
    rcases mem_append.mp hk with hk | hk
    · exact h.absent k hk
    · rw [mem_singleton.mp hk, habsent]
  embeds := by
    have hset : (st.mmHashesToSchedule ++ [f.identifier]).toFinset =
        insert f.identifier st.mmHashesToSchedule.toFinset := by
      ext k
      simp
    unfold slots
    rw [hset, Finset.sum_insert (by simpa using hnew), ← hsize, h.embeds, add_comm]
    rfl
  fits := by
    rw [add_comm]
    exact hfits
  budget_nonneg := hleft

theorem take_ok (hr : a.request.WellSized size) (h : ScanInv size a budget st m)
    (hshift : a.shiftComputedTokens ≤ 1) (hf : a.request.mmFeatures[i]? = some f)
    (hstart : (f.mmPosition.offset : Int) <
      a.numComputedTokens + st.numNewTokens + a.shiftComputedTokens)
    (hend : a.numComputedTokens < f.mmPosition.offset + f.mmPosition.length)
    (hnew : f.identifier ∉ st.mmHashesToSchedule) (habsent : m.cached.get? f.identifier = none)
    (hbudget : (f.mmPosition.getNumEmbeds : Int) ≤ st.encoderComputeBudget)
    (hfits : f.mmPosition.getNumEmbeds + st.numEmbedsToSchedule ≤ m.numFreeSlots) :
    ∃ st', a.take st i f = .ok st' ∧ ScanStep size a budget st m st' m ∧
      a.Covered st' m f := by
  have hmem := mem_of_getElem? hf
  have hsize := hr.embeds f hmem
  obtain ⟨range, hrange, hempty⟩ := getEmbedsIndicesInRange_ok (hr.mask f hmem)
    (s := max 0 (a.numComputedTokens - f.mmPosition.offset))
    (e := min (f.mmPosition.length : Int)
      (a.numComputedTokens + st.numNewTokens - f.mmPosition.offset))
    (by omega) (by omega) (by omega) (by omega)
  unfold take
  dsimp only
  rw [hrange, ok_bind]
  split
  next hzero =>
    refine ⟨st, rfl, ⟨h, List.Subset.refl _, .refl m⟩, fun pos hembeds hlow hhigh => ?_⟩
    have hbounds := hembeds.2.1
    exact absurd ⟨by have := hembeds.1; omega, by omega⟩ (hempty hzero pos hembeds)
  · split
    · exact ⟨_, rfl, ⟨h.name hf hsize hnew habsent hfits (by
        rw [← append_assoc]
        exact perm_append_singleton _ _) h.budget_nonneg,
        subset_append_left _ _, .refl m⟩, fun _ _ _ _ => .inl (by simp)⟩
    · exact ⟨_, rfl, ⟨h.name hf hsize hnew habsent hfits (by
        rw [append_assoc]
        exact perm_middle) (by omega), subset_append_left _ _, .refl m⟩,
        fun _ _ _ _ => .inl (by simp)⟩

/-- Nothing of an item that starts at the given offset, or later, is in the range. -/
def OutOfRange (a : EncoderArgs D) (st : EncoderScan) (offset : Nat) : Prop :=
  a.numComputedTokens + st.numNewTokens ≤ offset ∨ st.numNewTokens ≤ 0

theorem OutOfRange.covered (h : a.OutOfRange st i) (hle : i ≤ f.mmPosition.offset) :
    a.Covered st m f := by
  intro pos hembeds hlow hhigh
  have hstart := hembeds.1
  rcases h with h | h <;> omega

theorem schedule_ok (hr : a.request.WellSized size) (h : ScanInv size a budget st m)
    (hshift : 0 ≤ a.shiftComputedTokens ∧ a.shiftComputedTokens ≤ 1)
    (hf : a.request.mmFeatures[i]? = some f)
    (hstart : (f.mmPosition.offset : Int) <
      a.numComputedTokens + st.numNewTokens + a.shiftComputedTokens)
    (hend : a.numComputedTokens < f.mmPosition.offset + f.mmPosition.length)
    (hnew : f.identifier ∉ st.mmHashesToSchedule) (habsent : m.cached.get? f.identifier = none) :
    ∃ goOn st' m', a.schedule st i f = .ok (goOn, st') ∧ ScanStep size a budget st m st' m' ∧
      (goOn = true → a.Covered st' m' f) ∧
      (goOn = false → a.OutOfRange st' f.mmPosition.offset) := by
  unfold schedule
  dsimp only
  split
  · refine ⟨false, _, m, rfl, ⟨?_, List.Subset.refl _, .refl m⟩, fun h => Bool.noConfusion h,
      fun _ => ?_⟩
    · have hcache := h.withCache h.inv (.refl m) st.hits
        (max 0 (f.mmPosition.offset - (a.numComputedTokens + a.shiftComputedTokens)))
      rw [← h.cache] at hcache
      exact hcache
    · unfold OutOfRange
      dsimp only
      omega
  · obtain ⟨fits, m', hrun, hm', hno, hkeep, hroom⟩ :=
      canAllocate_ok h.inv hf st.encoderComputeBudget st.numEmbedsToSchedule
    rw [h.cache]
    unfold EncoderCache.canAllocate
    simp only [hrun, ok_bind]
    have hstep := h.withCache hm' hno st.hits st.numNewTokens
    cases fits with
    | true =>
      obtain ⟨hbudget, hfits⟩ := hroom rfl
      obtain ⟨st', htake, hnext, hcovered⟩ := take_ok hr hstep hshift.2 hf hstart hend hnew
        (hno.absent _ habsent) hbudget hfits
      refine ⟨true, st', m', ?_, ⟨hnext.inv, hnext.hashes, hkeep⟩, fun _ => hcovered,
        fun h => Bool.noConfusion h⟩
      change (a.take { st with cache := .encoder m' } i f >>= _) = _
      rw [htake]
      rfl
    | false =>
      refine ⟨false, _, m', rfl, ⟨h.withCache hm' hno st.hits _, List.Subset.refl _, hkeep⟩,
        fun h => Bool.noConfusion h, fun _ => ?_⟩
      unfold OutOfRange
      dsimp only
      omega

theorem turn_ok (ha : a.isEncoderDecoder = false) (hr : a.request.WellSized size)
    (hshift : 0 ≤ a.shiftComputedTokens ∧ a.shiftComputedTokens ≤ 1)
    (h : ScanInv size a budget st m) (hf : a.request.mmFeatures[i]? = some f) :
    ∃ goOn st' m', a.turn st i f = .ok (goOn, st') ∧ ScanStep size a budget st m st' m' ∧
      (goOn = true → a.Covered st' m' f) ∧
      (goOn = false → a.OutOfRange st' f.mmPosition.offset) := by
  have hstay : ScanStep size a budget st m st m := ⟨h, List.Subset.refl _, .refl m⟩
  unfold turn
  simp only [ha, Bool.false_eq_true, false_and, if_false, true_and]
  split
  · refine ⟨false, st, m, rfl, hstay, fun h => Bool.noConfusion h, fun _ => .inl (by omega)⟩
  next hstart =>
    split
    next hend =>
      refine ⟨true, st, m, rfl, hstay, fun _ pos hembeds hlow _ => ?_,
        fun h => Bool.noConfusion h⟩
      have hlt := hembeds.2.1
      omega
    next hend =>
      split
      next hdup =>
        exact ⟨true, st, m, rfl, hstay, fun _ _ _ _ _ => .inl hdup,
          fun h => Bool.noConfusion h⟩
      next hnew =>
        obtain ⟨hit, m', hrun, hlook⟩ := checkAndUpdateCache_ok h.inv hf
        have hlookup : a.lookup st i f.identifier = .ok (hit, { st with
            cache := .encoder m'
            hits := if hit then st.hits ++ [f.identifier] else st.hits }) := by
          unfold lookup EncoderCache.checkAndUpdateCache
          rw [if_neg (by simp [ha]), h.cache]
          simp only [hrun, ok_bind]
          rfl
        rw [hlookup, ok_bind]
        have hstep := h.withCache hlook.inv hlook.noNew
          (if hit then st.hits ++ [f.identifier] else st.hits) st.numNewTokens
        cases hit with
        | true =>
          exact ⟨true, _, m', rfl, ⟨hstep, List.Subset.refl _, hlook.referenced⟩,
            fun _ _ _ _ _ => .inr (hlook.of_hit rfl), fun h => Bool.noConfusion h⟩
        | false =>
          obtain ⟨goOn, st', m'', hsched, hnext, hcov, hout⟩ := schedule_ok hr hstep hshift
            hf (Int.not_le.mp hstart) (by omega) hnew (hlook.of_miss rfl)
          exact ⟨goOn, st', m'', hsched,
            ⟨hnext.inv, hnext.hashes, hlook.referenced.trans hnext.referenced⟩, hcov, hout⟩

theorem scan_ok (ha : a.isEncoderDecoder = false) (hr : a.request.WellSized size)
    (hshift : 0 ≤ a.shiftComputedTokens ∧ a.shiftComputedTokens ≤ 1)
    (items : List (MultiModalFeatureSpec × Nat)) (h : ScanInv size a budget st m)
    (hitems : ∀ e ∈ items, a.request.mmFeatures[e.2]? = some e.1) :
    ∃ st' m', a.scan items st = .ok st' ∧ ScanStep size a budget st m st' m' ∧
      (items.Pairwise (fun e e' => e.1.mmPosition.offset ≤ e'.1.mmPosition.offset) →
        ∀ e ∈ items, a.Covered st' m' e.1) := by
  induction items generalizing st m with
  | nil =>
    exact ⟨st, m, rfl, ⟨h, List.Subset.refl _, .refl m⟩, fun _ e he => absurd he not_mem_nil⟩
  | cons item rest ih =>
    obtain ⟨goOn, st₁, m₁, hturn, hstep, hcov, hout⟩ :=
      turn_ok ha hr hshift h (hitems _ mem_cons_self)
    unfold scan
    rw [hturn, ok_bind]
    cases goOn with
    | true =>
      obtain ⟨st', m', hscan, hrest, hcovered⟩ :=
        ih hstep.inv fun e he => hitems e (mem_cons_of_mem _ he)
      refine ⟨st', m', hscan, hstep.trans hrest, fun hsorted e he => ?_⟩
      rcases mem_cons.mp he with rfl | he
      · exact (hcov rfl).step hrest (scan_numNewTokens hscan).le
      · exact hcovered (pairwise_cons.mp hsorted).2 e he
    | false =>
      refine ⟨st₁, m₁, rfl, hstep, fun hsorted e he => ?_⟩
      rcases mem_cons.mp he with rfl | he
      · exact (hout rfl).covered le_rfl
      · exact (hout rfl).covered ((pairwise_cons.mp hsorted).1 e he)

theorem start_scanInv (hm : SlotInv size m) (n : Int) : ScanInv size a budget
      { cache := .encoder m, encoderComputeBudget := budget, numNewTokens := n } m where
  cache := rfl
  inv := hm
  named := .refl _
  valid _ hi := absurd hi not_mem_nil
  nodup := nodup_nil
  absent _ hh := absurd hh not_mem_nil
  embeds := rfl
  fits := hm.free_nonneg
  budget_nonneg := id

theorem scan_all (ha : a.isEncoderDecoder = false) (hr : a.request.WellSized size)
    (hshift : 0 ≤ a.shiftComputedTokens ∧ a.shiftComputedTokens ≤ 1) (hm : SlotInv size m)
    (budget n : Int) :
    ∃ st' m', a.scan a.request.mmFeatures.zipIdx
        { cache := .encoder m, encoderComputeBudget := budget, numNewTokens := n } = .ok st' ∧
      ScanInv size a budget st' m' ∧
      (a.request.mmFeatures.Pairwise (fun f f' => f.mmPosition.offset ≤ f'.mmPosition.offset) →
        ∀ f ∈ a.request.mmFeatures, a.Covered st' m' f) := by
  obtain ⟨st', m', hscan, hstep, hcovered⟩ := scan_ok ha hr hshift a.request.mmFeatures.zipIdx
    (start_scanInv hm n) fun e he => mem_zipIdx_iff_getElem?.mp he
  refine ⟨st', m', hscan, hstep.inv, fun hsorted f hf => ?_⟩
  obtain ⟨i, hi⟩ := mem_iff_getElem?.mp hf
  refine hcovered ?_ (f, i) (mem_zipIdx_iff_getElem?.mpr hi)
  have hmap := pairwise_map (f := Prod.fst) (l := a.request.mmFeatures.zipIdx)
    (R := fun f f' : MultiModalFeatureSpec => f.mmPosition.offset ≤ f'.mmPosition.offset)
  rw [zipIdx_map_fst] at hmap
  exact hmap.mp hsorted

end EncoderArgs

namespace Scheduler.Pass

variable {C : KVConnector D}

/-- `shift_computed_tokens`. -/
def shift (p : Pass D C) : Int := if p.sched.config.useEagle then 1 else 0

def imageRequest : Request Transcript where
  requestId := 0
  allTokenIds := List.replicate 8 0
  mmFeatures := [{ identifier := "image", mmPosition := { offset := 0, length := 4 } }]

theorem imageRequest_wellSized : imageRequest.WellSized fun _ => 4 := by
  refine ⟨fun f hf => ?_, fun f hf mask hmask => ?_⟩
  · rw [mem_singleton.mp hf]
    rfl
  · rw [mem_singleton.mp hf] at hmask
    cases hmask

end Scheduler.Pass

end VllmCore
