import VllmCore.Worker.InputBatch.Simulation
/-!
# Condensing the batch

`condense` takes the last request and moves it into the first hole, until the holes are
all behind the requests, and then trims the batch.  The loop keeps the simulation,
and while it runs the holes are the removed rows and everything behind the last request.
-/

namespace VllmCore.Worker

open List Support Dict

namespace InputBatch

variable {b b' : InputBatch} {live : ReqId → Option LiveRequest}

/-! ## Condensing -/

variable {src tgt : Nat} {id : ReqId} {P : InputBatch → Prop}

theorem Moves.reqIds_getElem? (hm : b.Moves b' src tgt id) (k : Nat) : b'.reqIds[k]? =
      if k = src then some none else if k = tgt then some (some id) else b.reqIds[k]? := by
  have hsrc := (List.getElem?_eq_some_iff.mp hm.at_src).1
  rw [hm.reqIds, getElem?_set_of_lt (by rw [length_set]; exact hsrc),
    getElem?_set_of_lt hm.tgt_lt]

theorem Moves.length (hm : b.Moves b' src tgt id) : b'.reqIds.length = b.reqIds.length := by
  rw [hm.reqIds, length_set, length_set]

theorem Simulates.moves (h : b.Simulates live)
    (hm : b.Moves b' src tgt id) (hempty : b.reqIds[tgt]? = some none) :
    b'.Simulates live := by
  obtain ⟨hconfig, hentry, _, _⟩ := hm.same
  have hpool : b'.isPoolingModel = b.isPoolingModel :=
    congrArg BatchConfig.isPoolingModel hconfig
  have hne : src ≠ tgt := by
    rintro rfl
    rw [hm.at_src] at hempty
    simp at hempty
  obtain ⟨hgen, hbad⟩ := h.clear tgt (fun id' => by rw [hempty]; simp)
  have hrow := fun k (hk : k ≠ src) => hm.row hne hgen hbad hk
  have hids := hm.reqIds_getElem?
  have hlen := hm.length
  have hsrc := (List.getElem?_eq_some_iff.mp hm.at_src).1
  have hget := (h.index id src).mpr hm.at_src
  have hdicts := hm.dicts
  have hindex : ∀ id' j, b'.reqIdToIndex.get? id' = some j ↔
      (id' = id ∧ j = tgt) ∨ (id' ≠ id ∧ b.reqIdToIndex.get? id' = some j) := by
    intro id' j
    rw [hm.index, get?_set]
    split
    · rename_i hid
      simp [hid, eq_comm]
    · rename_i hid
      simp [hid]
  have hother : ∀ id' j, id' ≠ id → b.reqIdToIndex.get? id' = some j → j ≠ src ∧ j ≠ tgt := by
    intro id' j hid hj
    have hat := (h.index id' j).mp hj
    constructor
    · rintro rfl
      have := hat.symm.trans hm.at_src
      simp only [Option.some.injEq] at this
      exact hid this
    · rintro rfl
      rw [hempty] at hat
      simp at hat
  refine ⟨?_, ?_, h.named, ?_, ?_, ?_, ?_, ?_, ?_, ?_, ?_, ?_⟩
  · intro id' j
    rw [hindex, hids]
    constructor
    · rintro (⟨rfl, rfl⟩ | ⟨hid, hj⟩)
      · rw [if_neg (Ne.symm hne), if_pos rfl]
      · obtain ⟨h₁, h₂⟩ := hother id' j hid hj
        rw [if_neg h₁, if_neg h₂]
        exact (h.index id' j).mp hj
    · intro hj
      split at hj
      · simp at hj
      · rename_i hsrc
        split at hj
        · rename_i htgt
          simp only [Option.some.injEq] at hj
          exact .inl ⟨hj.symm, htgt⟩
        · have hj' := (h.index id' j).mpr hj
          refine .inr ⟨?_, hj'⟩
          rintro rfl
          exact hsrc (Option.some.inj (hj'.symm.trans hget))
  · intro id'
    rw [h.isLive]
    by_cases hid : id' = id
    · subst hid
      simp [hindex, hget]
    · simp [hindex, hid]
  · intro id' l j hl hj
    rw [hconfig]
    rcases (hindex id' j).mp hj with ⟨rfl, rfl⟩ | ⟨hid, hj⟩
    · rw [hrow _ (Ne.symm hne), if_pos rfl]
      exact h.row id' l src hl hget
    · obtain ⟨h₁, h₂⟩ := hother id' j hid hj
      rw [hrow _ h₁, if_neg h₂]
      exact h.row id' l j hl hj
  · intro id'
    rw [hentry, h.entry, hconfig]
  · intro id' l j e hl hj he
    rw [hdicts.1]
    rcases (hindex id' j).mp hj with ⟨rfl, rfl⟩ | ⟨hid, hj⟩
    · have hold := h.embeds id' l src e hl hget he
      simp [moveDictValue, hold]
    · obtain ⟨h₁, h₂⟩ := hother id' j hid hj
      unfold moveDictValue
      split
      · rw [get?_set_ne _ _ h₂, get?_erase_ne _ h₁]
        exact h.embeds id' l j e hl hj he
      · exact h.embeds id' l j e hl hj he
  · intro id' l hl
    unfold Fits
    rw [hpool]
    exact h.fits id' l hl
  · obtain ⟨_, _, hout⟩ := hm.outputs
    rw [hout, hlen, length_set, length_set]
    exact h.outputs_length
  · obtain ⟨_, hswap, _, hspec⟩ := hm.specs
    rw [hspec, hlen, length_set, pySwap_length hswap]
    exact h.specs_length
  · intro k hk
    rw [hlen] at hk
    have htgt := hm.tgt_lt
    have hspec := congrArg Row.specTokenIds (hrow k (by omega))
    rw [if_neg (by omega)] at hspec
    exact hspec.trans (h.beyond k hk)
  · intro k hk
    cases hp : b.isPoolingModel with
    | true =>
      rw [hp, if_pos rfl] at hdicts
      rw [hdicts.2.1, hdicts.2.2]
      exact h.pooling hp k
    | false =>
      rw [hp, if_neg Bool.false_ne_true] at hdicts
      rw [hdicts.2.1, hdicts.2.2, moveDictValue_get? _ hne hgen,
        moveDictValue_get? _ hne hbad]
      have hkt : k ≠ tgt := by
        rintro rfl
        exact hk id (by rw [hids, if_neg (Ne.symm hne), if_pos rfl])
      rw [if_neg hkt, if_neg hkt]
      split
      · exact ⟨rfl, rfl⟩
      · rename_i hks
        apply h.clear
        intro id' hid'
        exact hk id' (by rw [hids, if_neg hks, if_neg hkt, hid'])
  · intro hp k
    rw [hpool] at hp
    rw [hp, if_pos rfl] at hdicts
    rw [hdicts.2.1, hdicts.2.2]
    exact h.pooling hp k

/-- The holes while `condense` slides the rows down: the removed rows, and everything
behind `last`. -/
structure Sliding (b : InputBatch) (last : Nat) : Prop where
  nodup : b.batchUpdateBuilder.removedList.Nodup
  flag : b.batchUpdateBuilder.isRemovedSorted = true
  sorted : b.batchUpdateBuilder.removedList.Pairwise (· ≥ ·)
  hole : ∀ k < b.reqIds.length,
    b.reqIds[k]? = some none ↔ k ∈ b.batchUpdateBuilder.removedList ∨ last < k

theorem skipRemoved_spec (removed : List Nat) {last : Nat} (h : ∃ k ≤ last, k ∉ removed) :
    skipRemoved removed last ≤ last ∧ skipRemoved removed last ∉ removed ∧
      ∀ k, skipRemoved removed last < k → k ≤ last → k ∈ removed := by
  induction last with
  | zero =>
    obtain ⟨k, hk, hnot⟩ := h
    obtain rfl : k = 0 := by omega
    exact ⟨Nat.le_refl _, hnot, fun j hj hj' => by simp only [skipRemoved] at hj; omega⟩
  | succ last ih =>
    unfold skipRemoved
    split
    · rename_i hmem
      obtain ⟨k, hk, hnot⟩ := h
      have hle : k ≤ last := by
        by_contra hgt
        obtain rfl : k = last + 1 := by omega
        exact hnot hmem
      obtain ⟨h₁, h₂, h₃⟩ := ih ⟨k, hle, hnot⟩
      refine ⟨by omega, h₂, ?_⟩
      intro j hj hj'
      by_cases hjl : j = last + 1
      · rw [hjl]
        exact hmem
      · exact h₃ j hj (by omega)
    · rename_i hnot
      exact ⟨Nat.le_refl _, hnot, fun j hj hj' => by omega⟩

/-- What the loop of `condense` leaves: the rows up to `m` are taken, those behind are
empty, and what is still on the list lies behind. -/
structure Slid (b : InputBatch) (m : Nat) : Prop where
  nodup : b.batchUpdateBuilder.removedList.Nodup
  flag : b.batchUpdateBuilder.isRemovedSorted = true
  sorted : b.batchUpdateBuilder.removedList.Pairwise (· ≥ ·)
  hole : ∀ k < b.reqIds.length, b.reqIds[k]? = some none ↔ m < k
  behind : ∀ k ∈ b.batchUpdateBuilder.removedList, m < k

/-- A property of the batch that the steps of `condense` keep: sorting the removed rows,
filling the lowest one with the last request, and trimming the lists behind the requests. -/
structure KeptByCondense (live : ReqId → Option LiveRequest) (P : InputBatch → Prop) :
    Prop where
  sorted : ∀ {b : InputBatch}, P b →
    P { b with batchUpdateBuilder := b.batchUpdateBuilder.ensureRemovedSorted }
  moves : ∀ {b b' : InputBatch} {src tgt : Nat} {id : ReqId}, b.Simulates live →
    b.reqIds[tgt]? = some none →
    (b.batchUpdateBuilder.popRemoved.2.removedList ++ [tgt]).Perm
      b.batchUpdateBuilder.removedList →
    InputBatch.Moves { b with batchUpdateBuilder := b.batchUpdateBuilder.popRemoved.2 } b' src
      tgt id → P b → P b'
  trimmed : ∀ {b : InputBatch} (n : Nat),
    (∀ (k : Nat) (id : ReqId), b.reqIds[k]? = some (some id) → k < n) → P b →
    P { b with
      reqIds := b.reqIds.take n
      reqOutputTokenIds := b.reqOutputTokenIds.take n
      specTokenIds := b.specTokenIds.take n }

theorem condenseLoop_spec (hP : KeptByCondense live P) {fuel : Nat} :
    ∀ {b b' : InputBatch} {last : Nat}, b.Simulates live → b.Sliding last → P b →
      0 < b.numReqs → b.batchUpdateBuilder.removedList.length ≤ fuel →
      condenseLoop fuel b last = .ok b' →
      b'.Simulates live ∧ P b' ∧ b'.numReqs = b.numReqs ∧ ∃ m, b'.Slid m := by
  induction fuel with
  | zero =>
    intro b b' last h hs hp _ hfuel hb'
    cases hb'
    have hnil : b.batchUpdateBuilder.removedList = [] := by
      simpa using hfuel
    refine ⟨h, hp, rfl, last, hs.nodup, hs.flag, hs.sorted, ?_, by simp [hnil]⟩
    intro k hk
    rw [hs.hole k hk, hnil]
    simp
  | succ fuel ih =>
    intro b b' last h hs hp hpos hfuel hb'
    unfold condenseLoop at hb'
    split at hb'
    · rename_i hnil
      cases hb'
      refine ⟨h, hp, rfl, last, hs.nodup, hs.flag, hs.sorted, ?_, by simp [hnil]⟩
      intro k hk
      rw [hs.hole k hk, hnil]
      simp
    · rename_i hne
      obtain ⟨e, hpop, hpeek, hperm, hflag, hpair, hmin⟩ :=
        b.batchUpdateBuilder.popRemoved_spec (fun _ => hs.sorted) hne
      have hensure : b.batchUpdateBuilder.ensureRemovedSorted = b.batchUpdateBuilder := by
        simp [BatchUpdateBuilder.ensureRemovedSorted, hs.flag]
      -- some row is taken, and it is not behind `last`
      obtain ⟨id₀, i₀, hat₀⟩ := h.exists_row hpos
      have hlt₀ := (List.getElem?_eq_some_iff.mp hat₀).1
      have hfree₀ : ¬(i₀ ∈ b.batchUpdateBuilder.removedList ∨ last < i₀) := by
        rw [← hs.hole i₀ hlt₀, hat₀]
        simp
      rw [not_or] at hfree₀
      obtain ⟨hskip, hfree, hbetween⟩ :=
        @skipRemoved_spec b.batchUpdateBuilder.removedList last ⟨i₀, by omega, hfree₀.1⟩
      generalize skipRemoved b.batchUpdateBuilder.removedList last = last' at *
      have hhole : ∀ k < b.reqIds.length, b.reqIds[k]? = some none ↔
          k ∈ b.batchUpdateBuilder.removedList ∨ last' < k := by
        intro k hk
        rw [hs.hole k hk]
        constructor
        · rintro (hmem | hgt)
          · exact .inl hmem
          · exact .inr (by omega)
        · rintro (hmem | hgt)
          · exact .inl hmem
          · by_cases hle : k ≤ last
            · exact .inl (hbetween k hgt hle)
            · exact .inr (by omega)
      rw [hpeek, hensure] at hb'
      dsimp only at hb'
      split at hb'
      · rename_i hge
        cases hb'
        have hbehind : ∀ k ∈ b.batchUpdateBuilder.removedList, last' < k := by
          intro k hk
          have hle := hmin k hk
          have : k ≠ last' := by
            rintro rfl
            exact hfree hk
          omega
        refine ⟨h, hp, rfl, last', hs.nodup, hs.flag, hs.sorted, ?_, hbehind⟩
        intro k hk
        rw [hhole k hk]
        constructor
        · rintro (hmem | hgt)
          · exact hbehind k hmem
          · exact hgt
        · exact .inr
      · rename_i hlt
        simp only [bind_ok] at hb'
        obtain ⟨b₁, hmove, hrest⟩ := hb'
        obtain ⟨id, hm⟩ := moveRequest_ok hmove
        have hmem : e ∈ b.batchUpdateBuilder.removedList := hperm.mem_iff.mp (by simp)
        have hsrc := (List.getElem?_eq_some_iff.mp hm.at_src).1
        dsimp only at hsrc
        have hempty : b.reqIds[e]? = some none :=
          (hhole e (by omega)).mpr (.inl hmem)
        have hpopped : InputBatch.Simulates
            { b with batchUpdateBuilder := b.batchUpdateBuilder.popRemoved.2 } live := by
          exact ⟨h.index, h.isLive, h.named, h.row, h.entry, h.embeds, h.fits,
            h.outputs_length, h.specs_length, h.beyond, h.clear, h.pooling⟩
        have h₁ := hpopped.moves hm hempty
        obtain ⟨_, _, hremoved₁, hflag₁⟩ := hm.same
        dsimp only at hremoved₁ hflag₁
        have hnd : (b.batchUpdateBuilder.popRemoved.2.removedList ++ [e]).Nodup :=
          hperm.nodup_iff.mpr hs.nodup
        have hids := hm.reqIds_getElem?
        have hlen := hm.length
        have hs₁ : b₁.Sliding (last' - 1) := by
          refine ⟨?_, by rw [hflag₁]; exact hflag, by rw [hremoved₁]; exact hpair, ?_⟩
          · rw [hremoved₁]
            exact (nodup_append.mp hnd).1
          · intro k hk
            rw [hlen] at hk
            rw [hids, hremoved₁]
            have hmemk : k ∈ b.batchUpdateBuilder.removedList ↔
                k ∈ b.batchUpdateBuilder.popRemoved.2.removedList ∨ k = e := by
              rw [← hperm.mem_iff, mem_append, mem_singleton]
            split
            · rename_i hks
              simp only [true_iff]
              exact .inr (by omega)
            · rename_i hks
              split
              · rename_i hke
                subst hke
                simp only [Option.some.injEq, reduceCtorEq, false_iff, not_or]
                refine ⟨?_, by omega⟩
                intro hk'
                exact (nodup_append.mp hnd).2.2 k hk' k (by simp) rfl
              · rename_i hke
                rw [hhole k hk, hmemk]
                simp only [hke, or_false]
                constructor
                · rintro (hmem | hgt)
                  · exact .inl hmem
                  · exact .inr (by omega)
                · rintro (hmem | hgt)
                  · exact .inl hmem
                  · exact .inr (by omega)
        have hnum : b₁.numReqs = b.numReqs := by
          have hmemid : id ∈ b.reqIdToIndex.keys := by
            rw [mem_keys_iff, (h.index id last').mpr hm.at_src]
            simp
          unfold numReqs
          rw [hm.index]
          rw [keys_set_of_mem _ hmemid]
        have hfuel₁ : b₁.batchUpdateBuilder.removedList.length ≤ fuel := by
          rw [hremoved₁]
          have := hperm.length_eq
          simp only [length_append, length_singleton] at this
          omega
        have hp₁ := hP.moves h hempty hperm hm hp
        obtain ⟨hsim, hp', hnum', hslid⟩ := ih h₁ hs₁ hp₁ (by omega) hfuel₁ hrest
        exact ⟨hsim, hp', by omega, hslid⟩

theorem HolesInv.sliding (hh : b.HolesInv) {last : Nat} (hlast : b.reqIds.length ≤ last + 1) :
    InputBatch.Sliding
      { b with batchUpdateBuilder := b.batchUpdateBuilder.ensureRemovedSorted } last := by
  obtain ⟨hperm, hflag, hpair⟩ := b.batchUpdateBuilder.ensureRemovedSorted_spec hh.sorted
  refine ⟨hperm.nodup_iff.mpr hh.nodup, hflag, hpair, ?_⟩
  intro k hk
  dsimp only at hk ⊢
  rw [hh.hole k hk, hperm.mem_iff]
  constructor
  · exact .inl
  · rintro (hmem | hgt)
    · exact hmem
    · omega

theorem Simulates.length_le (h : b.Simulates live) (hh : b.HolesInv) :
    b.reqIds.length ≤ b.numReqs + b.batchUpdateBuilder.removedList.length := by
  -- a taken row has a request of its own, and an empty one is on the list
  have hcover : List.range b.reqIds.length ⊆
      (b.reqIdToIndex.keys.map fun id => (b.reqIdToIndex.get? id).getD 0) ++
        b.batchUpdateBuilder.removedList := by
    intro k hk
    have hlt := mem_range.mp hk
    rw [mem_append]
    obtain ⟨x, hx⟩ : ∃ x, b.reqIds[k]? = some x := ⟨_, getElem?_eq_getElem hlt⟩
    cases x with
    | none => exact .inr ((hh.hole k hlt).mp hx)
    | some id =>
      have hget := (h.index id k).mpr hx
      exact .inl (mem_map.mpr
        ⟨id, (mem_keys_iff _ _).mpr (by simp [hget]), by simp [hget]⟩)
  have hle := (nodup_range.subperm hcover).length_le
  simpa [numReqs] using hle

theorem Simulates.trimmed (h : b.Simulates live) {m : Nat} (hs : b.Slid m) {n : Nat}
    (hn : b.numReqs = n) :
    InputBatch.Simulates { b with
      reqIds := b.reqIds.take n
      reqOutputTokenIds := b.reqOutputTokenIds.take n
      specTokenIds := b.specTokenIds.take n } live ∧
    InputBatch.HolesInv { b with
      reqIds := b.reqIds.take n
      reqOutputTokenIds := b.reqOutputTokenIds.take n
      specTokenIds := b.specTokenIds.take n } ∧
    InputBatch.Condensed { b with
      reqIds := b.reqIds.take n
      reqOutputTokenIds := b.reqOutputTokenIds.take n
      specTokenIds := b.specTokenIds.take n } := by
  have hcount : b.numReqs = min (m + 1) b.reqIds.length := by
    apply h.numReqs_eq (Nat.min_le_right _ _)
    intro k hk
    rw [hs.hole k hk]
    omega
  have htaken : ∀ (k : Nat) (id : ReqId), b.reqIds[k]? = some (some id) → k < n := by
    intro k id hat
    have hlt := (List.getElem?_eq_some_iff.mp hat).1
    have : ¬m < k := by
      rw [← hs.hole k hlt, hat]
      simp
    omega
  have hgetspec : ∀ k, ((b.specTokenIds.take n)[k]?).getD [] =
      if k < n then b.specAt k else [] := by
    intro k
    rw [getElem?_take]
    split <;> rfl
  have hgetout : ∀ k, ((b.reqOutputTokenIds.take n)[k]?).getD none =
      if k < n then b.outputAt k else none := by
    intro k
    rw [getElem?_take]
    split <;> rfl
  have hids : ∀ (k : Nat) (id : ReqId),
      (b.reqIds.take n)[k]? = some (some id) ↔ b.reqIds[k]? = some (some id) := by
    intro k id
    rw [getElem?_take]
    split
    · rfl
    · rename_i hk
      simp only [reduceCtorEq, false_iff]
      exact fun hat => hk (htaken k id hat)
  have hsame : ∀ k, k < n → InputBatch.row { b with
      reqIds := b.reqIds.take n
      reqOutputTokenIds := b.reqOutputTokenIds.take n
      specTokenIds := b.specTokenIds.take n } k = b.row k := by
    intro k hk
    simp only [InputBatch.row, tokenColumns, outputAt, specAt, draftTokens, samplingColumns,
      hgetspec, hgetout, if_pos hk]
  refine ⟨⟨?_, h.isLive, h.named, ?_, h.entry, h.embeds, h.fits, ?_, ?_, ?_, ?_, h.pooling⟩,
    ⟨hs.nodup, fun _ => hs.sorted, ?_, .inr ⟨hs.flag, ?_⟩⟩, ?_⟩
  · intro id i
    rw [h.index]
    exact (hids i id).symm
  · intro id l i hl hi
    rw [hsame i (htaken i id ((h.index id i).mp hi))]
    exact h.row id l i hl hi
  · dsimp only
    rw [length_take, length_take, h.outputs_length]
  · dsimp only
    rw [length_take, length_take]
    have := h.specs_length
    omega
  · intro k hk
    rw [length_take] at hk
    simp only [specAt, hgetspec]
    rw [if_neg (by omega)]
  · intro k hk
    apply h.clear
    intro id hat
    exact hk id ((hids k id).mpr hat)
  · intro k hk
    rw [length_take] at hk
    rw [getElem?_take_of_lt (by omega), hs.hole k (by omega)]
    constructor
    · intro hgt
      omega
    · exact hs.behind k
  · intro k hk
    have := hs.behind k hk
    rw [length_take]
    omega
  · rw [condensed_iff]
    intro k hk
    rw [length_take] at hk
    rw [getElem?_take_of_lt (by omega)]
    intro hnone
    have := (hs.hole k (by omega)).mp hnone
    omega

theorem Simulates.condense_keeps (hP : KeptByCondense live P)
    (h : b.Simulates live) (hh : b.HolesInv) (hp : P b) (hc : b.condense = .ok b') :
    b'.Simulates live ∧ P b' ∧ b'.HolesInv ∧ b'.Condensed := by
  obtain ⟨hperm, hflag, hpair⟩ := b.batchUpdateBuilder.ensureRemovedSorted_spec hh.sorted
  have hsorted : InputBatch.Simulates
      { b with batchUpdateBuilder := b.batchUpdateBuilder.ensureRemovedSorted } live :=
    ⟨h.index, h.isLive, h.named, h.row, h.entry, h.embeds, h.fits, h.outputs_length,
      h.specs_length, h.beyond, h.clear, h.pooling⟩
  have hlen := h.length_le hh
  unfold InputBatch.condense at hc
  dsimp only at hc
  split at hc
  · rename_i hnil
    simp only [pure_ok] at hc
    subst hc
    have hnil' : b.batchUpdateBuilder.removedList = [] := by
      rw [hnil] at hperm
      exact hperm.symm.eq_nil
    have hcond : b.Condensed := by
      rw [condensed_iff]
      intro k hk hnone
      have := (hh.hole k hk).mp hnone
      rw [hnil'] at this
      simp at this
    refine ⟨hsorted, hP.sorted hp,
      ⟨hperm.nodup_iff.mpr hh.nodup, fun _ => hpair, ?_, ?_⟩, hcond⟩
    · intro k hk
      rw [hh.hole k hk, hperm.mem_iff]
    · left
      rw [hnil]
      simp
  · split at hc
    · rename_i hzero
      simp only [pure_ok] at hc
      subst hc
      have hno : ∀ id i, b.reqIdToIndex.get? id ≠ some i := by
        intro id i hi
        have hmem : id ∈ b.reqIdToIndex.keys := (mem_keys_iff _ _).mpr (by simp [hi])
        have : b.reqIdToIndex.keys = [] := length_eq_zero_iff.mp hzero
        rw [this] at hmem
        simp at hmem
      have hnone : ∀ id l, live id ≠ some l := by
        intro id l hl
        obtain ⟨i, hi⟩ := (h.isLive id).mp (by simp [hl])
        exact hno id i hi
      have hempty := @KeptByCondense.trimmed _ _ hP
        { b with batchUpdateBuilder := b.batchUpdateBuilder.ensureRemovedSorted } 0
        (fun k id hat => absurd ((h.index id k).mpr hat) (hno id k)) (hP.sorted hp)
      refine ⟨⟨?_, h.isLive, h.named, fun id l _ hl => absurd hl (hnone id l), h.entry,
        fun id l _ _ hl => absurd hl (hnone id l), h.fits, rfl, by simp, ?_, ?_, h.pooling⟩,
        hempty,
        ⟨hperm.nodup_iff.mpr hh.nodup, fun _ => hpair, by simp, .inr ⟨hflag, by simp⟩⟩,
        by simp [Condensed]⟩
      · intro id i
        simp only [getElem?_nil, reduceCtorEq, iff_false]
        exact hno id i
      · intro k _
        simp [specAt]
      · intro k _
        apply h.clear
        intro id hat
        exact hno id k ((h.index id k).mpr hat)
    · rename_i hne hpos
      simp only [bind_ok, pure_ok] at hc
      obtain ⟨b₁, hloop, rfl⟩ := hc
      have hlen' := hperm.length_eq
      obtain ⟨h₁, hp₁, hnum, m, hslid⟩ := condenseLoop_spec hP hsorted
        (hh.sliding (by omega)) (hP.sorted hp)
        (Nat.pos_of_ne_zero hpos) (Nat.le_refl _) hloop
      obtain ⟨h₂, hh₂, hcond⟩ := h₁.trimmed hslid hnum
      refine ⟨h₂, hP.trimmed b.numReqs (fun k id hat => ?_) hp₁, hh₂, hcond⟩
      have hat' : (b₁.reqIds.take b.numReqs)[k]? = some (some id) :=
        (h₂.index id k).mp ((h₁.index id k).mpr hat)
      rw [getElem?_take] at hat'
      split at hat'
      next hlt => exact hlt
      · cases hat'

theorem Simulates.condense (h : b.Simulates live) (hh : b.HolesInv)
    (hc : b.condense = .ok b') : b'.Simulates live ∧ b'.HolesInv ∧ b'.Condensed := by
  have hP : KeptByCondense live fun _ => True :=
    ⟨fun _ => trivial, fun _ _ _ _ _ => trivial, fun _ _ _ => trivial⟩
  obtain ⟨hs, _, hh', hcond⟩ := h.condense_keeps hP hh trivial hc
  exact ⟨hs, hh', hcond⟩

end InputBatch

end VllmCore.Worker
