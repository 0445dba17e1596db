import VllmCore.Eplb.DefaultPolicy
/-!
# Slots that are kept

The first pass matches the old slots of a rank with new ones of the same expert, one by one.
Greedily as it is, it matches an expert as often as it can: a slot is left without a match
only when all new slots of its expert are used.  The second pass then fills the slots
without a match with the new experts that were not used, so that all are placed.
-/

namespace VllmCore.Eplb.DefaultPolicy

open Function List Nat Support

/-- The copies of every expert that stay keep a slot that they had. -/
def KeepsSlots (old post : List Int) : Prop :=
  ∀ e, (old.zip post).count (e, e) = min (old.count e) (post.count e)

def rankSlots (slotsPerGpu gpu : Nat) (row : List Int) : List Int :=
  (row.drop (gpu * slotsPerGpu)).take slotsPerGpu

/-- The experts of every rank stay there, and those that were there keep their slots. -/
structure Preserves (numRanks slotsPerGpu : Nat) (old new post : List Int) : Prop where
  length : post.length = new.length
  perm : ∀ gpu < numRanks, (rankSlots slotsPerGpu gpu post).Perm (rankSlots slotsPerGpu gpu new)
  keeps : ∀ gpu < numRanks,
    KeepsSlots (rankSlots slotsPerGpu gpu old) (rankSlots slotsPerGpu gpu post)

/-- What holds after the first pass went over the first `s` slots. -/
structure Kept (S s : Nat) (old new post : Nat → Int) (used kept : Nat → Bool) : Prop where
  kept_lt : ∀ t < S, kept t = true → t < s
  kept_old : ∀ t < S, kept t = true → post t = old t
  matched : (picked S used new).Perm (picked S kept old)
  count : ∀ e, (picked S kept old).count e = min ((tab s old).count e) ((tab S new).count e)

theorem Kept.init (S : Nat) (old new : Nat → Int) :
    Kept S 0 old new new (fun _ => false) (fun _ => false) := by
  have hnone : ∀ f : Nat → Int, picked S (fun _ => false) f = [] := by
    intro f
    simp [picked, chosen]
  constructor
  · intro t ht h
    cases h
  · intro t ht h
    cases h
  · rw [hnone, hnone]
  · intro e
    rw [hnone]
    simp [tab]

section FirstPass

variable {S s : Nat} {old new post : Nat → Int} {used kept : Nat → Bool}

section

variable (h : Kept S s old new post used kept)

include h

theorem Kept.skip (hnone : ∀ i < S, new i = old s → used i = true) :
    Kept S (s + 1) old new post used kept := by
  constructor
  · intro t ht hk
    have := h.kept_lt t ht hk
    omega
  · exact h.kept_old
  · exact h.matched
  · intro e
    have hcount := h.count e
    rw [count_tab_succ]
    by_cases he : old s = e
    · have hunused : (picked S (fun i => !used i) new).count e = 0 := by
        apply count_eq_zero.mpr
        intro hmem
        obtain ⟨i, hi, hie⟩ := mem_map.mp hmem
        obtain ⟨hiS, hfree⟩ := mem_chosen.mp hi
        rw [hnone i hiS (hie.trans he.symm)] at hfree
        cases hfree
      have hall := (picked_append_not S used new).count_eq e
      rw [count_append, hunused, h.matched.count_eq] at hall
      omega
    · rw [if_neg he, add_zero]
      exact hcount

theorem Kept.keep (hs : s < S) {i : Nat} (hi : i < S)
    (hnew : new i = old s) (hfree : used i = false) :
    Kept S (s + 1) old new (update post s (new i)) (update used i true)
      (update kept s true) := by
  have hunkept : kept s = false := by
    by_contra hk
    have := h.kept_lt s hs (by simpa using hk)
    omega
  have hused := picked_update hi hfree new
  have hkept := picked_update hs hunkept old
  constructor
  · intro t ht hk
    by_cases hts : t = s
    · omega
    · rw [update_of_ne hts] at hk
      have := h.kept_lt t ht hk
      omega
  · intro t ht hk
    by_cases hts : t = s
    · rw [hts, update_self, hnew]
    · rw [update_of_ne hts] at hk ⊢
      exact h.kept_old t ht hk
  · have hcons : (new i :: picked S used new).Perm (old s :: picked S kept old) := by
      rw [hnew]
      exact h.matched.cons (old s)
    exact hused.trans (hcons.trans hkept.symm)
  · intro e
    have hcount := h.count e
    rw [hkept.count_eq, count_tab_succ]
    by_cases he : old s = e
    · have hunused : 0 < (picked S (fun i => !used i) new).count e := by
        apply count_pos_iff.mpr
        apply mem_map.mpr
        exact ⟨i, mem_chosen.mpr ⟨hi, by rw [hfree]; rfl⟩, hnew.trans he⟩
      have hall := (picked_append_not S used new).count_eq e
      rw [count_append, h.matched.count_eq] at hall
      rw [if_pos he, he, count_cons_self]
      omega
    · rw [if_neg he, count_cons_of_ne he, add_zero]
      exact hcount

theorem preserveSlot_spec (hs : s < S) :
    ∃ (post' : Nat → Int) (used' kept' : Nat → Bool),
      preserveSlot (tab S old) (tab S new) ⟨tab S post, tab S used, tab S kept⟩ s =
        .ok ⟨tab S post', tab S used', tab S kept'⟩ ∧
      Kept S (s + 1) old new post' used' kept' := by
  have hmatches : List.zipWith (fun n u => decide (n = old s) && !u) (tab S new) (tab S used) =
      tab S fun i => decide (new i = old s) && !used i := zipWith_tab _ _ _ _
  unfold preserveSlot
  rw [pyGet_tab hs, ok_bind]
  rw [hmatches]
  by_cases hany : ((tab S fun i => decide (new i = old s) && !used i).any id) = true
  · obtain ⟨y, hy, hytrue⟩ := any_eq_true.mp hany
    obtain ⟨first, x, hfirst, hx, hgreatest⟩ := argmax_spec (ne_nil_of_mem hy)
    have hxtrue : x = true := by
      have hle := hgreatest y hy
      rw [show y = true from hytrue] at hle
      exact top_le_iff.mp hle
    rw [getElem?_tab] at hx
    split at hx
    next hlt =>
      rw [hxtrue] at hx
      have hmatch := Option.some.inj hx
      rw [Bool.and_eq_true, decide_eq_true_eq, Bool.not_eq_true'] at hmatch
      refine ⟨_, _, _, ?_, h.keep hs hlt hmatch.1 hmatch.2⟩
      rw [if_pos hany, hfirst, ok_bind, pyGet_tab hlt, ok_bind, pySet_tab hs, ok_bind,
        pySet_tab hlt, ok_bind, pySet_tab hs, ok_bind]
      rfl
    · cases hx
  · refine ⟨post, used, kept, ?_, ?_⟩
    · rw [if_neg hany]
      rfl
    · apply h.skip
      intro i hi hnew
      by_contra hfree
      apply hany
      apply any_eq_true.mpr
      exact ⟨true, mem_tab.mpr ⟨i, hi, by simp [hnew, hfree]⟩, rfl⟩

end

theorem preserveSlots_kept (S : Nat) (old new : Nat → Int) :
    ∃ (post : Nat → Int) (used kept : Nat → Bool),
      (List.range S).foldlM (preserveSlot (tab S old) (tab S new))
        ⟨tab S new, List.replicate S false, List.replicate S false⟩ =
        .ok ⟨tab S post, tab S used, tab S kept⟩ ∧
      Kept S S old new post used kept := by
  have hfalse : List.replicate S false = tab S fun _ => false := by
    apply eq_tab length_replicate
    intro i hi
    exact getElem?_replicate_of_lt hi
  rw [hfalse]
  suffices hrun : ∀ s ≤ S, ∃ (post : Nat → Int) (used kept : Nat → Bool),
      (List.range s).foldlM (preserveSlot (tab S old) (tab S new))
        ⟨tab S new, tab S fun _ => false, tab S fun _ => false⟩ =
        .ok ⟨tab S post, tab S used, tab S kept⟩ ∧
      Kept S s old new post used kept from hrun S (le_refl S)
  intro s
  induction s with
  | zero =>
    intro hs
    exact ⟨new, _, _, rfl, Kept.init S old new⟩
  | succ s ih =>
    intro hs
    obtain ⟨post, used, kept, hrun, hkept⟩ := ih (by omega)
    obtain ⟨post', used', kept', hstep, hkept'⟩ := preserveSlot_spec hkept (by omega)
    refine ⟨post', used', kept', ?_, hkept'⟩
    rw [range_succ, foldlM_append, hrun, ok_bind, foldlM_cons, hstep]
    rfl

end FirstPass

section SecondPass

theorem maskedPositions_take (sort : Argsort Int) (S : Nat) (mask : Nat → Bool) :
    ((maskedPositions sort S (tab S mask)).take (chosen S mask).length).Perm (chosen S mask) := by
  have hpriority : ((tab S mask).zipIdx.map fun e => if e.1 then (e.2 : Int) else (S : Int) + 1) =
      tab S fun i => if mask i then (i : Int) else (S : Int) + 1 := by
    apply eq_tab
    · rw [length_map, length_zipIdx, length_tab]
    · intro i hi
      rw [getElem?_map, getElem?_zipIdx, getElem?_tab, if_pos hi, Option.map_some,
        Option.map_some, zero_add]
  unfold maskedPositions
  rw [hpriority]
  generalize hxs : (tab S fun i => if mask i then (i : Int) else (S : Int) + 1) = xs
  have hperm := sort.perm xs
  have hlength : xs.length = S := by rw [← hxs, length_tab]
  rw [hlength] at hperm
  have hfirst : (sort.run xs).Pairwise fun i j => mask j = true → mask i = true := by
    apply List.Pairwise.imp_of_mem _ (sort.sorted xs)
    intro i j hi hj hle hmask
    have hi := mem_range.mp (hperm.mem_iff.mp hi)
    have hj := mem_range.mp (hperm.mem_iff.mp hj)
    by_contra hunmask
    have hij := hle ((S : Int) + 1) (j : Int)
      (by rw [← hxs, getElem?_tab, if_pos hi, if_neg hunmask])
      (by rw [← hxs, getElem?_tab, if_pos hj, if_pos hmask])
    omega
  have hchosen : ((sort.run xs).filter mask).Perm (chosen S mask) := hperm.filter mask
  rw [← hchosen.length_eq, take_filter_of_pairwise hfirst]
  exact hchosen

variable {S : Nat} {old new post : Nat → Int} {used kept : Nat → Bool}

theorem Kept.length_unused (h : Kept S S old new post used kept) :
    (chosen S fun i => !used i).length = (chosen S fun i => !kept i).length := by
  have hused := (picked_append_not S used new).length_eq
  have hkept := (picked_append_not S kept old).length_eq
  have hmatched := h.matched.length_eq
  rw [length_append, length_tab] at hused hkept
  rw [← length_picked S _ new, ← length_picked S _ old]
  omega

theorem Kept.fill (h : Kept S S old new post used kept) {final : Nat → Int}
    (hfinal : ∀ t < S, kept t = true → final t = post t)
    (hfill : (picked S (fun i => !kept i) final).Perm (picked S (fun i => !used i) new)) :
    (tab S final).Perm (tab S new) ∧ KeepsSlots (tab S old) (tab S final) := by
  have hsame : picked S kept final = picked S kept old :=
    picked_congr fun t ht hk => (hfinal t ht hk).trans (h.kept_old t ht hk)
  have hperm : (tab S final).Perm (tab S new) :=
    calc (tab S final).Perm (picked S kept final ++ picked S (fun i => !kept i) final) :=
          (picked_append_not S kept final).symm
      List.Perm _ (picked S used new ++ picked S (fun i => !used i) new) := by
          rw [hsame]
          exact h.matched.symm.append hfill
      List.Perm _ (tab S new) := picked_append_not S used new
  refine ⟨hperm, ?_⟩
  intro e
  have hkept : (picked S kept old).count e ≤ ((tab S old).zip (tab S final)).count (e, e) := by
    have hpairs : (picked S kept fun t => (old t, final t)).count (e, e) ≤
        ((tab S old).zip (tab S final)).count (e, e) := by
      rw [zip_tab, ← (picked_append_not S kept fun t => (old t, final t)).count_eq,
        count_append]
      omega
    have hcount : (picked S kept old).count e ≤
        (picked S kept fun t => (old t, final t)).count (e, e) := by
      unfold picked List.count
      rw [countP_map, countP_map]
      apply countP_mono_left
      intro t ht hte
      have hte : old t = e := by simpa using hte
      have ht := mem_chosen.mp ht
      have hft := (hfinal t ht.1 ht.2).trans (h.kept_old t ht.1 ht.2)
      simp [hft, hte]
    exact hcount.trans hpairs
  have hcount := h.count e
  rw [← hperm.count_eq] at hcount
  have hold : ((tab S old).zip (tab S final)).count (e, e) ≤ (tab S old).count e := by
    rw [zip_tab]
    unfold tab List.count
    rw [countP_map, countP_map]
    apply countP_mono_left
    intro t ht hte
    simp_all
  have hnew : ((tab S old).zip (tab S final)).count (e, e) ≤ (tab S final).count e := by
    rw [zip_tab]
    unfold tab List.count
    rw [countP_map, countP_map]
    apply countP_mono_left
    intro t ht hte
    simp_all
  omega

theorem preserveLocal_spec (sort : Argsort Int) (S : Nat) (old new : Nat → Int) :
    ∃ final : Nat → Int,
      preserveLocal sort S (tab S old) (tab S new) = .ok (tab S final) ∧
      (tab S final).Perm (tab S new) ∧ KeepsSlots (tab S old) (tab S final) := by
  obtain ⟨post, used, kept, hrun, hkept⟩ := preserveSlots_kept S old new
  have hlength := hkept.length_unused
  have hsrc := maskedPositions_take sort S fun i => !used i
  have hdst := maskedPositions_take sort S fun i => !kept i
  generalize hsrcPos : (maskedPositions sort S (tab S fun i => !used i)).take
    (chosen S fun i => !used i).length = srcPos at hsrc
  generalize hdstPos : (maskedPositions sort S (tab S fun i => !kept i)).take
    (chosen S fun i => !kept i).length = dstPos at hdst
  have hsrcLt : ∀ i ∈ srcPos, i < S := fun i hi => (mem_chosen.mp (hsrc.mem_iff.mp hi)).1
  have hdstLt : ∀ i ∈ dstPos, i < S := fun i hi => (mem_chosen.mp (hdst.mem_iff.mp hi)).1
  have hlengths : dstPos.length = (srcPos.map new).length := by
    rw [length_map, hdst.length_eq, hsrc.length_eq, hlength]
  have hgather : (srcPos.mapM fun i : Nat => pyGet (tab S new) (i : Int)) =
      .ok (srcPos.map new) := by
    rw [mapM_ok_iff, forall₂_map_right_iff, forall₂_same]
    exact fun i hi => pyGet_tab (hsrcLt i hi)
  have hwrites : ∀ w ∈ dstPos.zip (srcPos.map new), w.1 < (tab S post).length := by
    intro w hw
    rw [length_tab]
    exact hdstLt w.1 (of_mem_zip hw).1
  have hvalues := @map_scatter_zip _ (tab S post) _ _ hlengths
    (hdst.nodup_iff.mpr (nodup_chosen _ _)) fun p hp => by rw [length_tab]; exact hdstLt p hp
  have huntouched : ∀ t, kept t = true →
      (scatter (tab S post) (dstPos.zip (srcPos.map new)))[t]? = (tab S post)[t]? := by
    intro t hk
    apply getElem?_scatter_of_not_mem
    rw [map_fst_zip hlengths.le]
    intro hmem
    have hunkept := (mem_chosen.mp (hdst.mem_iff.mp hmem)).2
    rw [hk] at hunkept
    cases hunkept
  have hsize := length_scatter (tab S post) (dstPos.zip (srcPos.map new))
  rw [length_tab] at hsize
  generalize hfinal : scatter (tab S post) (dstPos.zip (srcPos.map new)) = filled
    at hvalues huntouched hsize
  have hscatter := eq_tab_getD filled 0
  rw [hsize] at hscatter
  generalize (fun t : Nat => filled[t]?.getD 0) = final at hscatter
  have hkeep : ∀ t < S, kept t = true → final t = post t := by
    intro t ht hk
    have hentry := huntouched t hk
    rw [hscatter, getElem?_tab, getElem?_tab, if_pos ht, if_pos ht] at hentry
    exact Option.some.inj hentry
  have hfilled : dstPos.map final = srcPos.map new := by
    have hsome : dstPos.map (fun p => filled[p]?) = (dstPos.map final).map some := by
      rw [map_map]
      apply map_congr_left
      intro p hp
      rw [hscatter, getElem?_tab, if_pos (hdstLt p hp)]
      rfl
    rw [hsome] at hvalues
    exact map_injective_iff.mpr (Option.some_injective _) hvalues
  have hfill : (picked S (fun i => !kept i) final).Perm (picked S (fun i => !used i) new) :=
    calc (picked S (fun i => !kept i) final).Perm (dstPos.map final) := (hdst.map final).symm
      List.Perm _ (srcPos.map new) := by rw [hfilled]
      List.Perm _ (picked S (fun i => !used i) new) := hsrc.map new
  refine ⟨final, ?_, hkept.fill hkeep hfill⟩
  unfold preserveLocal
  rw [hrun, ok_bind]
  dsimp only
  rw [map_tab, map_tab, count_true_tab, count_true_tab, ← hlength, min_self, hsrcPos]
  rw [hlength, hdstPos, hgather, ok_bind, foldlM_pySet hwrites, hfinal, hscatter]

end SecondPass

section Ranks

theorem rankSlots_tab (R S : Nat) (row : Nat → Int) {gpu : Nat} (h : gpu < R) :
    rankSlots S gpu (tab (R * S) row) = tab S fun j => row (gpu * S + j) := by
  apply slice_tab
  calc gpu * S + S = (gpu + 1) * S := (succ_mul gpu S).symm
    _ ≤ R * S := mul_le_mul_right S h

theorem flatMap_rankSlots {R S : Nat} {row : List Int} (h : row.length = R * S) :
    ((List.range R).flatMap fun gpu => rankSlots S gpu row) = row := by
  have hrow := eq_tab_getD row 0
  rw [h] at hrow
  generalize (fun i : Nat => row[i]?.getD 0) = f at hrow
  have hslots := flatMap_tab R S fun gpu j => f (gpu * S + j)
  simp only [div_add_mod'] at hslots
  rw [hrow, ← hslots]
  apply flatMap_congr
  intro gpu hgpu
  rw [hslots]
  exact rankSlots_tab R S f (mem_range.mp hgpu)

theorem preserveRow_spec (sort : Argsort Int) {R S : Nat} {old new : List Int}
    (hold : old.length = R * S) (hnew : new.length = R * S) :
    ∃ post, preserveRow sort R S old new = .ok post ∧ Preserves R S old new post := by
  have holdTab := eq_tab_getD old 0
  have hnewTab := eq_tab_getD new 0
  rw [hold] at holdTab
  rw [hnew] at hnewTab
  generalize (fun i : Nat => old[i]?.getD 0) = o at holdTab
  generalize (fun i : Nat => new[i]?.getD 0) = n at hnewTab
  have hranks := fun gpu (_ : gpu < R) => preserveLocal_spec sort S
    (fun j => o (gpu * S + j)) (fun j => n (gpu * S + j))
  choose! final hrun hperm hkeeps using hranks
  have hpost : (tab R fun gpu => tab S (final gpu)).flatten =
      tab (R * S) fun p => final (p / S) (p % S) := by
    rw [← flatMap_tab R S final]
    rfl
  have hslots : ∀ gpu < R, rankSlots S gpu (tab (R * S) fun p => final (p / S) (p % S)) =
      tab S (final gpu) := by
    intro gpu hgpu
    rw [rankSlots_tab R S _ hgpu]
    apply tab_congr
    intro j hj
    rw [block_div hj, block_mod hj]
  refine ⟨tab (R * S) fun p => final (p / S) (p % S), ?_, ?_, ?_, ?_⟩
  · unfold preserveRow
    have hlocal : ∀ gpu < R, preserveLocal sort S ((old.drop (gpu * S)).take S)
        ((new.drop (gpu * S)).take S) = .ok (tab S (final gpu)) := by
      intro gpu hgpu
      show preserveLocal sort S (rankSlots S gpu old) (rankSlots S gpu new) = _
      rw [holdTab, hnewTab, rankSlots_tab R S o hgpu, rankSlots_tab R S n hgpu]
      exact hrun gpu hgpu
    have hmap := mapM_tab (f := fun gpu : Nat => gpu) hlocal
    unfold tab at hmap
    rw [map_id'] at hmap
    rw [hmap, ok_bind]
    exact congrArg Except.ok hpost
  · rw [length_tab, hnew]
  · intro gpu hgpu
    rw [hslots gpu hgpu, hnewTab, rankSlots_tab R S n hgpu]
    exact hperm gpu hgpu
  · intro gpu hgpu
    rw [hslots gpu hgpu, holdTab, rankSlots_tab R S o hgpu]
    exact hkeeps gpu hgpu

theorem preserveIntragpuSlots_spec (sort : Argsort Int) {P R : Nat} (hR : 0 < R) (hdvd : R ∣ P)
    {phy2log old : List (List Int)} (hlength : old.length = phy2log.length)
    (hnew : ∀ row ∈ phy2log, row.length = P) (hold : ∀ row ∈ old, row.length = P) :
    ∃ post, preserveIntragpuSlots sort P phy2log R old = .ok post ∧
      post.length = phy2log.length ∧
      ∀ (layer : Nat) (o n p : List Int), old[layer]? = some o → phy2log[layer]? = some n →
        post[layer]? = some p → Preserves R (P / R) o n p := by
  have hsize : R * (P / R) = P := Nat.mul_div_cancel' hdvd
  have hrows : ∀ e ∈ old.zip phy2log, ∃ post,
      preserveRow sort R (P / R) e.1 e.2 = .ok post ∧ Preserves R (P / R) e.1 e.2 post := by
    intro e he
    have hmem := of_mem_zip he
    exact preserveRow_spec sort ((hold _ hmem.1).trans hsize.symm)
      ((hnew _ hmem.2).trans hsize.symm)
  choose! row hrow hpreserves using hrows
  refine ⟨(old.zip phy2log).map row, ?_, ?_, ?_⟩
  · unfold preserveIntragpuSlots
    have hno : ¬(R = 0 ∨ P % R ≠ 0) := by
      omega
    rw [if_neg hno, mapM_ok_iff, forall₂_map_right_iff, forall₂_same]
    exact hrow
  · rw [length_map, length_zip, hlength, min_self]
  · intro layer o n p ho hn hp
    have hzip : (old.zip phy2log)[layer]? = some (o, n) := getElem?_zip_eq_some.mpr ⟨ho, hn⟩
    rw [getElem?_map, hzip] at hp
    have hmem := mem_of_getElem? hzip
    rw [← Option.some.inj hp]
    exact hpreserves (o, n) hmem

end Ranks

end VllmCore.Eplb.DefaultPolicy
