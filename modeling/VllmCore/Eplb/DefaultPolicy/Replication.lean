import VllmCore.Eplb.DefaultPolicy
/-!
# Replications

Every expert has one replica at first, and each replica that is added is counted for the
expert that it is added for.
-/

namespace VllmCore.Eplb.DefaultPolicy

open List Nat Support

/-- `numPhy` replicas of `numLog` experts, counted for each expert. -/
structure ValidReplication (numLog numPhy : Nat) (phy2log logcnt : Nat → Nat) : Prop where
  lt : ∀ p < numPhy, phy2log p < numLog
  counted : ∀ e < numLog, (tab numPhy phy2log).count e = logcnt e
  pos : ∀ e < numLog, 0 < logcnt e

/-- What holds when the first `i` replicas were chosen. -/
structure Replicated (numLog numPhy i : Nat) (st : List Int × List Nat) : Prop where
  phy2log : st.1.length = numPhy
  logcnt : st.2.length = numLog
  lt : ∀ p < i, ∃ e < numLog, st.1[p]? = some ((e : Nat) : Int)
  counted : ∀ e < numLog, st.2[e]? = some ((st.1.take i).count (e : Int))
  pos : ∀ c ∈ st.2, 0 < c

theorem count_tab_natCast (n : Nat) (f : Nat → Nat) (e : Nat) :
    (tab n fun i => (f i : Int)).count (e : Int) = (tab n f).count e := by
  have hmap : (tab n fun i => (f i : Int)) = (tab n f).map fun x : Nat => (x : Int) := by
    rw [map_tab]
  rw [hmap]
  exact count_map_of_injective (tab n f) _ cast_injective e
variable {numLog numPhy : Nat}

theorem Replicated.init (h : numLog ≤ numPhy) :
    Replicated numLog numPhy numLog (tab numPhy fun i => (i : Int), List.replicate numLog 1) := by
  constructor
  · exact length_tab _ _
  · exact length_replicate
  · intro p hp
    exact ⟨p, hp, by rw [getElem?_tab, if_pos (by omega)]⟩
  · intro e he
    have htake : (tab numPhy fun i => (i : Int)).take numLog = tab numLog fun i => (i : Int) := by
      have hslice := slice_tab numPhy (fun i => (i : Int)) (a := 0) (c := numLog) (by omega)
      rw [drop_zero] at hslice
      rw [hslice]
      apply tab_congr
      intro i hi
      rw [zero_add]
    have hcount : (tab numLog fun i => i).count e = 1 := by
      unfold tab
      rw [map_id']
      exact count_eq_one_of_mem nodup_range (mem_range.mpr he)
    rw [htake, count_tab_natCast, hcount]
    exact getElem?_replicate_of_lt he
  · intro c hc
    rw [eq_of_mem_replicate hc]
    exact one_pos

variable {W : Type} [LinearOrder W] [Div W] [NatCast W]

theorem Replicated.step {numLog numPhy i : Nat} {st : List Int × List Nat} {weight : List W}
    (h : Replicated numLog numPhy i st) (hlog : 0 < numLog) (hi : i < numPhy)
    (hweight : weight.length = numLog) :
    ∃ st', replicateExpert weight st i = .ok st' ∧ Replicated numLog numPhy (i + 1) st' := by
  have hlength : (perReplica weight st.2).length = numLog := by
    unfold perReplica
    rw [length_zipWith, hweight, h.logcnt, min_self]
  have hne : perReplica weight st.2 ≠ [] := by
    rw [← length_pos_iff, hlength]
    exact hlog
  obtain ⟨e, x, hargmax, hx, -⟩ := argmax_spec hne
  have he : e < numLog := by
    rw [← hlength]
    exact (List.getElem?_eq_some_iff.mp hx).1
  have hcount := h.counted e he
  have hiSt : i < st.1.length := by rw [h.phy2log]; exact hi
  refine ⟨(st.1.set i (e : Int), st.2.set e ((st.1.take i).count (e : Int) + 1)), ?_, ?_⟩
  · unfold replicateExpert
    rw [hargmax, ok_bind, pySet_ok.mpr ⟨i, pyIndex_natCast hiSt, rfl⟩, ok_bind,
      pyGet_natCast_ok.mpr hcount, ok_bind,
      pySet_ok.mpr ⟨e, pyIndex_natCast (by rw [h.logcnt]; exact he), rfl⟩]
    rfl
  · have htake : (st.1.set i (e : Int)).take (i + 1) = st.1.take i ++ [(e : Int)] := by
      rw [take_add_one, getElem?_set_self hiSt, take_set_of_le (le_refl i)]
      rfl
    constructor
    · rw [length_set, h.phy2log]
    · rw [length_set, h.logcnt]
    · intro p hp
      by_cases hpi : i = p
      · exact ⟨e, he, hpi ▸ getElem?_set_self hiSt⟩
      · rw [getElem?_set_ne hpi]
        exact h.lt p (by omega)
    · intro e' he'
      rw [htake, count_append]
      by_cases hee : e = e'
      · rw [← hee, getElem?_set_self (by rw [h.logcnt]; exact he), count_singleton_self]
      · have hnot : (e' : Int) ∉ [(e : Int)] := by
          rw [mem_singleton]
          exact_mod_cast Ne.symm hee
        rw [getElem?_set_ne hee, h.counted e' he', count_eq_zero.mpr hnot, add_zero]
    · intro c hc
      rcases mem_or_eq_of_mem_set hc with hc | rfl
      · exact h.pos c hc
      · exact succ_pos _

theorem replicateExperts_replicated {weight : List W} (hlog : 0 < numLog)
    (hweight : weight.length = numLog) {i k : Nat} (hk : i + k ≤ numPhy)
    {st : List Int × List Nat} (h : Replicated numLog numPhy i st) :
    ∃ st', (List.range' i k).foldlM (replicateExpert weight) st = .ok st' ∧
      Replicated numLog numPhy (i + k) st' := by
  induction k generalizing i st with
  | zero => exact ⟨st, rfl, h⟩
  | succ k ih =>
    obtain ⟨st₁, hstep, h₁⟩ := h.step hlog (by omega) hweight
    obtain ⟨st', hrun, h'⟩ := ih (by omega) h₁
    refine ⟨st', ?_, ?_⟩
    · rw [List.range'_succ, foldlM_cons, hstep, ok_bind]
      exact hrun
    · have hadd : i + (k + 1) = i + 1 + k := by omega
      rw [hadd]
      exact h'

theorem replicateRow_spec {weight : List W} (hlog : 0 < numLog)
    (hle : numLog ≤ numPhy) (hweight : weight.length = numLog) :
    ∃ phy2log logcnt : Nat → Nat, ValidReplication numLog numPhy phy2log logcnt ∧
      replicateRow numLog numPhy weight =
        .ok (tab numPhy fun p => (phy2log p : Int), tab numLog logcnt) := by
  obtain ⟨st, hrun, hst⟩ := replicateExperts_replicated (k := numPhy - numLog) hlog hweight
    (by omega) (Replicated.init hle)
  have hend : numLog + (numPhy - numLog) = numPhy := by omega
  rw [hend] at hst
  have hlt := hst.lt
  choose! phy2log hlog' hphy using hlt
  have hrow : st.1 = tab numPhy fun p => (phy2log p : Int) := eq_tab hst.phy2log hphy
  have hcounted : ∀ e < numLog, st.2[e]? = some ((tab numPhy phy2log).count e) := by
    intro e he
    have hcount := hst.counted e he
    rw [take_of_length_le hst.phy2log.le, hrow, count_tab_natCast] at hcount
    exact hcount
  refine ⟨phy2log, (tab numPhy phy2log).count, ⟨hlog', fun e _ => rfl, ?_⟩, ?_⟩
  · intro e he
    exact hst.pos _ (mem_of_getElem? (hcounted e he))
  · unfold replicateRow
    rw [hrun, ← hrow, ← eq_tab hst.logcnt hcounted]

theorem replicateExperts_spec (hlog : 0 < numLog) (hle : numLog ≤ numPhy)
    (L : Nat) (weight : Nat → List W) (hweight : ∀ l < L, (weight l).length = numLog) :
    ∃ phy2log logcnt : Nat → Nat → Nat,
      (∀ l < L, ValidReplication numLog numPhy (phy2log l) (logcnt l)) ∧
      replicateExperts numLog (tab L weight) numPhy =
        .ok (tab L fun l => tab numPhy fun p => (phy2log l p : Int),
          tab L fun l => tab numLog (logcnt l)) := by
  have hrows := fun l (hl : l < L) => replicateRow_spec hlog hle (hweight l hl)
  choose! phy2log logcnt hvalid hrun using hrows
  refine ⟨phy2log, logcnt, hvalid, ?_⟩
  unfold replicateExperts
  rw [pyAssert_pos hle, ok_bind, mapM_tab hrun, ok_bind, map_tab, map_tab]
  rfl

end VllmCore.Eplb.DefaultPolicy
