import VllmCore.Eplb.RebalanceExecute.Pairing
/-!
# Complete and matched exchanges

What a rank sends to another is, expert by expert, what the other receives from it.  After
the exchange, every row that is to hold an expert gets it from a row that has it: from itself,
from another row of its rank, from another rank, or from a row that has received it.
-/

namespace VllmCore.Eplb

open List Support

variable {α : Type} {n numRanks : Nat} {oldIndices newIndices : List Int}

/-! ## What two ranks exchange -/

variable {d s tensor row : Nat} {e : Int}

theorem mem_of_mem_share {S R : List Nat} {pos : Nat} (h : d ∈ share S R pos) : d ∈ R := by
  obtain h | h := mem_append.mp h
  · exact mem_of_mem_take (mem_of_mem_drop h)
  · rw [Option.mem_toList] at h
    exact mem_of_getElem? h

theorem mem_ranksNeeding_of_mem_dstsOf (h : d ∈ dstsOf n oldIndices newIndices s e) :
    d ∈ ranksNeeding n oldIndices newIndices e := by
  unfold dstsOf at h
  split at h
  · cases h
  · exact mem_of_mem_share h

theorem mem_dstsOf_iff (hs : s ∈ ranksOf n oldIndices e)
    (hd : d ∈ ranksNeeding n oldIndices newIndices e) :
    d ∈ dstsOf n oldIndices newIndices s e ↔ srcOf n oldIndices newIndices d e = some s := by
  obtain ⟨s₀, _, hsend, hshare⟩ := sendRank_spec (ne_nil_of_mem hs)
    (nodup_ranksOf n oldIndices e) hd (nodup_ranksNeeding n oldIndices newIndices e)
  unfold dstsOf srcOf
  rw [if_neg (ne_nil_of_mem hd), hshare s hs, hsend, Option.some.injEq]
  exact eq_comm

theorem mem_ranksOf_of_srcOf (hd : d ∈ ranksNeeding n oldIndices newIndices e)
    (h : srcOf n oldIndices newIndices d e = some s) : s ∈ ranksOf n oldIndices e := by
  by_cases hS : ranksOf n oldIndices e = []
  · have hnone : sendRank d (ranksOf n oldIndices e) (ranksNeeding n oldIndices newIndices e) =
        .ok none := if_pos (.inl hS)
    unfold srcOf at h
    rw [hnone] at h
    cases h
  · obtain ⟨s₀, hs₀, hsend, _⟩ := sendRank_spec hS (nodup_ranksOf n oldIndices e) hd
      (nodup_ranksNeeding n oldIndices newIndices e)
    unfold srcOf at h
    rw [hsend] at h
    cases h
    exact hs₀

theorem pairwise_sendRows (n : Nat) (oldIndices : List Int) (s : Nat) :
    (sendRows n oldIndices s).Pairwise fun x y => x.1 < y.1 :=
  pairwise_map.mp (pairwise_firstRows _ _)

theorem pairwise_recvRows (n : Nat) (oldIndices newIndices : List Int) (d : Nat) :
    (recvRows n oldIndices newIndices d).Pairwise fun x y => x.1 < y.1 :=
  pairwise_map.mp (pairwise_firstRows _ _)

section

variable (hold : oldIndices.length = numRanks * n)

include hold

theorem mem_map_fst_sentRows :
    e ∈ (sentRows n oldIndices newIndices s d).map Prod.fst ↔
      e ≠ -1 ∧ s ∈ ranksOf n oldIndices e ∧ d ∈ dstsOf n oldIndices newIndices s e := by
  unfold sentRows
  constructor
  · intro h
    obtain ⟨x, hx, rfl⟩ := mem_map.mp h
    rw [mem_filter, decide_eq_true_eq] at hx
    have hrow := mem_sendRows hx.1
    exact ⟨hrow.2.2, (mem_ranksOf hold hrow.2.2).mpr ⟨x.2, hrow.1, hrow.2.1⟩, hx.2⟩
  · rintro ⟨he, hs, hd⟩
    obtain ⟨x, hx, rfl⟩ := mem_map.mp ((mem_map_fst_sendRows hold he).mpr hs)
    exact mem_map.mpr ⟨x, mem_filter.mpr ⟨hx, decide_eq_true hd⟩, rfl⟩

theorem mem_map_fst_receivedRows (hnew : newIndices.length = numRanks * n) :
    e ∈ (receivedRows n oldIndices newIndices s d).map Prod.fst ↔
      e ≠ -1 ∧ d ∈ ranksNeeding n oldIndices newIndices e ∧
        srcOf n oldIndices newIndices d e = some s := by
  unfold receivedRows
  constructor
  · intro h
    obtain ⟨x, hx, rfl⟩ := mem_map.mp h
    rw [mem_filter, decide_eq_true_eq] at hx
    have he := (mem_recvRows hx.1).2.2.1
    exact ⟨he, (mem_map_fst_recvRows hold hnew he).mp (mem_map.mpr ⟨x, hx.1, rfl⟩), hx.2⟩
  · rintro ⟨he, hd, hs⟩
    obtain ⟨x, hx, rfl⟩ := mem_map.mp ((mem_map_fst_recvRows hold hnew he).mpr hd)
    exact mem_map.mpr ⟨x, mem_filter.mpr ⟨hx, decide_eq_true hs⟩, rfl⟩

/-- The experts that a rank sends to another are those that the other receives from it, in
the same order. -/
theorem map_fst_sentRows (hnew : newIndices.length = numRanks * n) (s d : Nat) :
    (sentRows n oldIndices newIndices s d).map Prod.fst =
      (receivedRows n oldIndices newIndices s d).map Prod.fst := by
  have hsent : ((sentRows n oldIndices newIndices s d).map Prod.fst).Pairwise (· < ·) :=
    pairwise_map.mpr ((pairwise_sendRows n oldIndices s).filter _)
  have hreceived : ((receivedRows n oldIndices newIndices s d).map Prod.fst).Pairwise (· < ·) :=
    pairwise_map.mpr ((pairwise_recvRows n oldIndices newIndices d).filter _)
  have hperm : ((sentRows n oldIndices newIndices s d).map Prod.fst).Perm
      ((receivedRows n oldIndices newIndices s d).map Prod.fst) := by
    apply (perm_ext_iff_of_nodup (hsent.imp ne_of_lt) (hreceived.imp ne_of_lt)).mpr
    intro e
    rw [mem_map_fst_sentRows hold, mem_map_fst_receivedRows hold hnew]
    constructor
    · rintro ⟨he, hs, hd⟩
      have hneed := mem_ranksNeeding_of_mem_dstsOf hd
      exact ⟨he, hneed, (mem_dstsOf_iff hs hneed).mp hd⟩
    · rintro ⟨he, hd, hsrc⟩
      have hs := mem_ranksOf_of_srcOf hd hsrc
      exact ⟨he, hs, (mem_dstsOf_iff hs hd).mpr hsrc⟩
  exact hperm.eq_of_pairwise (fun a b _ _ h h' => absurd h (lt_asymm h')) hsent hreceived

end

theorem forall₂_iff_map_eq {β γ δ : Type} {f : β → δ} {g : γ → δ} {xs : List β} {ys : List γ} :
    List.Forall₂ (fun x y => f x = g y) xs ys ↔ xs.map f = ys.map g := by
  have h : List.Forall₂ Eq (xs.map f) (ys.map g) ↔ xs.map f = ys.map g := by
    rw [forall₂_eq_eq_eq]
  rw [← h, forall₂_map_left_iff, forall₂_map_right_iff]

/-- A send and its receive are of the same tensor, from a row that has an expert into a row
that is to have it. -/
def Corresponds (n : Nat) (oldIndices newIndices : List Int) (s d : Nat)
    (snd rcv : Nat × Nat) : Prop :=
  snd.1 = rcv.1 ∧ snd.2 < n ∧ localId n oldIndices s snd.2 = localId n newIndices d rcv.2

theorem forall₂_opsOf (numTensors : Nat) (hold : oldIndices.length = numRanks * n)
    (hnew : newIndices.length = numRanks * n) (s d : Nat) :
    List.Forall₂ (Corresponds n oldIndices newIndices s d)
      (sendsTo (opsOf numTensors n oldIndices newIndices s) d)
      (recvsFrom (opsOf numTensors n oldIndices newIndices d) s) := by
  have hexperts : List.Forall₂ (fun x y => x.1 = y.1)
      (sentRows n oldIndices newIndices s d) (receivedRows n oldIndices newIndices s d) :=
    forall₂_iff_map_eq.mpr (map_fst_sentRows hold hnew s d)
  have hrows : List.Forall₂
      (fun x y => x.2 < n ∧ localId n oldIndices s x.2 = localId n newIndices d y.2)
      (sentRows n oldIndices newIndices s d) (receivedRows n oldIndices newIndices s d) := by
    rw [forall₂_iff_zip] at hexperts ⊢
    refine ⟨hexperts.1, ?_⟩
    intro x y hxy
    have hmem := of_mem_zip hxy
    have hsend := mem_sendRows (mem_filter.mp hmem.1).1
    have hrecv := mem_recvRows (mem_filter.mp hmem.2).1
    refine ⟨hsend.1, ?_⟩
    rw [hsend.2.1, hrecv.2.1, hexperts.2 hxy]
  rw [sendsTo_opsOf numTensors hold, recvsFrom_opsOf]
  refine rel_flatMap hrows ?_
  intro x y hxy
  rw [forall₂_map_left_iff, forall₂_map_right_iff, forall₂_same]
  intro j _
  exact ⟨rfl, hxy⟩

theorem matched_opsOf (numTensors : Nat) (hold : oldIndices.length = numRanks * n)
    (hnew : newIndices.length = numRanks * n) :
    Matched numRanks (opsOf numTensors n oldIndices newIndices) := by
  intro s _ d _
  apply forall₂_iff_map_eq.mp
  exact (forall₂_opsOf numTensors hold hnew s d).imp fun _ _ hxy => hxy.1

/-! ## The rows that are received -/

theorem mem_targets {ops : List P2POp} :
    (tensor, row) ∈ targets ops ↔ ∃ src, .irecv tensor row src ∈ ops := by
  unfold targets
  rw [mem_filterMap]
  constructor
  · rintro ⟨op, hop, heq⟩
    cases op with
    | isend tensor' row' dst => cases heq
    | irecv tensor' row' src =>
      cases heq
      exact ⟨src, hop⟩
  · rintro ⟨src, hop⟩
    exact ⟨_, hop, rfl⟩

theorem targets_append (ops ops' : List P2POp) :
    targets (ops ++ ops') = targets ops ++ targets ops' := filterMap_append

theorem targets_opsOf (numTensors d : Nat) :
    targets (opsOf numTensors n oldIndices newIndices d) =
      (recvRows n oldIndices newIndices d).flatMap fun e =>
        (srcOf n oldIndices newIndices d e.1).toList.flatMap fun _ =>
          (List.range numTensors).map fun j => (j, e.2) := by
  have hsend : targets ((sendRows n oldIndices d).flatMap fun e =>
      (dstsOf n oldIndices newIndices d e.1).flatMap fun dst =>
        (List.range numTensors).map fun j => .isend j e.2 dst) = [] := by
    apply filterMap_eq_nil_iff.mpr
    intro op hop
    obtain ⟨e, _, hop⟩ := mem_flatMap.mp hop
    obtain ⟨dst, _, hop⟩ := mem_flatMap.mp hop
    obtain ⟨j, _, rfl⟩ := mem_map.mp hop
    rfl
  unfold opsOf
  rw [targets_append, hsend, nil_append]
  unfold targets
  rw [filterMap_flatMap]
  apply flatMap_congr
  intro e _
  rw [filterMap_flatMap]
  apply flatMap_congr
  intro src _
  rw [filterMap_map, ← filterMap_eq_map]
  rfl

theorem nodup_targets_opsOf (numTensors d : Nat) :
    (targets (opsOf numTensors n oldIndices newIndices d)).Nodup := by
  rw [targets_opsOf, nodup_flatMap]
  constructor
  · intro e _
    cases srcOf n oldIndices newIndices d e.1 with
    | none => exact nodup_nil
    | some src =>
      show ((List.range numTensors).map _ ++ []).Nodup
      rw [append_nil]
      refine nodup_range.map ?_
      intro i j h
      exact congrArg Prod.fst h
  · refine (pairwise_recvRows n oldIndices newIndices d).imp_of_mem ?_
    intro x y hx hy hlt t htx hty
    have hrow : ∀ z : Int × Nat, t ∈ ((srcOf n oldIndices newIndices d z.1).toList.flatMap
        fun _ => (List.range numTensors).map fun j => (j, z.2)) → t.2 = z.2 := by
      intro z ht
      obtain ⟨_, _, ht⟩ := mem_flatMap.mp ht
      obtain ⟨j, _, rfl⟩ := mem_map.mp ht
      rfl
    have hx' := (mem_recvRows hx).2.1
    have hy' := (mem_recvRows hy).2.1
    rw [← hrow x htx, hrow y hty] at hx'
    omega

theorem not_mem_targets_opsOf {numTensors : Nat}
    (h : isReceivedLocally n oldIndices newIndices d row = true) :
    (tensor, row) ∉ targets (opsOf numTensors n oldIndices newIndices d) := by
  rw [targets_opsOf]
  intro hmem
  obtain ⟨e, he, hmem⟩ := mem_flatMap.mp hmem
  obtain ⟨_, _, hmem⟩ := mem_flatMap.mp hmem
  obtain ⟨j, _, heq⟩ := mem_map.mp hmem
  cases heq
  rw [(mem_recvRows he).2.2.2] at h
  cases h

end VllmCore.Eplb
