import VllmCore.Eplb.DefaultPolicy
/-!
# Packings and replications

A pack that is full has the infinite weight, and as long as items are left some pack is not
full, so the lightest pack has room.  Every replica that is added is counted.
-/

namespace VllmCore.Eplb.DefaultPolicy

open List Nat Support

/-! ## Packing -/

/-- `n` items in `m` packs of `n / m` items, each with its own place in its pack. -/
structure ValidPacking (n m : Nat) (pack rank : Nat → Nat) : Prop where
  pack_lt : ∀ i < n, pack i < m
  rank_lt : ∀ i < n, rank i < n / m
  inj : ∀ i < n, ∀ j < n, pack i = pack j → rank i = rank j → i = j

variable {m n c : Nat} {pack rank : Nat → Nat} {done : List Nat}

theorem ValidPacking.permBelow (h : ValidPacking n m pack rank) (hdvd : m ∣ n) :
    PermBelow n fun i => pack i * (n / m) + rank i := by
  apply PermBelow.of_injOn
  · intro i hi
    calc pack i * (n / m) + rank i < m * (n / m) := block_lt (h.pack_lt i hi) (h.rank_lt i hi)
      _ = n := Nat.mul_div_cancel' hdvd
  · intro i hi j hj hij
    apply h.inj i hi j hj
    · calc pack i = (pack i * (n / m) + rank i) / (n / m) := (block_div (h.rank_lt i hi)).symm
        _ = (pack j * (n / m) + rank j) / (n / m) := congrArg (· / (n / m)) hij
        _ = pack j := block_div (h.rank_lt j hj)
    · calc rank i = (pack i * (n / m) + rank i) % (n / m) := (block_mod (h.rank_lt i hi)).symm
        _ = (pack j * (n / m) + rank j) % (n / m) := congrArg (· % (n / m)) hij
        _ = rank j := block_mod (h.rank_lt j hj)

theorem ValidPacking.numbered (h : ValidPacking n m pack rank) (hdvd : m ∣ n) {p : Nat}
    (hp : p < m) :
    (((List.range n).filter fun i => pack i = p).map rank).Perm (List.range (n / m)) := by
  have hnodup : (((List.range n).filter fun i => pack i = p).map rank).Nodup := by
    apply (nodup_range.filter _).map_on
    intro i hi j hj hij
    obtain ⟨hi, hpi⟩ := mem_filter.mp hi
    obtain ⟨hj, hpj⟩ := mem_filter.mp hj
    have hpi := of_decide_eq_true hpi
    have hpj := of_decide_eq_true hpj
    exact h.inj i (mem_range.mp hi) j (mem_range.mp hj) (hpi.trans hpj.symm) hij
  rw [perm_ext_iff_of_nodup hnodup nodup_range]
  intro r
  rw [mem_map, mem_range]
  constructor
  · rintro ⟨i, hi, rfl⟩
    exact h.rank_lt i (mem_range.mp (mem_filter.mp hi).1)
  · intro hr
    have hlt : p * (n / m) + r < n :=
      calc p * (n / m) + r < m * (n / m) := block_lt hp hr
        _ = n := Nat.mul_div_cancel' hdvd
    obtain ⟨i, hi, heq⟩ := (h.permBelow hdvd).surjOn hlt
    have hcode : pack i * (n / m) + rank i = p * (n / m) + r := heq
    have hpack : pack i = p :=
      calc pack i = (pack i * (n / m) + rank i) / (n / m) := (block_div (h.rank_lt i hi)).symm
        _ = (p * (n / m) + r) / (n / m) := congrArg (· / (n / m)) hcode
        _ = p := block_div hr
    refine ⟨i, mem_filter.mpr ⟨mem_range.mpr hi, decide_eq_true hpack⟩, ?_⟩
    rw [hpack] at hcode
    omega

variable {W : Type}

def ranksOf (packIndex rankInPack : List Int) (pack : Nat) : List Int :=
  ((packIndex.zip rankInPack).filter fun e => e.1 = (pack : Int)).map (·.2)

/-- `n` items in `m` packs, those of each pack numbered from `0` to `n / m - 1`. -/
structure NumberedPacks (n m : Nat) (packIndex rankInPack : List Int) : Prop where
  packIndex_length : packIndex.length = n
  rankInPack_length : rankInPack.length = n
  pack_lt : ∀ x ∈ packIndex, 0 ≤ x ∧ x < m
  numbered : ∀ pack < m,
    (ranksOf packIndex rankInPack pack).Perm (tab (n / m) fun rank => (rank : Int))

theorem ValidPacking.numberedPacks (h : ValidPacking n m pack rank) (hdvd : m ∣ n) :
    NumberedPacks n m (tab n fun i => (pack i : Int)) (tab n fun i => (rank i : Int)) := by
  constructor
  · exact length_tab _ _
  · exact length_tab _ _
  · intro x hx
    obtain ⟨i, hi, rfl⟩ := mem_tab.mp hx
    have hlt := h.pack_lt i hi
    omega
  · intro p hp
    have hranks : ranksOf (tab n fun i => (pack i : Int)) (tab n fun i => (rank i : Int)) p =
        (((List.range n).filter fun i => pack i = p).map rank).map fun r : Nat => (r : Int) := by
      unfold ranksOf
      rw [zip_tab]
      unfold tab
      rw [filter_map, map_map, map_map]
      have hpack : ((fun e : Int × Int => decide (e.1 = (p : Int))) ∘
          fun i => ((pack i : Int), (rank i : Int))) = fun i => decide (pack i = p) := by
        funext i
        simp
      rw [hpack]
      rfl
    rw [hranks]
    exact (h.numbered hdvd hp).map _

/-- What holds after the groups `done` were put into packs of `c` groups. -/
structure Packed (n m c : Nat) (done : List Nat) (st : PackState W) : Prop where
  packIndex : st.packIndex.length = n
  rankInPack : st.rankInPack.length = n
  weightsRow : st.weightsRow.length = m
  itemsRow : st.itemsRow.length = m
  items_le : ∀ p items : Nat, st.itemsRow[p]? = some items → items ≤ c
  full : ∀ p : Nat, st.itemsRow[p]? = some c → st.weightsRow[p]? = some ⊤
  notFull : ∀ p items : Nat, st.itemsRow[p]? = some items → items < c →
    ∃ w : W, st.weightsRow[p]? = some (w : WithTop W)
  total : st.itemsRow.sum = done.length
  placed : ∀ g ∈ done, ∃ p r items : Nat, st.packIndex[g]? = some (p : Int) ∧
    st.rankInPack[g]? = some (r : Int) ∧ st.itemsRow[p]? = some items ∧ r < items
  distinct : ∀ g ∈ done, ∀ h ∈ done, st.packIndex[g]? = st.packIndex[h]? →
    st.rankInPack[g]? = st.rankInPack[h]? → g = h

theorem Packed.init [Zero W] (hc : 0 < c) :
    Packed (W := W) n m c [] ⟨List.replicate n (-1), List.replicate n (-1),
      List.replicate m ((0 : W) : WithTop W), List.replicate m 0⟩ := by
  have hzero : ∀ p items : Nat, (List.replicate m 0)[p]? = some items → items = 0 := by
    intro p items hp
    exact eq_of_mem_replicate (mem_of_getElem? hp)
  constructor
  · exact length_replicate
  · exact length_replicate
  · exact length_replicate
  · exact length_replicate
  · intro p items hp
    rw [hzero p items hp]
    exact zero_le c
  · intro p hp
    have := hzero p c hp
    omega
  · intro p items hp hlt
    refine ⟨0, ?_⟩
    have hlt := (List.getElem?_eq_some_iff.mp hp).1
    rw [length_replicate] at hlt
    exact getElem?_replicate_of_lt hlt
  · rw [sum_replicate_nat, mul_zero]
    rfl
  · intro g hg
    cases hg
  · intro g hg
    cases hg

variable {st : PackState W} {weight : List W}

theorem Packed.step (h : Packed n m c done st) {group pack items : Nat} {w : W} (hgroup : group < n)
    (hnew : group ∉ done) (hitems : st.itemsRow[pack]? = some items) (hlt : items < c) :
    Packed n m c (group :: done)
      { packIndex := st.packIndex.set group pack
        rankInPack := st.rankInPack.set group items
        weightsRow := st.weightsRow.set pack (if items + 1 = c then ⊤ else (w : WithTop W))
        itemsRow := st.itemsRow.set pack (items + 1) } := by
  have hpack : pack < st.itemsRow.length := (List.getElem?_eq_some_iff.mp hitems).1
  have hpackW : pack < st.weightsRow.length := by rw [h.weightsRow, ← h.itemsRow]; exact hpack
  have hself : (st.itemsRow.set pack (items + 1))[pack]? = some (items + 1) :=
    getElem?_set_self hpack
  -- the places of the groups that were there before
  have hold : ∀ g ∈ done, (st.packIndex.set group pack)[g]? = st.packIndex[g]? ∧
      (st.rankInPack.set group (items : Int))[g]? = st.rankInPack[g]? := by
    intro g hg
    have hne : group ≠ g := fun heq => hnew (heq ▸ hg)
    exact ⟨getElem?_set_ne hne, getElem?_set_ne hne⟩
  have hnewPack : (st.packIndex.set group (pack : Int))[group]? = some (pack : Int) :=
    getElem?_set_self (by rw [h.packIndex]; exact hgroup)
  have hnewRank : (st.rankInPack.set group (items : Int))[group]? = some (items : Int) :=
    getElem?_set_self (by rw [h.rankInPack]; exact hgroup)
  -- the new place is not the place of a group that was there before
  have hfresh : ∀ g ∈ done, st.packIndex[g]? = some (pack : Int) →
      st.rankInPack[g]? ≠ some (items : Int) := by
    intro g hg hp hr
    obtain ⟨p, r, k, hp', hr', hk, hrk⟩ := h.placed g hg
    rw [hp] at hp'
    have hpp : pack = p := by exact_mod_cast Option.some.inj hp'
    rw [hr] at hr'
    have hrr : items = r := by exact_mod_cast Option.some.inj hr'
    rw [← hpp, hitems] at hk
    have hkk := Option.some.inj hk
    omega
  constructor
  · rw [length_set, h.packIndex]
  · rw [length_set, h.rankInPack]
  · rw [length_set, h.weightsRow]
  · rw [length_set, h.itemsRow]
  · intro p k hk
    by_cases hp : pack = p
    · rw [← hp, hself] at hk
      have hkk := Option.some.inj hk
      omega
    · rw [getElem?_set_ne hp] at hk
      exact h.items_le p k hk
  · intro p hk
    by_cases hp : pack = p
    · rw [← hp, hself] at hk
      rw [← hp, if_pos (Option.some.inj hk)]
      exact getElem?_set_self hpackW
    · rw [getElem?_set_ne hp] at hk
      rw [getElem?_set_ne hp]
      exact h.full p hk
  · intro p k hk hkc
    by_cases hp : pack = p
    · rw [← hp, hself] at hk
      have hkk := Option.some.inj hk
      rw [← hp, if_neg (by omega)]
      exact ⟨w, getElem?_set_self hpackW⟩
    · rw [getElem?_set_ne hp] at hk
      rw [getElem?_set_ne hp]
      exact h.notFull p k hk hkc
  · have hitem : st.itemsRow[pack] = items := by
      rw [getElem?_eq_getElem hpack] at hitems
      exact Option.some.inj hitems
    have hsplit : st.itemsRow.sum = (st.itemsRow.take pack).sum + items +
        (st.itemsRow.drop (pack + 1)).sum := by
      conv_lhs => rw [← take_append_drop pack st.itemsRow, drop_eq_getElem_cons hpack,
        hitem, List.sum_append, sum_cons]
      omega
    have htotal := h.total
    show (st.itemsRow.set pack (items + 1)).sum = (group :: done).length
    rw [set_eq_take_append_cons_drop, if_pos hpack, List.sum_append, sum_cons,
      length_cons]
    omega
  · intro g hg
    rcases mem_cons.mp hg with rfl | hg
    · exact ⟨pack, items, items + 1, hnewPack, hnewRank, hself, by omega⟩
    · obtain ⟨p, r, k, hp, hr, hk, hrk⟩ := h.placed g hg
      rw [(hold g hg).1, (hold g hg).2]
      by_cases hpp : pack = p
      · rw [← hpp, hitems] at hk
        have hkk := Option.some.inj hk
        exact ⟨p, r, items + 1, hp, hr, hpp ▸ hself, by omega⟩
      · exact ⟨p, r, k, hp, hr, by rw [getElem?_set_ne hpp]; exact hk, hrk⟩
  · intro g hg g' hg' hp hr
    rcases mem_cons.mp hg with rfl | hgd
    · rcases mem_cons.mp hg' with rfl | hg'
      · rfl
      · rw [hnewPack, (hold g' hg').1] at hp
        rw [hnewRank, (hold g' hg').2] at hr
        exact absurd hr.symm (hfresh g' hg' hp.symm)
    · rcases mem_cons.mp hg' with rfl | hg'
      · rw [hnewPack, (hold g hgd).1] at hp
        rw [hnewRank, (hold g hgd).2] at hr
        exact absurd hr (hfresh g hgd hp)
      · rw [(hold g hgd).1, (hold g' hg').1] at hp
        rw [(hold g hgd).2, (hold g' hg').2] at hr
        exact h.distinct g hgd g' hg' hp hr

variable [LinearOrder W]

theorem Packed.lightest (h : Packed n m c done st) (hroom : done.length < m * c) :
    ∃ pack items : Nat, argmin st.weightsRow = .ok pack ∧ st.itemsRow[pack]? = some items ∧
      items < c ∧ ∃ w : W, st.weightsRow[pack]? = some (w : WithTop W) := by
  have hnotFull : ∃ p items : Nat, st.itemsRow[p]? = some items ∧ items < c := by
    by_contra hall
    have hitems : st.itemsRow = List.replicate m c := by
      rw [eq_replicate_iff]
      refine ⟨h.itemsRow, ?_⟩
      intro items hmem
      obtain ⟨p, hp⟩ := mem_iff_getElem?.mp hmem
      have hle := h.items_le p items hp
      have hge : ¬ items < c := fun hlt => hall ⟨p, items, hp, hlt⟩
      omega
    have htotal := h.total
    rw [hitems, sum_replicate_nat] at htotal
    omega
  obtain ⟨p, items, hp, hlt⟩ := hnotFull
  obtain ⟨w, hw⟩ := h.notFull p items hp hlt
  have hne : st.weightsRow ≠ [] := ne_nil_of_mem (mem_of_getElem? hw)
  obtain ⟨pack, x, hpack, hx, hleast⟩ := argmin_spec hne
  have hpackLt : pack < st.itemsRow.length := by
    rw [h.itemsRow, ← h.weightsRow]
    exact (List.getElem?_eq_some_iff.mp hx).1
  have hitems := getElem?_eq_getElem hpackLt
  have hle := h.items_le pack _ hitems
  have hnotTop : st.itemsRow[pack] ≠ c := by
    intro heq
    rw [heq] at hitems
    have htop := h.full pack hitems
    rw [hx] at htop
    have hxle := hleast _ (mem_of_getElem? hw)
    rw [Option.some.inj htop] at hxle
    exact absurd hxle (not_le.mpr (WithTop.coe_lt_top w))
  have hltc := lt_of_le_of_ne hle hnotTop
  exact ⟨pack, _, hpack, hitems, hltc, h.notFull pack _ hitems hltc⟩

variable [Add W]

theorem packGroup_spec (h : Packed n m c done st) (hroom : done.length < m * c) {group : Nat}
    (hgroup : group < n) (hweight : weight.length = n) :
    ∃ (pack items : Nat) (w : W), st.itemsRow[pack]? = some items ∧ items < c ∧ pack < m ∧
      packGroup c weight st group = .ok
        { packIndex := st.packIndex.set group pack
          rankInPack := st.rankInPack.set group items
          weightsRow := st.weightsRow.set pack (if items + 1 = c then ⊤ else (w : WithTop W))
          itemsRow := st.itemsRow.set pack (items + 1) } := by
  obtain ⟨pack, items, hpack, hitems, hlt, total, htotal⟩ := h.lightest hroom
  have hpackLt : pack < m := by
    rw [← h.itemsRow]
    exact (List.getElem?_eq_some_iff.mp hitems).1
  have hw := getElem?_eq_getElem (l := weight) (i := group) (by omega)
  refine ⟨pack, items, total + weight[group], hitems, hlt, hpackLt, ?_⟩
  have hset : ∀ (xs : List (WithTop W)) (x : WithTop W), xs.length = m →
      pySet xs (pack : Int) x = .ok (xs.set pack x) := by
    intro xs x hxs
    exact pySet_ok.mpr ⟨pack, pyIndex_natCast (by omega), rfl⟩
  unfold packGroup
  rw [hpack, ok_bind]
  rw [pySet_ok.mpr ⟨group, pyIndex_natCast (by rw [h.packIndex]; exact hgroup), rfl⟩, ok_bind]
  rw [pyGet_natCast_ok.mpr hitems, ok_bind]
  rw [pySet_ok.mpr ⟨group, pyIndex_natCast (by rw [h.rankInPack]; exact hgroup), rfl⟩, ok_bind]
  rw [pyGet_natCast_ok.mpr htotal, ok_bind, pyGet_natCast_ok.mpr hw, ok_bind]
  rw [hset _ _ h.weightsRow, ok_bind]
  rw [pySet_ok.mpr ⟨pack, pyIndex_natCast (by rw [h.itemsRow]; exact hpackLt), rfl⟩, ok_bind]
  by_cases hfull : items + 1 = c
  · rw [if_pos hfull, if_pos hfull, hset _ _ (by rw [length_set, h.weightsRow]), set_set]
    rfl
  · rw [if_neg hfull, if_neg hfull]
    rfl

theorem packGroups_packed (hweight : weight.length = n) {groups : List Nat}
    (h : Packed n m c done st) (hnodup : (groups ++ done).Nodup) (hlt : ∀ g ∈ groups, g < n)
    (hroom : (groups ++ done).length ≤ m * c) :
    ∃ st', groups.foldlM (packGroup c weight) st = .ok st' ∧
      Packed n m c (groups.reverse ++ done) st' := by
  induction groups generalizing done st with
  | nil => exact ⟨st, rfl, h⟩
  | cons group groups ih =>
    rw [cons_append, nodup_cons] at hnodup
    rw [cons_append, length_cons, length_append] at hroom
    have hgroup := hlt group mem_cons_self
    have hnew : group ∉ done := fun hmem => hnodup.1 (mem_append_right _ hmem)
    obtain ⟨pack, items, w, hitems, hitemsLt, -, hstep⟩ :=
      packGroup_spec h (by omega) hgroup hweight
    have hpacked := h.step (w := w) hgroup hnew hitems hitemsLt
    have hnodup' : (groups ++ group :: done).Nodup :=
      nodup_middle.mpr (nodup_cons.mpr hnodup)
    obtain ⟨st', hrun, hst'⟩ := ih hpacked hnodup'
      (fun g hg => hlt g (mem_cons_of_mem group hg))
      (by rw [length_append, length_cons]; omega)
    refine ⟨st', ?_, ?_⟩
    · rw [foldlM_cons, hstep, ok_bind]
      exact hrun
    · rw [reverse_cons, append_assoc]
      exact hst'

variable [Zero W] [Neg W]

theorem packRow_spec (sort : Argsort W) (hdvd : m ∣ n) (hweight : weight.length = n) :
    ∃ (st : PackState W) (pack rank : Nat → Nat), packRow sort n m (n / m) weight = .ok st ∧
      st.packIndex = tab n (fun i => (pack i : Int)) ∧
      st.rankInPack = tab n (fun i => (rank i : Int)) ∧ ValidPacking n m pack rank := by
  have horder := sort.perm (weight.map (-·))
  rw [length_map, hweight] at horder
  unfold packRow
  rcases Nat.eq_zero_or_pos n with rfl | hn
  · rw [range_zero] at horder
    rw [horder.eq_nil]
    exact ⟨_, fun _ => 0, fun _ => 0, rfl, rfl, rfl, ⟨by omega, by omega, by omega⟩⟩
  · have hm : 0 < m := pos_of_dvd_of_pos hdvd hn
    have hc : 0 < n / m := div_pos (le_of_dvd hn hdvd) hm
    have hnodup : (sort.run (weight.map (-·)) ++ []).Nodup := by
      rw [append_nil]
      exact horder.nodup_iff.mpr nodup_range
    have hroom : (sort.run (weight.map (-·)) ++ []).length ≤ m * (n / m) := by
      rw [append_nil, horder.length_eq, length_range, Nat.mul_div_cancel' hdvd]
    obtain ⟨st, hrun, hst⟩ := packGroups_packed hweight (Packed.init hc) hnodup
      (fun g hg => mem_range.mp (horder.mem_iff.mp hg)) hroom
    rw [append_nil] at hst
    have hmem : ∀ i < n, i ∈ (sort.run (weight.map (-·))).reverse := by
      intro i hi
      exact mem_reverse.mpr (horder.mem_iff.mpr (mem_range.mpr hi))
    have hplaced := fun i (hi : i < n) => hst.placed i (hmem i hi)
    choose! pack rank items hpack hrank hitems hlt using hplaced
    refine ⟨st, pack, rank, hrun, eq_tab hst.packIndex hpack, eq_tab hst.rankInPack hrank, ?_⟩
    constructor
    · intro i hi
      rw [← hst.itemsRow]
      exact (List.getElem?_eq_some_iff.mp (hitems i hi)).1
    · intro i hi
      exact (hlt i hi).trans_le (hst.items_le _ _ (hitems i hi))
    · intro i hi j hj hij hrij
      apply hst.distinct i (hmem i hi) j (hmem j hj)
      · rw [hpack i hi, hpack j hj, hij]
      · rw [hrank i hi, hrank j hj, hrij]

theorem pyDivides_ok {b a : Nat} (hb : 0 < b) : pyDivides b a = .ok (decide (b ∣ a)) := by
  unfold pyDivides
  rw [if_neg (by omega)]
  congr 2
  exact propext dvd_iff_mod_eq_zero.symm

theorem balancedPacking_spec (sort : Argsort W) (hm : 0 < m) (hdvd : m ∣ n) (L : Nat)
    (weight : Nat → List W) (hweight : ∀ l < L, (weight l).length = n) :
    ∃ pack rank : Nat → Nat → Nat, (∀ l < L, ValidPacking n m (pack l) (rank l)) ∧
      balancedPacking sort n (tab L weight) m =
        .ok (tab L fun l => tab n fun i => (pack l i : Int),
          tab L fun l => tab n fun i => (rank l i : Int)) := by
  unfold balancedPacking
  rw [pyDivides_ok hm, ok_bind, pyAssert_pos (decide_eq_true hdvd), ok_bind]
  by_cases hone : n / m = 1
  · rw [if_pos hone]
    have hnm : n = m := by
      have := Nat.mul_div_cancel' hdvd
      rw [hone, mul_one] at this
      exact this.symm
    refine ⟨fun _ i => i, fun _ _ => 0, ?_, ?_⟩
    · intro l hl
      constructor
      · intro i hi
        exact hi.trans_eq hnm
      · intro i hi
        rw [hone]
        exact one_pos
      · intro i hi j hj hij _
        exact hij
    · rw [map_tab, map_tab]
      have hzeros : List.replicate n (0 : Int) = tab n fun _ => ((0 : Nat) : Int) := by
        apply eq_tab length_replicate
        intro i hi
        exact getElem?_replicate_of_lt hi
      rw [hzeros]
      rfl
  · rw [if_neg hone]
    have hrows := fun l (hl : l < L) => packRow_spec sort hdvd (hweight l hl)
    have hstate : Nonempty (PackState W) := ⟨⟨[], [], [], []⟩⟩
    choose! st pack rank hrun hpack hrank hvalid using hrows
    refine ⟨pack, rank, hvalid, ?_⟩
    rw [mapM_tab hrun, ok_bind, map_tab, map_tab, tab_congr hpack, tab_congr hrank]
    rfl

theorem balancedPacking_numbered (sort : Argsort W) (hm : 0 < m) (hdvd : m ∣ n)
    {weight : List (List W)} (hweight : ∀ row ∈ weight, row.length = n) :
    ∃ packIndex rankInPack, balancedPacking sort n weight m = .ok (packIndex, rankInPack) ∧
      packIndex.length = weight.length ∧ rankInPack.length = weight.length ∧
      ∀ (layer : Nat) (packs ranks : List Int), packIndex[layer]? = some packs →
        rankInPack[layer]? = some ranks → NumberedPacks n m packs ranks := by
  have hrows : ∀ l < weight.length, (weight[l]?.getD []).length = n := by
    intro l hl
    rw [getElem?_eq_getElem hl]
    exact hweight _ (getElem_mem hl)
  obtain ⟨pack, rank, hvalid, hrun⟩ := balancedPacking_spec sort hm hdvd weight.length _ hrows
  rw [← eq_tab_getD weight []] at hrun
  refine ⟨_, _, hrun, length_tab _ _, length_tab _ _, ?_⟩
  intro layer packs ranks hpacks hranks
  rw [getElem?_tab] at hpacks hranks
  split at hpacks
  next hlayer =>
    rw [if_pos hlayer] at hranks
    rw [← Option.some.inj hpacks, ← Option.some.inj hranks]
    exact (hvalid layer hlayer).numberedPacks hdvd
  · cases hpacks

end VllmCore.Eplb.DefaultPolicy
