import VllmCore.Logprobs
/-!
# Flat log probabilities as a list of dictionaries

A container that was filled by appending is given by its flat entries and one segment of
them for each position.  Reading positions gives the dictionaries that were appended.  A
slice moves its segments to the front, which needs a first and a last segment, in this
order.
-/

namespace VllmCore.Logprobs

open List Support Dict

variable {L : Type}

/-! ## Containers given by segments -/

def FlatLogprobs.ofSegments (entries : List (Int × Logprob L)) (segments : List (Nat × Nat)) :
    FlatLogprobs L where
  startIndices := segments.map fun seg => (seg.1 : Int)
  endIndices := segments.map fun seg => (seg.2 : Int)
  tokenIds := entries.map Prod.fst
  logprobs := entries.map fun e => e.2.logprob
  ranks := entries.map fun e => e.2.rank
  decodedTokens := entries.map fun e => e.2.decodedToken

def segmentRow (entries : List (Int × Logprob L)) (seg : Nat × Nat) : LogprobsOnePosition L :=
  ofEntries ((entries.take seg.2).drop seg.1)

structure Ordered (size : Nat) (segments : List (Nat × Nat)) : Prop where
  within : ∀ seg ∈ segments, seg.1 ≤ seg.2 ∧ seg.2 ≤ size
  pairwise : segments.Pairwise fun a b => a.2 ≤ b.1

/-- The container holds the dictionaries, position by position. -/
def Holds (f : FlatLogprobs L) (rows : List (LogprobsOnePosition L)) : Prop :=
  ∃ entries segments, f = .ofSegments entries segments ∧ Ordered entries.length segments ∧
    rows = segments.map (segmentRow entries)

/-- Reading the container gives what reading the list gives. -/
structure ActsAs (f : FlatLogprobs L) (rows : List (LogprobsOnePosition L)) : Prop where
  len : f.len = rows.length
  getItem : ∀ index : Int, f.getItem index = pyGet rows index
  iter : f.iter = .ok rows

/-- A slice of the container reads like the slice of the list, or raises as it does. -/
def SliceActsAs (f : FlatLogprobs L) (rows : List (LogprobsOnePosition L)) (s : PySlice) : Prop :=
  match s.get rows with
  | .error e => f.getSlice s = .error e
  | .ok selected => ∃ g, f.getSlice s = .ok g ∧ ActsAs g selected

/-! ## Dictionaries -/

@[simp] theorem ofEntries_nil : ofEntries ([] : List (Int × Logprob L)) = .empty := rfl

@[simp] theorem ofEntries_entries (d : LogprobsOnePosition L) : ofEntries d.entries = d :=
  foldl_set_entries d

theorem mem_keys_foldl_set (entries : List (Int × Logprob L)) (d : LogprobsOnePosition L) {k : Int}
    (h : k ∈ d.keys) : k ∈ (entries.foldl (fun d e => d.set e.1 e.2) d).keys := by
  induction entries generalizing d with
  | nil => exact h
  | cons e entries ih =>
    apply ih
    rw [mem_keys_set]
    exact Or.inr h

variable {entries : List (Int × Logprob L)} {seg first : Nat × Nat} {f : FlatLogprobs L}
  {rows : List (LogprobsOnePosition L)} {segments rest : List (Nat × Nat)} {size : Nat}
  {s : PySlice}

theorem ofEntries_eq_empty : ofEntries entries = .empty ↔ entries = [] := by
  constructor
  · intro h
    cases entries with
    | nil => rfl
    | cons e entries =>
      have hfirst : e.1 ∈ ((Dict.empty : LogprobsOnePosition L).set e.1 e.2).keys := by
        rw [mem_keys_set]
        exact Or.inl rfl
      have hmem : e.1 ∈ (ofEntries (e :: entries)).keys := mem_keys_foldl_set entries _ hfirst
      rw [h] at hmem
      cases hmem
  · intro h
    rw [h, ofEntries_nil]

theorem segmentRow_eq_empty (hle : seg.1 ≤ seg.2) (hsize : seg.2 ≤ entries.length) :
    segmentRow entries seg = .empty ↔ seg.1 = seg.2 := by
  unfold segmentRow
  rw [ofEntries_eq_empty, ← length_eq_zero_iff, length_drop, length_take]
  omega

/-! ## Appending -/

theorem holds_nil : Holds ({} : FlatLogprobs L) [] :=
  ⟨[], [], rfl, ⟨fun _ h => absurd h not_mem_nil, .nil⟩, rfl⟩

theorem foldl_pushEntry (entries : List (Int × Logprob L)) (f : FlatLogprobs L) :
    entries.foldl FlatLogprobs.pushEntry f =
      { f with
        tokenIds := f.tokenIds ++ entries.map Prod.fst
        logprobs := f.logprobs ++ entries.map fun e => e.2.logprob
        ranks := f.ranks ++ entries.map fun e => e.2.rank
        decodedTokens := f.decodedTokens ++ entries.map fun e => e.2.decodedToken } := by
  induction entries generalizing f with
  | nil => simp
  | cons e entries ih =>
    rw [foldl_cons, ih]
    simp [FlatLogprobs.pushEntry]

theorem appendEntries_ofSegments (entries new : List (Int × Logprob L))
    (segments : List (Nat × Nat)) :
    (FlatLogprobs.ofSegments entries segments).appendEntries new =
      .ofSegments (entries ++ new)
        (segments ++ [(entries.length, entries.length + new.length)]) := by
  unfold FlatLogprobs.appendEntries
  simp only [foldl_pushEntry]
  simp [FlatLogprobs.ofSegments]

variable {n : Nat} {α : Type}

theorem Ordered.append (h : Ordered size segments) :
    Ordered (size + n) (segments ++ [(size, size + n)]) where
  within := by
    intro seg hseg
    rw [mem_append, mem_singleton] at hseg
    rcases hseg with hold | rfl
    · have hin := h.within seg hold
      omega
    · exact ⟨by simp, by simp⟩
  pairwise := by
    rw [pairwise_append]
    refine ⟨h.pairwise, pairwise_singleton _ _, ?_⟩
    intro a ha b hb
    rw [mem_singleton] at hb
    rw [hb]
    exact (h.within a ha).2

theorem segmentRow_append {new : List (Int × Logprob L)} (h : seg.2 ≤ entries.length) :
    segmentRow (entries ++ new) seg = segmentRow entries seg := by
  unfold segmentRow
  rw [take_append_of_le_length h]

theorem Holds.appendEntries (h : Holds f rows) (new : List (Int × Logprob L)) :
    Holds (f.appendEntries new) (rows ++ [ofEntries new]) := by
  obtain ⟨entries, segments, rfl, hord, rfl⟩ := h
  refine ⟨entries ++ new, segments ++ [(entries.length, entries.length + new.length)],
    appendEntries_ofSegments entries new segments, ?_, ?_⟩
  · rw [length_append]
    exact hord.append
  · rw [map_append]
    congr 1
    · apply map_congr_left
      intro seg hseg
      exact (segmentRow_append (hord.within seg hseg).2).symm
    · unfold segmentRow
      rw [map_singleton, take_of_length_le (by rw [length_append]),
        drop_left]

theorem Holds.append (h : Holds f rows) (d : LogprobsOnePosition L) :
    Holds (f.append (some d)) (rows ++ [d]) := by
  have happ := h.appendEntries d.entries
  rwa [ofEntries_entries] at happ

theorem Holds.extend (h : Holds f rows) (ds : List (LogprobsOnePosition L)) :
    Holds (f.extend (ds.map some)) (rows ++ ds) := by
  induction ds generalizing f rows with
  | nil =>
    rw [append_nil]
    exact h
  | cons d ds ih =>
    have hrest := ih (h.append d)
    rwa [append_assoc] at hrest

theorem Holds.runFlat (h : Holds f rows) (op : Op L) : Holds (op.runFlat f) (op.runList rows) := by
  cases op with
  | append d => exact h.append d
  | appendNext a => exact h.appendEntries _
  | extend ds => exact h.extend ds

theorem holds_runFlat (ops : List (Op L)) :
    Holds (ops.foldl Op.runFlat {}) (ops.foldl Op.runList []) := by
  have hrun : ∀ (ops : List (Op L)) (f : FlatLogprobs L) (rows : List (LogprobsOnePosition L)),
      Holds f rows → Holds (ops.foldl Op.runFlat f) (ops.foldl Op.runList rows) := by
    intro ops
    induction ops with
    | nil => exact fun f rows h => h
    | cons op ops ih => exact fun f rows h => ih _ _ (h.runFlat op)
  exact hrun ops {} [] holds_nil

/-! ## Reading positions -/

theorem entryAt_ofSegments (entries : List (Int × Logprob L)) (segments : List (Nat × Nat))
    (i : Int) :
    (FlatLogprobs.ofSegments entries segments).entryAt i = pyGet entries i := by
  unfold FlatLogprobs.entryAt FlatLogprobs.ofSegments
  simp only [pyGet_map]
  cases pyGet entries i <;> rfl

theorem mapM_entryAt (entries : List (Int × Logprob L)) (segments : List (Nat × Nat))
    {start stop : Nat} (hsize : stop ≤ entries.length) :
    (pyRange start stop 1).mapM (FlatLogprobs.ofSegments entries segments).entryAt =
      .ok ((entries.take stop).drop start) := by
  rw [mapM_ok_iff, pyRange_natCast, forall₂_map_left_iff, forall₂_iff_get]
  constructor
  · rw [length_range, length_drop, length_take]
    omega
  · intro k hk hk'
    simp only [get_eq_getElem, getElem_range, getElem_drop, getElem_take]
    rw [entryAt_ofSegments, pyGet_natCast]

theorem getItem_ofSegments (h : Ordered entries.length segments) (index : Int) :
    (FlatLogprobs.ofSegments entries segments).getItem index =
      pyGet (segments.map (segmentRow entries)) index := by
  unfold FlatLogprobs.getItem
  simp only [FlatLogprobs.ofSegments, pyGet_map]
  cases hseg : pyGet segments index with
  | error e => rfl
  | ok seg =>
    obtain ⟨j, _, hj⟩ := pyGet_ok.mp hseg
    have hin := h.within seg (mem_of_getElem? hj)
    show (do
      let entries ← (pyRange seg.1 seg.2 1).mapM
        (FlatLogprobs.ofSegments entries segments).entryAt
      return ofEntries entries) = _
    rw [mapM_entryAt entries segments hin.2]
    rfl

theorem iter_of_getItem (hlen : f.len = rows.length)
    (hget : ∀ index : Int, f.getItem index = pyGet rows index) : f.iter = .ok rows := by
  unfold FlatLogprobs.iter
  rw [mapM_ok_iff, forall₂_iff_get]
  constructor
  · rw [length_range]
    exact hlen
  · intro i hi hi'
    rw [get_eq_getElem, getElem_range, hget, get_eq_getElem, pyGet_natCast]

theorem Holds.actsAs (h : Holds f rows) : ActsAs f rows := by
  obtain ⟨entries, segments, rfl, hord, rfl⟩ := h
  have hlen : (FlatLogprobs.ofSegments entries segments).len =
      (segments.map (segmentRow entries)).length := by
    unfold FlatLogprobs.len FlatLogprobs.ofSegments
    rw [length_map, length_map]
  have hget := getItem_ofSegments hord
  exact ⟨hlen, hget, iter_of_getItem hlen hget⟩

/-! ## Slices that go forward -/

/-- A segment of the slice that starts at `m`. -/
def shift (m : Nat) (seg : Nat × Nat) : Nat × Nat := (seg.1 - m, seg.2 - m)

theorem Ordered.le_last (h : Ordered size segments) (hne : segments ≠ []) (hseg : seg ∈ segments) :
    seg.2 ≤ (segments.getLast hne).2 := by
  have hpw := h.pairwise
  rw [← dropLast_append_getLast hne, pairwise_append] at hpw
  rw [← dropLast_append_getLast hne, mem_append, mem_singleton] at hseg
  rcases hseg with hseg | rfl
  · have hbefore := hpw.2.2 seg hseg (segments.getLast hne) (by simp)
    have hwithin := h.within (segments.getLast hne) (getLast_mem hne)
    omega
  · exact Nat.le_refl _

theorem Ordered.first_le (h : Ordered size (first :: segments)) (hseg : seg ∈ first :: segments) :
    first.1 ≤ seg.1 := by
  rcases mem_cons.mp hseg with rfl | hseg
  · exact Nat.le_refl _
  · have hbehind := (pairwise_cons.mp h.pairwise).1 seg hseg
    have hwithin := h.within first mem_cons_self
    omega

theorem Ordered.select (h : Ordered size segments)
    (hpos : 0 < s.stride) : Ordered size (s.select segments) where
  within := fun seg hseg => h.within seg (PySlice.mem_of_mem_select hseg)
  pairwise := PySlice.pairwise_select hpos h.pairwise

theorem take_drop_shift (xs : List α) {m a b : Nat} (hma : m ≤ a) (hbn : b ≤ n) :
    ((((xs.take n).drop m).take (b - m)).drop (a - m)) = (xs.take b).drop a := by
  by_cases hmb : m ≤ b
  · rw [take_drop, drop_drop, take_take]
    congr 1
    · omega
    · congr 1
      omega
  · rw [show b - m = 0 by omega, take_zero, drop_nil, drop_eq_nil_of_le]
    rw [length_take]
    omega

theorem getSlice_ofSegments (hs : s.stride ≠ 0) (hsel : s.select segments = first :: rest) :
    (FlatLogprobs.ofSegments entries segments).getSlice s = .ok {
      startIndices := (first :: rest).map fun seg => (seg.1 : Int) - first.1
      endIndices := (first :: rest).map fun seg => (seg.2 : Int) - first.1
      tokenIds := ((entries.take ((first :: rest).getLast (by simp)).2).drop first.1).map Prod.fst
      logprobs := ((entries.take ((first :: rest).getLast (by simp)).2).drop first.1).map
        fun e => e.2.logprob
      ranks := ((entries.take ((first :: rest).getLast (by simp)).2).drop first.1).map
        fun e => e.2.rank
      decodedTokens := ((entries.take ((first :: rest).getLast (by simp)).2).drop first.1).map
        fun e => e.2.decodedToken } := by
  unfold FlatLogprobs.getSlice FlatLogprobs.ofSegments
  simp only [PySlice.get_of_ne hs, PySlice.select_map, hsel, ok_bind]
  simp only [pyGet_map, pyGet_first, pyGet_last (first :: rest) (by simp), Except.map, ok_bind,
    pySlice_natCast, ← map_take, ← map_drop, map_map]
  rfl

theorem Ordered.getSlice (hs : s.stride ≠ 0) (hsel : s.select segments = first :: rest)
    (h : Ordered entries.length (first :: rest)) :
    ∃ g, (FlatLogprobs.ofSegments entries segments).getSlice s = .ok g ∧
      Holds g ((first :: rest).map (segmentRow entries)) := by
  refine ⟨_, getSlice_ofSegments hs hsel, ?_⟩
  have hne : first :: rest ≠ [] := cons_ne_nil first rest
  have hlast := fun seg (hseg : seg ∈ first :: rest) => h.le_last hne hseg
  have hfirst := fun seg (hseg : seg ∈ first :: rest) => h.first_le hseg
  refine ⟨(entries.take ((first :: rest).getLast hne).2).drop first.1,
    (first :: rest).map (shift first.1), ?_, ?_, ?_⟩
  · unfold FlatLogprobs.ofSegments
    rw [FlatLogprobs.mk.injEq]
    refine ⟨?_, ?_, rfl, rfl, rfl, rfl⟩
    · rw [map_map]
      apply map_congr_left
      intro seg hseg
      have hle := hfirst seg hseg
      show (seg.1 : Int) - first.1 = ((seg.1 - first.1 : Nat) : Int)
      omega
    · rw [map_map]
      apply map_congr_left
      intro seg hseg
      have hle := hfirst seg hseg
      have hwithin := h.within seg hseg
      show (seg.2 : Int) - first.1 = ((seg.2 - first.1 : Nat) : Int)
      omega
  · constructor
    · intro seg hseg
      obtain ⟨old, hold, rfl⟩ := mem_map.mp hseg
      have hle := hlast old hold
      have hwithin := h.within old hold
      rw [length_drop, length_take]
      show old.1 - first.1 ≤ old.2 - first.1 ∧ old.2 - first.1 ≤ _
      omega
    · rw [pairwise_map]
      apply h.pairwise.imp
      intro a b hab
      show a.2 - first.1 ≤ b.1 - first.1
      omega
  · rw [map_map]
    apply map_congr_left
    intro seg hseg
    exact congrArg ofEntries (take_drop_shift entries (hfirst seg hseg) (hlast seg hseg)).symm

theorem Ordered.select_flip (h : Ordered size segments) (hneg : s.stride < 0)
    (hsel : s.select segments = first :: rest) (hrest : rest ≠ []) :
    ((first :: rest).getLast (by simp)).2 ≤ first.1 := by
  have hpw := PySlice.pairwise_select_flip hneg h.pairwise
  rw [hsel, pairwise_cons] at hpw
  rw [getLast_cons hrest]
  exact hpw.1 _ (getLast_mem hrest)

theorem mapM_entryAt_empty (hempty : f.tokenIds = []) (start stop : Int) :
    (pyRange start stop 1).mapM f.entryAt =
      if stop ≤ start then .ok [] else .error (.indexError "list index out of range") := by
  unfold pyRange
  rw [rangeLength_one]
  split
  · rw [show (stop - start).toNat = 0 by omega]
    rfl
  · obtain ⟨k, hk⟩ : ∃ k, (stop - start).toNat = k + 1 := ⟨(stop - start).toNat - 1, by omega⟩
    have hget : ∀ i : Int, f.entryAt i = .error (.indexError "list index out of range") := by
      intro i
      unfold FlatLogprobs.entryAt pyGet
      rw [hempty]
      cases pyIndex ([] : List Int).length i <;> rfl
    rw [hk, range_succ_eq_map, map_cons, mapM_cons, hget]
    rfl

theorem actsAs_empty_iff (hempty : f.tokenIds = []) (xs : List α) {a b : α → Int}
    {row : α → LogprobsOnePosition L} (hstart : f.startIndices = xs.map a)
    (hend : f.endIndices = xs.map b) (hrow : ∀ x ∈ xs, row x = .empty ↔ b x ≤ a x) :
    ActsAs f (xs.map row) ↔ ∀ r ∈ xs.map row, r = .empty := by
  have hget : ∀ index : Int, f.getItem index = (pyGet xs index).bind fun x =>
      if b x ≤ a x then .ok .empty else .error (.indexError "list index out of range") := by
    intro index
    unfold FlatLogprobs.getItem
    rw [hstart, hend, pyGet_map, pyGet_map]
    cases hx : pyGet xs index with
    | error e => rfl
    | ok x =>
      show (do
        let entries ← (pyRange (a x) (b x) 1).mapM f.entryAt
        return ofEntries entries) = _
      rw [mapM_entryAt_empty hempty]
      show _ = if b x ≤ a x then _ else _
      split <;> rfl
  constructor
  · intro hacts r hr
    obtain ⟨x, hx, rfl⟩ := mem_map.mp hr
    obtain ⟨i, hi, rfl⟩ := getElem_of_mem hx
    have hread := hacts.getItem i
    rw [hget, pyGet_map, pyGet_natCast xs i hi] at hread
    by_cases hle : b xs[i] ≤ a xs[i]
    · exact (hrow _ hx).mpr hle
    · change (if b xs[i] ≤ a xs[i] then _ else _) = _ at hread
      rw [if_neg hle] at hread
      cases hread
  · intro hall
    have hlen : f.len = (xs.map row).length := by
      unfold FlatLogprobs.len
      rw [hstart, length_map, length_map]
    have hread : ∀ index : Int, f.getItem index = pyGet (xs.map row) index := by
      intro index
      rw [hget, pyGet_map]
      cases hx : pyGet xs index with
      | error e => rfl
      | ok x =>
        obtain ⟨i, _, hi⟩ := pyGet_ok.mp hx
        have hmem := mem_of_getElem? hi
        have hempty := hall _ (mem_map_of_mem hmem)
        show (if b x ≤ a x then _ else _) = Except.ok (row x)
        rw [if_pos ((hrow x hmem).mp hempty), hempty]
    exact ⟨hlen, hread, iter_of_getItem hlen hread⟩

/-- The slice selects a position, and goes forward, or selects no other, or only positions with
nothing to read.  With a step of 0 both containers raise. -/
def SelectsForward (s : PySlice) (rows : List (LogprobsOnePosition L)) : Prop :=
  s.stride = 0 ∨ (s.select rows ≠ [] ∧
    (0 < s.stride ∨ (s.select rows).length = 1 ∨ ∀ row ∈ s.select rows, row = .empty))

theorem sliceActsAs_iff_of_ne (hs : s.stride ≠ 0) :
    SliceActsAs f rows s ↔ ∃ g, f.getSlice s = .ok g ∧ ActsAs g (s.select rows) := by
  unfold SliceActsAs
  rw [PySlice.get_of_ne hs]

/-- A slice of a container that holds the dictionaries reads like the slice of the list exactly
when it selects forward. -/
theorem Holds.sliceActsAs_iff (h : Holds f rows) (s : PySlice) :
    SliceActsAs f rows s ↔ SelectsForward s rows := by
  by_cases hzero : s.stride = 0
  · refine iff_of_true ?_ (Or.inl hzero)
    unfold SliceActsAs FlatLogprobs.getSlice PySlice.get
    simp only [if_pos hzero]
    rfl
  rw [sliceActsAs_iff_of_ne hzero]
  unfold SelectsForward
  rw [or_iff_right hzero]
  by_cases hnil : s.select rows = []
  · refine iff_of_false ?_ fun hsel => hsel.1 hnil
    rintro ⟨g, hg, -⟩
    obtain ⟨entries, segments, rfl, -, rfl⟩ := h
    rw [PySlice.select_map, map_eq_nil_iff] at hnil
    unfold FlatLogprobs.getSlice FlatLogprobs.ofSegments at hg
    simp only [PySlice.get_of_ne hzero, PySlice.select_map, hnil, ok_bind] at hg
    cases hg
  rw [and_iff_right hnil]
  obtain ⟨entries, segments, rfl, hord, rfl⟩ := h
  rw [PySlice.select_map] at hnil ⊢
  cases hsel : s.select segments with
  | nil => exact absurd (by rw [hsel]; rfl) hnil
  | cons first rest =>
    by_cases hforward : 0 < s.stride ∨ rest = []
    · have hsub : Ordered entries.length (first :: rest) := by
        rcases hforward with hpos | rfl
        · exact hsel ▸ hord.select hpos
        · refine ⟨?_, pairwise_singleton _ _⟩
          exact fun seg hseg => hord.within seg (PySlice.mem_of_mem_select (hsel ▸ hseg))
      obtain ⟨g, hg, hholds⟩ := hsub.getSlice hzero hsel
      refine iff_of_true ⟨g, hg, hholds.actsAs⟩ ?_
      rcases hforward with hpos | rfl
      · exact Or.inl hpos
      · exact Or.inr (Or.inl rfl)
    · obtain ⟨hpos, hrest⟩ := not_or.mp hforward
      have hback := hord.select_flip (by omega) hsel hrest
      have hone : ((first :: rest).map (segmentRow entries)).length ≠ 1 := by
        have hlen := length_pos_iff.mpr hrest
        rw [length_map, length_cons]
        omega
      rw [or_iff_right hpos, or_iff_right hone, getSlice_ofSegments hzero hsel]
      simp only [Except.ok.injEq, exists_eq_left']
      refine actsAs_empty_iff ?_ (first :: rest) (a := fun seg => (seg.1 : Int) - first.1)
        (b := fun seg => (seg.2 : Int) - first.1) rfl rfl ?_
      · show List.map Prod.fst _ = []
        rw [map_eq_nil_iff]
        apply drop_eq_nil_of_le
        rw [length_take]
        omega
      · intro seg hseg
        have hin := hord.within seg (PySlice.mem_of_mem_select (hsel ▸ hseg))
        rw [segmentRow_eq_empty hin.1 hin.2]
        omega

/-- For every sequence of operations, the container has the length of the list, its positions
and its iteration give the dictionaries of the list, and a slice gives the slice of the list
exactly when it selects forward. -/
theorem flatLogprobs_actsAs (ops : List (Op L)) :
    ActsAs (ops.foldl Op.runFlat {}) (ops.foldl Op.runList []) ∧
      ∀ s : PySlice, SliceActsAs (ops.foldl Op.runFlat {}) (ops.foldl Op.runList []) s ↔
        SelectsForward s (ops.foldl Op.runList []) :=
  ⟨(holds_runFlat ops).actsAs, (holds_runFlat ops).sliceActsAs_iff⟩

/-- `FlatLogprobs()[:]` raises, and `[][:]` is empty. -/
theorem empty_slice_raises :
    ¬ ∀ (ops : List (Op Int)) (s : PySlice),
      SliceActsAs (ops.foldl Op.runFlat {}) (ops.foldl Op.runList []) s := by
  intro hall
  obtain ⟨g, hg, -⟩ := hall [] {}
  cases hg

end VllmCore.Logprobs
