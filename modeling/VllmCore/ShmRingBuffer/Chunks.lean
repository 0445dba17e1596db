import VllmCore.ShmRingBuffer
import VllmCore.Support.RingQueue
/-!
# The chunks of the ring buffer

The chunks that live in the ring buffer are a queue: an allocation puts one behind the
others, and `free_buf` takes some from the front.  The queue is laid out between
`data_buffer_start` and `data_buffer_end`, within one round of the buffer, and its ids
follow each other around `ID_MAX`.
-/

namespace VllmCore

open List Nat Support

/-- A chunk as it was allocated: `allocate_buf(size)` returned the address and the id. -/
structure Chunk where
  address : Int
  id : Nat
  size : Nat
  deriving DecidableEq

namespace SingleWriterShmRingBuffer

def segmentOf (c : Chunk) : RingSegment := ⟨c.address, c.size + mdSize⟩

/-- How many chunks `free_buf` takes from the front: it stops at a chunk that is still in
use, and once the bytes are enough. -/
def freeCount (isFree : Chunk → Bool) (nbytes : Int) : List Chunk → Int → Nat
  | [], _ => 0
  | c :: rest, freedBytes =>
    if freedBytes < nbytes then
      if isFree c then freeCount isFree nbytes rest (freedBytes + (c.size + mdSize : Nat)) + 1
      else 0
    else 0

def indexOf (s : SingleWriterShmRingBuffer) (c : Chunk) : Nat :=
  (c.address % s.dataBufferSize).toNat

def dataOf (s : SingleWriterShmRingBuffer) (c : Chunk) : List UInt8 :=
  slice s.buf (s.indexOf c + mdSize) (s.indexOf c + (c.size + mdSize))

/-- The check of `allocate_buf`: the chunk ends within one round from the start. -/
def Fits (s : SingleWriterShmRingBuffer) (size : Nat) : Prop :=
  s.bufferEndReset (size + mdSize) + (size + mdSize : Nat) - s.dataBufferStart ≤ s.dataBufferSize

instance (s : SingleWriterShmRingBuffer) (size : Nat) : Decidable (s.Fits size) :=
  inferInstanceAs (Decidable (_ ≤ _))

/-! ## Ids around `ID_MAX` -/

/-- The ids of `count` chunks, one after the other. -/
def idsFrom (start count : Nat) : List Nat := (List.range count).map fun i => (start + i) % idMax

theorem idsFrom_add_one (start count : Nat) :
    idsFrom start (count + 1) = idsFrom start count ++ [(start + count) % idMax] := by
  unfold idsFrom
  rw [range_succ, map_append, map_singleton]

theorem idsFrom_cons (start count : Nat) :
    idsFrom start (count + 1) = start % idMax :: idsFrom ((start + 1) % idMax) count := by
  unfold idsFrom
  rw [range_succ_eq_map, map_cons, map_map, add_zero]
  congr 1
  apply map_congr_left
  intro i _
  show (start + (i + 1)) % idMax = ((start + 1) % idMax + i) % idMax
  rw [mod_add_mod]
  congr 1
  omega

theorem take_idsFrom {start count k : Nat} (h : k ≤ count) :
    (idsFrom start count).take k = idsFrom start k := by
  unfold idsFrom
  rw [← map_take, take_range, min_eq_left h]

theorem nodup_idsFrom {start count : Nat} (h : count ≤ idMax) : (idsFrom start count).Nodup := by
  apply List.Nodup.map_on _ nodup_range
  intro i hi j hj heq
  rw [mem_range] at hi hj
  simp only [idMax] at h heq
  omega

theorem idRange_eq {start k : Nat} (hstart : start < idMax) (hk : k < idMax) :
    idRange start ((start + k) % idMax) = idsFrom start k := by
  unfold idRange idsFrom
  by_cases hround : start + k < idMax
  · rw [Nat.mod_eq_of_lt hround, if_pos (Nat.le_add_right start k), Nat.add_sub_cancel_left,
      List.range'_eq_map_range]
    apply map_congr_left
    intro i hi
    rw [mem_range] at hi
    exact (Nat.mod_eq_of_lt (by omega)).symm
  · have hmod : (start + k) % idMax = start + k - idMax := by
      rw [mod_eq_sub_mod (by omega), Nat.mod_eq_of_lt (by omega)]
    rw [hmod, if_neg (by omega)]
    have hk' : k = (idMax - start) + (start + k - idMax) := by omega
    rw [List.range'_eq_map_range]
    conv_rhs => rw [hk', range_add, map_append, map_map]
    apply congrArg₂ (· ++ ·)
    · apply map_congr_left
      intro i hi
      rw [mem_range] at hi
      exact (Nat.mod_eq_of_lt (by omega)).symm
    · conv_lhs => rw [← map_id (List.range (start + k - idMax))]
      apply map_congr_left
      intro i hi
      rw [mem_range] at hi
      show i = (start + (idMax - start + i)) % idMax
      rw [show start + (idMax - start + i) = idMax + i by omega, add_mod_left,
        Nat.mod_eq_of_lt (by omega)]

/-! ## Integers in the shared memory -/

theorem pySlice_eq_slice (buf : List UInt8) (a b : Nat) : pySlice buf a b = slice buf a b := by
  rw [pySlice_natCast, drop_take]
  rfl

theorem slice_slice {buf : List UInt8} {a b c d : Nat} (h : a + d ≤ b) :
    slice (slice buf a b) c d = slice buf (a + c) (a + d) := by
  apply ext_getElem?
  intro i
  rw [getElem?_slice, getElem?_slice, getElem?_slice]
  by_cases hi : i < d - c
  · rw [if_pos hi, if_pos (by omega), if_pos (by omega), add_assoc]
  · rw [if_neg hi, if_neg (by omega)]

theorem store_ok {s : SingleWriterShmRingBuffer} {start integer : Nat} (hfits : integer < 2 ^ 31)
    (hroom : start + idNbytes ≤ s.buf.length) :
    ∃ buf, s.store start integer = .ok { s with buf := buf } ∧ buf.length = s.buf.length ∧
      slice buf start (start + idNbytes) = littleEndian integer idNbytes ∧
      ∀ a b, b ≤ start ∨ start + idNbytes ≤ a → slice buf a b = slice s.buf a b := by
  have hlength : start + idNbytes = start + (littleEndian integer idNbytes).length := by
    rw [length_littleEndian]
  have hrun := Store.run_slice hlength hroom
  apply Exists.intro
  refine ⟨?_, Store.length_run hrun, Store.slice_run_self hlength hroom hrun, ?_⟩
  · unfold store int2byte
    rw [if_pos hfits]
    dsimp only
    rw [hrun]
  · exact fun a b hapart => Store.slice_run_of_disjoint hlength hroom hrun hapart

theorem store_fits {s s' : SingleWriterShmRingBuffer} {start integer : Nat}
    (h : s.store start integer = .ok s') : integer < 2 ^ 31 := by
  unfold store int2byte at h
  by_contra hbig
  rw [if_neg hbig] at h
  cases h

/-! ## The queue of the chunks -/

structure Stored (s : SingleWriterShmRingBuffer) (c : Chunk) : Prop where
  size_pos : 0 < c.size
  size_fits : c.size + mdSize < 2 ^ 31
  id_lt : c.id < idMax
  id : slice s.buf (s.indexOf c) (s.indexOf c + idNbytes) = littleEndian c.id idNbytes
  size : slice s.buf (s.indexOf c + idNbytes) (s.indexOf c + mdSize) =
    littleEndian (c.size + mdSize) idNbytes

/-- The chunks `live`, the oldest first, live in the ring buffer. -/
structure Queue (s : SingleWriterShmRingBuffer) (live : List Chunk) : Prop where
  pos : 0 < s.dataBufferSize
  room : s.dataBufferSize ≤ s.buf.length
  few : live.length < idMax
  idStart : s.monotonicIdStart < idMax
  idEnd : s.monotonicIdEnd = (s.monotonicIdStart + live.length) % idMax
  ids : live.map (·.id) = idsFrom s.monotonicIdStart live.length
  metadata : ∀ id a, s.metadata.get? id = some a ↔ ∃ c ∈ live, c.id = id ∧ c.address = a
  laid : Laid s.dataBufferSize s.dataBufferStart (live.map segmentOf) s.dataBufferEnd
  start_nonneg : 0 ≤ s.dataBufferStart
  round : s.dataBufferEnd ≤ s.dataBufferStart + s.dataBufferSize
  rounds : s.dataBufferEnd < 2 * s.dataBufferSize
  empty : live = [] → s.dataBufferStart = 0
  stored : ∀ c ∈ live, s.Stored c

namespace Queue

variable {s s' : SingleWriterShmRingBuffer} {live rest : List Chunk} {c : Chunk}

theorem nodup_ids (h : s.Queue live) : (live.map (·.id)).Nodup := by
  rw [h.ids]
  exact nodup_idsFrom h.few.le

theorem inside (h : s.Queue live) (hc : c ∈ live) :
    s.indexOf c + (c.size + mdSize) ≤ s.dataBufferSize ∧
      ((s.indexOf c : Nat) : Int) = c.address % s.dataBufferSize := by
  have hinside := h.laid.inside h.pos (mem_map_of_mem hc)
  obtain ⟨hlow, hhigh⟩ := hinside
  unfold RingSegment.place segmentOf at hlow hhigh
  have hindex : ((s.indexOf c : Nat) : Int) = c.address % s.dataBufferSize :=
    Int.toNat_of_nonneg hlow
  refine ⟨?_, hindex⟩
  dsimp only at hhigh
  omega

theorem accessBuf (h : s.Queue live) (hc : c ∈ live) :
    s.accessBuf c.address = (s.dataOf c, ((c.id : Int), ((c.size + mdSize : Nat) : Int))) := by
  have hstored := h.stored c hc
  obtain ⟨hinside, hindex⟩ := h.inside hc
  have hmd : idNbytes + idNbytes = mdSize := rfl
  have hbuff : pySlice s.buf (c.address % s.dataBufferSize)
      (c.address % s.dataBufferSize + mdSize) =
        slice s.buf (s.indexOf c) (s.indexOf c + mdSize) := by
    rw [← hindex, ← cast_add]
    exact pySlice_eq_slice s.buf _ _
  have hid : byte2int (pySlice (slice s.buf (s.indexOf c) (s.indexOf c + mdSize)) 0 idNbytes) =
      c.id := by
    have hslice := pySlice_eq_slice (slice s.buf (s.indexOf c) (s.indexOf c + mdSize)) 0 idNbytes
    rw [cast_zero] at hslice
    rw [hslice, slice_slice (by omega), add_zero, hstored.id]
    apply fromBytesLittleSigned_littleEndian
    have hlt := hstored.id_lt
    simp only [idMax, idNbytes] at hlt ⊢
    omega
  have hsize : byte2int (pySlice (slice s.buf (s.indexOf c) (s.indexOf c + mdSize)) idNbytes
      mdSize) = ((c.size + mdSize : Nat) : Int) := by
    rw [pySlice_eq_slice, slice_slice le_rfl, hstored.size]
    apply fromBytesLittleSigned_littleEndian
    have hlt := hstored.size_fits
    simp only [idNbytes] at hlt ⊢
    omega
  unfold SingleWriterShmRingBuffer.accessBuf
  dsimp only
  rw [hbuff, hid, hsize, ← hindex, ← cast_add, ← cast_add, pySlice_eq_slice]
  rfl

theorem apart (h : s.Queue live) :
    (live.map segmentOf).Pairwise (RingSegment.Apart s.dataBufferSize) := by
  apply h.laid.apart h.round
  intro segment hmem
  obtain ⟨c, _, rfl⟩ := mem_map.mp hmem
  show 0 < c.size + mdSize
  simp only [mdSize]
  omega

theorem congr_stored (hstored : s.Stored c) (hsize : s'.dataBufferSize = s.dataBufferSize)
    (hid : slice s'.buf (s.indexOf c) (s.indexOf c + idNbytes) =
      slice s.buf (s.indexOf c) (s.indexOf c + idNbytes))
    (hmd : slice s'.buf (s.indexOf c + idNbytes) (s.indexOf c + mdSize) =
      slice s.buf (s.indexOf c + idNbytes) (s.indexOf c + mdSize)) : s'.Stored c := by
  have hindex : s'.indexOf c = s.indexOf c := by
    unfold indexOf
    rw [hsize]
  refine ⟨hstored.size_pos, hstored.size_fits, hstored.id_lt, ?_, ?_⟩
  · rw [hindex, hid]
    exact hstored.id
  · rw [hindex, hmd]
    exact hstored.size

theorem bufferEndReset_spec {size : Nat} (h : s.Queue live) (hfits : s.Fits size) :
    s.dataBufferEnd ≤ s.bufferEndReset (size + mdSize) ∧
      s.bufferEndReset (size + mdSize) % s.dataBufferSize + (size + mdSize : Nat) ≤
        s.dataBufferSize ∧
      s.bufferEndReset (size + mdSize) + (size + mdSize : Nat) ≤
        s.dataBufferStart + s.dataBufferSize ∧
      (live = [] → s.bufferEndReset (size + mdSize) = s.dataBufferStart) := by
  have hpos : (0 : Int) < s.dataBufferSize := by
    have hpos := h.pos
    omega
  have hle := h.laid.le
  unfold Fits at hfits
  unfold bufferEndReset at hfits ⊢
  split at hfits
  next hcross =>
    rw [if_pos hcross]
    have hdiv := Int.mul_ediv_add_emod s.dataBufferEnd s.dataBufferSize
    have hmod := Int.emod_lt_of_pos s.dataBufferEnd hpos
    have hround : (s.dataBufferEnd / s.dataBufferSize + 1) * s.dataBufferSize =
        s.dataBufferEnd - s.dataBufferEnd % s.dataBufferSize + s.dataBufferSize := by
      linarith
    rw [Int.mul_emod_left, hround]
    rw [hround] at hfits
    refine ⟨by omega, by omega, by omega, ?_⟩
    intro hnil
    have hstart := h.empty hnil
    have hlaid := h.laid
    rw [hnil, map_nil] at hlaid
    rw [hlaid.nil_eq, hstart, Int.zero_emod] at hcross hfits
    omega
  next hcross =>
    rw [if_neg hcross]
    refine ⟨le_refl _, by omega, by omega, ?_⟩
    intro hnil
    have hlaid := h.laid
    rw [hnil, map_nil] at hlaid
    exact hlaid.nil_eq

theorem allocateBuf {size : Nat} (h : s.Queue live) (hstart : s.dataBufferStart < s.dataBufferSize)
    (hpos : 0 < size) (hfits : s.Fits size) (hsize : size + mdSize < 2 ^ 31) :
    ∃ s', s.allocateBuf size =
        (.ok (s.bufferEndReset (size + mdSize), s.monotonicIdEnd), s') ∧
      (live.length + 1 < idMax →
        s'.Queue (live ++ [⟨s.bufferEndReset (size + mdSize), s.monotonicIdEnd, size⟩]) ∧
        s'.dataBufferStart = s.dataBufferStart ∧ s'.dataBufferSize = s.dataBufferSize) := by
  obtain ⟨hend, hplace, hround, hempty⟩ := h.bufferEndReset_spec hfits
  obtain ⟨p, hp⟩ : ∃ p, p = s.bufferEndReset (size + mdSize) := ⟨_, rfl⟩
  obtain ⟨idx, hidx⟩ : ∃ idx, idx = (p % s.dataBufferSize).toNat := ⟨_, rfl⟩
  unfold Fits at hfits
  rw [← hp] at hend hplace hround hempty hfits ⊢
  have hlow := Int.emod_nonneg p (by have := h.pos; omega : (s.dataBufferSize : Int) ≠ 0)
  have hcast : (idx : Int) = p % s.dataBufferSize := by
    rw [hidx]
    exact Int.toNat_of_nonneg hlow
  rw [← hcast] at hplace
  have hroom := h.room
  have hmd : mdSize = idNbytes + idNbytes := rfl
  have hidEnd : s.monotonicIdEnd < 2 ^ 31 := by
    rw [h.idEnd]
    exact mod_lt _ (by decide)
  obtain ⟨buf₁, hstore₁, hlength₁, hread₁, hsame₁⟩ :=
    @store_ok { s with dataBufferEnd := p } idx s.monotonicIdEnd hidEnd (by
      show idx + idNbytes ≤ s.buf.length
      omega)
  obtain ⟨buf₂, hstore₂, hlength₂, hread₂, hsame₂⟩ :=
    @store_ok { s with dataBufferEnd := p, buf := buf₁ } (idx + idNbytes) (size + mdSize) hsize (by
      rw [hlength₁]
      show idx + idNbytes + idNbytes ≤ s.buf.length
      omega)
  apply Exists.intro
  constructor
  · unfold SingleWriterShmRingBuffer.allocateBuf
    rw [if_neg (by omega)]
    dsimp only
    rw [← hp, if_neg (by omega), ← hidx, hstore₁]
    dsimp only
    rw [hstore₂]
  · intro hfew
    refine ⟨?_, rfl, rfl⟩
    have hids : (live ++ [(⟨p, s.monotonicIdEnd, size⟩ : Chunk)]).map (·.id) =
        idsFrom s.monotonicIdStart (live.length + 1) := by
      rw [idsFrom_add_one, map_append, h.ids, map_singleton, h.idEnd]
    have hlaid : Laid s.dataBufferSize s.dataBufferStart
        ((live ++ [(⟨p, s.monotonicIdEnd, size⟩ : Chunk)]).map segmentOf)
        (p + (size + mdSize : Nat)) := by
      rw [map_append, map_singleton]
      apply h.laid.append (s := segmentOf ⟨p, s.monotonicIdEnd, size⟩) hend
      · exact fun hnil => hempty (map_eq_nil_iff.mp hnil)
      · rfl
      · rw [← hcast]
        exact hplace
    have hnew : s.monotonicIdEnd ∉ live.map (·.id) := by
      have hnodup := @nodup_idsFrom s.monotonicIdStart _ (le_of_lt hfew)
      rw [← hids, map_append, nodup_append] at hnodup
      intro hmem
      exact hnodup.2.2 _ hmem _ (mem_singleton.mpr rfl) rfl
    have hmod : s.monotonicIdEnd % idMax = s.monotonicIdEnd := Nat.mod_eq_of_lt hidEnd
    have hlength : (live ++ [(⟨p, s.monotonicIdEnd, size⟩ : Chunk)]).length = live.length + 1 := by
      rw [length_append, length_singleton]
    have hapart := hlaid.apart hround (by
      intro segment hmem
      obtain ⟨c, _, rfl⟩ := mem_map.mp hmem
      show 0 < c.size + mdSize
      simp only [mdSize]
      omega)
    rw [map_append, map_singleton, pairwise_append] at hapart
    constructor
    · exact h.pos
    · show s.dataBufferSize ≤ buf₂.length
      rw [hlength₂]
      rw [hlength₁]
      exact hroom
    · rw [hlength]
      exact hfew
    · exact h.idStart
    · rw [hlength]
      rw [h.idEnd, mod_add_mod]
      congr 1
    · rw [hlength]
      exact hids
    · intro id a
      rw [hmod, Dict.get?_set]
      by_cases hid : id = s.monotonicIdEnd
      · rw [if_pos hid]
        constructor
        · intro ha
          exact ⟨_, mem_append_right _ mem_cons_self, hid.symm, Option.some.inj ha⟩
        · rintro ⟨c, hc, hcid, hca⟩
          rcases mem_append.mp hc with hc | hc
          · exact absurd (mem_map.mpr ⟨c, hc, hcid.trans hid⟩) hnew
          · rw [mem_singleton.mp hc] at hca
            rw [← hca]
      · rw [if_neg hid, h.metadata]
        constructor
        · rintro ⟨c, hc, hrest⟩
          exact ⟨c, mem_append_left _ hc, hrest⟩
        · rintro ⟨c, hc, hcid, hca⟩
          rcases mem_append.mp hc with hc | hc
          · exact ⟨c, hc, hcid, hca⟩
          · rw [mem_singleton.mp hc] at hcid
            exact absurd hcid.symm hid
    · exact hlaid
    · exact h.start_nonneg
    · exact hround
    · show p + (size + mdSize : Nat) < 2 * (s.dataBufferSize : Int)
      omega
    · intro hnil
      simp at hnil
    · intro c hc
      rcases mem_append.mp hc with hc | hc
      · -- The chunk stands apart from the new one.
        have hcApart := hapart.2.2 _ (mem_map_of_mem hc) _ (mem_singleton.mpr rfl)
        obtain ⟨_, hcIndex⟩ := h.inside hc
        unfold RingSegment.Apart RingSegment.place segmentOf at hcApart
        dsimp only at hcApart
        refine congr_stored (h.stored c hc) ?_ ?_ ?_
        · rfl
        · show slice buf₂ _ _ = _
          rw [hsame₂ _ _ (by omega)]
          exact hsame₁ _ _ (by omega)
        · show slice buf₂ _ _ = _
          rw [hsame₂ _ _ (by omega)]
          exact hsame₁ _ _ (by omega)
      · rw [mem_singleton.mp hc]
        refine ⟨hpos, hsize, hidEnd, ?_, ?_⟩
        · show slice buf₂ (p % s.dataBufferSize).toNat ((p % s.dataBufferSize).toNat + idNbytes) =
            littleEndian s.monotonicIdEnd idNbytes
          rw [← hidx, hsame₂ _ _ (.inl le_rfl)]
          exact hread₁
        · show slice buf₂ ((p % s.dataBufferSize).toNat + idNbytes)
            ((p % s.dataBufferSize).toNat + mdSize) = littleEndian (size + mdSize) idNbytes
          rw [← hidx]
          exact hread₂

end Queue

end SingleWriterShmRingBuffer

end VllmCore
