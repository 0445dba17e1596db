import VllmCore.ShmRingBuffer.Chunks
/-!
# Runs of the ring buffer

The writer allocates, frees, clears and fills its chunks in any order.  Where every size
fits into its four bytes and fewer than `ID_MAX` chunks live, the queue of the chunks is
kept by every call.
-/

namespace VllmCore

open List Nat Option Support

namespace SingleWriterShmRingBuffer

namespace Queue

variable {s s' : SingleWriterShmRingBuffer} {live rest : List Chunk} {c : Chunk}

/-! ## Freeing -/

theorem freeCount_le (isFree : Chunk → Bool) (nbytes : Int) (live : List Chunk) (freed : Int) :
    freeCount isFree nbytes live freed ≤ live.length := by
  induction live generalizing freed with
  | nil => exact le_rfl
  | cons c rest ih =>
    unfold freeCount
    split
    · split
      · have hle := ih (freed + (c.size + mdSize : Nat))
        rw [length_cons]
        omega
      · exact zero_le _
    · exact zero_le _

section

variable (h : s.Queue (c :: rest))

include h

theorem head_id : c.id = s.monotonicIdStart := by
  have hids := h.ids
  rw [map_cons, length_cons, idsFrom_cons, List.cons.injEq] at hids
  rw [hids.1]
  exact mod_eq_of_lt h.idStart

theorem head_address :
    s.metadata.get? s.monotonicIdStart = some c.address :=
  (h.metadata _ _).mpr ⟨c, mem_cons_self, h.head_id, rfl⟩

theorem metadata_erase (id : Nat) (a : Int) :
    (s.metadata.erase s.monotonicIdStart).get? id = some a ↔
      ∃ d ∈ rest, d.id = id ∧ d.address = a := by
  have hnodup := h.nodup_ids
  rw [map_cons, nodup_cons, h.head_id] at hnodup
  rw [Dict.get?_erase]
  by_cases hid : id = s.monotonicIdStart
  · rw [if_pos hid]
    constructor
    · intro hnone
      cases hnone
    · rintro ⟨d, hd, hdid, _⟩
      exact absurd (mem_map.mpr ⟨d, hd, hdid.trans hid⟩) hnodup.1
  · rw [if_neg hid, h.metadata]
    constructor
    · rintro ⟨d, hd, hdid, hda⟩
      rcases mem_cons.mp hd with rfl | hd
      · exact absurd (hdid.symm.trans h.head_id) hid
      · exact ⟨d, hd, hdid, hda⟩
    · rintro ⟨d, hd, hrest⟩
      exact ⟨d, mem_cons_of_mem c hd, hrest⟩

theorem pop {start stop : Int}
    (hlaid : Laid s.dataBufferSize start (rest.map segmentOf) stop) (hnonneg : 0 ≤ start)
    (hround : stop ≤ start + s.dataBufferSize) (hrounds : stop < 2 * s.dataBufferSize)
    (hempty : rest = [] → start = 0) :
    Queue { s with
      metadata := s.metadata.erase s.monotonicIdStart
      monotonicIdStart := (s.monotonicIdStart + 1) % idMax
      dataBufferStart := start
      dataBufferEnd := stop } rest := by
  have hids := h.ids
  rw [map_cons, length_cons, idsFrom_cons, List.cons.injEq] at hids
  have hfew := h.few
  rw [length_cons] at hfew
  constructor
  · exact h.pos
  · exact h.room
  · omega
  · exact mod_lt _ (by decide)
  · show s.monotonicIdEnd = ((s.monotonicIdStart + 1) % idMax + rest.length) % idMax
    rw [h.idEnd, length_cons, mod_add_mod]
    congr 1
    omega
  · exact hids.2
  · exact h.metadata_erase
  · exact hlaid
  · exact hnonneg
  · exact hround
  · exact hrounds
  · exact hempty
  · intro d hd
    have hstored := h.stored d (mem_cons_of_mem c hd)
    exact ⟨hstored.size_pos, hstored.size_fits, hstored.id_lt, hstored.id, hstored.size⟩

end

/-- What the loop of `free_buf` leaves. -/
structure Freed (s : SingleWriterShmRingBuffer) (live : List Chunk) (k : Nat)
    (s' : SingleWriterShmRingBuffer) : Prop where
  queue : s'.Queue (live.drop k)
  idStart : s'.monotonicIdStart = (s.monotonicIdStart + k) % idMax
  buf : s'.buf = s.buf
  size : s'.dataBufferSize = s.dataBufferSize

theorem Freed.none (h : s.Queue live) : Freed s live 0 s where
  queue := h
  idStart := (mod_eq_of_lt h.idStart).symm
  buf := rfl
  size := rfl

theorem freeLoop {isFreeFn : Nat → List UInt8 → Bool} {nbytes : Int} {fuel : Nat}
    (h : s.Queue live) (hfuel : live.length < fuel) (freed : Int) :
    Freed s live (freeCount (fun c => isFreeFn c.id (s.dataOf c)) nbytes live freed)
      (freeLoop isFreeFn nbytes fuel s freed) := by
  induction fuel generalizing s live freed with
  | zero => omega
  | succ fuel ih =>
    unfold SingleWriterShmRingBuffer.freeLoop
    cases live with
    | nil =>
      have hnone : s.metadata.get? s.monotonicIdStart = none := by
        apply eq_none_iff_forall_ne_some.mpr
        intro a ha
        obtain ⟨c, hc, _⟩ := (h.metadata _ a).mp ha
        cases hc
      rw [hnone]
      exact .none h
    | cons c rest =>
      have hhead := h.head_address
      have haccess := h.accessBuf (mem_cons_self (a := c) (l := rest))
      rw [hhead]
      unfold freeCount
      dsimp only
      by_cases hbytes : freed < nbytes
      · rw [if_pos hbytes, if_pos hbytes, haccess, ← h.head_id]
        by_cases hfree : isFreeFn c.id (s.dataOf c) = true
        · rw [if_pos hfree, if_pos hfree, h.head_id]
          rw [length_cons] at hfuel
          have hnext : ∀ t : SingleWriterShmRingBuffer, t.Queue rest →
              t.monotonicIdStart = (s.monotonicIdStart + 1) % idMax → t.buf = s.buf →
              t.dataBufferSize = s.dataBufferSize →
              Freed s (c :: rest)
                (freeCount (fun c => isFreeFn c.id (s.dataOf c)) nbytes rest
                  (freed + (c.size + mdSize : Nat)) + 1)
                (SingleWriterShmRingBuffer.freeLoop isFreeFn nbytes fuel t
                  (freed + (c.size + mdSize : Nat))) := by
            intro t ht hstart hbuf hsize
            have hdata : t.dataOf = s.dataOf := by
              funext d
              unfold dataOf indexOf
              rw [hbuf, hsize]
            have hrest := ih ht (by omega) (freed + (c.size + mdSize : Nat))
            rw [hdata] at hrest
            refine ⟨hrest.queue, ?_, hrest.buf.trans hbuf, hrest.size.trans hsize⟩
            rw [hrest.idStart, hstart, mod_add_mod]
            congr 1
            omega
          cases hrest : rest with
          | nil =>
            subst hrest
            have hpop := @pop s [] c h 0 0 (.nil 0) le_rfl
              (by have := h.pos; omega) (by have := h.pos; omega) fun _ => rfl
            have hnone : (s.metadata.erase s.monotonicIdStart).get?
                ((s.monotonicIdStart + 1) % idMax) = none := by
              apply eq_none_iff_forall_ne_some.mpr
              intro a ha
              obtain ⟨d, hd, _⟩ := (h.metadata_erase _ a).mp ha
              cases hd
            rw [hnone]
            exact hnext _ hpop rfl rfl rfl
          | cons d others =>
            subst hrest
            have hlaid := h.laid
            obtain ⟨hsecond, hbehind⟩ := hlaid.second (by
              show 0 < d.size + mdSize
              simp only [mdSize]
              omega) h.round
            have hnonneg := h.start_nonneg
            have hround := h.round
            have hpop := @pop s (d :: others) c h
              (s.dataBufferStart + (d.address - s.dataBufferStart) % s.dataBufferSize)
              s.dataBufferEnd hsecond (by
                have hd : (segmentOf d).address = d.address := rfl
                rw [hd] at hbehind
                omega) (by
                have hd : (segmentOf d).address = d.address := rfl
                rw [hd] at hbehind
                omega) h.rounds fun hnil => by cases hnil
            have hd := hpop.head_address
            rw [hd]
            exact hnext _ hpop rfl rfl rfl
        · rw [if_neg hfree, if_neg hfree]
          exact .none h
      · rw [if_neg hbytes, if_neg hbytes]
        exact .none h

theorem rebase (h : s.Queue live) :
    s.rebase.Queue live ∧ s.rebase.dataBufferStart < s.rebase.dataBufferSize ∧
      s.rebase.monotonicIdStart = s.monotonicIdStart ∧ s.rebase.buf = s.buf ∧
        s.rebase.dataBufferSize = s.dataBufferSize := by
  have hle := h.laid.le
  have hrounds := h.rounds
  unfold SingleWriterShmRingBuffer.rebase
  split
  next hbehind =>
    refine ⟨?_, ?_, rfl, rfl, rfl⟩
    · refine ⟨h.pos, h.room, h.few, h.idStart, h.idEnd, h.ids, h.metadata, h.laid.rebase, ?_, ?_,
        ?_, ?_, ?_⟩
      · show 0 ≤ s.dataBufferStart - s.dataBufferSize
        omega
      · show s.dataBufferEnd - s.dataBufferSize ≤
          s.dataBufferStart - s.dataBufferSize + s.dataBufferSize
        omega
      · show s.dataBufferEnd - s.dataBufferSize < 2 * (s.dataBufferSize : Int)
        omega
      · intro hnil
        have hzero := h.empty hnil
        omega
      · intro d hd
        have hstored := h.stored d hd
        exact ⟨hstored.size_pos, hstored.size_fits, hstored.id_lt, hstored.id, hstored.size⟩
    · show s.dataBufferStart - s.dataBufferSize < s.dataBufferSize
      omega
  next hbefore =>
    exact ⟨h, by omega, rfl, rfl, rfl⟩

theorem freeBuf (h : s.Queue live) (isFreeFn : Nat → List UInt8 → Bool) (nbytes : Option Int) :
    let k := freeCount (fun c => isFreeFn c.id (s.dataOf c)) (nbytes.getD s.dataBufferSize) live 0
    (s.freeBuf isFreeFn nbytes).1 = (live.take k).map (·.id) ∧
      (s.freeBuf isFreeFn nbytes).2.Queue (live.drop k) ∧
      (s.freeBuf isFreeFn nbytes).2.dataBufferStart < (s.freeBuf isFreeFn nbytes).2.dataBufferSize ∧
      (s.freeBuf isFreeFn nbytes).2.dataBufferSize = s.dataBufferSize := by
  intro k
  have hkeys : live.length ≤ s.metadata.keys.length := by
    rw [← length_map (f := (·.id))]
    apply (subperm_of_subset h.nodup_ids _).length_le
    intro id hid
    obtain ⟨c, hc, hcid⟩ := mem_map.mp hid
    rw [Dict.mem_keys_iff, (h.metadata id c.address).mpr ⟨c, hc, hcid, rfl⟩]
    exact some_ne_none _
  have hloop := @freeLoop s live isFreeFn (nbytes.getD s.dataBufferSize)
    (s.metadata.keys.length + 1) h (by omega) 0
  obtain ⟨hqueue, hstart, hids, hbuf, hsize⟩ := hloop.queue.rebase
  have hk : k ≤ live.length := freeCount_le _ _ _ _
  refine ⟨?_, hqueue, hstart, hsize.trans hloop.size⟩
  unfold SingleWriterShmRingBuffer.freeBuf
  dsimp only
  rw [hids, hloop.idStart, idRange_eq h.idStart (lt_of_le_of_lt hk h.few), map_take, h.ids,
    take_idsFrom hk]

theorem create {n : Nat} {buf : List UInt8} (hn : 0 < n) (hroom : n ≤ buf.length) :
    (SingleWriterShmRingBuffer.create n buf).Queue [] where
  pos := hn
  room := hroom
  few := by decide
  idStart := Nat.pow_pos (by decide)
  idEnd := rfl
  ids := rfl
  metadata := by
    intro id a
    simp [SingleWriterShmRingBuffer.create]
  laid := .nil 0
  start_nonneg := le_rfl
  round := by
    show (0 : Int) ≤ 0 + n
    omega
  rounds := by
    show (0 : Int) < 2 * n
    omega
  empty := fun _ => rfl
  stored := fun c hc => by cases hc

theorem clear (h : s.Queue live) : s.clear.Queue [] := by
  have hnew := @create s.dataBufferSize s.buf h.pos h.room
  exact ⟨hnew.pos, hnew.room, hnew.few, hnew.idStart, hnew.idEnd, hnew.ids, hnew.metadata,
    hnew.laid, hnew.start_nonneg, hnew.round, hnew.rounds, hnew.empty, fun c hc => by cases hc⟩

theorem writeData {offset : Nat} {bs : List UInt8} (h : s.Queue live) (hc : c ∈ live)
    (hdata : offset + bs.length ≤ c.size) : (s.writeData c.address offset bs).Queue live := by
  obtain ⟨hinside, hindex⟩ := h.inside hc
  have hroom := h.room
  have hmd : mdSize = idNbytes + idNbytes := rfl
  obtain ⟨start, hstart⟩ : ∃ start, start = s.indexOf c + mdSize + offset := ⟨_, rfl⟩
  have hbound : start + bs.length ≤ s.buf.length := by omega
  have hrun := @Store.run_slice s.buf bs start (start + bs.length) rfl hbound
  have hwrite : s.writeData c.address offset bs =
      { s with buf := s.buf.take start ++ bs ++ s.buf.drop (start + bs.length) } := by
    unfold SingleWriterShmRingBuffer.writeData
    dsimp only
    rw [show (c.address % s.dataBufferSize).toNat = s.indexOf c from rfl, ← hstart, hrun]
  have hlength := Store.length_run hrun
  have hsame : ∀ a b, b ≤ start ∨ start + bs.length ≤ a →
      slice (s.buf.take start ++ bs ++ s.buf.drop (start + bs.length)) a b = slice s.buf a b :=
    fun a b hapart => Store.slice_run_of_disjoint rfl hbound hrun hapart
  rw [hwrite]
  refine ⟨h.pos, ?_, h.few, h.idStart, h.idEnd, h.ids, h.metadata, h.laid, h.start_nonneg, h.round,
    h.rounds, h.empty, ?_⟩
  · show s.dataBufferSize ≤ (_ : List UInt8).length
    rw [hlength]
    exact hroom
  · intro d hd
    obtain ⟨_, hdIndex⟩ := h.inside hd
    -- The metadata of the same chunk stand before its data, another chunk stands apart.
    have hsides : s.indexOf d + mdSize ≤ start ∨ start + bs.length ≤ s.indexOf d := by
      by_cases hdc : d = c
      · rw [hdc]
        omega
      · have hapart := h.apart
        rw [pairwise_map] at hapart
        have hsymm : Std.Symm fun a b : Chunk =>
            RingSegment.Apart s.dataBufferSize (segmentOf a) (segmentOf b) :=
          ⟨fun a b hab => hab.symm⟩
        have hpair := hapart.forall hd hc hdc
        unfold RingSegment.Apart RingSegment.place segmentOf at hpair
        dsimp only at hpair
        omega
    refine congr_stored (h.stored d hd) ?_ ?_ ?_
    · rfl
    · exact hsame _ _ (by omega)
    · exact hsame _ _ (by omega)

end Queue

/-! ## The writer and its chunks -/

/-- The calls of the writer.  A chunk is filled at an offset of its data. -/
inductive Call
  | allocateBuf (size : Nat)
  | freeBuf (isFreeFn : Nat → List UInt8 → Bool) (nbytes : Option Int)
  | clear
  | writeData (c : Chunk) (offset : Nat) (bs : List UInt8)

/-- The ring buffer, and the chunks that were allocated and not freed, the oldest first. -/
structure Writer where
  ring : SingleWriterShmRingBuffer
  live : List Chunk := []

namespace Writer

/-- How many of the oldest chunks a call of `free_buf` is to free. -/
def toFree (w : Writer) (isFreeFn : Nat → List UInt8 → Bool) (nbytes : Option Int) : Nat :=
  freeCount (fun c => isFreeFn c.id (w.ring.dataOf c)) (nbytes.getD w.ring.dataBufferSize) w.live 0

def run (w : Writer) : Call → Writer
  | .allocateBuf size =>
    match w.ring.allocateBuf size with
    | (.ok (address, id), ring) => { ring := ring, live := w.live ++ [⟨address, id, size⟩] }
    | (.error _, ring) => { w with ring := ring }
  | .freeBuf isFreeFn nbytes =>
    { ring := (w.ring.freeBuf isFreeFn nbytes).2, live := w.live.drop (w.toFree isFreeFn nbytes) }
  | .clear => { ring := w.ring.clear, live := [] }
  | .writeData c offset bs => { w with ring := w.ring.writeData c.address offset bs }

/-- The size and the number of chunks can be told where an allocation fits. -/
def CanTell (w : Writer) (size : Nat) : Prop :=
  w.ring.Fits size → size + mdSize < 2 ^ 31 ∧ w.live.length + 1 < idMax

instance (w : Writer) (size : Nat) : Decidable (w.CanTell size) :=
  inferInstanceAs (Decidable (_ → _))

/-- The condition on a call: a chunk is filled within its data, and an allocation can tell
its size and its id. -/
def Meets (w : Writer) : Call → Prop
  | .allocateBuf size => w.CanTell size
  | .writeData c offset bs => c ∈ w.live ∧ offset + bs.length ≤ c.size
  | _ => True

def Init (w : Writer) : Prop :=
  ∃ n buf, 0 < n ∧ n ≤ buf.length ∧ w = { ring := .create n buf }

/-- The states that are reached by calls that meet a condition. -/
abbrev ReachableBy (guard : Writer → Call → Prop) : Writer → Prop :=
  Reachable Init fun w w' => ∃ call, guard w call ∧ w.run call = w'

/-- What the writer relies on: the chunks lie in the buffer and apart from each other, each
is found again by its address, `free_buf` returns the ids of those that it frees, a failed
allocation changes nothing, and without chunks every size up to the capacity is allocated.
The last two are for the sizes that are allowed. -/
structure Sound (allowed : Nat → Prop) (w : Writer) : Prop where
  inside : ∀ c ∈ w.live, (segmentOf c).Inside w.ring.dataBufferSize
  apart : w.live.Pairwise fun c d =>
    (segmentOf c).Apart w.ring.dataBufferSize (segmentOf d)
  access : ∀ c ∈ w.live, w.ring.accessBuf c.address =
    (w.ring.dataOf c, ((c.id : Int), ((c.size + mdSize : Nat) : Int))) ∧
      (w.ring.dataOf c).length = c.size
  frees : ∀ isFreeFn nbytes, (w.ring.freeBuf isFreeFn nbytes).1 =
    (w.live.take (w.toFree isFreeFn nbytes)).map (·.id)
  failed : ∀ size, allowed size → ∀ e ring, w.ring.allocateBuf size = (.error e, ring) →
    ring = w.ring
  capacity : w.live = [] → ∀ size, 0 < size → size + mdSize ≤ w.ring.dataBufferSize →
    allowed size → ∃ address id ring, w.ring.allocateBuf size = (.ok (address, id), ring)

structure Valid (w : Writer) : Prop where
  queue : w.ring.Queue w.live
  start : w.ring.dataBufferStart < w.ring.dataBufferSize

theorem valid_init {w : Writer} (h : w.Init) : w.Valid := by
  obtain ⟨n, buf, hn, hroom, rfl⟩ := h
  refine ⟨.create hn hroom, ?_⟩
  show (0 : Int) < n
  omega

theorem allocateBuf_of_not_fits {s : SingleWriterShmRingBuffer} {size : Nat}
    (h : size = 0 ∨ ¬s.Fits size) : ∃ e, s.allocateBuf size = (.error e, s) := by
  unfold SingleWriterShmRingBuffer.allocateBuf
  by_cases hzero : size = 0
  · rw [if_pos hzero]
    exact ⟨_, rfl⟩
  · have hfull := h.resolve_left hzero
    unfold Fits at hfull
    rw [if_neg hzero]
    rw [if_pos (by omega)]
    exact ⟨_, rfl⟩

theorem allocateBuf_fits {s s' : SingleWriterShmRingBuffer} {size : Nat} {res : Int × Nat}
    (h : s.allocateBuf size = (.ok res, s')) : size + mdSize < 2 ^ 31 := by
  unfold SingleWriterShmRingBuffer.allocateBuf at h
  split at h
  · cases h
  · dsimp only at h
    split at h
    · cases h
    · split at h
      · cases h
      · split at h
        · cases h
        next hstore => exact store_fits hstore

theorem Valid.run {w : Writer} {call : Call} (h : w.Valid) (hmeets : w.Meets call) :
    (w.run call).Valid := by
  cases call with
  | allocateBuf size =>
    by_cases hfits : 0 < size ∧ w.ring.Fits size
    · obtain ⟨hsize, hfew⟩ := hmeets hfits.2
      obtain ⟨s', hok, hqueue⟩ := h.queue.allocateBuf h.start hfits.1 hfits.2 hsize
      obtain ⟨hqueue, hstart, hsame⟩ := hqueue hfew
      simp only [Writer.run, hok]
      refine ⟨hqueue, ?_⟩
      rw [hstart, hsame]
      exact h.start
    · obtain ⟨e, he⟩ := @allocateBuf_of_not_fits w.ring size (by
        rw [not_and_or] at hfits
        exact hfits.imp_left (by omega))
      simp only [Writer.run, he]
      exact h
  | freeBuf isFreeFn nbytes =>
    obtain ⟨_, hqueue, hstart, _⟩ := h.queue.freeBuf isFreeFn nbytes
    exact ⟨hqueue, hstart⟩
  | clear =>
    refine ⟨h.queue.clear, ?_⟩
    show (0 : Int) < w.ring.dataBufferSize
    have hpos := h.queue.pos
    omega
  | writeData c offset bs =>
    have hqueue := h.queue.writeData hmeets.1 hmeets.2
    refine ⟨hqueue, ?_⟩
    have hstart := h.start
    unfold Writer.run SingleWriterShmRingBuffer.writeData
    dsimp only
    split
    · exact hstart
    · exact hstart

theorem Valid.sound {w : Writer} (h : w.Valid) : w.Sound w.CanTell := by
  constructor
  · intro c hc
    exact h.queue.laid.inside h.queue.pos (mem_map_of_mem hc)
  · have hapart := h.queue.apart
    rw [pairwise_map] at hapart
    exact hapart
  · intro c hc
    refine ⟨h.queue.accessBuf hc, ?_⟩
    have hinside := (h.queue.inside hc).1
    have hroom := h.queue.room
    unfold dataOf slice
    rw [length_take, length_drop]
    omega
  · intro isFreeFn nbytes
    exact (h.queue.freeBuf isFreeFn nbytes).1
  · intro size hmeets e ring hfailed
    by_cases hfits : 0 < size ∧ w.ring.Fits size
    · obtain ⟨s', hok, _⟩ := h.queue.allocateBuf h.start hfits.1 hfits.2 (hmeets hfits.2).1
      rw [hok] at hfailed
      cases hfailed
    · obtain ⟨e', he⟩ := @allocateBuf_of_not_fits w.ring size (by
        rw [not_and_or] at hfits
        exact hfits.imp_left (by omega))
      rw [he] at hfailed
      cases hfailed
      rfl
  · intro hnil size hpos hsize hmeets
    have hlaid := h.queue.laid
    rw [hnil, map_nil] at hlaid
    have hfits : w.ring.Fits size := by
      have hstart := h.queue.empty hnil
      unfold Fits bufferEndReset
      rw [hlaid.nil_eq, hstart, Int.zero_emod, if_neg (by omega)]
      omega
    obtain ⟨s', hok, _⟩ := h.queue.allocateBuf h.start hpos hfits (hmeets hfits).1
    exact ⟨_, _, s', hok⟩

/-- In every run whose allocations can tell their sizes and their ids, the chunks are kept
apart and found again. -/
theorem ring_buffer_sound {w : Writer} (h : ReachableBy Meets w) : w.Sound w.CanTell := by
  apply Valid.sound
  apply Reachable.invariant (P := Valid) _ _ h
  · exact fun w hinit => valid_init hinit
  · rintro w w' hvalid ⟨call, hmeets, rfl⟩
    exact hvalid.run hmeets

def fortyBytes : Writer where
  ring := .create 40 (List.replicate 40 0)

/-- The third chunk wraps around to the place of the first one, which is free. -/
theorem ring_buffer_sound_fortyBytes : ∃ w, ReachableBy Meets w ∧ w.Sound w.CanTell ∧
    w.live = [⟨18, 1, 8⟩, ⟨40, 2, 9⟩] := by
  have hstart : ReachableBy Meets fortyBytes :=
    .start ⟨40, List.replicate 40 0, by decide, length_replicate.ge, rfl⟩
  have hfirst := hstart.next ⟨.allocateBuf 10, (by show CanTell _ _; decide), rfl⟩
  have hsecond := hfirst.next ⟨.allocateBuf 8, (by show CanTell _ _; decide), rfl⟩
  have hfree := hsecond.next ⟨.freeBuf (fun id _ => id = 0) none, trivial, rfl⟩
  have hthird := hfree.next ⟨.allocateBuf 9, (by show CanTell _ _; decide), rfl⟩
  exact ⟨_, hthird, ring_buffer_sound hthird, by decide⟩

/-- A chunk is filled within its data. -/
def Fills (w : Writer) : Call → Prop
  | .writeData c offset bs => c ∈ w.live ∧ offset + bs.length ≤ c.size
  | _ => True

/-- In an empty buffer of two gibibytes and more there is no chunk of that size. -/
theorem not_ring_buffer_sound :
    ¬∀ w, ReachableBy Fills w → w.Sound fun _ => True := by
  intro hall
  obtain ⟨buf, hbuf⟩ : ∃ buf : List UInt8, buf.length = 2 ^ 31 + mdSize :=
    ⟨List.replicate (2 ^ 31 + mdSize) 0, length_replicate⟩
  have hinit : Init { ring := .create (2 ^ 31 + mdSize) buf } :=
    ⟨_, buf, by decide, hbuf.ge, rfl⟩
  have hsound := hall _ (.start hinit)
  obtain ⟨address, id, ring, hok⟩ := hsound.capacity rfl (2 ^ 31) (by decide) le_rfl trivial
  have hfits := allocateBuf_fits hok
  simp only [mdSize] at hfits
  omega

end Writer

end SingleWriterShmRingBuffer

end VllmCore
