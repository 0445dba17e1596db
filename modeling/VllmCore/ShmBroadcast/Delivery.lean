import VllmCore.ShmBroadcast
/-!
# Every message is delivered once and in order

Message number `i` goes to chunk `i % maxChunks`.  The writer is at most one round ahead
of every reader: it touches a chunk only when all readers have marked what was in it, and
a reader looks into a chunk only when its next message stands there.

A message on the socket is kept in step with the ring as long as no reader gives up on
it: the chunk is marked as read before the message is taken from the socket.
-/

namespace VllmCore.ShmBroadcast

open Function List Nat Support

variable {Obj : Type} {n : Nat}

/-! ## Framing -/

def Message.frameLength (m : Message Obj) : Nat := 3 + framesLength m.allBuffers

variable {m : Message Obj} {i : Nat} {r : Fin n} {w : WriterState Obj} {chunk : Chunk n}
  {x : Reader Obj} {timeout : Bool}

theorem Message.frameLength_le {config : Config} (h : m.overflow config = false) :
    m.frameLength ≤ config.maxChunkBytes := by
  have hsum : framesLength m.oob = (m.oob.map fun buf => buf.length + 4).sum := by
    unfold framesLength
    congr 1
    apply map_congr_left
    intro buf _
    exact add_comm _ _
  have htotal : framesLength m.allBuffers = 4 + m.main.length + framesLength m.oob := rfl
  unfold Message.overflow Message.totalBytes at h
  rw [decide_eq_false_iff_not] at h
  unfold Message.frameLength
  omega

/-- What the body writes into a chunk is what a reader makes of it. -/
def Holds (config : Config) (P : Pickle Obj) (m : Message Obj) (data : List UInt8) : Prop :=
  readChunk P data = .ok (if m.overflow config = true then none else some m.obj)

variable {data data' : List UInt8} {k readCount : Nat} {pc : ReaderPc Obj} {ms : List (Message Obj)}

theorem readFrames_body {config : Config}
    (hinline : m.overflow config = false) (hlength : data.length = config.maxChunkBytes)
    (h : runStores data (m.body config) = .ok data') :
    data'[0]? = some 0 ∧
      readFrames data' 3 (fromBytesBig (slice data' 1 3)) = m.allBuffers := by
  have hfits := Message.frameLength_le hinline
  unfold Message.frameLength at hfits
  unfold Message.body at h
  rw [hinline] at h
  simp only [Bool.false_eq_true, if_false, runStores_cons, bind_ok, pure_ok] at h
  obtain ⟨_, hstore, data₁, h₁, _, ⟨count, hcount, rfl⟩, data₂, h₂, h⟩ := h
  cases hstore
  obtain ⟨hsmall, rfl⟩ := toBytesBig_ok.mp hcount
  have hlength₁ := Store.length_run h₁
  have hlength₂ := Store.length_run h₂
  obtain ⟨hdata, hall⟩ := runStores_frames (by omega) h
  rw [Store.run_slice (by rw [length_bigEndian]) (by omega), length_bigEndian] at h₂
  obtain rfl := Except.ok.inj h₂
  cases data with
  | nil =>
    rw [length_nil] at hlength
    omega
  | cons b rest =>
    have hfirst : data₁ = 0 :: rest := by
      dsimp only [Store.run] at h₁
      exact (Except.ok.inj h₁).symm
    rw [hfirst] at hdata
    -- the three bytes before the frames
    let head : List UInt8 := 0 :: bigEndian m.allBuffers.length 2
    have hhead : head.length = 3 := by
      show (bigEndian m.allBuffers.length 2).length + 1 = 3
      rw [length_bigEndian]
    generalize List.drop (3 + framesLength m.allBuffers) _ = after at hdata
    have hcounted : slice data' 1 3 = bigEndian m.allBuffers.length 2 := by
      have hslice := slice_append [0] (bigEndian m.allBuffers.length 2)
        (m.allBuffers.flatMap frame ++ after)
      rw [hdata, ← hslice]
      simp only [append_assoc, cons_append, nil_append]
      rfl
    refine ⟨by rw [hdata]; rfl, ?_⟩
    rw [hcounted, fromBytesBig_bigEndian hsmall, hdata]
    have hread := readFrames_append hall head after
    rwa [hhead] at hread

theorem holds_of_body {config : Config} {P : Pickle Obj}
    (hdumps : P.dumps m.obj = .ok (m.main, m.oob)) (hlength : data.length = config.maxChunkBytes)
    (h : runStores data (m.body config) = .ok data') : Holds config P m data' := by
  unfold Holds readChunk
  cases hoverflow : m.overflow config with
  | false =>
    obtain ⟨hfirst, hframes⟩ := readFrames_body hoverflow hlength h
    have hget : pyGet data' 0 = .ok 0 := (@pyGet_natCast_ok _ _ 0 _).mpr hfirst
    rw [hget, ok_bind, if_neg (by decide)]
    dsimp only
    rw [hframes]
    show (P.loads m.main m.oob >>= fun obj => pure (some obj)) = _
    rw [P.loads_dumps hdumps]
    rfl
  | true =>
    unfold Message.body at h
    rw [hoverflow] at h
    simp only [if_true, runStores_cons, bind_ok] at h
    obtain ⟨_, hstore, data₁, h₁, h⟩ := h
    cases hstore
    cases h
    have hget : pyGet data' 0 = .ok 1 := by
      dsimp only [Store.run] at h₁
      split at h₁
      next hpos =>
        cases h₁
        exact (@pyGet_natCast_ok _ _ 0 _).mpr (getElem?_set_self hpos)
      · cases h₁
    rw [hget]
    rfl

/-- Of the last `N` numbers before `w`, and `w` itself, only `w - N` shares a chunk with
`w`. -/
theorem eq_of_mod_eq {N w : Nat} (hlt : i < w) (hle : w ≤ i + N) (h : i % N = w % N) :
    i + N = w := by
  have hdvd : N ∣ w - i := dvd_of_mod_eq_zero (sub_mod_eq_zero_of_mod_eq h.symm)
  obtain ⟨k, hk⟩ := hdvd
  have hpos : 0 < k := by
    rcases Nat.eq_zero_or_pos k with hzero | hpos
    · rw [hzero, mul_zero] at hk
      omega
    · exact hpos
  have hbound : N ≤ N * k := Nat.le_mul_of_pos_right N hpos
  omega

/-! ## The ring -/

/-- Messages marked as read whose object is not out yet. -/
def ReaderPc.pending : ReaderPc Obj → Nat
  | .receiving => 1
  | _ => 0

/-- How many messages the reader has marked as read. -/
def Reader.marked (x : Reader Obj) : Nat := x.dequeued.length + x.pc.pending

/-- The chunk holds message number `i`, and the readers past it have marked it. -/
structure HoldsAt (config : Config) (P : Pickle Obj) (chunk : Chunk n) (marked : Fin n → Nat)
    (i : Nat) (m : Message Obj) : Prop where
  written : chunk.written = true
  read : ∀ r, chunk.read r = decide (i < marked r)
  data : Holds config P m chunk.data

/-- The chunks, the messages written and the number of messages each reader has marked.
The last message of the chunk that is written next may be gone. -/
structure RingInv (config : Config) (P : Pickle Obj) (chunks : Nat → Chunk n)
    (enqueued : List (Message Obj)) (marked : Fin n → Nat) : Prop where
  length : ∀ k, (chunks k).data.length = config.maxChunkBytes
  behind : ∀ r, marked r ≤ enqueued.length ∧ enqueued.length ≤ marked r + config.maxChunks
  held : ∀ i m, enqueued[i]? = some m → enqueued.length ≤ i + config.maxChunks →
    (i + config.maxChunks = enqueued.length → (chunks (i % config.maxChunks)).written = true) →
    HoldsAt config P (chunks (i % config.maxChunks)) marked i m
  free : (chunks (enqueued.length % config.maxChunks)).written = false →
    ∀ r, enqueued.length < marked r + config.maxChunks
  fresh : ∀ k, enqueued.length ≤ k → k < config.maxChunks → (chunks k).written = false

variable {config : Config} {P : Pickle Obj} {chunks : Nat → Chunk n}
  {enqueued : List (Message Obj)} {marked : Fin n → Nat}

theorem ringInv_init (config : Config) (P : Pickle Obj) :
    RingInv config P (System.init config : System Obj n).chunks [] (fun _ => 0) where
  length := fun _ => length_replicate
  behind := fun _ => ⟨Nat.le_refl 0, zero_le _⟩
  held := nofun
  free := by
    intro _ r
    have hpos := config.maxChunks_pos
    show 0 < 0 + config.maxChunks
    omega
  fresh := fun _ _ _ => rfl

section

variable (h : RingInv config P chunks enqueued marked)

include h

theorem RingInv.old (hwritten : (chunks (enqueued.length % config.maxChunks)).written = true) :
    ∃ i m, i + config.maxChunks = enqueued.length ∧
      HoldsAt config P (chunks (enqueued.length % config.maxChunks)) marked i m := by
  have hpos := config.maxChunks_pos
  have hround : config.maxChunks ≤ enqueued.length := by
    by_contra hlt
    have hfresh := h.fresh enqueued.length (Nat.le_refl _) (by omega)
    rw [mod_eq_of_lt (by omega), hfresh] at hwritten
    cases hwritten
  obtain ⟨i, hi⟩ : ∃ i, i + config.maxChunks = enqueued.length :=
    ⟨enqueued.length - config.maxChunks, by omega⟩
  have hmod : i % config.maxChunks = enqueued.length % config.maxChunks := by
    rw [← hi, add_mod_right]
  have hheld := h.held i _ (getElem?_eq_getElem (by omega)) (by omega)
    (fun _ => by rw [hmod]; exact hwritten)
  rw [hmod] at hheld
  exact ⟨i, _, hi, hheld⟩

theorem RingInv.free_of_read (hread : (chunks (enqueued.length % config.maxChunks)).written = true →
      ∀ r, (chunks (enqueued.length % config.maxChunks)).read r = true) (r : Fin n) :
    enqueued.length < marked r + config.maxChunks := by
  cases hwritten : (chunks (enqueued.length % config.maxChunks)).written with
  | false => exact h.free hwritten r
  | true =>
    obtain ⟨i, m, hi, hheld⟩ := h.old hwritten
    have hmarked := hheld.read r
    rw [hread hwritten r] at hmarked
    have hlt := of_decide_eq_true hmarked.symm
    omega

theorem RingInv.read_of_done (hdone : marked r = enqueued.length)
    (hread : (chunks (enqueued.length % config.maxChunks)).read r = false) :
    (chunks (enqueued.length % config.maxChunks)).written = false := by
  by_contra hwritten
  rw [Bool.not_eq_false] at hwritten
  have hpos := config.maxChunks_pos
  obtain ⟨i, m, hi, hheld⟩ := h.old hwritten
  have hmarked := hheld.read r
  rw [hread, decide_eq_true (by omega)] at hmarked
  cases hmarked

theorem RingInv.writeCurrent (hfree : ∀ r, enqueued.length < marked r + config.maxChunks)
    (hwritten : chunk.written = false) (hlength : chunk.data.length = config.maxChunkBytes) :
    RingInv config P (update chunks (enqueued.length % config.maxChunks) chunk)
      enqueued marked where
  length := by
    intro k
    rw [update_apply]
    split
    · exact hlength
    · exact h.length k
  behind := h.behind
  held := by
    intro i m hi hle hlast
    by_cases hmod : i % config.maxChunks = enqueued.length % config.maxChunks
    · have hlt := (List.getElem?_eq_some_iff.mp hi).1
      have hstill := hlast (eq_of_mod_eq hlt hle hmod)
      rw [hmod, update_self, hwritten] at hstill
      cases hstill
    · rw [update_of_ne hmod] at hlast ⊢
      exact h.held i m hi hle hlast
  free := fun _ => hfree
  fresh := by
    intro k hle hlt
    rw [update_apply]
    split
    · exact hwritten
    · exact h.fresh k hle hlt

theorem RingInv.publish (hwritten : (chunks (enqueued.length % config.maxChunks)).written = false)
    (hread : ∀ r, (chunks (enqueued.length % config.maxChunks)).read r = false)
    (hdata : Holds config P m (chunks (enqueued.length % config.maxChunks)).data) :
    RingInv config P (update chunks (enqueued.length % config.maxChunks)
        { chunks (enqueued.length % config.maxChunks) with written := true })
      (enqueued ++ [m]) marked where
  length := by
    intro k
    rw [update_apply]
    split
    · exact h.length _
    · exact h.length k
  behind := by
    intro r
    have hbehind := h.behind r
    have hfree := h.free hwritten r
    rw [length_append, length_singleton]
    omega
  held := by
    intro i m' hi hle _
    rw [length_append, length_singleton] at hle
    by_cases hlast : i = enqueued.length
    · rw [hlast, getElem?_append_right (Nat.le_refl _), Nat.sub_self] at hi
      obtain rfl : m = m' := Option.some.inj hi
      rw [hlast, update_self]
      refine ⟨rfl, ?_, hdata⟩
      intro r
      have hbehind := (h.behind r).1
      rw [decide_eq_false (by omega)]
      exact hread r
    · have hlt : i < enqueued.length := by
        have hlt := (List.getElem?_eq_some_iff.mp hi).1
        rw [length_append, length_singleton] at hlt
        omega
      rw [getElem?_append_left hlt] at hi
      have hmod : i % config.maxChunks ≠ enqueued.length % config.maxChunks := by
        intro hmod
        have hround := eq_of_mod_eq hlt (by omega) hmod
        omega
      rw [update_of_ne hmod]
      exact h.held i m' hi (by omega) (fun hround => by omega)
  free := by
    intro hnext r
    rw [length_append, length_singleton] at hnext ⊢
    have hpos := config.maxChunks_pos
    by_contra hfull
    obtain ⟨i, hi⟩ : ∃ i, i + config.maxChunks = enqueued.length + 1 :=
      ⟨enqueued.length + 1 - config.maxChunks, by omega⟩
    have hround : i % config.maxChunks = (enqueued.length + 1) % config.maxChunks := by
      rw [← hi, add_mod_right]
    rw [← hround] at hnext
    by_cases hmod : i % config.maxChunks = enqueued.length % config.maxChunks
    · rw [hmod, update_self] at hnext
      cases hnext
    · have hlt : i < enqueued.length := by
        have hne : i ≠ enqueued.length := fun heq => hmod (by rw [heq])
        omega
      rw [update_of_ne hmod,
        (h.held i _ (getElem?_eq_getElem hlt) (by omega) (fun heq => by omega)).written] at hnext
      cases hnext
  fresh := by
    intro k hle hlt
    rw [length_append, length_singleton] at hle
    rw [update_of_ne (by rw [mod_eq_of_lt (by omega)]; omega)]
    exact h.fresh k (by omega) hlt

end

def markRead (chunks : Nat → Chunk n) (k : Nat) (r : Fin n) : Nat → Chunk n :=
  update chunks k
    { chunks k with read := update (chunks k).read r true }

@[simp] theorem markRead_written (chunks : Nat → Chunk n) (k : Nat) (r : Fin n) (j : Nat) :
    (markRead chunks k r j).written = (chunks j).written := by
  unfold markRead
  rw [update_apply]
  split
  next heq => rw [heq]
  · rfl

@[simp] theorem markRead_data (chunks : Nat → Chunk n) (k : Nat) (r : Fin n) (j : Nat) :
    (markRead chunks k r j).data = (chunks j).data := by
  unfold markRead
  rw [update_apply]
  split
  next heq => rw [heq]
  · rfl

theorem markRead_read (chunks : Nat → Chunk n) (k : Nat) (r : Fin n) (j : Nat) (i : Fin n) :
    (markRead chunks k r j).read i = if j = k ∧ i = r then true else (chunks j).read i := by
  unfold markRead
  rw [update_apply]
  by_cases hj : j = k
  · rw [if_pos hj, hj]
    show update (chunks k).read r true i = _
    rw [update_apply]
    by_cases hi : i = r
    · rw [if_pos hi, if_pos ⟨rfl, hi⟩]
    · rw [if_neg hi, if_neg (fun hboth => hi hboth.2)]
  · rw [if_neg hj, if_neg (fun hboth => hj hboth.1)]

theorem RingInv.mark (h : RingInv config P chunks enqueued marked)
    (hlt : marked r < enqueued.length) :
    RingInv config P (markRead chunks (marked r % config.maxChunks) r) enqueued
      (update marked r (marked r + 1)) where
  length := by
    intro k
    rw [markRead_data]
    exact h.length k
  behind := by
    intro j
    have hbehind := h.behind j
    rw [update_apply]
    split
    next heq =>
      rw [heq] at hbehind
      omega
    · exact hbehind
  held := by
    intro i m hi hle hlast
    rw [markRead_written] at hlast
    have hheld := h.held i m hi hle hlast
    have hbehind := h.behind r
    have hilt := (List.getElem?_eq_some_iff.mp hi).1
    -- its chunk holds no other message
    have hsame : i % config.maxChunks = marked r % config.maxChunks → i = marked r := by
      intro hmod
      rcases lt_trichotomy i (marked r) with hbefore | heq | hafter
      · have hround := eq_of_mod_eq hbefore (by omega) hmod
        omega
      · exact heq
      · have hround := eq_of_mod_eq hafter (by omega) hmod.symm
        omega
    refine ⟨?_, ?_, ?_⟩
    · rw [markRead_written]
      exact hheld.written
    · intro j
      rw [markRead_read, update_apply]
      by_cases hj : j = r
      · by_cases hmod : i % config.maxChunks = marked r % config.maxChunks
        · rw [if_pos ⟨hmod, hj⟩, if_pos hj, decide_eq_true]
          rw [hsame hmod]
          exact lt_succ_self _
        · have hne : i ≠ marked r := fun heq => hmod (by rw [heq])
          rw [if_neg (fun hboth => hmod hboth.1), if_pos hj, hheld.read j, hj]
          apply decide_eq_decide.mpr
          omega
      · rw [if_neg (fun hboth => hj hboth.2), if_neg hj]
        exact hheld.read j
    · unfold Holds
      rw [markRead_data]
      exact hheld.data
  free := by
    intro hwritten j
    rw [markRead_written] at hwritten
    have hfree := h.free hwritten j
    rw [update_apply]
    split
    next heq =>
      rw [heq] at hfree
      omega
    · exact hfree
  fresh := by
    intro k hle hk
    rw [markRead_written]
    exact h.fresh k hle hk

/-! ## The processes -/

def Message.Dumped (P : Pickle Obj) (m : Message Obj) : Prop :=
  P.dumps m.obj = .ok (m.main, m.oob)

def WriterInv (config : Config) (P : Pickle Obj) (chunk : Chunk n) :
    WriterState Obj → Prop
  | .idle => True
  | .counting m i readCount => m.Dumped P ∧ i ≤ n ∧ readCount ≤ i ∧
      (readCount = i → ∀ r : Fin n, r.val < i → chunk.written = true → chunk.read r = true)
  | .counted m readCount => m.Dumped P ∧
      (readCount = n → chunk.written = true → ∀ r, chunk.read r = true)
  | .acquired m => m.Dumped P ∧ (chunk.written = true → ∀ r, chunk.read r = true)
  | .filling m todo => m.Dumped P ∧ chunk.written = false ∧
      ∃ data done, data.length = config.maxChunkBytes ∧ done ++ todo = m.body config ∧
        runStores data done = .ok chunk.data
  | .clearing m i => m.Dumped P ∧ chunk.written = false ∧ Holds config P m chunk.data ∧
      ∀ r : Fin n, r.val < i → chunk.read r = false
  | .publishing m => m.Dumped P ∧ chunk.written = false ∧ Holds config P m chunk.data ∧
      ∀ r, chunk.read r = false
  | .sending m => m.Dumped P ∧ m.overflow config = true

/-- The message that is marked as written and not on the socket yet. -/
def WriterState.unsent : WriterState Obj → List (List (List UInt8))
  | .sending m => [m.allBuffers]
  | _ => []

/-- What a reader knows of its next message, number `marked`, in chunk `k`. -/
def PcInv (config : Config) (chunks : Nat → Chunk n) (enqueued : List (Message Obj))
    (k marked : Nat) : ReaderPc Obj → Prop
  | .polled false => marked < enqueued.length ∨ (chunks k).written = false
  | .reading => marked < enqueued.length
  | .marking obj => ∃ m, enqueued[marked]? = some m ∧
      obj = if m.overflow config = true then none else some m.obj
  | .receiving => ∃ i m, i + 1 = marked ∧ enqueued[i]? = some m ∧ m.overflow config = true
  | _ => True

def onSocket (config : Config) (ms : List (Message Obj)) : List (List (List UInt8)) :=
  (ms.filter fun m => m.overflow config).map Message.allBuffers

/-- A reader has dequeued the first messages, in order, and finds the others that go over
the socket in its inbox, as far as they are sent. -/
structure ReaderInv (config : Config) (chunks : Nat → Chunk n) (enqueued : List (Message Obj))
    (unsent : List (List (List UInt8))) (x : Reader Obj) : Prop where
  idx : x.currentIdx = x.marked % config.maxChunks
  objs : x.dequeued = (enqueued.take x.dequeued.length).map Message.obj
  inbox : x.inbox ++ unsent = onSocket config (enqueued.drop x.dequeued.length)
  pc : PcInv config chunks enqueued x.currentIdx x.marked x.pc

structure Inv (config : Config) (P : Pickle Obj) (s : System Obj n) : Prop where
  idx : s.currentIdx = s.enqueued.length % config.maxChunks
  dumped : ∀ m ∈ s.enqueued, m.Dumped P
  ring : RingInv config P s.chunks s.enqueued fun r => (s.readers r).marked
  writer : WriterInv config P (s.chunks s.currentIdx) s.writer
  readers : ∀ r, ReaderInv config s.chunks s.enqueued s.writer.unsent (s.readers r)

theorem inv_init (config : Config) (P : Pickle Obj) :
    Inv config P (System.init config : System Obj n) where
  idx := (zero_mod _).symm
  dumped := nofun
  ring := ringInv_init config P
  writer := trivial
  readers := by
    intro r
    exact ⟨(zero_mod _).symm, rfl, rfl, trivial⟩

variable {s s' : System Obj n}

theorem Inv.moveWriter (h : Inv config P s) (hunsent : w.unsent = s.writer.unsent)
    (hw : WriterInv config P (s.chunks s.currentIdx) w) : Inv config P { s with writer := w } where
  idx := h.idx
  dumped := h.dumped
  ring := h.ring
  writer := hw
  readers := by
    intro r
    rw [hunsent]
    exact h.readers r

theorem ReaderInv.writeCurrent {unsent : List (List (List UInt8))}
    (h : ReaderInv config chunks enqueued unsent x) (hwritten : chunk.written = false) :
    ReaderInv config (update chunks k chunk) enqueued unsent x := by
  refine ⟨h.idx, h.objs, h.inbox, ?_⟩
  have hpc := h.pc
  cases hx : x.pc with
  | idle | polling => trivial
  | reading | marking | receiving =>
    rw [hx] at hpc
    exact hpc
  | polled readFlag =>
    rw [hx] at hpc
    cases readFlag with
    | true => trivial
    | false =>
      rcases hpc with hlt | hunwritten
      · exact .inl hlt
      · right
        rw [update_apply]
        split
        · exact hwritten
        · exact hunwritten

theorem Inv.writeCurrent (h : Inv config P s)
    (hfree : ∀ r, s.enqueued.length < (s.readers r).marked + config.maxChunks)
    {f : Chunk n → Chunk n} (hunsent : w.unsent = s.writer.unsent)
    (hwritten : (f (s.chunks s.currentIdx)).written = false)
    (hlength : (f (s.chunks s.currentIdx)).data.length = config.maxChunkBytes)
    (hw : WriterInv config P (f (s.chunks s.currentIdx)) w) :
    Inv config P { s with chunks := s.modifyChunk f, writer := w } where
  idx := h.idx
  dumped := h.dumped
  ring := by
    unfold System.modifyChunk
    rw [h.idx] at hwritten hlength ⊢
    exact h.ring.writeCurrent hfree hwritten hlength
  writer := by
    show WriterInv config P (s.modifyChunk f s.currentIdx) w
    unfold System.modifyChunk
    rw [update_self]
    exact hw
  readers := by
    intro r
    rw [hunsent]
    exact (h.readers r).writeCurrent hwritten

theorem inv_enqueue (h : Inv config P s) {obj : Obj} (hrun : s.enqueue P obj = .ok s') :
    Inv config P s' := by
  unfold System.enqueue at hrun
  cases hw : s.writer with
  | idle =>
    rw [hw] at hrun
    dsimp only at hrun
    split at hrun
    next main oob hdumps =>
      cases hrun
      apply h.moveWriter
      · rw [hw]
        rfl
      · exact ⟨hdumps, zero_le n, Nat.le_refl 0, fun _ r hlt => absurd hlt (not_lt_zero _)⟩
    · cases hrun
      exact h
  | counting | counted | acquired | filling | clearing | publishing | sending =>
    rw [hw] at hrun
    cases hrun

theorem WriterInv.count (h : WriterInv config P chunk (.counting m i readCount)) (hi : i < n) :
    WriterInv config P chunk (.counting m (i + 1) (readCount + (chunk.read ⟨i, hi⟩).toNat)) := by
  obtain ⟨hdumped, -, hle, hall⟩ := h
  have hbit : (chunk.read ⟨i, hi⟩).toNat ≤ 1 := Bool.toNat_le _
  refine ⟨hdumped, hi, by omega, ?_⟩
  intro hfull r hlt hwritten
  have hset : (chunk.read ⟨i, hi⟩).toNat = 1 := by omega
  by_cases hr : r.val = i
  · have heq : r = ⟨i, hi⟩ := Fin.ext hr
    rw [heq]
    cases hread : chunk.read ⟨i, hi⟩ with
    | true => rfl
    | false =>
      rw [hread] at hset
      cases hset
  · exact hall (by omega) r (by omega) hwritten

section

variable (h : Inv config P s)

include h

theorem inv_counted (hw : s.writer = .counted m readCount)
    (hrun : s.stepWriter config timeout = .ok s') : Inv config P s' := by
  have hwriter := h.writer
  rw [hw] at hwriter
  obtain ⟨hdumped, hfull⟩ := hwriter
  unfold System.stepWriter at hrun
  rw [hw] at hrun
  dsimp only at hrun
  split at hrun
  · cases hrun
    apply h.moveWriter
    · rw [hw]
      cases timeout <;> rfl
    · cases timeout with
      | true => trivial
      | false =>
        exact ⟨hdumped, zero_le n, Nat.le_refl 0,
          fun _ r hlt => absurd hlt (not_lt_zero _)⟩
  next hbusy =>
    cases hrun
    apply h.moveWriter
    · rw [hw]
      rfl
    · refine ⟨hdumped, ?_⟩
      intro hwritten
      apply hfull _ hwritten
      by_contra hne
      exact hbusy ⟨hwritten, hne⟩

theorem Inv.free (hread : (s.chunks s.currentIdx).written = true →
      ∀ r, (s.chunks s.currentIdx).read r = true) (r : Fin n) :
    s.enqueued.length < (s.readers r).marked + config.maxChunks := by
  rw [h.idx] at hread
  exact h.ring.free_of_read hread r

theorem Inv.free_of_unwritten (hwritten : (s.chunks s.currentIdx).written = false) (r : Fin n) :
    s.enqueued.length < (s.readers r).marked + config.maxChunks := by
  apply h.free
  intro hyes
  rw [hwritten] at hyes
  cases hyes

theorem inv_acquired (hw : s.writer = .acquired m)
    (hrun : s.stepWriter config timeout = .ok s') : Inv config P s' := by
  have hwriter := h.writer
  rw [hw] at hwriter
  obtain ⟨hdumped, hread⟩ := hwriter
  have hlength := h.ring.length s.currentIdx
  unfold System.stepWriter at hrun
  rw [hw] at hrun
  cases hrun
  apply h.writeCurrent (h.free hread)
  · rw [hw]
    rfl
  · rfl
  · exact hlength
  · exact ⟨hdumped, rfl, _, [], hlength, rfl, rfl⟩

theorem inv_filling {todo : List (Py Store)} (hw : s.writer = .filling m todo)
    (hrun : s.stepWriter config timeout = .ok s') : Inv config P s' := by
  have hwriter := h.writer
  have hlength := h.ring.length s.currentIdx
  rw [hw] at hwriter
  obtain ⟨hdumped, hwritten, data, done, hdata, hbody, hdone⟩ := hwriter
  unfold System.stepWriter at hrun
  rw [hw] at hrun
  cases todo with
  | nil =>
    cases hrun
    apply h.moveWriter
    · rw [hw]
      rfl
    · rw [append_nil] at hbody
      rw [hbody] at hdone
      exact ⟨hdumped, hwritten, holds_of_body hdumped hdata hdone,
        fun r hlt => absurd hlt (not_lt_zero _)⟩
  | cons store todo =>
    dsimp only at hrun
    cases hstore : store >>= Store.run (s.chunks s.currentIdx).data with
    | error e =>
      rw [hstore] at hrun
      cases hrun
      apply h.moveWriter
      · rw [hw]
        rfl
      · trivial
    | ok data' =>
      rw [hstore] at hrun
      cases hrun
      have hlength' : data'.length = config.maxChunkBytes := by
        obtain ⟨st, -, hst⟩ := bind_ok.mp hstore
        exact (Store.length_run hst).trans hlength
      apply h.writeCurrent (h.free_of_unwritten hwritten)
      · rw [hw]
        rfl
      · exact hwritten
      · exact hlength'
      · refine ⟨hdumped, hwritten, data, done ++ [store], hdata, ?_, ?_⟩
        · rw [append_assoc]
          exact hbody
        · rw [runStores_append, hdone, ok_bind, runStores_cons]
          obtain ⟨st, hst, hrun⟩ := bind_ok.mp hstore
          rw [hst, ok_bind, hrun]
          rfl

theorem inv_clearing (hw : s.writer = .clearing m i)
    (hrun : s.stepWriter config timeout = .ok s') : Inv config P s' := by
  have hwriter := h.writer
  have hlength := h.ring.length s.currentIdx
  rw [hw] at hwriter
  obtain ⟨hdumped, hwritten, hdata, hclear⟩ := hwriter
  unfold System.stepWriter at hrun
  rw [hw] at hrun
  dsimp only at hrun
  split at hrun
  next hi =>
    cases hrun
    apply h.writeCurrent (h.free_of_unwritten hwritten)
    · rw [hw]
      rfl
    · exact hwritten
    · exact hlength
    · refine ⟨hdumped, hwritten, hdata, ?_⟩
      intro r hlt
      show update (s.chunks s.currentIdx).read ⟨i, hi⟩ false r = false
      rw [update_apply]
      split
      · rfl
      next hne =>
        apply hclear
        have hval : r.val ≠ i := fun heq => hne (Fin.ext heq)
        omega
  next hi =>
    cases hrun
    apply h.moveWriter
    · rw [hw]
      rfl
    · refine ⟨hdumped, hwritten, hdata, ?_⟩
      intro r
      exact hclear r (by omega)

end

theorem onSocket_append (config : Config) (xs ys : List (Message Obj)) :
    onSocket config (xs ++ ys) = onSocket config xs ++ onSocket config ys := by
  unfold onSocket
  rw [filter_append, map_append]

theorem onSocket_singleton (config : Config) (m : Message Obj) :
    onSocket config [m] = if m.overflow config = true then [m.allBuffers] else [] := by
  unfold onSocket
  cases hm : m.overflow config <;> simp [hm]

theorem ReaderInv.publish (h : ReaderInv config chunks enqueued [] x)
    (hle : x.marked ≤ enqueued.length) (k : Nat) (m : Message Obj) :
    ReaderInv config (update chunks k { chunks k with written := true })
      (enqueued ++ [m]) (if m.overflow config = true then [m.allBuffers] else []) x := by
  have hdequeued : x.dequeued.length ≤ enqueued.length := by
    unfold Reader.marked at hle
    omega
  refine ⟨h.idx, ?_, ?_, ?_⟩
  · rw [take_append_of_le_length hdequeued]
    exact h.objs
  · have hinbox := h.inbox
    rw [append_nil] at hinbox
    rw [drop_append_of_le_length hdequeued, onSocket_append, ← hinbox]
    rw [onSocket_singleton]
  · have hpc := h.pc
    cases hx : x.pc with
    | idle | polling => trivial
    | polled readFlag =>
      cases readFlag with
      | true => trivial
      | false =>
        left
        rw [length_append, length_singleton]
        exact lt_succ_of_le hle
    | reading =>
      show x.marked < (enqueued ++ [m]).length
      rw [length_append, length_singleton]
      exact lt_succ_of_le hle
    | marking obj =>
      rw [hx] at hpc
      obtain ⟨m', hm', hobj⟩ := hpc
      refine ⟨m', ?_, hobj⟩
      rw [List.getElem?_append_left (List.getElem?_eq_some_iff.mp hm').1]
      exact hm'
    | receiving =>
      rw [hx] at hpc
      obtain ⟨i, m', hi, hm', hoverflow⟩ := hpc
      refine ⟨i, m', hi, ?_, hoverflow⟩
      rw [List.getElem?_append_left (List.getElem?_eq_some_iff.mp hm').1]
      exact hm'

theorem inv_publishing (h : Inv config P s) (hw : s.writer = .publishing m)
    (hrun : s.stepWriter config timeout = .ok s') : Inv config P s' := by
  have hwriter := h.writer
  rw [hw] at hwriter
  obtain ⟨hdumped, hwritten, hdata, hread⟩ := hwriter
  have hunsent : s.writer.unsent = [] := by
    rw [hw]
    rfl
  unfold System.stepWriter at hrun
  rw [hw] at hrun
  cases hrun
  refine ⟨?_, ?_, ?_, ?_, ?_⟩
  · show (s.currentIdx + 1) % config.maxChunks = (s.enqueued ++ [m]).length % config.maxChunks
    rw [h.idx, length_append, length_singleton, mod_add_mod]
  · intro m' hm'
    rcases mem_append.mp hm' with hold | hnew
    · exact h.dumped m' hold
    · rw [mem_singleton.mp hnew]
      exact hdumped
  · show RingInv config P (s.modifyChunk fun chunk => { chunk with written := true })
      (s.enqueued ++ [m]) fun r => (s.readers r).marked
    unfold System.modifyChunk
    rw [h.idx] at hwritten hdata hread ⊢
    exact h.ring.publish hwritten hread hdata
  · cases hoverflow : m.overflow config with
    | true => exact ⟨hdumped, hoverflow⟩
    | false => trivial
  · intro r
    have hreader := h.readers r
    rw [hunsent] at hreader
    have hpublished := hreader.publish (h.ring.behind r).1 s.currentIdx m
    have hw' : (if m.overflow config = true then WriterState.sending m else .idle).unsent =
        if m.overflow config = true then [m.allBuffers] else [] := by
      split <;> rfl
    rw [hw']
    exact hpublished

theorem inv_sending (h : Inv config P s) (hw : s.writer = .sending m)
    (hrun : s.stepWriter config timeout = .ok s') : Inv config P s' := by
  have hunsent : s.writer.unsent = [m.allBuffers] := by
    rw [hw]
    rfl
  unfold System.stepWriter at hrun
  rw [hw] at hrun
  cases hrun
  refine ⟨h.idx, h.dumped, h.ring, trivial, ?_⟩
  intro r
  have hreader := h.readers r
  rw [hunsent] at hreader
  refine ⟨hreader.idx, hreader.objs, ?_, hreader.pc⟩
  show (s.readers r).inbox ++ [m.allBuffers] ++ [] = _
  rw [append_nil]
  exact hreader.inbox

theorem inv_stepWriter (h : Inv config P s) (hrun : s.stepWriter config timeout = .ok s') :
    Inv config P s' := by
  cases hw : s.writer with
  | idle =>
    unfold System.stepWriter at hrun
    rw [hw] at hrun
    cases hrun
  | counting m i readCount =>
    have hwriter := h.writer
    rw [hw] at hwriter
    unfold System.stepWriter at hrun
    rw [hw] at hrun
    dsimp only at hrun
    split at hrun
    next hi =>
      cases hrun
      exact h.moveWriter (by rw [hw]; rfl) (hwriter.count hi)
    next hi =>
      cases hrun
      obtain ⟨hdumped, hle, -, hall⟩ := hwriter
      apply h.moveWriter (by rw [hw]; rfl)
      refine ⟨hdumped, ?_⟩
      intro hfull hwritten r
      exact hall (by omega) r (by omega) hwritten
  | counted m readCount => exact inv_counted h hw hrun
  | acquired m => exact inv_acquired h hw hrun
  | filling m todo => exact inv_filling h hw hrun
  | clearing m i => exact inv_clearing h hw hrun
  | publishing m => exact inv_publishing h hw hrun
  | sending m => exact inv_sending h hw hrun

/-! ## The readers -/

section

variable (h : Inv config P s)

include h

theorem Inv.setReader (hmarked : x.marked = (s.readers r).marked)
    (hx : ReaderInv config s.chunks s.enqueued s.writer.unsent x) :
    Inv config P (s.setReader r x) where
  idx := h.idx
  dumped := h.dumped
  ring := by
    have hsame : (fun i => (update s.readers r x i).marked) =
        fun i => (s.readers i).marked := by
      funext i
      rw [update_apply]
      split
      next heq => rw [heq, hmarked]
      · rfl
    show RingInv config P s.chunks s.enqueued fun i => (update s.readers r x i).marked
    rw [hsame]
    exact h.ring
  writer := h.writer
  readers := by
    intro i
    show ReaderInv config s.chunks s.enqueued s.writer.unsent (update s.readers r x i)
    rw [update_apply]
    split
    · exact hx
    · exact h.readers i

theorem Inv.moveReader (hpending : pc.pending = (s.readers r).pc.pending)
    (hpc : PcInv config s.chunks s.enqueued (s.readers r).currentIdx (s.readers r).marked pc) :
    Inv config P (s.setReader r { s.readers r with pc := pc }) := by
  have hmarked : Reader.marked { s.readers r with pc := pc } = (s.readers r).marked := by
    unfold Reader.marked
    rw [hpending]
  apply h.setReader hmarked
  have hreader := h.readers r
  refine ⟨?_, hreader.objs, hreader.inbox, ?_⟩
  · rw [hmarked]
    exact hreader.idx
  · rw [hmarked]
    exact hpc

theorem Inv.holds_next (hlt : (s.readers r).marked < s.enqueued.length) :
    ∃ m, s.enqueued[(s.readers r).marked]? = some m ∧
      HoldsAt config P (s.chunks (s.readers r).currentIdx) (fun r => (s.readers r).marked)
        (s.readers r).marked m := by
  refine ⟨_, getElem?_eq_getElem hlt, ?_⟩
  rw [(h.readers r).idx]
  apply h.ring.held _ _ (getElem?_eq_getElem hlt) (h.ring.behind r).2
  intro hround
  cases hwritten : (s.chunks ((s.readers r).marked % config.maxChunks)).written with
  | true => rfl
  | false =>
    -- the chunk of the writer, not marked as written: the reader has marked this message
    have hmod : (s.readers r).marked % config.maxChunks =
        s.enqueued.length % config.maxChunks := by
      rw [← hround, add_mod_right]
    rw [hmod] at hwritten
    have hfree := h.ring.free hwritten r
    omega

theorem inv_polling (hpc : (s.readers r).pc = .polling)
    (hrun : s.stepReader config P r timeout = .ok s') : Inv config P s' := by
  unfold System.stepReader at hrun
  dsimp only at hrun
  rw [hpc] at hrun
  cases hrun
  apply h.moveReader
  · rw [hpc]
    rfl
  · cases hread : (s.chunks (s.readers r).currentIdx).read r with
    | true => trivial
    | false =>
      have hbehind := (h.ring.behind r).1
      have hidx := (h.readers r).idx
      by_cases hlt : (s.readers r).marked < s.enqueued.length
      · exact .inl hlt
      · have hdone : (s.readers r).marked = s.enqueued.length := by omega
        rw [hdone] at hidx
        rw [hidx] at hread ⊢
        exact .inr (h.ring.read_of_done hdone hread)

theorem inv_polled {readFlag : Bool}
    (hpc : (s.readers r).pc = .polled readFlag) (hrun : s.stepReader config P r timeout = .ok s') :
    Inv config P s' := by
  have hknows := (h.readers r).pc
  unfold System.stepReader at hrun
  dsimp only at hrun
  rw [hpc] at hrun hknows
  dsimp only at hrun
  split at hrun
  · cases hrun
    apply h.moveReader
    · rw [hpc]
      cases timeout <;> rfl
    · cases timeout <;> trivial
  next hready =>
    cases hrun
    apply h.moveReader
    · rw [hpc]
      rfl
    · have hwritten : (s.chunks (s.readers r).currentIdx).written = true := by
        by_contra hno
        exact hready (.inl (Bool.not_eq_true _ ▸ hno))
      cases readFlag with
      | true => exact absurd (.inr rfl) hready
      | false =>
        rcases hknows with hlt | hunwritten
        · exact hlt
        · rw [hunwritten] at hwritten
          cases hwritten

theorem inv_reading (hpc : (s.readers r).pc = .reading)
    (hrun : s.stepReader config P r timeout = .ok s') : Inv config P s' := by
  have hknows := (h.readers r).pc
  rw [hpc] at hknows
  obtain ⟨m, hm, hheld⟩ := h.holds_next hknows
  unfold System.stepReader at hrun
  dsimp only at hrun
  rw [hpc] at hrun
  rw [show readChunk P (s.chunks (s.readers r).currentIdx).data = _ from hheld.data] at hrun
  cases hrun
  apply h.moveReader
  · rw [hpc]
    rfl
  · exact ⟨m, hm, rfl⟩

end

theorem WriterInv.mark {chunk' : Chunk n} {r : Fin n} (h : WriterInv config P chunk w)
    (hwritten : chunk'.written = chunk.written) (hdata : chunk'.data = chunk.data)
    (hread : ∀ i, chunk.read i = true → chunk'.read i = true)
    (hsame : chunk.written = false → chunk'.read = chunk.read) : WriterInv config P chunk' w := by
  cases w with
  | idle => trivial
  | counting m i readCount =>
    obtain ⟨hdumped, hi, hle, hall⟩ := h
    refine ⟨hdumped, hi, hle, ?_⟩
    intro hfull r hlt hyes
    rw [hwritten] at hyes
    exact hread r (hall hfull r hlt hyes)
  | counted m readCount =>
    obtain ⟨hdumped, hall⟩ := h
    refine ⟨hdumped, ?_⟩
    intro hfull hyes r
    rw [hwritten] at hyes
    exact hread r (hall hfull hyes r)
  | acquired m =>
    obtain ⟨hdumped, hall⟩ := h
    refine ⟨hdumped, ?_⟩
    intro hyes r
    rw [hwritten] at hyes
    exact hread r (hall hyes r)
  | filling m todo =>
    obtain ⟨hdumped, hno, hstores⟩ := h
    refine ⟨hdumped, hwritten.trans hno, ?_⟩
    rw [hdata]
    exact hstores
  | clearing m i =>
    obtain ⟨hdumped, hno, hholds, hclear⟩ := h
    refine ⟨hdumped, hwritten.trans hno, ?_, ?_⟩
    · rw [hdata]
      exact hholds
    · rw [hsame hno]
      exact hclear
  | publishing m =>
    obtain ⟨hdumped, hno, hholds, hclear⟩ := h
    refine ⟨hdumped, hwritten.trans hno, ?_, ?_⟩
    · rw [hdata]
      exact hholds
    · rw [hsame hno]
      exact hclear
  | sending m => exact h

theorem Inv.apart (h : Inv config P s) (hlt : (s.readers r).marked < s.enqueued.length)
    (hwritten : (s.chunks s.currentIdx).written = false) :
    (s.readers r).currentIdx ≠ s.currentIdx := by
  intro heq
  rw [(h.readers r).idx, h.idx] at heq
  have hround := eq_of_mod_eq hlt (h.ring.behind r).2 heq
  have hfree := h.free_of_unwritten hwritten r
  omega

theorem PcInv.congr {chunks' : Nat → Chunk n} {m : Nat} (h : PcInv config chunks enqueued k m pc)
    (hwritten : ∀ j, (chunks' j).written = (chunks j).written) :
    PcInv config chunks' enqueued k m pc := by
  cases pc with
  | polled readFlag =>
    cases readFlag with
    | true => trivial
    | false =>
      rcases h with hlt | hno
      · exact .inl hlt
      · exact .inr ((hwritten k).trans hno)
  | idle | polling | reading | marking | receiving => exact h

theorem Inv.mark (h : Inv config P s) (hlt : (s.readers r).marked < s.enqueued.length)
    (hmarked : x.marked = (s.readers r).marked + 1)
    (hidx : x.currentIdx = ((s.readers r).currentIdx + 1) % config.maxChunks)
    (hobjs : x.dequeued = (s.enqueued.take x.dequeued.length).map Message.obj)
    (hinbox : x.inbox ++ s.writer.unsent = onSocket config (s.enqueued.drop x.dequeued.length))
    (hpc : PcInv config s.chunks s.enqueued x.currentIdx x.marked x.pc) :
    Inv config P ({ s with chunks := markRead s.chunks (s.readers r).currentIdx r }.setReader r x)
    where
  idx := h.idx
  dumped := h.dumped
  ring := by
    have hupdate : (fun i => (update s.readers r x i).marked) =
        update (fun i => (s.readers i).marked) r ((s.readers r).marked + 1) := by
      funext i
      rw [update_apply, update_apply]
      split
      · exact hmarked
      · rfl
    show RingInv config P (markRead s.chunks (s.readers r).currentIdx r) s.enqueued
      fun i => (update s.readers r x i).marked
    rw [hupdate, (h.readers r).idx]
    exact h.ring.mark hlt
  writer := by
    show WriterInv config P (markRead s.chunks (s.readers r).currentIdx r s.currentIdx) s.writer
    apply h.writer.mark (r := r)
    · rw [markRead_written]
    · rw [markRead_data]
    · intro i hi
      rw [markRead_read, hi]
      split <;> rfl
    · intro hwritten
      funext i
      rw [markRead_read, if_neg]
      intro hboth
      exact h.apart hlt hwritten hboth.1.symm
  readers := by
    intro i
    show ReaderInv config (markRead s.chunks (s.readers r).currentIdx r) s.enqueued
      s.writer.unsent (update s.readers r x i)
    rw [update_apply]
    split
    · refine ⟨?_, hobjs, hinbox, hpc.congr (markRead_written _ _ _)⟩
      rw [hidx, hmarked, (h.readers r).idx, mod_add_mod]
    · have hother := h.readers i
      exact ⟨hother.idx, hother.objs, hother.inbox, hother.pc.congr (markRead_written _ _ _)⟩

theorem drop_eq_cons (h : ms[i]? = some m) : ms.drop i = m :: ms.drop (i + 1) := by
  obtain ⟨hlt, hm⟩ := List.getElem?_eq_some_iff.mp h
  rw [drop_eq_getElem_cons hlt, hm]

theorem objs_append {objs : List Obj}
    (h : objs = (ms.take objs.length).map Message.obj) (hm : ms[objs.length]? = some m) :
    objs ++ [m.obj] = (ms.take (objs ++ [m.obj]).length).map Message.obj := by
  rw [length_append, length_singleton, take_add_one, hm, map_append, ← h]
  rfl

theorem inv_marking (h : Inv config P s) {obj : Option Obj} (hpc : (s.readers r).pc = .marking obj)
    (hrun : s.stepReader config P r timeout = .ok s') : Inv config P s' := by
  have hreader := h.readers r
  have hknows := hreader.pc
  have hmarked : (s.readers r).marked = (s.readers r).dequeued.length := by
    unfold Reader.marked
    rw [hpc]
    rfl
  rw [hpc] at hknows
  obtain ⟨m, hm, hobj⟩ := hknows
  have hlt := (List.getElem?_eq_some_iff.mp hm).1
  rw [hmarked] at hm
  have hinbox := hreader.inbox
  rw [drop_eq_cons hm, ← singleton_append, onSocket_append, onSocket_singleton] at hinbox
  unfold System.stepReader at hrun
  dsimp only at hrun
  rw [hpc] at hrun
  cases hoverflow : m.overflow config with
  | false =>
    rw [hoverflow] at hobj hinbox
    rw [hobj] at hrun
    cases hrun
    apply h.mark hlt
    · show ((s.readers r).dequeued ++ [m.obj]).length + 0 = _
      rw [hmarked, length_append, length_singleton]
    · rfl
    · exact objs_append hreader.objs hm
    · show (s.readers r).inbox ++ s.writer.unsent =
        onSocket config (s.enqueued.drop ((s.readers r).dequeued ++ [m.obj]).length)
      rw [length_append, length_singleton]
      exact hinbox
    · trivial
  | true =>
    rw [hoverflow] at hobj
    rw [hobj] at hrun
    cases hrun
    apply h.mark hlt
    · show (s.readers r).dequeued.length + 1 = _
      rw [hmarked]
    · rfl
    · exact hreader.objs
    · exact hreader.inbox
    · exact ⟨_, m, rfl, hm, hoverflow⟩

theorem inv_receiving (h : Inv config P s) (hpc : (s.readers r).pc = .receiving)
    (hwaits : (s.readers r).inbox = [] → timeout = false)
    (hrun : s.stepReader config P r timeout = .ok s') : Inv config P s' := by
  have hreader := h.readers r
  have hknows := hreader.pc
  have hmarked : (s.readers r).marked = (s.readers r).dequeued.length + 1 := by
    unfold Reader.marked
    rw [hpc]
    rfl
  rw [hpc] at hknows
  obtain ⟨i, m, hi, hm, hoverflow⟩ := hknows
  obtain rfl : i = (s.readers r).dequeued.length := by omega
  have hinbox := hreader.inbox
  rw [drop_eq_cons hm, ← singleton_append, onSocket_append, onSocket_singleton,
    hoverflow] at hinbox
  unfold System.stepReader at hrun
  dsimp only at hrun
  rw [hpc] at hrun
  cases hbox : (s.readers r).inbox with
  | nil =>
    have hwait := hreader.inbox
    rw [hbox] at hwait
    rw [hwaits hbox, hbox] at hrun
    cases hrun
    apply h.setReader
    · exact hmarked.symm
    · refine ⟨?_, hreader.objs, hwait, ⟨_, m, rfl, hm, hoverflow⟩⟩
      rw [hreader.idx, hmarked]
      rfl
  | cons allBuffers inbox =>
    rw [hbox, cons_append] at hinbox
    obtain ⟨hhead, hrest⟩ := List.cons.inj hinbox
    have hdumped := h.dumped m (mem_of_getElem? hm)
    have hloads : P.loadsAll allBuffers = .ok m.obj := by
      rw [hhead]
      exact P.loads_dumps hdumped
    rw [hbox] at hrun
    dsimp only at hrun
    rw [hloads] at hrun
    cases hrun
    have hcount : ((s.readers r).dequeued ++ [m.obj]).length =
        (s.readers r).dequeued.length + 1 := by
      rw [length_append, length_singleton]
    apply h.setReader
    · show ((s.readers r).dequeued ++ [m.obj]).length + 0 = _
      rw [hmarked, hcount]
    · refine ⟨?_, objs_append hreader.objs hm, ?_, trivial⟩
      · show (s.readers r).currentIdx = ((s.readers r).dequeued ++ [m.obj]).length % _
        rw [hcount, ← hmarked]
        exact hreader.idx
      · show inbox ++ s.writer.unsent =
          onSocket config (s.enqueued.drop ((s.readers r).dequeued ++ [m.obj]).length)
        rw [hcount]
        exact hrest

namespace System

/-- No reader gives up on a message that the ring says is on the socket. -/
def patient (s : System Obj n) : Op Obj n → Bool
  | .reader r timeout =>
    match (s.readers r).pc, (s.readers r).inbox with
    | .receiving, [] => !timeout
    | _, _ => true
  | _ => true

abbrev ReachableBy (config : Config) (P : Pickle Obj)
    (cond : System Obj n → Op Obj n → Prop) : System Obj n → Prop :=
  Reachable (· = init config) (OpStep cond (run config P))

theorem inv_run (h : Inv config P s) {op : Op Obj n} (hpatient : s.patient op = true)
    (hrun : s.run config P op = .ok s') : Inv config P s' := by
  cases op with
  | enqueue obj => exact inv_enqueue h hrun
  | writer timeout => exact inv_stepWriter h hrun
  | dequeue r =>
    unfold run at hrun
    dsimp only at hrun
    cases hpc : (s.readers r).pc with
    | idle =>
      rw [hpc] at hrun
      cases hrun
      apply h.moveReader
      · rw [hpc]
        rfl
      · trivial
    | polling | polled | reading | marking | receiving =>
      rw [hpc] at hrun
      cases hrun
  | reader r timeout =>
    cases hpc : (s.readers r).pc with
    | idle =>
      unfold run stepReader at hrun
      dsimp only at hrun
      rw [hpc] at hrun
      cases hrun
    | polling => exact inv_polling h hpc hrun
    | polled readFlag => exact inv_polled h hpc hrun
    | reading => exact inv_reading h hpc hrun
    | marking obj => exact inv_marking h hpc hrun
    | receiving =>
      apply inv_receiving h hpc _ hrun
      intro hbox
      unfold patient at hpatient
      dsimp only at hpatient
      rw [hpc, hbox] at hpatient
      simpa using hpatient

theorem inv_of_reachable (hs : ReachableBy config P (fun s op => s.patient op = true) s) :
    Inv config P s := by
  apply hs.invariant
  · intro t ht
    rw [ht]
    exact inv_init config P
  · intro t t' ht hstep
    obtain ⟨op, hpatient, hrun⟩ := hstep
    exact inv_run ht hpatient hrun

/-! ## A writer on its own -/

/-- The writer can get from one state to another without the readers. -/
def Solo (config : Config) (s s' : System Obj n) : Prop :=
  ∃ k, runOps (fun s (_ : Unit) => s.stepWriter config false) s (List.replicate k ()) = .ok s'

theorem Solo.refl (s : System Obj n) : Solo config s s := ⟨0, rfl⟩

theorem Solo.step {s₁ : System Obj n} (h : s.stepWriter config false = .ok s₁)
    (hrest : Solo config s₁ s') : Solo config s s' := by
  obtain ⟨k, hk⟩ := hrest
  refine ⟨k + 1, ?_⟩
  unfold runOps at hk ⊢
  rw [replicate_succ, foldlM_cons, h, ok_bind]
  exact hk

def Encodable (config : Config) (m : Message Obj) : Prop :=
  if m.overflow config = true then 0 < config.maxChunkBytes
  else m.allBuffers.length < 256 ^ 2 ∧ ∀ bs ∈ m.allBuffers, bs.length < 256 ^ 4

theorem body_ok (h : Encodable config m) (hlength : data.length = config.maxChunkBytes) :
    ∃ data', runStores data (m.body config) = .ok data' := by
  unfold Encodable at h
  unfold Message.body
  cases hoverflow : m.overflow config with
  | true =>
    rw [hoverflow, if_pos rfl] at h
    rw [if_pos rfl, runStores_cons, ok_bind]
    dsimp only [Store.run]
    rw [if_pos (by omega)]
    exact ⟨_, rfl⟩
  | false =>
    rw [hoverflow, if_neg (by decide)] at h
    have hfits := Message.frameLength_le hoverflow
    unfold Message.frameLength at hfits
    have h₁ : (Store.byte 0 0).run data = .ok (data.set 0 0) := by
      dsimp only [Store.run]
      rw [if_pos (by omega)]
    have h₂ := @Store.run_slice (data.set 0 0) (bigEndian m.allBuffers.length 2) 1 3
      (by rw [length_bigEndian]) (by rw [length_set]; omega)
    have hlength₂ := (Store.length_run h₂).trans (Store.length_run h₁)
    obtain ⟨data', hrest⟩ := @runStores_frames_ok m.allBuffers h.2 _ 3 (by rw [hlength₂]; omega)
    refine ⟨data', ?_⟩
    rw [if_neg (by decide), runStores_cons, ok_bind, h₁, ok_bind, runStores_cons,
      toBytesBig_ok.mpr ⟨h.1, rfl⟩]
    simp only [ok_bind, pure, Except.pure]
    rw [h₂, ok_bind]
    exact hrest

theorem solo_publishing {s : System Obj n} {m : Message Obj} (hw : s.writer = .publishing m) :
    ∃ s', Solo config s s' ∧ s'.writer = .idle ∧ s'.enqueued = s.enqueued ++ [m] := by
  cases hoverflow : m.overflow config with
  | false =>
    refine ⟨_, Solo.step (by unfold stepWriter; rw [hw]; rfl) (Solo.refl _), ?_, rfl⟩
    rw [hoverflow]
    rfl
  | true =>
    refine ⟨_, Solo.step (by unfold stepWriter; rw [hw]; rfl)
      (Solo.step (by unfold stepWriter; dsimp only; rw [hoverflow]; rfl) (Solo.refl _)), rfl, rfl⟩

theorem solo_clearing {m : Message Obj} (k : Nat) {s : System Obj n} {i : Nat}
    (hw : s.writer = .clearing m i) (hk : i + k = n) :
    ∃ s', Solo config s s' ∧ s'.writer = .idle ∧ s'.enqueued = s.enqueued ++ [m] := by
  induction k generalizing s i with
  | zero =>
    obtain ⟨s', hsolo, hidle, henqueued⟩ :=
      @solo_publishing _ _ config { s with writer := .publishing m } m rfl
    refine ⟨s', Solo.step ?_ hsolo, hidle, henqueued⟩
    unfold stepWriter
    rw [hw]
    dsimp only
    rw [dif_neg (by omega)]
    rfl
  | succ k ih =>
    have hi : i < n := by omega
    obtain ⟨s', hsolo, hidle, henqueued⟩ := @ih { s with
      chunks := s.modifyChunk fun chunk =>
        { chunk with read := update chunk.read ⟨i, hi⟩ false }
      writer := .clearing m (i + 1) } (i + 1) rfl (by omega)
    refine ⟨s', Solo.step ?_ hsolo, hidle, henqueued⟩
    unfold stepWriter
    rw [hw]
    dsimp only
    rw [dif_pos hi]
    rfl

theorem solo_filling {m : Message Obj} {todo : List (Py Store)} {s : System Obj n}
    (hw : s.writer = .filling m todo) {data' : List UInt8}
    (hdata : runStores (s.chunks s.currentIdx).data todo = .ok data') :
    ∃ s', Solo config s s' ∧ s'.writer = .idle ∧ s'.enqueued = s.enqueued ++ [m] := by
  induction todo generalizing s with
  | nil =>
    obtain ⟨s', hsolo, hidle, henqueued⟩ :=
      @solo_clearing _ _ config m n { s with writer := .clearing m 0 } 0 rfl (zero_add n)
    refine ⟨s', Solo.step ?_ hsolo, hidle, henqueued⟩
    unfold stepWriter
    rw [hw]
    rfl
  | cons store todo ih =>
    rw [runStores_cons, bind_ok] at hdata
    obtain ⟨st, hst, hdata⟩ := hdata
    rw [bind_ok] at hdata
    obtain ⟨data₁, hrun, hdata⟩ := hdata
    obtain ⟨s', hsolo, hidle, henqueued⟩ := @ih { s with
      chunks := s.modifyChunk fun chunk => { chunk with data := data₁ }
      writer := .filling m todo } rfl (by
        show runStores (s.modifyChunk _ s.currentIdx).data todo = .ok data'
        unfold modifyChunk
        rw [update_self]
        exact hdata)
    refine ⟨s', Solo.step ?_ hsolo, hidle, henqueued⟩
    unfold stepWriter
    rw [hw]
    dsimp only
    rw [hst, ok_bind, hrun]
    rfl

theorem solo_counting {m : Message Obj} {s : System Obj n}
    (hlength : (s.chunks s.currentIdx).data.length = config.maxChunkBytes) (hm : Encodable config m)
    (hread : (s.chunks s.currentIdx).written = true → ∀ r, (s.chunks s.currentIdx).read r = true)
    (k : Nat) {i readCount : Nat} (hk : i + k = n)
    (hcount : (s.chunks s.currentIdx).written = true → readCount = i) :
    ∃ s', Solo config { s with writer := .counting m i readCount } s' ∧ s'.writer = .idle ∧
      s'.enqueued = s.enqueued ++ [m] := by
  induction k generalizing i readCount with
  | zero =>
    obtain ⟨data', hdata⟩ := body_ok hm hlength
    obtain ⟨s', hsolo, hidle, henqueued⟩ := @solo_filling _ _ config m (m.body config) { s with
      chunks := s.modifyChunk fun chunk => { chunk with written := false }
      writer := .filling m (m.body config) } rfl data' (by
        show runStores (s.modifyChunk _ s.currentIdx).data _ = _
        unfold modifyChunk
        rw [update_self]
        exact hdata)
    have hcounted : stepWriter config { s with writer := .counting m i readCount } false =
        .ok { s with writer := .counted m readCount } := by
      unfold stepWriter
      dsimp only
      rw [dif_neg (by omega)]
      rfl
    have hacquired : stepWriter config { s with writer := .counted m readCount } false =
        .ok { s with writer := .acquired m } := by
      unfold stepWriter
      dsimp only
      rw [if_neg]
      · rfl
      · rintro ⟨hwritten, hne⟩
        exact hne ((hcount hwritten).trans (by omega))
    exact ⟨s', Solo.step hcounted (Solo.step hacquired (Solo.step rfl hsolo)), hidle, henqueued⟩
  | succ k ih =>
    have hi : i < n := by omega
    obtain ⟨s', hsolo, hidle, henqueued⟩ := @ih (i + 1)
      (readCount + ((s.chunks s.currentIdx).read ⟨i, hi⟩).toNat) (by omega) (by
        intro hwritten
        rw [hcount hwritten, hread hwritten]
        rfl)
    refine ⟨s', Solo.step ?_ hsolo, hidle, henqueued⟩
    unfold stepWriter
    dsimp only
    rw [dif_pos hi]
    rfl

/-- Where the chunk that is written next is free, the writer can enqueue any message whose
lengths fit. -/
def Usable (config : Config) (P : Pickle Obj) (s : System Obj n) : Prop :=
  ((s.chunks s.currentIdx).written = true → ∀ r, (s.chunks s.currentIdx).read r = true) →
    ∀ obj main oob, P.dumps obj = .ok (main, oob) → Encodable config ⟨obj, main, oob⟩ →
      ∃ s₁ s', s.enqueue P obj = .ok s₁ ∧ Solo config s₁ s' ∧ s'.writer = .idle ∧
        s'.enqueued = s.enqueued ++ [⟨obj, main, oob⟩]

theorem usable (h : Inv config P s) (hidle : s.writer = .idle) : s.Usable config P := by
  intro hread obj main oob hdumps hm
  obtain ⟨s', hsolo, hidle', henqueued⟩ :=
    solo_counting (h.ring.length s.currentIdx) hm hread n (zero_add n) (fun _ => rfl)
  refine ⟨_, s', ?_, hsolo, hidle', henqueued⟩
  unfold enqueue
  rw [hidle]
  rw [hdumps]
  rfl

/-! ## What is delivered -/

def Writing (s : System Obj n) : Prop :=
  match s.writer with
  | .filling _ _ | .clearing _ _ | .publishing _ => True
  | _ => False

def Reading (s : System Obj n) (r : Fin n) : Prop :=
  match (s.readers r).pc with
  | .reading | .marking _ => True
  | _ => False

/-- What holds in every state: the objects come out in order and once each; a chunk is
taken by the writer only when all readers have marked it, and is not changed while a
reader is inside; an `enqueue` that raises delivers nothing and leaves a ring that can be
used. -/
structure Delivers (config : Config) (P : Pickle Obj) (s : System Obj n) : Prop where
  inOrder : ∀ r, (s.readers r).dequeued <+: s.enqueued.map Message.obj
  marked : ∀ m, s.writer = .acquired m → (s.chunks s.currentIdx).written = true →
    ∀ r, (s.chunks s.currentIdx).read r = true
  apart : s.Writing → ∀ r, s.Reading r → (s.readers r).currentIdx ≠ s.currentIdx
  raises : ∀ timeout s', s.stepWriter config timeout = .ok s' → s'.writer = .idle →
    (∃ m readCount, s.writer = .counted m readCount) ∨ (∃ m todo, s.writer = .filling m todo) →
    s'.enqueued = s.enqueued ∧ s'.readers = s.readers ∧ s'.chunks = s.chunks ∧
      s'.Usable config P
  freed : ∀ m todo, s.writer = .filling m todo → (s.chunks s.currentIdx).written = false

/-- The steps of an `enqueue` up to the mark, with one reader and `k` assignments. -/
def written (obj : List UInt8) (k : Nat) : List (Op (List UInt8) 1) :=
  .enqueue obj :: List.replicate (k + 8) (.writer false)

def look : List (Op (List UInt8) 1) := .dequeue 0 :: List.replicate 4 (.reader 0 false)

end System

end VllmCore.ShmBroadcast
