import VllmCore.ShmObjectStorage
import Mathlib.Algebra.Order.BigOperators.Group.Finset
/-!
# The lifetime of an object in shared memory

A reader counts a touch when the counter has reached the number of readers, which it
takes to mean that the object was stored by an earlier request.  Where it is right each
time, the two counts agree: an object passes the free check exactly when no reader has
to look at it any more.
-/

namespace VllmCore.ShmObjectStorage

open Function List Support Dict

/-! ## The account of an object -/

/-- How often a reader that handles the item counts at the object when it gets it. -/
def Feature.gets (id : Nat) (f : Feature) : Nat := if f.ref = some id then 1 else 0

/-- How often it has to count when it touches it. -/
def Feature.touches (id : Nat) (f : Feature) : Nat :=
  if f.ref = some id ∧ f.touched = true then 1 else 0

def weight (id : Nat) (fs : List Feature) : Nat :=
  (fs.map (Feature.touches id)).sum + (fs.map (Feature.gets id)).sum

/-- The touches among `found` that hit the object. -/
def countFound (id : Nat) (found : List (MmHash × Option Nat)) : Nat :=
  (found.map fun e => if e.2 = some id then 1 else 0).sum

/-- What the writer has counted for the request it is in. -/
def WriterState.held (id : Nat) : WriterState → Nat
  | .idle => 0
  | .touching done _ => countFound id done
  | .merging done todo => weight id done + countFound id todo

/-- The touches of the writer whose items are not merged yet. -/
def WriterState.pending : WriterState → List (MmHash × Option Nat)
  | .idle => []
  | .touching done _ => done
  | .merging _ todo => todo

/-- What a reader has still to count at the object. -/
def ReaderState.outstanding (sent : List (List Feature)) (id : Nat) (r : ReaderState) : Nat :=
  (r.toTouch.map (Feature.touches id)).sum + (r.toGet.map (Feature.gets id)).sum +
    weight id (sent.drop r.started).flatten

/-- What all readers have still to count at the object. -/
def System.outstanding {n : Nat} (s : System n) (id : Nat) : Nat :=
  ∑ r, (s.readers r).outstanding s.sent id

theorem weight_append (id : Nat) (fs gs : List Feature) :
    weight id (fs ++ gs) = weight id fs + weight id gs := by
  unfold weight
  rw [map_append, map_append, sum_append, sum_append]
  omega

variable {id : Nat} {key : MmHash}

theorem weight_perm {fs gs : List Feature} (h : fs.Perm gs) : weight id fs = weight id gs := by
  unfold weight
  rw [(h.map _).sum_eq, (h.map _).sum_eq]

@[simp] theorem weight_singleton (id : Nat) (f : Feature) :
    weight id [f] = f.touches id + f.gets id := by
  unfold weight
  simp

@[simp] theorem countFound_append (id : Nat) (xs ys : List (MmHash × Option Nat)) :
    countFound id (xs ++ ys) = countFound id xs + countFound id ys := by
  unfold countFound
  rw [map_append, sum_append]

@[simp] theorem countFound_cons (id : Nat) (e : MmHash × Option Nat)
    (xs : List (MmHash × Option Nat)) :
    countFound id (e :: xs) = (if e.2 = some id then 1 else 0) + countFound id xs := rfl

theorem countFound_pos {xs : List (MmHash × Option Nat)} (h : (key, some id) ∈ xs) :
    0 < countFound id xs := by
  obtain ⟨before, after, rfl⟩ := append_of_mem h
  rw [countFound_append, countFound_cons, if_pos rfl]
  omega

theorem WriterState.held_pos {w : WriterState} (h : (key, some id) ∈ w.pending) :
    0 < w.held id := by
  cases w with
  | idle => cases h
  | touching done todo => exact countFound_pos h
  | merging done todo =>
    have hpos := countFound_pos (show (key, some id) ∈ todo from h)
    show 0 < weight id done + countFound id todo
    omega

/-- One more reference, if there is one. -/
def hold (held : Nat → Nat) (ref : Option Nat) (id : Nat) : Nat :=
  held id + if ref = some id then 1 else 0

theorem hold_of_ne (held : Nat → Nat) {j : Nat} (h : j ≠ id) : hold held (some id) j = held j := by
  unfold hold
  rw [if_neg (fun heq => h (Option.some.inj heq).symm), Nat.add_zero]

/-! ## The storage -/

/-- The counts of the storage are those of the items sent, of what the writer holds and of
what the readers have still to count. -/
structure Accounted (s : Storage) (sent held out : Nat → Nat) : Prop where
  start_le : s.monotonicIdStart ≤ s.monotonicIdEnd
  flag : ∀ id, s.monotonicIdStart ≤ id → id < s.monotonicIdEnd →
    s.writerFlag.get? id = some (sent id + held id)
  count : ∀ id, s.readerCount id + out id = s.nReaders * sent id
  fresh : ∀ id, s.monotonicIdEnd ≤ id →
    sent id = 0 ∧ held id = 0 ∧ s.writerFlag.get? id = none
  freed : ∀ id, id < s.monotonicIdStart → out id = 0 ∧ held id = 0
  key : ∀ key id, s.keyIndex.get? key = some id ↔ s.idIndex.get? id = some key
  live : ∀ id, (s.monotonicIdStart ≤ id ∧ id < s.monotonicIdEnd) ↔
    ∃ key, s.idIndex.get? id = some key

variable {s s' : Storage} {sent held out : Nat → Nat}

theorem Accounted.live_of_key (h : Accounted s sent held out)
    (hkey : s.keyIndex.get? key = some id) : s.monotonicIdStart ≤ id ∧ id < s.monotonicIdEnd :=
  (h.live id).mpr ⟨key, (h.key key id).mp hkey⟩

theorem accounted_init (n : Nat) :
    Accounted { nReaders := n } (fun _ => 0) (fun _ => 0) (fun _ => 0) where
  start_le := Nat.le_refl 0
  flag := by
    intro id _ hlt
    exact absurd hlt (Nat.not_lt_zero id)
  count := by
    intro id
    show 0 + 0 = n * 0
    omega
  fresh := fun _ _ => ⟨rfl, rfl, rfl⟩
  freed := fun _ _ => ⟨rfl, rfl⟩
  key := by
    intro key id
    simp
  live := by
    intro id
    constructor
    · intro hlt
      exact absurd hlt.2 (Nat.not_lt_zero id)
    · rintro ⟨key, hkey⟩
      cases hkey

section

variable (h : Accounted s sent held out)

include h

theorem Accounted.of_free (hpos : 0 < s.nReaders)
    (hstart : s.monotonicIdStart ≤ id) (hend : id < s.monotonicIdEnd)
    (hfree : s.defaultIsFreeCheck id = .ok true) : out id = 0 ∧ held id = 0 := by
  unfold Storage.defaultIsFreeCheck at hfree
  rw [get_ok.mpr (h.flag id hstart hend), ok_bind, pure_ok, decide_eq_true_eq,
    Nat.add_mul] at hfree
  have hcount := h.count id
  rw [Nat.mul_comm] at hcount
  have hheld : held id ≤ held id * s.nReaders := Nat.le_mul_of_pos_right _ hpos
  omega

theorem Accounted.free_of (hstart : s.monotonicIdStart ≤ id)
    (hend : id < s.monotonicIdEnd) (hout : out id = 0) (hheld : held id = 0) :
    s.defaultIsFreeCheck id = .ok true := by
  unfold Storage.defaultIsFreeCheck
  rw [get_ok.mpr (h.flag id hstart hend), ok_bind, pure_ok, decide_eq_true_eq, hheld, Nat.add_zero]
  have hcount := h.count id
  rw [hout, Nat.mul_comm] at hcount
  omega

theorem Accounted.increment {id : Nat}
    (hstart : s.monotonicIdStart ≤ id) (hend : id < s.monotonicIdEnd) :
    Accounted (s.incrementWriterFlag id) sent (hold held (some id)) out := { h with
  flag := by
    intro j hj hlt
    unfold Storage.incrementWriterFlag
    rw [get?_set]
    by_cases hid : j = id
    · rw [if_pos hid, h.flag id hstart hend, hid]
      unfold hold
      rw [if_pos rfl]
      rfl
    · rw [if_neg hid, hold_of_ne held hid]
      exact h.flag j hj hlt
  fresh := by
    intro j hj
    have hle : s.monotonicIdEnd ≤ j := hj
    have hne : j ≠ id := by omega
    rw [hold_of_ne held hne]
    obtain ⟨hsent, hheld, hflag⟩ := h.fresh j hj
    refine ⟨hsent, hheld, ?_⟩
    show (s.writerFlag.set id _).get? j = none
    rw [get?_set_ne _ _ hne]
    exact hflag
  freed := by
    intro j hj
    have hlt : j < s.monotonicIdStart := hj
    rw [hold_of_ne held (by omega)]
    exact h.freed j hj }

theorem Accounted.free (hpos : 0 < s.nReaders) (hend : s.monotonicIdStart < s.monotonicIdEnd)
    (hfree : s.defaultIsFreeCheck s.monotonicIdStart = .ok true)
    (hkey : s.idIndex.get? s.monotonicIdStart = some key) :
    Accounted
      { s with
        monotonicIdStart := s.monotonicIdStart + 1
        keyIndex := s.keyIndex.erase key
        idIndex := s.idIndex.erase s.monotonicIdStart
        writerFlag := s.writerFlag.erase s.monotonicIdStart } sent held out where
  start_le := hend
  flag := by
    intro id hstart hlt
    have hlater : s.monotonicIdStart + 1 ≤ id := hstart
    rw [get?_erase_ne _ (by omega)]
    exact h.flag id (by omega) hlt
  count := h.count
  fresh := by
    intro id hle
    obtain ⟨hsent, hheld, hflag⟩ := h.fresh id hle
    refine ⟨hsent, hheld, ?_⟩
    rw [get?_erase]
    split
    · rfl
    · exact hflag
  freed := by
    intro id hlt
    have hle : id < s.monotonicIdStart + 1 := hlt
    by_cases hid : id = s.monotonicIdStart
    · rw [hid]
      exact h.of_free hpos (Nat.le_refl _) hend hfree
    · exact h.freed id (by omega)
  key := by
    intro k id
    rw [get?_erase, get?_erase]
    have hiff := h.key k id
    by_cases hk : k = key
    · by_cases hid : id = s.monotonicIdStart
      · rw [if_pos hk, if_pos hid]
        simp
      · rw [if_pos hk, if_neg hid, hk]
        refine iff_of_false (by simp) ?_
        intro hother
        have hstart := (h.key key s.monotonicIdStart).mpr hkey
        rw [(h.key key id).mpr hother] at hstart
        exact hid (Option.some.inj hstart)
    · by_cases hid : id = s.monotonicIdStart
      · rw [if_neg hk, if_pos hid, hid]
        refine iff_of_false ?_ (by simp)
        intro hother
        rw [(h.key k _).mp hother] at hkey
        exact hk (Option.some.inj hkey)
      · rw [if_neg hk, if_neg hid]
        exact hiff
  live := by
    intro id
    show s.monotonicIdStart + 1 ≤ id ∧ id < s.monotonicIdEnd ↔
      ∃ k, (s.idIndex.erase s.monotonicIdStart).get? id = some k
    rw [get?_erase]
    by_cases hid : id = s.monotonicIdStart
    · rw [if_pos hid]
      refine iff_of_false (by omega) ?_
      rintro ⟨k, hk⟩
      cases hk
    · rw [if_neg hid, ← h.live id]
      omega

theorem Accounted.freeUnused (hpos : 0 < s.nReaders) {k : Nat} (hfree : s.freeUnused k = .ok s') :
    Accounted s' sent held out ∧ s'.nReaders = s.nReaders ∧
      s'.monotonicIdEnd = s.monotonicIdEnd ∧
      (∀ key, s.keyIndex.get? key = none → s'.keyIndex.get? key = none) ∧
      ∀ key id, s.keyIndex.get? key = some id → 0 < held id → s'.keyIndex.get? key = some id := by
  induction k generalizing s with
  | zero =>
    cases hfree
    exact ⟨h, rfl, rfl, fun _ hk => hk, fun _ _ hk _ => hk⟩
  | succ k ih =>
    unfold Storage.freeUnused at hfree
    simp only [bind_ok, require_ok] at hfree
    obtain ⟨-, hend, free, hcheck, -, hisFree, key, hkey, hfree⟩ := hfree
    rw [hisFree] at hcheck
    rw [get_ok] at hkey
    obtain ⟨hacc, hreaders, hends, hnone, hkept⟩ := ih (h.free hpos hend hcheck hkey) hpos hfree
    refine ⟨hacc, hreaders, hends, ?_, ?_⟩
    · intro j hj
      apply hnone
      rw [get?_erase]
      by_cases heq : j = key
      · rw [if_pos heq]
      · rw [if_neg heq]
        exact hj
    · intro j id hj hheld
      apply hkept j id _ hheld
      have hne : j ≠ key := by
        intro heq
        rw [heq, (h.key key s.monotonicIdStart).mpr hkey] at hj
        have hzero := (h.of_free hpos (Nat.le_refl _) hend hcheck).2
        rw [Option.some.inj hj] at hzero
        omega
      rw [get?_erase_ne _ hne]
      exact hj

theorem Accounted.store (hnone : s.keyIndex.get? key = none) :
    Accounted
      { Storage.incrementWriterFlag { s with
          monotonicIdEnd := s.monotonicIdEnd + 1
          readerCount := update s.readerCount s.monotonicIdEnd 0 } s.monotonicIdEnd with
        keyIndex := s.keyIndex.set key s.monotonicIdEnd
        idIndex := s.idIndex.set s.monotonicIdEnd key }
      sent (hold held (some s.monotonicIdEnd)) out where
  start_le := by
    have hle := h.start_le
    show s.monotonicIdStart ≤ s.monotonicIdEnd + 1
    omega
  flag := by
    intro id hstart hlt
    have hle : id < s.monotonicIdEnd + 1 := hlt
    show (s.writerFlag.set s.monotonicIdEnd _).get? id = _
    rw [get?_set]
    by_cases hid : id = s.monotonicIdEnd
    · obtain ⟨hsent, hheld, hflag⟩ := h.fresh s.monotonicIdEnd (Nat.le_refl _)
      rw [if_pos hid, hid, hflag, hsent]
      unfold hold
      rw [hheld, if_pos rfl]
      rfl
    · rw [if_neg hid, hold_of_ne held hid]
      exact h.flag id hstart (by omega)
  count := by
    intro id
    show update s.readerCount s.monotonicIdEnd 0 id + out id = s.nReaders * sent id
    have hcount := h.count id
    rw [update_apply]
    by_cases hid : id = s.monotonicIdEnd
    · rw [if_pos hid]
      have hfresh := (h.fresh id (by omega)).1
      rw [hfresh, Nat.mul_zero] at hcount ⊢
      omega
    · rw [if_neg hid]
      exact hcount
  fresh := by
    intro id hle
    have hlater : s.monotonicIdEnd + 1 ≤ id := hle
    have hne : id ≠ s.monotonicIdEnd := by omega
    rw [hold_of_ne held hne]
    obtain ⟨hsent, hheld, hflag⟩ := h.fresh id (by omega)
    refine ⟨hsent, hheld, ?_⟩
    show (s.writerFlag.set s.monotonicIdEnd _).get? id = none
    rw [get?_set_ne _ _ hne]
    exact hflag
  freed := by
    intro id hlt
    have hle := h.start_le
    have hstart : id < s.monotonicIdStart := hlt
    rw [hold_of_ne held (by omega)]
    exact h.freed id hlt
  key := by
    intro k id
    rw [get?_set, get?_set]
    by_cases hk : k = key
    · by_cases hid : id = s.monotonicIdEnd
      · rw [if_pos hk, if_pos hid, hk, hid]
        simp
      · rw [if_pos hk, if_neg hid, hk, ← h.key key id, hnone]
        refine iff_of_false ?_ (by simp)
        intro heq
        exact hid (Option.some.inj heq).symm
    · by_cases hid : id = s.monotonicIdEnd
      · rw [if_neg hk, if_pos hid, h.key k id]
        refine iff_of_false ?_ ?_
        · intro hother
          have hlive := ((h.live id).mpr ⟨k, hother⟩).2
          omega
        · intro heq
          exact hk (Option.some.inj heq).symm
      · rw [if_neg hk, if_neg hid]
        exact h.key k id
  live := by
    intro id
    show s.monotonicIdStart ≤ id ∧ id < s.monotonicIdEnd + 1 ↔
      ∃ k, (s.idIndex.set s.monotonicIdEnd key).get? id = some k
    rw [get?_set]
    by_cases hid : id = s.monotonicIdEnd
    · rw [if_pos hid]
      have hle := h.start_le
      exact iff_of_true (by omega) ⟨key, rfl⟩
    · rw [if_neg hid, ← h.live id]
      omega

/-- A reference that the sender takes is counted, and an object that was touched is the
one that is referenced. -/
theorem Accounted.getAndUpdateItem (hpos : 0 < s.nReaders)
    {hasItem : Bool} {room : Storage.Room} {ref : Option Nat}
    (hrun : System.getAndUpdateItem s hasItem key room = .ok (ref, s')) :
    Accounted s' sent (hold held ref) out ∧ s'.nReaders = s.nReaders ∧
      (∀ id, s.keyIndex.get? key = some id → ref = some id) ∧
      ∀ k id, s.keyIndex.get? k = some id → 0 < held id → s'.keyIndex.get? k = some id := by
  unfold System.getAndUpdateItem at hrun
  cases hkey : s.keyIndex.get? key with
  | some id =>
    have hcached : s.isCached key = true := by
      unfold Storage.isCached Dict.contains
      rw [hkey]
      rfl
    rw [if_pos hcached] at hrun
    unfold Storage.getCached at hrun
    rw [get_ok.mpr hkey] at hrun
    cases hrun
    obtain ⟨hstart, hend⟩ := h.live_of_key hkey
    exact ⟨h.increment hstart hend, rfl, fun _ heq => heq, fun _ _ hk _ => hk⟩
  | none =>
    have hcached : s.isCached key = false := by
      unfold Storage.isCached Dict.contains
      rw [hkey]
      rfl
    rw [hcached] at hrun
    simp only [Bool.false_eq_true, if_false, bind_ok, pyAssert_ok] at hrun
    obtain ⟨-, -, hput⟩ := hrun
    unfold Storage.put at hput
    rw [hcached] at hput
    simp only [Bool.false_eq_true, if_false, bind_ok] at hput
    obtain ⟨s₁, hfree, hput⟩ := hput
    obtain ⟨hacc, hreaders, hends, hnone, hkept⟩ := h.freeUnused hpos hfree
    cases hfound : room.found with
    | false =>
      rw [hfound] at hput
      cases hput
      refine ⟨hacc, hreaders, ?_, hkept⟩
      intro id hother
      cases hother
    | true =>
      rw [hfound] at hput
      cases hput
      refine ⟨hacc.store (hnone key hkey), hreaders, ?_, ?_⟩
      · intro id hother
        cases hother
      intro k id hk hheld
      have hne : k ≠ key := by
        intro heq
        rw [heq, hkey] at hk
        cases hk
      rw [get?_set_ne _ _ hne]
      exact hkept k id hk hheld

theorem Accounted.touchWriter (key : MmHash) :
    Accounted (s.touchWriter key) sent (hold held (s.keyIndex.get? key)) out := by
  unfold Storage.touchWriter
  cases hkey : s.keyIndex.get? key with
  | none =>
    exact h
  | some id =>
    obtain ⟨hstart, hend⟩ := h.live_of_key hkey
    exact h.increment hstart hend

end

theorem touchWriter_frame (s : Storage) (key : MmHash) :
    (s.touchWriter key).keyIndex = s.keyIndex ∧ (s.touchWriter key).nReaders = s.nReaders := by
  unfold Storage.touchWriter
  split <;> exact ⟨rfl, rfl⟩

theorem Accounted.incrementReader (h : Accounted s sent held out)
    (hrun : s.incrementReaderFlag id = .ok s') {out' : Nat → Nat}
    (hout : ∀ j, out j = out' j + if id = j then 1 else 0) :
    Accounted s' sent held out' ∧ s'.keyIndex = s.keyIndex ∧ s'.nReaders = s.nReaders := by
  unfold Storage.incrementReaderFlag at hrun
  split at hrun
  · cases hrun
    refine ⟨⟨h.start_le, h.flag, ?_, h.fresh, ?_, h.key, h.live⟩, rfl, rfl⟩
    · intro j
      have hcount := h.count j
      have hj := hout j
      show update s.readerCount id (s.readerCount id + 1) j + out' j = s.nReaders * sent j
      rw [update_apply]
      by_cases hid : j = id
      · rw [if_pos hid, ← hid]
        rw [if_pos hid.symm] at hj
        omega
      · rw [if_neg hid]
        rw [if_neg (fun heq => hid heq.symm)] at hj
        omega
    · intro j hj
      have hzero := h.freed j hj
      have hle := hout j
      omega
  · cases hrun

theorem Accounted.send {w : Nat → Nat} (h : Accounted s sent w out) :
    Accounted s (fun id => sent id + w id) (fun _ => 0) (fun id => out id + s.nReaders * w id) where
  start_le := h.start_le
  flag := h.flag
  count := by
    intro id
    have hcount := h.count id
    rw [Nat.mul_add]
    omega
  fresh := by
    intro id hle
    obtain ⟨hsent, hw, hflag⟩ := h.fresh id hle
    exact ⟨by omega, rfl, hflag⟩
  freed := by
    intro id hlt
    obtain ⟨hout, hw⟩ := h.freed id hlt
    rw [hout, hw]
    exact ⟨rfl, rfl⟩
  key := h.key
  live := h.live

theorem Accounted.congr_out (h : Accounted s sent held out) {out' : Nat → Nat}
    (hout : ∀ id, out id = out' id) :
    Accounted s sent held out' := by
  obtain rfl : out = out' := funext hout
  exact h

theorem Accounted.reclaim (hpos : 0 < s.nReaders) (k : Nat)
    (h : Accounted s sent (fun _ => 0) (fun _ => 0))
    (hk : s.monotonicIdStart + k = s.monotonicIdEnd) :
    ∃ s', s.freeUnused k = .ok s' ∧ s'.monotonicIdStart = s'.monotonicIdEnd := by
  induction k generalizing s with
  | zero => exact ⟨s, rfl, hk⟩
  | succ k ih =>
    have hend : s.monotonicIdStart < s.monotonicIdEnd := by omega
    have hfree := h.free_of (Nat.le_refl _) hend rfl rfl
    obtain ⟨key, hkey⟩ := (h.live s.monotonicIdStart).mp ⟨Nat.le_refl _, hend⟩
    have hlater : s.monotonicIdStart + 1 + k = s.monotonicIdEnd := by omega
    obtain ⟨s', hrun, hempty⟩ := ih (by exact hpos) (h.free hpos hend hfree hkey) hlater
    refine ⟨s', ?_, hempty⟩
    rw [Storage.freeUnused, require_pos hend, ok_bind, hfree, ok_bind, require_pos rfl, ok_bind,
      get_ok.mpr hkey, ok_bind]
    exact hrun

/-! ## Runs -/

theorem sum_update {n : Nat} (g : ReaderState → Nat) (readers : Fin n → ReaderState) (r : Fin n)
    (x : ReaderState) :
    (∑ i, g (update readers r x i)) + g (readers r) = (∑ i, g (readers i)) + g x := by
  have hupdate : (fun i => g (update readers r x i)) =
      update (fun i => g (readers i)) r (g x) := by
    funext i
    rw [update_apply, update_apply]
    split <;> rfl
  rw [hupdate, Finset.sum_update_of_mem (Finset.mem_univ r),
    ← Finset.sum_sdiff (Finset.subset_univ {r}) (f := fun i => g (readers i)),
    Finset.sum_singleton]
  omega

namespace System

variable {n : Nat}

/-- The reader decides right whether its touch counts: the counter has reached the number
of readers if and only if the object was stored by an earlier request. -/
def decidesRight (s : System n) : Op n → Bool
  | .touch r =>
    match (s.readers r).toTouch with
    | ⟨some id, touched⟩ :: _ => decide (n ≤ s.storage.readerCount id) == touched
    | _ => true
  | _ => true

abbrev ReachableBy (cond : System n → Op n → Prop) : System n → Prop :=
  Reachable (· = init n) (OpStep cond run)

/-- The two counts of each object agree. -/
structure Inv (s : System n) : Prop where
  accounted : Accounted s.storage (fun id => weight id s.sent.flatten) (fun id => s.writer.held id)
    s.outstanding
  nReaders : s.storage.nReaders = n
  pending : ∀ key id, (key, some id) ∈ s.writer.pending →
    s.storage.keyIndex.get? key = some id
  started : ∀ r, (s.readers r).started ≤ s.sent.length

theorem inv_init (n : Nat) : Inv (init n) where
  accounted := by
    have hzero : (init n).outstanding = fun _ => 0 := by
      funext id
      apply Finset.sum_eq_zero
      intro r _
      rfl
    rw [hzero]
    exact accounted_init n
  nReaders := rfl
  pending := nofun
  started := fun _ => Nat.le_refl 0

theorem Inv.withWriter {s : System n} (h : Inv s) {storage : Storage} (writer : WriterState)
    (haccounted : Accounted storage (fun id => weight id s.sent.flatten)
      (fun id => writer.held id) s.outstanding)
    (hreaders : storage.nReaders = s.storage.nReaders)
    (hpending : ∀ key id, (key, some id) ∈ writer.pending → storage.keyIndex.get? key = some id) :
    Inv { s with storage := storage, writer := writer } :=
  ⟨haccounted, hreaders.trans h.nReaders, hpending, h.started⟩
variable {s s' : System n}

theorem inv_touchSender (h : Inv s) (hrun : s.stepWriter .touchSender = .ok s') :
    Inv s' := by
  have haccounted := h.accounted
  have hpending := h.pending
  unfold stepWriter at hrun
  cases hw : s.writer with
  | idle =>
    rw [hw] at hrun
    cases hrun
  | merging done todo =>
    rw [hw] at hrun
    cases hrun
  | touching done todo =>
    rw [hw] at hrun haccounted hpending
    cases todo with
    | nil =>
      cases hrun
      apply h.withWriter (.merging [] done) _ rfl hpending
      have hheld : (fun id => (WriterState.merging [] done).held id) =
          fun id => (WriterState.touching done []).held id := by
        funext id
        exact Nat.zero_add _
      rw [hheld]
      exact haccounted
    | cons key todo =>
      cases hrun
      obtain ⟨hkeys, hreaders⟩ := touchWriter_frame s.storage key
      apply h.withWriter (.touching (done ++ [(key, s.storage.keyIndex.get? key)]) todo) _ hreaders
      · intro k id hmem
        rw [hkeys]
        rcases mem_append.mp hmem with hold | hnew
        · exact hpending k id hold
        · obtain ⟨hk, hid⟩ := Prod.mk.inj (mem_singleton.mp hnew)
          rw [hk]
          exact hid.symm
      · have hheld : (fun id => (WriterState.touching
              (done ++ [(key, s.storage.keyIndex.get? key)]) todo).held id) =
            hold (fun id => (WriterState.touching done (key :: todo)).held id)
              (s.storage.keyIndex.get? key) := by
          funext id
          show countFound id (done ++ [(key, s.storage.keyIndex.get? key)]) = _
          rw [countFound_append, countFound_cons]
          rfl
        rw [hheld]
        exact haccounted.touchWriter key

theorem inv_merge (h : Inv s) (hn : 0 < n) {room : Storage.Room}
    (hrun : s.stepWriter (.merge room) = .ok s') : Inv s' := by
  have haccounted := h.accounted
  have hpending := h.pending
  unfold stepWriter at hrun
  cases hw : s.writer with
  | idle =>
    rw [hw] at hrun
    cases hrun
  | touching done todo =>
    rw [hw] at hrun
    cases hrun
  | merging done todo =>
    rw [hw] at hrun haccounted hpending
    cases todo with
    | nil => cases hrun
    | cons e todo =>
      obtain ⟨key, found⟩ := e
      simp only [bind_ok, pure_ok] at hrun
      obtain ⟨⟨ref, storage⟩, hget, hrun⟩ := hrun
      cases hrun
      obtain ⟨hacc, hreaders, hfound, hkept⟩ :=
        haccounted.getAndUpdateItem (by rw [h.nReaders]; exact hn) hget
      refine h.withWriter (.merging (done ++ [(⟨ref, found.isSome⟩ : Feature)]) todo) ?_
        hreaders ?_
      · have hheld : (fun id =>
              (WriterState.merging (done ++ [⟨ref, found.isSome⟩]) todo).held id) =
            hold (fun id => (WriterState.merging done ((key, found) :: todo)).held id) ref := by
          funext id
          show weight id (done ++ [⟨ref, found.isSome⟩]) + countFound id todo =
            weight id done + countFound id ((key, found) :: todo) + _
          rw [weight_append, weight_singleton, countFound_cons]
          -- a touch that was counted is of the object that is referenced
          have htouch : Feature.touches id ⟨ref, found.isSome⟩ =
              if found = some id then 1 else 0 := by
            unfold Feature.touches
            cases hf : found with
            | none => simp
            | some j =>
              have href := hfound j (hpending key j (by rw [hf]; exact mem_cons_self))
              rw [href]
              simp
          unfold Feature.gets
          dsimp only
          omega
        rw [hheld]
        exact hacc
      · intro k id hmem
        have hbefore : (k, some id) ∈ (key, found) :: todo := mem_cons_of_mem _ hmem
        exact hkept k id (hpending k id hbefore) (WriterState.held_pos
          (show (k, some id) ∈ (WriterState.merging done ((key, found) :: todo)).pending
            from hbefore))

theorem outstanding_append (sent : List (List Feature)) (features : List Feature) (id : Nat)
    {r : ReaderState} (h : r.started ≤ sent.length) :
    r.outstanding (sent ++ [features]) id = r.outstanding sent id + weight id features := by
  unfold ReaderState.outstanding
  rw [drop_append_of_le_length h, flatten_append, weight_append, flatten_singleton]
  omega

theorem inv_send (h : Inv s) {features : List Feature}
    (hrun : s.stepWriter (.send features) = .ok s') : Inv s' := by
  have haccounted := h.accounted
  unfold stepWriter at hrun
  cases hw : s.writer with
  | idle =>
    rw [hw] at hrun
    cases hrun
  | touching done todo =>
    rw [hw] at hrun
    cases hrun
  | merging done todo =>
    rw [hw] at hrun haccounted
    cases todo with
    | cons e todo => cases hrun
    | nil =>
      simp only [bind_ok, require_ok, pure_ok] at hrun
      obtain ⟨-, hperm, hrun⟩ := hrun
      cases hrun
      have hweight : ∀ id, weight id features = (WriterState.merging done []).held id :=
        fun id => weight_perm hperm
      have hsent : (fun id => weight id (s.sent ++ [features]).flatten) =
          fun id => weight id s.sent.flatten + (WriterState.merging done []).held id := by
        funext id
        rw [flatten_append, weight_append, flatten_singleton, hweight]
      have hout : System.outstanding { s with writer := .idle, sent := s.sent ++ [features] } =
          fun id => s.outstanding id +
            s.storage.nReaders * (WriterState.merging done []).held id := by
        funext id
        unfold outstanding
        simp only [outstanding_append s.sent features id (h.started _)]
        rw [Finset.sum_add_distrib, Finset.sum_const, Finset.card_univ, Fintype.card_fin,
          hweight, h.nReaders]
        rfl
      refine ⟨?_, h.nReaders, nofun, ?_⟩
      · show Accounted s.storage (fun id => weight id (s.sent ++ [features]).flatten)
          (fun _ => 0) _
        rw [hsent, hout]
        exact haccounted.send
      · intro r
        have hle := h.started r
        show (s.readers r).started ≤ (s.sent ++ [features]).length
        rw [length_append]
        omega

theorem outstanding_update (s : System n) (r : Fin n) (x : ReaderState) (storage : Storage)
    (id : Nat) :
    System.outstanding { s with storage := storage, readers := update s.readers r x } id +
        (s.readers r).outstanding s.sent id = s.outstanding id + x.outstanding s.sent id :=
  sum_update (fun r => r.outstanding s.sent id) s.readers r x

theorem started_update {s : System n} (h : Inv s) (r : Fin n) {x : ReaderState}
    (hx : x.started ≤ s.sent.length) (i : Fin n) :
    (update s.readers r x i).started ≤ s.sent.length := by
  rw [update_apply]
  split
  · exact hx
  · exact h.started i

variable {r : Fin n} {id : Nat}

theorem inv_start (h : Inv s) (hrun : s.stepReader (.start r) = .ok s') :
    Inv s' := by
  unfold stepReader at hrun
  dsimp only at hrun
  split at hrun
  next features htouch hget hnext =>
    cases hrun
    obtain ⟨hlt, hfeatures⟩ := List.getElem?_eq_some_iff.mp hnext
    have hsame : ∀ id, (startNext (s.readers r) features).outstanding s.sent id =
        (s.readers r).outstanding s.sent id := by
      intro id
      unfold ReaderState.outstanding startNext
      rw [htouch, hget, drop_eq_getElem_cons hlt, hfeatures, flatten_cons,
        weight_append]
      unfold weight
      simp only [map_nil, sum_nil]
      omega
    have hout : System.outstanding { s with
        readers := update s.readers r (startNext (s.readers r) features) } =
        s.outstanding := by
      funext id
      have hupdate := outstanding_update s r (startNext (s.readers r) features) s.storage id
      rw [hsame] at hupdate
      exact Nat.add_right_cancel hupdate
    refine ⟨?_, h.nReaders, h.pending, started_update h r hlt⟩
    rw [hout]
    exact h.accounted
  · cases hrun

theorem inv_reader {s : System n} (h : Inv s) (r : Fin n) (x : ReaderState) {storage : Storage}
    (hx : x.started = (s.readers r).started)
    (haccounted : ∀ out, (∀ j, s.outstanding j + x.outstanding s.sent j =
        out j + (s.readers r).outstanding s.sent j) →
      Accounted storage (fun id => weight id s.sent.flatten) (fun id => s.writer.held id) out ∧
        storage.keyIndex = s.storage.keyIndex ∧ storage.nReaders = s.storage.nReaders) :
    Inv { s with storage := storage, readers := update s.readers r x } := by
  obtain ⟨hacc, hkeys, hreaders⟩ := haccounted
    (System.outstanding { s with storage := storage, readers := update s.readers r x })
    (fun j => (outstanding_update s r x storage j).symm)
  refine ⟨hacc, hreaders.trans h.nReaders, ?_, started_update h r (by rw [hx]; exact h.started r)⟩
  intro key id hmem
  rw [hkeys]
  exact h.pending key id hmem

theorem inv_touch (h : Inv s) (hright : s.decidesRight (.touch r) = true)
    (hrun : s.stepReader (.touch r) = .ok s') : Inv s' := by
  unfold stepReader at hrun
  unfold decidesRight at hright
  dsimp only at hrun hright
  cases htouch : (s.readers r).toTouch with
  | nil =>
    rw [htouch] at hrun
    cases hrun
  | cons f rest =>
    rw [htouch] at hrun hright
    simp only [bind_ok, pure_ok] at hrun
    obtain ⟨storage, hstorage, hrun⟩ := hrun
    cases hrun
    have hout : ∀ j, (s.readers r).outstanding s.sent j = f.touches j +
        ReaderState.outstanding s.sent j { s.readers r with toTouch := rest } := by
      intro j
      unfold ReaderState.outstanding
      rw [htouch, map_cons, sum_cons]
      dsimp only
      omega
    apply inv_reader h r { s.readers r with toTouch := rest } rfl
    intro out hsum
    obtain ⟨ref, touched⟩ := f
    cases ref with
    | none =>
      cases hstorage
      refine ⟨Accounted.congr_out h.accounted ?_, rfl, rfl⟩
      intro j
      have hj := hout j
      have hs := hsum j
      have hzero : Feature.touches j ⟨none, touched⟩ = 0 := by simp [Feature.touches]
      omega
    | some id =>
      unfold touchReceiver Storage.touchReader at hstorage
      rw [beq_iff_eq] at hright
      dsimp only at hstorage
      rw [h.nReaders] at hstorage
      have htouches : ∀ j, Feature.touches j ⟨some id, touched⟩ =
          if id = j ∧ touched = true then 1 else 0 := by
        intro j
        simp [Feature.touches]
      by_cases hle : n ≤ s.storage.readerCount id
      · rw [decide_eq_true hle] at hright
        rw [if_pos hle] at hstorage
        apply h.accounted.incrementReader hstorage
        intro j
        have hj := hout j
        have hs := hsum j
        rw [htouches, ← hright] at hj
        simp only [and_true] at hj
        dsimp only at hs
        omega
      · rw [decide_eq_false hle] at hright
        rw [if_neg hle] at hstorage
        cases hstorage
        refine ⟨Accounted.congr_out h.accounted ?_, rfl, rfl⟩
        intro j
        have hj := hout j
        have hs := hsum j
        rw [htouches, ← hright] at hj
        simp only [Bool.false_eq_true, and_false, if_false] at hj
        dsimp only at hs
        omega

theorem inv_get (h : Inv s) (hrun : s.stepReader (.get r) = .ok s') : Inv s' := by
  unfold stepReader at hrun
  dsimp only at hrun
  split at hrun
  next f rest htouch hget =>
    simp only [bind_ok, pure_ok] at hrun
    obtain ⟨storage, hstorage, hrun⟩ := hrun
    cases hrun
    have hout : ∀ j, (s.readers r).outstanding s.sent j = f.gets j +
        ReaderState.outstanding s.sent j { s.readers r with toGet := rest } := by
      intro j
      unfold ReaderState.outstanding
      rw [hget, map_cons, sum_cons]
      dsimp only
      omega
    apply inv_reader h r { s.readers r with toGet := rest } rfl
    intro out hsum
    unfold getReceiver at hstorage
    cases href : f.ref with
    | none =>
      rw [href] at hstorage
      cases hstorage
      refine ⟨Accounted.congr_out h.accounted ?_, rfl, rfl⟩
      intro j
      have hj := hout j
      have hs := hsum j
      have hzero : f.gets j = 0 := by simp [Feature.gets, href]
      omega
    | some id =>
      rw [href] at hstorage
      apply h.accounted.incrementReader hstorage
      intro j
      have hj := hout j
      have hs := hsum j
      have hgets : f.gets j = if id = j then 1 else 0 := by simp [Feature.gets, href]
      omega
  · cases hrun

theorem inv_run (h : Inv s) (hn : 0 < n) {op : Op n}
    (hright : s.decidesRight op = true) (hrun : s.run op = .ok s') : Inv s' := by
  cases op with
  | request hashes =>
    unfold run stepWriter at hrun
    dsimp only at hrun
    split at hrun
    next hw =>
      cases hrun
      have haccounted := h.accounted
      rw [hw] at haccounted
      exact h.withWriter (.touching [] hashes) haccounted rfl nofun
    · cases hrun
  | touchSender => exact inv_touchSender h hrun
  | merge room => exact inv_merge h hn hrun
  | send features => exact inv_send h hrun
  | start r => exact inv_start h hrun
  | touch r => exact inv_touch h hright hrun
  | get r => exact inv_get h hrun

theorem inv_of_reachable (hn : 0 < n) {s : System n}
    (hs : ReachableBy (fun s op => s.decidesRight op = true) s) : Inv s := by
  apply hs.invariant
  · intro t ht
    rw [ht]
    exact inv_init n
  · intro t t' ht hstep
    obtain ⟨op, hright, hrun⟩ := hstep
    exact inv_run ht hn hright hrun

/-! ## What the counts say -/

/-- The reader still has to get the object for a request that was sent. -/
def ToGet (s : System n) (r : Fin n) (id : Nat) : Prop :=
  (∃ f ∈ (s.readers r).toGet, f.ref = some id) ∨
    ∃ features ∈ s.sent.drop (s.readers r).started, ∃ f ∈ features, f.ref = some id

def AllHandled (s : System n) : Prop :=
  s.writer = .idle ∧ ∀ r, (s.readers r).started = s.sent.length ∧ (s.readers r).toTouch = [] ∧
    (s.readers r).toGet = []

def Live (s : System n) (id : Nat) : Prop :=
  s.storage.monotonicIdStart ≤ id ∧ id < s.storage.monotonicIdEnd

theorem gets_pos {fs : List Feature} {f : Feature} (hmem : f ∈ fs) (href : f.ref = some id) :
    0 < (fs.map (Feature.gets id)).sum := by
  obtain ⟨before, after, rfl⟩ := append_of_mem hmem
  rw [map_append, map_cons, sum_append, sum_cons]
  unfold Feature.gets
  rw [if_pos href]
  omega

theorem outstanding_pos {s : System n} (h : s.ToGet r id) : 0 < s.outstanding id := by
  apply Nat.lt_of_lt_of_le _
    (Finset.single_le_sum (fun _ _ => Nat.zero_le _) (Finset.mem_univ r))
  unfold ReaderState.outstanding
  rcases h with ⟨f, hmem, href⟩ | ⟨features, hfeatures, f, hmem, href⟩
  · have hpos := gets_pos hmem href
    omega
  · have hpos := gets_pos (mem_flatten.mpr ⟨features, hfeatures, hmem⟩) href
    unfold weight
    omega

theorem outstanding_of_allHandled {s : System n} (h : s.AllHandled) (id : Nat) :
    s.outstanding id = 0 := by
  apply Finset.sum_eq_zero
  intro r _
  obtain ⟨hstarted, htouch, hget⟩ := h.2 r
  unfold ReaderState.outstanding
  rw [hstarted, htouch, hget, drop_length]
  rfl

theorem Inv.live {s : System n} (h : Inv s) (hget : s.ToGet r id) : s.Live id := by
  have hpos := outstanding_pos hget
  constructor
  · by_contra hlt
    have hzero := (h.accounted.freed id (by omega)).1
    omega
  · by_contra hge
    have hsent := (h.accounted.fresh id (by omega)).1
    have hcount := h.accounted.count id
    rw [hsent, Nat.mul_zero] at hcount
    omega

/-- Where the readers decide right, an object passes the free check only when no reader
has to get it any more, none is freed before, and once all requests are handled every
object passes and the ring can be emptied. -/
theorem lifetime (hn : 0 < n) :
    ∀ s : System n, ReachableBy (fun s op => s.decidesRight op = true) s →
      (∀ id, s.storage.defaultIsFreeCheck id = .ok true → ∀ r, ¬s.ToGet r id) ∧
      (∀ r id, s.ToGet r id → s.Live id) ∧
      (s.AllHandled → (∀ id, s.Live id → s.storage.defaultIsFreeCheck id = .ok true) ∧
        ∃ storage, s.storage.freeUnused
            (s.storage.monotonicIdEnd - s.storage.monotonicIdStart) = .ok storage ∧
          storage.monotonicIdStart = storage.monotonicIdEnd) := by
  intro s hs
  have hinv := inv_of_reachable hn hs
  have hpos : 0 < s.storage.nReaders := by
    rw [hinv.nReaders]
    exact hn
  refine ⟨?_, fun r id hget => hinv.live hget, ?_⟩
  · intro id hfree r hget
    obtain ⟨hstart, hend⟩ := hinv.live hget
    have hzero := (hinv.accounted.of_free hpos hstart hend hfree).1
    have hsome := outstanding_pos hget
    omega
  · intro hhandled
    have haccounted := hinv.accounted.congr_out (outstanding_of_allHandled hhandled)
    rw [hhandled.1] at haccounted
    refine ⟨?_, ?_⟩
    · intro id hlive
      exact haccounted.free_of hlive.1 hlive.2 rfl rfl
    · apply haccounted.reclaim hpos
      have hle := haccounted.start_le
      omega

instance (s : System n) : Decidable s.AllHandled :=
  inferInstanceAs (Decidable (_ ∧ ∀ _ : Fin n, _ ∧ _ ∧ _))

instance (s : System n) (id : Nat) : Decidable (s.Live id) :=
  inferInstanceAs (Decidable (_ ∧ _))

instance (s : System n) (r : Fin n) (id : Nat) : Decidable (s.ToGet r id) :=
  inferInstanceAs (Decidable ((∃ f ∈ (s.readers r).toGet, f.ref = some id) ∨
    ∃ features ∈ s.sent.drop (s.readers r).started, ∃ f ∈ features, f.ref = some id))

def oneItem : List (Op 2) :=
  [.request [5], .touchSender, .touchSender, .merge ⟨0, true⟩, .send [⟨some 0, false⟩],
   .start 0, .touch 0, .get 0, .start 1, .touch 1, .get 1]

/-- After it the object passes the free check. -/
theorem lifetime_oneItem : ∃ s : System 2,
    ReachableBy (fun s op => s.decidesRight op = true) s ∧ s.Live 0 ∧
      s.storage.defaultIsFreeCheck 0 = .ok true := by
  obtain ⟨s, hrun, hs⟩ := okWith_iff.mp (by decide +kernel :
    okWith (runOps (checked (fun s op => s.decidesRight op = true) run) (init 2) oneItem)
      (fun s => decide (s.AllHandled ∧ s.Live 0)) = true)
  obtain ⟨hhandled, hlive⟩ := of_decide_eq_true hs
  have hstart : ReachableBy (fun s op => s.decidesRight op = true) (init 2) := .start rfl
  have hreach := hstart.runOps hrun
  exact ⟨s, hreach, hlive, ((lifetime (by decide) s hreach).2.2 hhandled).1 0 hlive⟩

/-- A request with a new item twice.  The first reader gets it twice, and the second takes
it for an old one when it touches it. -/
def newItemTwice : List (Op 2) :=
  [.request [5, 5], .touchSender, .touchSender, .touchSender, .merge ⟨0, true⟩,
   .merge ⟨0, true⟩, .send [⟨some 0, false⟩, ⟨some 0, false⟩],
   .start 0, .touch 0, .touch 0, .get 0, .get 0, .start 1, .touch 1, .touch 1]

/-- Two requests with an item.  The first reader touches it for the second request before
the other has got it for the first. -/
def readerAhead : List (Op 2) :=
  [.request [5], .touchSender, .touchSender, .merge ⟨0, true⟩, .send [⟨some 0, false⟩],
   .request [5], .touchSender, .touchSender, .merge ⟨0, true⟩, .send [⟨some 0, true⟩],
   .start 0, .touch 0, .get 0, .start 0, .touch 0, .start 1, .touch 1, .get 1, .get 0,
   .start 1, .touch 1, .get 1]

/-- An object passes the free check although a reader has still to get it, and an object
does not pass it although all readers have handled all requests. -/
theorem not_lifetime :
    (∃ s : System 2, ReachableBy (fun _ _ => True) s ∧
      s.storage.defaultIsFreeCheck 0 = .ok true ∧ s.ToGet 1 0) ∧
    ∃ s : System 2, ReachableBy (fun _ _ => True) s ∧ s.AllHandled ∧ s.Live 0 ∧
      s.storage.defaultIsFreeCheck 0 = .ok false := by
  have hstart : ReachableBy (fun _ _ => True) (init 2) := .start rfl
  constructor
  · obtain ⟨s, hrun, hs⟩ := okWith_iff.mp (by decide +kernel :
      okWith (runOps run (init 2) newItemTwice) (fun s =>
        okWith (s.storage.defaultIsFreeCheck 0) (fun free => free) &&
          decide (s.ToGet 1 0)) = true)
    rw [Bool.and_eq_true, decide_eq_true_eq] at hs
    obtain ⟨free, hcheck, hfree⟩ := okWith_iff.mp hs.1
    rw [hfree] at hcheck
    exact ⟨s, hstart.runOps_of_forall (fun _ _ _ => trivial) hrun, hcheck, hs.2⟩
  · obtain ⟨s, hrun, hs⟩ := okWith_iff.mp (by decide +kernel :
      okWith (runOps run (init 2) readerAhead) (fun s =>
        okWith (s.storage.defaultIsFreeCheck 0) (fun free => !free) &&
          decide (s.AllHandled ∧ s.Live 0)) = true)
    rw [Bool.and_eq_true, decide_eq_true_eq] at hs
    obtain ⟨free, hcheck, hfree⟩ := okWith_iff.mp hs.1
    rw [Bool.not_eq_true'] at hfree
    rw [hfree] at hcheck
    exact ⟨s, hstart.runOps_of_forall (fun _ _ _ => trivial) hrun, hs.2.1, hs.2.2, hcheck⟩

end System

end VllmCore.ShmObjectStorage
