import VllmCore.Support.Py
/-!
# Integers and frames in a byte buffer

Integers as big-endian and as signed little-endian bytes, stores to a slice of a buffer of
fixed length, and frames: a list of byte strings, each preceded by its length.
-/

namespace VllmCore.Support

open List

/-! ## Big-endian integers -/

/-- The last `size` digits of `value` to the base 256, the highest first. -/
def bigEndian (value : Nat) : Nat → List UInt8
  | 0 => []
  | size + 1 => bigEndian (value / 256) size ++ [UInt8.ofNat (value % 256)]

/-- `value.to_bytes(size, byteorder="big")`. -/
def toBytesBig (value size : Nat) : Py (List UInt8) :=
  if value < 256 ^ size then .ok (bigEndian value size)
  else .error (.overflowError "int too big to convert")

/-- `int.from_bytes(bs, byteorder="big")`. -/
def fromBytesBig (bs : List UInt8) : Nat := bs.foldl (fun acc b => acc * 256 + b.toNat) 0

@[simp] theorem length_bigEndian (value size : Nat) : (bigEndian value size).length = size := by
  induction size generalizing value with
  | zero => rfl
  | succ size ih => rw [bigEndian, length_append, ih, length_singleton]

theorem fromBytesBig_append_singleton (bs : List UInt8) (b : UInt8) :
    fromBytesBig (bs ++ [b]) = fromBytesBig bs * 256 + b.toNat := by
  unfold fromBytesBig
  rw [foldl_append]
  rfl

variable {size value start stop : Nat} {bs buf buf' : List UInt8}

theorem fromBytesBig_bigEndian (h : value < 256 ^ size) :
    fromBytesBig (bigEndian value size) = value := by
  induction size generalizing value with
  | zero =>
    obtain rfl : value = 0 := by omega
    rfl
  | succ size ih =>
    have hdiv : value / 256 < 256 ^ size := by
      rw [Nat.div_lt_iff_lt_mul (by omega), ← pow_succ]
      exact h
    rw [bigEndian, fromBytesBig_append_singleton, ih hdiv]
    have hmod : (UInt8.ofNat (value % 256)).toNat = value % 256 := by simp
    omega

theorem toBytesBig_ok :
    toBytesBig value size = .ok bs ↔ value < 256 ^ size ∧ bigEndian value size = bs := by
  unfold toBytesBig
  split
  · simp_all
  · simp_all

/-! ## Stores to a buffer -/

/-- `buf[start:stop]`. -/
def slice (buf : List UInt8) (start stop : Nat) : List UInt8 := (buf.drop start).take (stop - start)

inductive Store
  | byte (i : Nat) (b : UInt8)
  | slice (start stop : Nat) (bs : List UInt8)
  deriving DecidableEq

/-- `buf[i] = b`, or `buf[start:stop] = bs`: a slice keeps its length. -/
def Store.run (buf : List UInt8) : Store → Py (List UInt8)
  | .byte i b =>
    if i < buf.length then .ok (buf.set i b)
    else .error (.indexError "index out of bounds on dimension 1")
  | .slice start stop bs =>
    if (Support.slice buf start stop).length = bs.length then
      .ok (buf.take start ++ bs ++ buf.drop (start + bs.length))
    else .error (.valueError "memoryview assignment: lvalue and rvalue have different structures")

/-- Run assignments whose right-hand sides may raise. -/
def runStores : List UInt8 → List (Py Store) → Py (List UInt8)
  | buf, [] => return buf
  | buf, store :: stores => do
    let store ← store
    let buf ← store.run buf
    runStores buf stores

theorem runStores_cons (buf : List UInt8) (store : Py Store) (stores : List (Py Store)) :
    runStores buf (store :: stores) =
      store >>= fun store => store.run buf >>= fun buf => runStores buf stores := rfl

theorem Store.length_run {store : Store} (h : store.run buf = .ok buf') :
    buf'.length = buf.length := by
  cases store with
  | byte i b =>
    dsimp only [Store.run] at h
    split at h
    · cases h
      exact length_set
    · cases h
  | slice start stop bs =>
    dsimp only [Store.run] at h
    split at h
    next hlength =>
      cases h
      unfold Support.slice at hlength
      rw [length_take, length_drop] at hlength
      rw [length_append, length_append, length_take, length_drop]
      omega
    · cases h

theorem runStores_append (buf : List UInt8) (xs ys : List (Py Store)) :
    runStores buf (xs ++ ys) = runStores buf xs >>= fun buf => runStores buf ys := by
  induction xs generalizing buf with
  | nil => rfl
  | cons store xs ih =>
    rw [cons_append, runStores_cons, runStores_cons]
    simp only [ih, bind_assoc]

theorem Store.run_slice {buf bs : List UInt8} {start stop : Nat} (hstop : stop = start + bs.length)
    (h : stop ≤ buf.length) :
    (Store.slice start stop bs).run buf =
      .ok (buf.take start ++ bs ++ buf.drop (start + bs.length)) := by
  dsimp only [Store.run]
  rw [if_pos]
  unfold Support.slice
  rw [length_take, length_drop]
  omega

theorem getElem?_slice (buf : List UInt8) (start stop i : Nat) :
    (slice buf start stop)[i]? = if i < stop - start then buf[start + i]? else none := by
  unfold slice
  rw [getElem?_take, getElem?_drop]

theorem Store.getElem?_run (hstop : stop = start + bs.length) (hroom : stop ≤ buf.length)
    (h : (Store.slice start stop bs).run buf = .ok buf') (i : Nat) :
    buf'[i]? = if start ≤ i ∧ i < stop then bs[i - start]? else buf[i]? := by
  rw [Store.run_slice hstop hroom] at h
  obtain rfl := Except.ok.inj h
  have hfirst : (buf.take start).length = start := by
    rw [length_take]
    omega
  rw [append_assoc, getElem?_append, hfirst]
  by_cases hbefore : i < start
  · rw [if_pos hbefore, if_neg (by omega), getElem?_take, if_pos hbefore]
  · rw [if_neg hbefore, getElem?_append]
    by_cases hin : i - start < bs.length
    · rw [if_pos hin, if_pos (by omega)]
    · rw [if_neg hin, if_neg (by omega), getElem?_drop]
      congr 1
      omega

theorem Store.slice_run_self (hstop : stop = start + bs.length) (hroom : stop ≤ buf.length)
    (h : (Store.slice start stop bs).run buf = .ok buf') : Support.slice buf' start stop = bs := by
  apply ext_getElem?
  intro i
  rw [getElem?_slice, Store.getElem?_run hstop hroom h]
  by_cases hi : i < stop - start
  · rw [if_pos hi, if_pos (by omega), Nat.add_sub_cancel_left]
  · rw [if_neg hi, getElem?_eq_none (by omega)]

theorem Store.slice_run_of_disjoint {a b : Nat} (hstop : stop = start + bs.length)
    (hroom : stop ≤ buf.length) (h : (Store.slice start stop bs).run buf = .ok buf')
    (hapart : b ≤ start ∨ stop ≤ a) : Support.slice buf' a b = Support.slice buf a b := by
  apply ext_getElem?
  intro i
  rw [getElem?_slice, getElem?_slice, Store.getElem?_run hstop hroom h]
  by_cases hi : i < b - a
  · rw [if_pos hi, if_pos hi, if_neg (by omega)]
  · rw [if_neg hi, if_neg hi]

/-! ## Little-endian integers -/

/-- The last `size` digits of `value` to the base 256, the lowest first. -/
def littleEndian (value size : Nat) : List UInt8 := (bigEndian value size).reverse

/-- `int.from_bytes(bs, byteorder="little", signed=True)`. -/
def fromBytesLittleSigned (bs : List UInt8) : Int :=
  let n := fromBytesBig bs.reverse
  if 256 ^ bs.length ≤ 2 * n then (n : Int) - 256 ^ bs.length else n

@[simp] theorem length_littleEndian (value size : Nat) :
    (littleEndian value size).length = size := by
  unfold littleEndian
  rw [length_reverse, length_bigEndian]

theorem fromBytesLittleSigned_littleEndian (h : 2 * value < 256 ^ size) :
    fromBytesLittleSigned (littleEndian value size) = value := by
  unfold fromBytesLittleSigned
  rw [length_littleEndian]
  unfold littleEndian
  rw [reverse_reverse, fromBytesBig_bigEndian (by omega)]
  exact if_neg (by omega)

/-! ## Frames -/

/-- A byte string with its length before it. -/
def frame (bs : List UInt8) : List UInt8 := bigEndian bs.length 4 ++ bs

def framesLength (bufs : List (List UInt8)) : Nat := (bufs.map fun bs => 4 + bs.length).sum

/-- The assignments that write frames from `offset` on. -/
def frameStores : Nat → List (List UInt8) → List (Py Store)
  | _, [] => []
  | offset, bs :: bufs =>
    let start := offset + 4
    let stop := start + bs.length
    (do return .slice offset start (← toBytesBig bs.length 4)) :: .ok (.slice start stop bs) ::
      frameStores stop bufs

/-- The frames from `offset` on, `count` of them. -/
def readFrames (buf : List UInt8) : Nat → Nat → List (List UInt8)
  | _, 0 => []
  | offset, count + 1 =>
    let start := offset + 4
    let stop := start + fromBytesBig (slice buf offset start)
    slice buf start stop :: readFrames buf stop count

@[simp] theorem length_frame (bs : List UInt8) : (frame bs).length = 4 + bs.length := by
  unfold frame
  rw [length_append, length_bigEndian]

theorem slice_append (xs ys zs : List UInt8) :
    slice (xs ++ ys ++ zs) xs.length (xs.length + ys.length) = ys := by
  unfold slice
  rw [append_assoc, drop_left, Nat.add_sub_cancel_left, take_left]

variable {offset : Nat} {bufs : List (List UInt8)}

theorem run_frame {buf₁ buf₂ size : List UInt8}
    (hroom : offset + (4 + bs.length) ≤ buf.length) (hsize : toBytesBig bs.length 4 = .ok size)
    (h₁ : (Store.slice offset (offset + 4) size).run buf = .ok buf₁)
    (h₂ : (Store.slice (offset + 4) (offset + 4 + bs.length) bs).run buf₁ = .ok buf₂) :
    buf₂ = buf.take offset ++ frame bs ++ buf.drop (offset + (4 + bs.length)) ∧
      bs.length < 256 ^ 4 := by
  obtain ⟨hfits, rfl⟩ := toBytesBig_ok.mp hsize
  have hlength := Store.length_run h₁
  rw [Store.run_slice (by rw [length_bigEndian]) (by omega), length_bigEndian] at h₁
  rw [Store.run_slice rfl (by omega)] at h₂
  obtain rfl := Except.ok.inj h₁
  obtain rfl := Except.ok.inj h₂
  refine ⟨?_, hfits⟩
  have hprefix : (buf.take offset ++ bigEndian bs.length 4).length = offset + 4 := by
    rw [length_append, length_take, length_bigEndian]
    omega
  rw [← hprefix, take_left, ← drop_drop, drop_left, drop_drop, frame]
  rw [append_assoc (buf.take offset), hprefix, add_assoc]

theorem runStores_frames (hroom : offset + framesLength bufs ≤ buf.length)
    (h : runStores buf (frameStores offset bufs) = .ok buf') :
    buf' = buf.take offset ++ bufs.flatMap frame ++ buf.drop (offset + framesLength bufs) ∧
      ∀ bs ∈ bufs, bs.length < 256 ^ 4 := by
  induction bufs generalizing buf offset with
  | nil =>
    cases h
    refine ⟨?_, nofun⟩
    rw [flatMap_nil, append_nil]
    exact (take_append_drop offset buf').symm
  | cons bs bufs ih =>
    have htotal : framesLength (bs :: bufs) = 4 + bs.length + framesLength bufs := rfl
    rw [htotal] at hroom ⊢
    simp only [frameStores, runStores_cons, bind_ok, pure_ok] at h
    obtain ⟨_, ⟨size, hsize, rfl⟩, buf₁, h₁, _, hstore, buf₂, h₂, h⟩ := h
    cases hstore
    obtain ⟨hbuf, hfits⟩ := run_frame (by omega) hsize h₁ h₂
    have hlength := (Store.length_run h₂).trans (Store.length_run h₁)
    obtain ⟨hbuf', hall⟩ := ih (by omega) h
    refine ⟨?_, ?_⟩
    · have hprefix : (buf.take offset ++ frame bs).length = offset + 4 + bs.length := by
        rw [length_append, length_take, length_frame]
        omega
      rw [hbuf', hbuf, ← hprefix, take_left, ← drop_drop, drop_left,
        drop_drop, flatMap_cons, append_assoc (buf.take offset), add_assoc offset]
    · intro b hb
      rcases mem_cons.mp hb with rfl | hb
      · exact hfits
      · exact hall b hb

theorem runStores_frames_ok {bufs : List (List UInt8)} (h : ∀ bs ∈ bufs, bs.length < 256 ^ 4)
    {buf : List UInt8} {offset : Nat} (hroom : offset + framesLength bufs ≤ buf.length) :
    ∃ buf', runStores buf (frameStores offset bufs) = .ok buf' := by
  induction bufs generalizing buf offset with
  | nil => exact ⟨buf, rfl⟩
  | cons bs bufs ih =>
    have htotal : framesLength (bs :: bufs) = 4 + bs.length + framesLength bufs := rfl
    have hsize := toBytesBig_ok.mpr ⟨h bs mem_cons_self, rfl⟩
    have h₁ := @Store.run_slice buf (bigEndian bs.length 4) offset (offset + 4)
      (by rw [length_bigEndian]) (by omega)
    have hlength₁ := Store.length_run h₁
    have h₂ := @Store.run_slice _ bs (offset + 4) _ rfl (by rw [hlength₁]; omega)
    have hlength₂ := (Store.length_run h₂).trans hlength₁
    obtain ⟨buf', hrest⟩ := @ih (fun b hb => h b (mem_cons_of_mem _ hb)) _
      (offset + 4 + bs.length) (by rw [hlength₂]; omega)
    refine ⟨buf', ?_⟩
    rw [frameStores, runStores_cons, hsize]
    simp only [ok_bind, pure, Except.pure]
    rw [h₁, ok_bind, runStores_cons, ok_bind, h₂, ok_bind]
    exact hrest

theorem readFrames_append (h : ∀ bs ∈ bufs, bs.length < 256 ^ 4) (before after : List UInt8) :
    readFrames (before ++ bufs.flatMap frame ++ after) before.length bufs.length = bufs := by
  induction bufs generalizing before with
  | nil => rfl
  | cons bs bufs ih =>
    have hsize : slice (before ++ (bs :: bufs).flatMap frame ++ after) before.length
        (before.length + 4) = bigEndian bs.length 4 := by
      have hsplit := slice_append before (bigEndian bs.length 4)
        (bs ++ bufs.flatMap frame ++ after)
      rw [length_bigEndian] at hsplit
      rw [← hsplit, flatMap_cons, frame]
      simp only [append_assoc]
    have hbody : slice (before ++ (bs :: bufs).flatMap frame ++ after) (before.length + 4)
        (before.length + 4 + bs.length) = bs := by
      have hsplit := slice_append (before ++ bigEndian bs.length 4) bs
        (bufs.flatMap frame ++ after)
      rw [length_append, length_bigEndian] at hsplit
      rw [flatMap_cons, frame]
      simpa only [append_assoc] using hsplit
    have hfits := h bs mem_cons_self
    have hrest := ih (fun b hb => h b (mem_cons_of_mem _ hb)) (before ++ frame bs)
    rw [length_append, length_frame, ← add_assoc] at hrest
    rw [length_cons, readFrames, hsize, fromBytesBig_bigEndian hfits, hbody, flatMap_cons,
      ← append_assoc before,
      hrest]

end VllmCore.Support
