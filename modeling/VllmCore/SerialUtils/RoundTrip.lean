import VllmCore.SerialUtils
/-!
# Decoding what was encoded

Every value the encoder builds is read back, up to tuples that became lists: what
decides is that the encoding of a nested tensor is never a string, so that only the
encoding of a tensor starts with one, and that the slices of a list are encoded as
arrays, so that only the encoding of a slice starts with something else.  The
buffers a value stashes are the bytes of its large tensors, in the order of the
traversal.
-/

namespace VllmCore.SerialUtils

open List VllmCore.Support

variable {F W : Type} {T : Torch}

/-! ## What is left of a value -/

mutual

def NestedTensors.toLists : NestedTensors F T → NestedTensors F T
  | .tensor t => .tensor t
  | .bool b => .bool b
  | .int n => .int n
  | .float x => .float x
  | .seq _ xs => .seq .list (NestedTensors.allToLists xs)

def NestedTensors.allToLists : List (NestedTensors F T) → List (NestedTensors F T)
  | [] => []
  | x :: xs => x.toLists :: NestedTensors.allToLists xs

end

mutual

def NestedSlices.toLists : NestedSlices → NestedSlices
  | .slice s => .slice s
  | .seq _ xs => .seq .list (NestedSlices.allToLists xs)

def NestedSlices.allToLists : List NestedSlices → List NestedSlices
  | [] => []
  | x :: xs => x.toLists :: NestedSlices.allToLists xs

end

def MultiModalField.toLists : MultiModalField → MultiModalField
  | .flat keepOnCpu slices dim => .flat keepOnCpu slices.toLists dim
  | field => field

def MultiModalFieldElem.toLists (elem : MultiModalFieldElem F T) : MultiModalFieldElem F T :=
  ⟨elem.data.map NestedTensors.toLists, elem.field.toLists⟩

mutual

def NestedTensors.tensors : NestedTensors F T → List (Tensor T)
  | .tensor t => [t]
  | .bool _ | .int _ | .float _ => []
  | .seq _ xs => NestedTensors.allTensors xs

def NestedTensors.allTensors : List (NestedTensors F T) → List (Tensor T)
  | [] => []
  | x :: xs => x.tensors ++ NestedTensors.allTensors xs

end

def MultiModalFieldElem.tensors (elem : MultiModalFieldElem F T) : List (Tensor T) :=
  match elem.data with
  | none => []
  | some data => data.tensors

/-- The bytes of the tensors that are not sent inline, each as a buffer of its own. -/
def auxBuffers (sizeThreshold : Int) (ts : List (Tensor T)) : List (Frame W) :=
  (ts.filter fun t => ¬ (t.nbytes : Int) < sizeThreshold).map fun t => .raw t.data

theorem auxBuffers_append (sizeThreshold : Int) (ts us : List (Tensor T)) :
    (auxBuffers sizeThreshold (ts ++ us) : List (Frame W)) =
      auxBuffers sizeThreshold ts ++ auxBuffers sizeThreshold us := by
  unfold auxBuffers
  rw [filter_append, map_append]

def shapeMsg (shape : List Nat) : Msg F := .array (shape.map fun n : Nat => .int n)

theorem toMsgs_shape (shape : List Nat) :
    Obj.toMsgs (shape.map fun n : Nat => (.int n : Obj F)) = shape.map fun n : Nat => .int n := by
  induction shape with
  | nil => rfl
  | cons n shape ih => rw [map_cons, Obj.toMsgs, ih, map_cons, Obj.toMsg]

theorem decodeShape_shapeMsg (shape : List Nat) :
    decodeShape (shapeMsg shape : Msg F) = .ok shape := by
  simp only [shapeMsg, decodeShape]
  induction shape with
  | nil => rfl
  | cons n shape ih =>
    simp only [map_cons, mapM_cons]
    rw [ih]
    rfl

theorem tensorOfBuffer_data (t : Tensor T) : tensorOfBuffer t.dtype t.shape t.data = .ok t := by
  obtain ⟨dtype, shape, data, itemsize, known, hlen⟩ := t
  unfold tensorOfBuffer
  split
  next h => rw [known] at h; cases h
  next n h =>
    have hn : itemsize = n := by
      rw [known] at h
      exact Option.some.inj h
    subst hn
    split_ifs with hempty hzero
    · have hnil : data = [] := eq_nil_of_length_eq_zero hempty
      subst hnil
      rfl
    · -- a tensor without bytes has a dimension of size zero
      have hpos := T.itemsize_pos _ _ known
      have hprod : itemsize * shape.prod = 0 := by
        rw [← hlen]
        exact hempty
      rcases Nat.mul_eq_zero.mp hprod with h0 | h0
      · omega
      · exact absurd (prod_eq_zero_iff.mp h0) hzero
    · rfl

theorem encodeTensor_roundTrips (sizeThreshold : Int) (t : Tensor T) :
    ∀ aux : List (Frame W), 0 < aux.length →
      ((encodeTensor sizeThreshold t : Stash W (Obj F)).run aux).2 =
        aux ++ auxBuffers sizeThreshold [t] ∧
      ∃ ms, ((encodeTensor sizeThreshold t : Stash W (Obj F)).run aux).1.toMsg =
          .array (.str t.dtype :: ms) ∧
        ∀ bufs, Stored (aux ++ auxBuffers sizeThreshold [t]) bufs →
          decodeTensor bufs (Msg.str t.dtype :: ms : List (Msg F)) = .ok t := by
  intro aux hpos
  by_cases hsmall : (t.nbytes : Int) < sizeThreshold
  · have hrun : (encodeTensor sizeThreshold t : Stash W (Obj F)).run aux =
        (.seq .tuple [.str t.dtype, .seq .tuple (t.shape.map fun n : Nat => .int n),
          .ext customTypeRawView t.data], aux) := by
      unfold encodeTensor
      rw [if_pos hsmall]
      rfl
    have hbuffers : (auxBuffers sizeThreshold [t] : List (Frame W)) = [] := by
      simp [auxBuffers, hsmall]
    rw [hrun, hbuffers, append_nil]
    refine ⟨rfl, [shapeMsg t.shape, .ext customTypeRawView t.data], ?_, ?_⟩
    · simp only [Obj.toMsg, Obj.toMsgs, toMsgs_shape, shapeMsg]
    · intro bufs _
      simp only [decodeTensor, extHook, if_pos, ok_bind, decodeShape_shapeMsg]
      exact tensorOfBuffer_data t
  · have hrun : (encodeTensor sizeThreshold t : Stash W (Obj F)).run aux =
        (.seq .tuple [.str t.dtype, .seq .tuple (t.shape.map fun n : Nat => .int n),
          .int aux.length], aux ++ [.raw t.data]) := by
      unfold encodeTensor
      rw [if_neg hsmall]
      rfl
    have hbuffers : (auxBuffers sizeThreshold [t] : List (Frame W)) = [.raw t.data] := by
      unfold auxBuffers
      rw [filter_cons_of_pos (by simpa using hsmall)]
      rfl
    rw [hrun, hbuffers]
    refine ⟨rfl, [shapeMsg t.shape, .int aux.length], ?_, ?_⟩
    · simp only [Obj.toMsg, Obj.toMsgs, toMsgs_shape, shapeMsg]
    · intro bufs hbufs
      have hget : pyGet bufs (aux.length : Int) = .ok (.raw t.data) :=
        pyGet_natCast_ok.mpr (hbufs.get hpos)
      have hpure : (pure t.data : Py (List UInt8)) = .ok t.data := rfl
      simp only [decodeTensor, hget, hpure, ok_bind, decodeShape_shapeMsg]
      exact tensorOfBuffer_data t

/-! ## Nested tensors -/

/-- Neither a string nor `None`. -/
def Msg.isValue : Msg F → Bool
  | .str _ | .nil => false
  | _ => true

theorem isValue_encodeNestedTensors (sizeThreshold : Int) (nt : NestedTensors F T)
    (aux : List (Frame W)) :
    Msg.isValue ((encodeNestedTensors sizeThreshold nt).run aux).1.toMsg = true := by
  cases nt with
  | tensor t =>
    simp only [encodeNestedTensors]
    unfold encodeTensor
    split <;> rfl
  | bool b => rfl
  | int n => rfl
  | float x => rfl
  | seq kind xs => rfl

theorem decodeNestedTensors_array (bufs : List (Frame W)) {xs : List (Msg F)}
    (h : ∀ x, xs.head? = some x → Msg.isValue x = true) :
    (decodeNestedTensors bufs (.array xs) : Py (NestedTensors F T)) = do
      return .seq .list (← decodeNestedTensorsList bufs xs) := by
  simp only [decodeNestedTensors]
  split
  next heq => simpa [Msg.isValue] using h _ heq
  next => rfl

mutual

theorem encodeNestedTensors_roundTrips (sizeThreshold : Int) (nt : NestedTensors F T) :
    RoundTrips Obj.toMsg (encodeNestedTensors sizeThreshold nt : Stash W (Obj F))
      decodeNestedTensors nt.toLists (auxBuffers sizeThreshold nt.tensors) := by
  intro aux hpos
  cases nt with
  | tensor t =>
    obtain ⟨hadded, ms, hmsg, hread⟩ := encodeTensor_roundTrips (F := F) sizeThreshold t aux hpos
    simp only [encodeNestedTensors, NestedTensors.tensors]
    refine ⟨hadded, ?_⟩
    intro bufs hbufs
    rw [hmsg]
    simp only [decodeNestedTensors, head?_cons, hread bufs hbufs, ok_bind]
    rfl
  | bool b => exact ⟨(append_nil aux).symm, fun _ _ => rfl⟩
  | int n => exact ⟨(append_nil aux).symm, fun _ _ => rfl⟩
  | float x => exact ⟨(append_nil aux).symm, fun _ _ => rfl⟩
  | seq kind xs =>
    obtain ⟨hadded, hhead, hread⟩ := encodeNestedTensorsList_roundTrips sizeThreshold xs aux hpos
    simp only [encodeNestedTensors, NestedTensors.tensors, Stash.run_bind, Stash.run_pure]
    refine ⟨hadded, ?_⟩
    intro bufs hbufs
    rw [Obj.toMsg, decodeNestedTensors_array bufs hhead, hread bufs hbufs]
    rfl

theorem encodeNestedTensorsList_roundTrips (sizeThreshold : Int)
    (xs : List (NestedTensors F T)) : ∀ aux : List (Frame W), 0 < aux.length →
      ((encodeNestedTensorsList sizeThreshold xs : Stash W (List (Obj F))).run aux).2 =
        aux ++ auxBuffers sizeThreshold (NestedTensors.allTensors xs) ∧
      (∀ x, (Obj.toMsgs ((encodeNestedTensorsList sizeThreshold xs).run aux).1).head? = some x →
        Msg.isValue x = true) ∧
      ∀ bufs, Stored (aux ++ auxBuffers sizeThreshold (NestedTensors.allTensors xs)) bufs →
        (decodeNestedTensorsList bufs
          (Obj.toMsgs ((encodeNestedTensorsList sizeThreshold xs).run aux).1) :
            Py (List (NestedTensors F T))) = .ok (NestedTensors.allToLists xs) := by
  intro aux hpos
  cases xs with
  | nil =>
    refine ⟨(append_nil aux).symm, ?_, fun _ _ => rfl⟩
    intro x hx
    cases hx
  | cons x xs =>
    obtain ⟨hadded, hread⟩ := encodeNestedTensors_roundTrips sizeThreshold x aux hpos
    have hpos' : 0 < (aux ++ auxBuffers sizeThreshold x.tensors : List (Frame W)).length := by
      rw [length_append]
      omega
    obtain ⟨hadded', -, hread'⟩ := encodeNestedTensorsList_roundTrips sizeThreshold xs _ hpos'
    simp only [encodeNestedTensorsList, Stash.run_bind, Stash.run_pure, hadded,
      NestedTensors.allTensors, auxBuffers_append]
    rw [← append_assoc]
    refine ⟨hadded', ?_, ?_⟩
    · intro y hy
      rw [Obj.toMsgs, head?_cons, Option.some.injEq] at hy
      rw [← hy]
      exact isValue_encodeNestedTensors sizeThreshold x aux
    · intro bufs hbufs
      simp only [Obj.toMsgs, decodeNestedTensorsList]
      rw [hread bufs hbufs.of_append, ok_bind, hread' bufs hbufs]
      rfl

end

/-! ## Slices and fields -/

def Msg.isArray : Msg F → Bool
  | .array _ => true
  | _ => false

theorem isArray_toObj (x : NestedSlices) : Msg.isArray (x.toObj : Obj F).toMsg = true := by
  cases x <;> rfl

theorem decodeSliceValue_sliceValue (v : Option Int) :
    decodeSliceValue (sliceValue v : Msg F) = .ok v := by
  cases v <;> rfl

theorem decodeNestedSlices_array {xs : List (Msg F)}
    (h : ∀ x, xs.head? = some x → Msg.isArray x = true) :
    decodeNestedSlices (.array xs) = do
      return .seq .list (← decodeNestedSlicesList xs) := by
  simp only [decodeNestedSlices]
  split
  next => rfl
  next => rfl
  next x hnot heq =>
    have harray := h x heq
    cases x <;> simp [Msg.isArray] at harray
    exact absurd rfl (hnot _)

theorem decodeNestedSlices_slice (s : Slice) :
    decodeNestedSlices (Obj.slice s : Obj F).toMsg = .ok (.slice s) := by
  obtain ⟨start, stop, step⟩ := s
  have hargs : decodeSliceArgs ([sliceValue start, sliceValue stop, sliceValue step] :
      List (Msg F)) = .ok [start, stop, step] := by
    simp only [decodeSliceArgs, mapM_cons, mapM_nil, decodeSliceValue_sliceValue]
    rfl
  simp only [Obj.toMsg, decodeNestedSlices, head?_cons]
  rw [hargs]
  cases start <;> rfl

mutual

theorem decodeNestedSlices_toObj (x : NestedSlices) :
    decodeNestedSlices (x.toObj : Obj F).toMsg = .ok x.toLists := by
  cases x with
  | slice s => exact decodeNestedSlices_slice s
  | seq kind xs =>
    obtain ⟨hhead, hread⟩ := decodeNestedSlicesList_toObjs xs
    rw [NestedSlices.toObj, Obj.toMsg, decodeNestedSlices_array hhead, hread]
    rfl

theorem decodeNestedSlicesList_toObjs (xs : List NestedSlices) :
    (∀ x, (Obj.toMsgs (NestedSlices.toObjs xs : List (Obj F))).head? = some x →
      Msg.isArray x = true) ∧
    decodeNestedSlicesList (Obj.toMsgs (NestedSlices.toObjs xs : List (Obj F))) =
      .ok (NestedSlices.allToLists xs) := by
  cases xs with
  | nil =>
    refine ⟨?_, rfl⟩
    intro x hx
    cases hx
  | cons x xs =>
    simp only [NestedSlices.toObjs, Obj.toMsgs, head?_cons, decodeNestedSlicesList]
    constructor
    · intro y hy
      rw [← Option.some.inj hy]
      exact isArray_toObj x
    · rw [decodeNestedSlices_toObj x, ok_bind, (decodeNestedSlicesList_toObjs xs).2]
      rfl

end

end VllmCore.SerialUtils
