import Mathlib.Tactic.IntervalCases
/-!
# Compressed-tensors weights in the AWQ layout

Compressed tensors pack eight 4-bit values of one column in a 32-bit word, AWQ packs eight
of one row in an interleaved order.  A tensor is a function of its three indices; a packed
axis has an eighth of the length of the unpacked one.
-/

namespace VllmCore.Quantization

abbrev Tensor (α : Type) := Nat → Nat → Nat → α

/-! ## The conversion -/

/-- One iteration of the unpacking loop: `unpacked[:, i::8, :] = tmp & 0xF; tmp >> 4`. -/
def unpackStep (st : Tensor (BitVec 8) × Tensor (BitVec 32)) (i : Nat) :
    Tensor (BitVec 8) × Tensor (BitVec 32) :=
  (fun e x y => if x % 8 = i then (st.2 e (x / 8) y &&& 0xF#32).setWidth 8 else st.1 e x y,
    fun e x y => (st.2 e x y).sshiftRight 4)

def unpacked (ctPacked : Tensor (BitVec 32)) : Tensor (BitVec 8) :=
  ((List.range 8).foldl unpackStep (fun _ _ _ => 0#8, ctPacked)).1

/-- `awq_pack_order`, the inverse of the order of unpacking. -/
def awqPackOrder (i : Nat) : Nat := [0, 2, 4, 6, 1, 3, 5, 7].getD i 0

/-- `grouped[:, :, :, awq_pack_order[i]].to(torch.int32)`, one element of it. -/
def grouped (ctPacked : Tensor (BitVec 32)) (e x c i : Nat) : BitVec 32 :=
  (unpacked ctPacked e x (8 * c + awqPackOrder i)).setWidth 32

variable {S F : Type}

variable {word r n : BitVec 32} {i k : Nat} {v : BitVec 4} {ct : Tensor (BitVec 32)} {e x y : Nat}

end VllmCore.Quantization
