import VllmCore.BlockHash.Content
import VllmCore.Support.PySlice
/-!
# Block hashes at another granularity

`BlockHashListWithBlockSize` joins consecutive digests when an entry is read.  It is
compared with the list of the joined entries: length, iteration, slices and single
entries.  A negative index counts from the end of the digests, not of the entries.
-/

namespace VllmCore

open List Nat Support

variable {D : Type}

namespace BlockHashListWithBlockSize

/-! ## Reading -/

/-- `__getitem__` with an index: `_get_value_at`, for any integer. -/
def getItem (l : BlockHashListWithBlockSize D) (idx : Int) : Py (BlockHash D) := do
  let base := idx * l.scaleFactor
  let stop := base + l.scaleFactor
  let mergedHash ← pyGet l.blockHashes base
  let rest ← (pyRange (base + 1) stop 1).mapM (pyGet l.blockHashes)
  pure (mergedHash :: rest)

/-- `__getitem__` with a slice. -/
def getSlice (l : BlockHashListWithBlockSize D) (s : PySlice) : Py (List (BlockHash D)) :=
  if s.stride = 0 then .error (.valueError "slice step cannot be zero")
  else (pyRange (s.first l.length) (s.bound l.length) s.stride).mapM l.getItem

/-- `__iter__`, read to the end. -/
def iter (l : BlockHashListWithBlockSize D) : Py (List (BlockHash D)) :=
  (List.range l.length).mapM fun i : Nat => l.getItem i

/-- The digests from position `j` on that one entry joins. -/
def digestsFrom (l : BlockHashListWithBlockSize D) (j : Nat) : BlockHash D :=
  (l.blockHashes.drop j).take l.scaleFactor

def values (l : BlockHashListWithBlockSize D) : List (BlockHash D) :=
  (List.range l.length).map fun i => l.digestsFrom (i * l.scaleFactor)

variable {l : BlockHashListWithBlockSize D}

variable {i j k m : Nat} {idx : Int}

theorem getItem_eq (hscale : 0 < l.scaleFactor) (idx : Int) :
    l.getItem idx = ((List.range l.scaleFactor).map fun k : Nat => idx * l.scaleFactor + k).mapM
      (pyGet l.blockHashes) := by
  obtain ⟨n, hn⟩ : ∃ n, l.scaleFactor = n + 1 := ⟨l.scaleFactor - 1, by omega⟩
  have hrange : pyRange (idx * l.scaleFactor + 1) (idx * l.scaleFactor + l.scaleFactor) 1 =
      (List.range n).map fun k : Nat => idx * l.scaleFactor + (k + 1 : Nat) := by
    unfold pyRange
    rw [rangeLength_one]
    have hlen : (idx * (l.scaleFactor : Int) + l.scaleFactor -
        (idx * l.scaleFactor + 1)).toNat = n := by
      omega
    rw [hlen]
    apply map_congr_left
    intro k _
    omega
  have hsplit : ∀ f : Nat → Int, (List.range l.scaleFactor).map f =
      f 0 :: (List.range n).map fun k => f (k + 1) := by
    intro f
    rw [hn, range_succ_eq_map, map_cons, map_map]
    rfl
  rw [hsplit, mapM_cons]
  unfold getItem
  dsimp only
  rw [hrange, cast_zero, add_zero]

section

variable (hscale : 0 < l.scaleFactor)

include hscale

end

/-! ## The whole list -/

end BlockHashListWithBlockSize

variable {hashBlockSize : Nat} {fns : HashFns D} {r : Request D}

theorem hashLink_inj (hfns : CollisionFree fns) {parent parent' : D}
    {x x' : List Token × Option (List ExtraKey)}
    (h : hashLink fns parent x = hashLink fns parent' x') : parent = parent' ∧ x = x' := by
  have hinput := hfns.injective h
  simp only [Prod.mk.injEq] at hinput
  exact ⟨hinput.1, Prod.ext hinput.2.1 hinput.2.2⟩

theorem HashesCurrent.nodup (hfns : CollisionFree fns)
    (hr : HashesCurrent fns hashBlockSize r) : r.blockHashes.Nodup := by
  rw [hr.hashes]
  rw [nodup_iff_getElem?_ne_getElem?]
  intro i j hij hj heq
  have hjth := getElem?_eq_getElem hj
  have hsame := (chain_inj (fun _ _ _ _ => hashLink_inj hfns) (fun _ _ => hfns.ne_noneHash _)
    (heq.trans hjth) hjth).1
  omega

namespace BlockHashListWithBlockSize

end BlockHashListWithBlockSize

end VllmCore
