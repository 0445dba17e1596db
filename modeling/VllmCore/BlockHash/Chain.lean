import VllmCore.BlockHash
/-!
# Hash chains

The hashes of a request form a chain: each is the hash of a block whose parent is
the hash before it, and the parent of the first is the seed.  If the hash
function has no collisions and never returns the seed, the hashes of a chain
are pairwise distinct.
-/

namespace VllmCore

open List Support

variable {D : Type}

/-- The block hash function is injective and does not return the seed. -/
structure CollisionFree (fns : HashFns D) : Prop where
  injective : Function.Injective fns.hashFunction
  ne_noneHash : ∀ x, fns.hashFunction x ≠ fns.noneHash

/-- Each digest is the hash of a block whose parent hash is the one before it. -/
def IsHashChain (fns : HashFns D) : D → List D → Prop
  | _, [] => True
  | parent, h :: hs =>
    (∃ tokens keys, h = fns.hashFunction (parent, tokens, keys)) ∧ IsHashChain fns h hs

def HashChain (fns : HashFns D) (r : Request D) : Prop :=
  IsHashChain fns fns.noneHash r.blockHashes

namespace IsHashChain

variable {fns : HashFns D}
variable {parent : D} {hs : List D}

theorem append {hs' : List D} (h : IsHashChain fns parent hs)
    (h' : IsHashChain fns (hs.getLast?.getD parent) hs') :
    IsHashChain fns parent (hs ++ hs') := by
  induction hs generalizing parent with
  | nil => simpa using h'
  | cons x xs ih =>
    refine ⟨h.1, ih h.2 ?_⟩
    rw [getLast?_cons] at h'
    simpa using h'

theorem getElem?_succ (h : IsHashChain fns parent hs) :
    ∀ {i : Nat} {x : D}, (parent :: hs)[i + 1]? = some x →
      ∃ y tokens keys, (parent :: hs)[i]? = some y ∧
        x = fns.hashFunction (y, tokens, keys) := by
  induction hs generalizing parent with
  | nil => intro i x hx; simp at hx
  | cons z zs ih =>
    intro i x hx
    cases i with
    | zero =>
      simp only [getElem?_cons_succ, getElem?_cons_zero,
        Option.some.injEq] at hx
      subst hx
      obtain ⟨tokens, keys, hz⟩ := h.1
      exact ⟨parent, tokens, keys, rfl, hz⟩
    | succ i =>
      obtain ⟨y, tokens, keys, hy, heq⟩ := ih h.2 hx
      exact ⟨y, tokens, keys, by rwa [getElem?_cons_succ], heq⟩

theorem ne_of_lt (hfns : CollisionFree fns) (h : IsHashChain fns fns.noneHash hs) :
    ∀ {i j : Nat} {x : D}, i < j → (fns.noneHash :: hs)[i]? = some x →
      (fns.noneHash :: hs)[j]? = some x → False := by
  intro i
  induction i with
  | zero =>
    intro j x hij hi hj
    obtain ⟨j, rfl⟩ : ∃ j', j = j' + 1 := ⟨j - 1, by omega⟩
    obtain ⟨y, tokens, keys, _, heq⟩ := h.getElem?_succ hj
    simp only [getElem?_cons_zero, Option.some.injEq] at hi
    exact hfns.ne_noneHash _ (heq.symm.trans hi.symm)
  | succ i ih =>
    intro j x hij hi hj
    obtain ⟨j, rfl⟩ : ∃ j', j = j' + 1 := ⟨j - 1, by omega⟩
    obtain ⟨y, tokens, keys, hy, heq⟩ := h.getElem?_succ hi
    obtain ⟨y', tokens', keys', hy', heq'⟩ := h.getElem?_succ hj
    have hparent := hfns.injective (heq.symm.trans heq')
    simp only [Prod.mk.injEq] at hparent
    exact ih (by omega) hy (hparent.1 ▸ hy')

/-- A hash that occurs in two chains has the same hashes before it. -/
theorem take_eq (hfns : CollisionFree fns) {hs' : List D} (h : IsHashChain fns fns.noneHash hs)
    (h' : IsHashChain fns fns.noneHash hs') :
    ∀ {i j : Nat} {x : D}, (fns.noneHash :: hs)[i]? = some x →
      (fns.noneHash :: hs')[j]? = some x →
      i = j ∧ (fns.noneHash :: hs).take (i + 1) = (fns.noneHash :: hs').take (i + 1) := by
  intro i
  induction i with
  | zero =>
    rintro (_ | j) x hi hj
    · exact ⟨rfl, rfl⟩
    · obtain ⟨y, tokens, keys, _, heq⟩ := h'.getElem?_succ hj
      cases hi
      exact absurd heq.symm (hfns.ne_noneHash _)
  | succ i ih =>
    intro j x hi hj
    obtain ⟨y, tokens, keys, hy, heq⟩ := h.getElem?_succ hi
    cases j with
    | zero =>
      cases hj
      exact absurd heq.symm (hfns.ne_noneHash _)
    | succ j =>
      obtain ⟨y', tokens', keys', hy', heq'⟩ := h'.getElem?_succ hj
      have hparent := hfns.injective (heq.symm.trans heq')
      obtain ⟨rfl, htake⟩ := ih hy ((Prod.mk.inj hparent).1 ▸ hy')
      exact ⟨rfl, by rw [take_add_one, htake, hi, ← hj, ← take_add_one]⟩

theorem nodup (hfns : CollisionFree fns) (h : IsHashChain fns fns.noneHash hs) : hs.Nodup := by
  rw [nodup_iff_getElem?_ne_getElem?]
  intro i j hij hj heq
  have hx := getElem?_eq_getElem hj
  refine h.ne_of_lt hfns (i := i + 1) (j := j + 1) (x := hs[j]) (by omega) ?_ ?_
  · rw [getElem?_cons_succ, heq, hx]
  · rw [getElem?_cons_succ, hx]

end IsHashChain

/-! ## Requests keep a chain -/

theorem requestBlockHasherLoop_isHashChain (fns : HashFns D) (blockSize : Nat)
    (r : Request D) : ∀ (fuel start : Nat) (mmIdx : Int) (prev : Option D),
      IsHashChain fns (prev.getD fns.noneHash)
        (requestBlockHasherLoop fns blockSize r fuel start mmIdx prev) := by
  intro fuel
  induction fuel with
  | zero => intro start mmIdx prev; trivial
  | succ fuel ih =>
    intro start mmIdx prev
    unfold requestBlockHasherLoop
    dsimp only
    split
    · trivial
    · exact ⟨⟨_, _, rfl⟩, ih _ _ (some _)⟩

theorem requestBlockHasher_isHashChain (fns : HashFns D) (blockSize : Nat) (r : Request D) :
    IsHashChain fns (r.blockHashes.getLast?.getD fns.noneHash)
      (requestBlockHasher fns blockSize r) := by
  unfold requestBlockHasher
  dsimp only
  split
  · trivial
  · exact requestBlockHasherLoop_isHashChain fns blockSize r _ _ _ _

variable {fns : HashFns D} {r : Request D}

theorem HashChain.updateBlockHashes (h : HashChain fns r) (blockSize : Nat) :
    HashChain fns (Request.updateBlockHashes (some (requestBlockHasher fns blockSize)) r) :=
  IsHashChain.append h (requestBlockHasher_isHashChain fns blockSize r)

theorem HashChain.appendOutputTokenIds
    (h : HashChain fns r) (blockSize : Nat) (tokenIds : List Token) :
    HashChain fns (r.appendOutputTokenIds (some (requestBlockHasher fns blockSize)) tokenIds) :=
  HashChain.updateBlockHashes (r := { r with
    outputTokenIds := r.outputTokenIds ++ tokenIds
    allTokenIds := r.allTokenIds ++ tokenIds }) h blockSize

theorem create_hashChain {blockSize : Nat} {a : Request.Args}
    (h : Request.create (some (requestBlockHasher fns blockSize)) a = .ok r) :
    HashChain fns r := by
  unfold Request.create at h
  simp only [bind_ok, pure_ok] at h
  obtain ⟨maxTokens, _, numPromptTokens, _, rfl⟩ := h
  exact HashChain.updateBlockHashes (by trivial) blockSize

theorem transcriptFns_collisionFree : CollisionFree transcriptFns where
  injective := by
    rintro ⟨parent, tokens, keys⟩ ⟨parent', tokens', keys'⟩ h
    obtain ⟨⟨rfl, rfl⟩, rfl⟩ := h
    rfl
  ne_noneHash := by
    rintro ⟨parent, tokens, keys⟩ h
    simp [transcriptFns] at h

end VllmCore
