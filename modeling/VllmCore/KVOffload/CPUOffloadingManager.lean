import VllmCore.KVOffload.CachePolicy
import VllmCore.Support.Transition
import Mathlib.Data.List.Range
/-!
# The CPU offload manager

The manager owns the CPU blocks: those that hold offloaded data, with the policy, and
those that were given back, on a free list.  Block ids are handed out in order until
all are in use, and reused from then on.  In every reachable state the ids of the
cached blocks and of the free list are exactly the ids handed out, each once, and
a store never evicts a block that is in use or that the store itself names.
-/

namespace VllmCore

open List Support

variable {K : Type} [DecidableEq K]

structure OffloadingEvent (K : Type) where
  blockHashes : List K
  blockSize : Nat
  medium : String
  removed : Bool
  deriving DecidableEq, Repr

/-- `PrepareStoreOutput`; the store spec is the list of the CPU block ids. -/
structure PrepareStoreOutput (K : Type) where
  blockHashesToStore : List K
  storeSpec : List Nat
  blockHashesEvicted : List K
  deriving DecidableEq, Repr

structure CPUOffloadingManager (K : Type) where
  blockSize : Nat
  medium : String := "CPU"
  numBlocks : Nat
  numAllocatedBlocks : Nat := 0
  freeList : List Nat := []
  events : Option (List (OffloadingEvent K)) := none
  policy : CachePolicy K

/-- The choice of a policy; ARC computes with floats. -/
inductive CachePolicyKind
  | lru
  | arc (rounding : Rounding)

namespace CPUOffloadingManager

def create (blockSize numBlocks : Nat) (cachePolicy : CachePolicyKind) (enableEvents : Bool) :
    CPUOffloadingManager K where
  blockSize := blockSize
  numBlocks := numBlocks
  events := if enableEvents then some [] else none
  policy :=
    match cachePolicy with
    | .lru => .lru {}
    | .arc rounding => .arc { cacheCapacity := numBlocks, rounding := rounding }

/-! ## The block pool -/

def getNumFreeBlocks (m : CPUOffloadingManager K) : Int :=
  m.freeList.length + m.numBlocks - m.numAllocatedBlocks

def popFree : Nat → List Nat → List BlockStatus × List Nat
  | 0, free => ([], free)
  | n + 1, free =>
    match free.getLast? with
    | none => ([], free)
    | some blockId =>
      let rest := popFree n free.dropLast
      ({ blockId := blockId } :: rest.1, rest.2)

/-- `_allocate_blocks`: fresh ids first, then reused ones. -/
def allocateBlocks (m : CPUOffloadingManager K) (blockHashes : List K) :
    Py (List BlockStatus × CPUOffloadingManager K) := do
  let numFresh := min blockHashes.length (m.numBlocks - m.numAllocatedBlocks)
  let numReused := blockHashes.length - numFresh
  pyAssert (numReused ≤ m.freeList.length) "len(self._free_list) >= num_reused"
  let fresh := (List.range numFresh).map fun i =>
    ({ blockId := m.numAllocatedBlocks + i } : BlockStatus)
  let reused := popFree numReused m.freeList
  pure (fresh ++ reused.1,
    { m with numAllocatedBlocks := m.numAllocatedBlocks + numFresh, freeList := reused.2 })

def freeBlock (m : CPUOffloadingManager K) (block : BlockStatus) : CPUOffloadingManager K :=
  { m with freeList := m.freeList ++ [block.blockId] }

def recordEvent (m : CPUOffloadingManager K) (blockHashes : List K) (removed : Bool) :
    CPUOffloadingManager K :=
  if blockHashes = [] then m
  else
    { m with events := m.events.map (· ++
        [{ blockHashes := blockHashes, blockSize := m.blockSize, medium := m.medium
           removed := removed }]) }

theorem recordEvent_eq (m : CPUOffloadingManager K) (ks : List K) (removed : Bool) :
    ∃ events, m.recordEvent ks removed = { m with events := events } := by
  unfold recordEvent
  split
  · exact ⟨_, rfl⟩
  · exact ⟨_, rfl⟩

@[simp] theorem recordEvent_policy (m : CPUOffloadingManager K) (ks : List K) (removed : Bool) :
    (m.recordEvent ks removed).policy = m.policy := by
  obtain ⟨events, hrecord⟩ := m.recordEvent_eq ks removed
  rw [hrecord]

/-! ## The manager interface -/

/-- `lookup`: the number of leading blocks that are ready. -/
def lookup (m : CPUOffloadingManager K) (blockHashes : List K) : Nat :=
  (blockHashes.takeWhile fun k => (m.policy.get? k).any (·.isReady)).length

/-- One iteration of `prepare_load`. -/
def prepareLoadOne (st : List Nat × CPUOffloadingManager K) (blockHash : K) :
    Py (List Nat × CPUOffloadingManager K) :=
  match st.2.policy.get? blockHash with
  | none => throw (.assertionError "Block not found in cache")
  | some block => do
    pyAssert (block.isReady = true) "Block is not ready for reading"
    pure (st.1 ++ [block.blockId],
      { st.2 with policy := st.2.policy.update blockHash (block.withRefCnt (block.refCnt + 1)) })

/-- `prepare_load`: the ids of the blocks to read. -/
def prepareLoad (m : CPUOffloadingManager K) (blockHashes : List K) :
    Py (List Nat × CPUOffloadingManager K) :=
  blockHashes.foldlM prepareLoadOne ([], m)

def touch (m : CPUOffloadingManager K) (blockHashes : List K) : CPUOffloadingManager K :=
  { m with policy := m.policy.touch blockHashes }

/-- One iteration of `complete_load`. -/
def completeLoadOne (m : CPUOffloadingManager K) (blockHash : K) :
    Py (CPUOffloadingManager K) :=
  match m.policy.get? blockHash with
  | none => throw (.assertionError "Block not found")
  | some block => do
    pyAssert (0 < block.refCnt) "Block ref_cnt is already 0"
    pure { m with policy := m.policy.update blockHash (block.withRefCnt (block.refCnt - 1)) }

def completeLoad (m : CPUOffloadingManager K) (blockHashes : List K) :
    Py (CPUOffloadingManager K) :=
  blockHashes.foldlM completeLoadOne m

def blockHashesToStore (m : CPUOffloadingManager K) (blockHashes : List K) : List K :=
  blockHashes.filter fun k => (m.policy.get? k).isNone

def prepareStore (m : CPUOffloadingManager K) (blockHashes : List K) :
    Py (Option (PrepareStoreOutput K) × CPUOffloadingManager K) :=
  let toStore := m.blockHashesToStore blockHashes
  if toStore = [] then
    pure (some { blockHashesToStore := [], storeSpec := [], blockHashesEvicted := [] }, m)
  else
    let numBlocksToEvict : Int := toStore.length - m.getNumFreeBlocks
    -- Blocks of the request must stay in the cache.
    let evicted :=
      if 0 < numBlocksToEvict then m.policy.evict numBlocksToEvict.toNat blockHashes
      else some ([], m.policy)
    match evicted with
    | none => pure (none, m)
    | some (es, policy) => do
      let m := es.foldl (fun m e => m.freeBlock e.2) { m with policy := policy }
      let toEvict := es.map Prod.fst
      let (blocks, m) ← (m.recordEvent toEvict true).allocateBlocks toStore
      pyAssert (blocks.length = toStore.length)
        "Block pool did not allocate the expected number of blocks"
      let m := { m with
        policy := (toStore.zip blocks).foldl (fun p e => p.insert e.1 e.2) m.policy }
      pure (some
        { blockHashesToStore := toStore
          storeSpec := blocks.map (·.blockId)
          blockHashesEvicted := toEvict }, m)

/-- One iteration of `complete_store` after a success, with the hashes stored so far. -/
def completeStoreOne (st : List K × CPUOffloadingManager K) (blockHash : K) :
    List K × CPUOffloadingManager K :=
  match st.2.policy.get? blockHash with
  | none => st
  | some block =>
    if block.isReady then st
    else (st.1 ++ [blockHash],
      { st.2 with policy := st.2.policy.update blockHash (block.withRefCnt 0) })

/-- One iteration of `complete_store` after a failure. -/
def discardStoreOne (m : CPUOffloadingManager K) (blockHash : K) : CPUOffloadingManager K :=
  match m.policy.get? blockHash with
  | none => m
  | some block =>
    if block.isReady then m
    else freeBlock { m with policy := m.policy.remove blockHash } block

def completeStore (m : CPUOffloadingManager K) (blockHashes : List K) (success : Bool) :
    CPUOffloadingManager K :=
  if success then
    let res := blockHashes.foldl completeStoreOne ([], m)
    res.2.recordEvent res.1 false
  else blockHashes.foldl discardStoreOne m

def takeEvents (m : CPUOffloadingManager K) :
    List (OffloadingEvent K) × CPUOffloadingManager K :=
  (m.events.getD [], { m with events := m.events.map fun _ => [] })

/-! ## Runs -/

/-- The calls of the manager that may change it. -/
inductive OffloadOp (K : Type)
  | lookup (blockHashes : List K)
  | touch (blockHashes : List K)
  | prepareLoad (blockHashes : List K)
  | completeLoad (blockHashes : List K)
  | prepareStore (blockHashes : List K)
  | completeStore (blockHashes : List K) (success : Bool)
  | takeEvents
  deriving DecidableEq

def runOffloadOp (m : CPUOffloadingManager K) : OffloadOp K → Py (CPUOffloadingManager K)
  | .lookup _ => pure m
  | .touch ks => pure (m.touch ks)
  | .prepareLoad ks => Prod.snd <$> m.prepareLoad ks
  | .completeLoad ks => m.completeLoad ks
  | .prepareStore ks => Prod.snd <$> m.prepareStore ks
  | .completeStore ks success => pure (m.completeStore ks success)
  | .takeEvents => pure m.takeEvents.2

/-- No store lists a hash twice that is not stored yet. -/
def StoresOnce (m : CPUOffloadingManager K) : OffloadOp K → Prop
  | .prepareStore ks => (m.blockHashesToStore ks).Nodup
  | _ => True

instance (m : CPUOffloadingManager K) (op : OffloadOp K) : Decidable (m.StoresOnce op) := by
  unfold StoresOnce
  split <;> infer_instance

def IsInitial (m : CPUOffloadingManager K) : Prop :=
  ∃ blockSize numBlocks cachePolicy enableEvents,
    m = create blockSize numBlocks cachePolicy enableEvents

def OffloadReachable : CPUOffloadingManager K → Prop :=
  Reachable IsInitial (OpStep (fun _ _ => True) runOffloadOp)

def OffloadReachableOnce : CPUOffloadingManager K → Prop :=
  Reachable IsInitial (OpStep StoresOnce runOffloadOp)

/-! ## The invariant -/

def heldIds (m : CPUOffloadingManager K) : List (K × Nat) :=
  m.policy.cached.map fun e => (e.1, e.2.blockId)

def allIds (m : CPUOffloadingManager K) : List Nat := m.heldIds.map Prod.snd ++ m.freeList

/-- Every id handed out is held or free, once. -/
structure BlockInv (m : CPUOffloadingManager K) : Prop where
  wf : m.policy.Wf
  ids : m.allIds.Perm (List.range m.numAllocatedBlocks)
  allocated_le : m.numAllocatedBlocks ≤ m.numBlocks

variable {p q : CachePolicy K} {es : List (K × BlockStatus)}

theorem heldIds_perm (h : q.cached.Perm p.cached)
    (m : CPUOffloadingManager K) : ({ m with policy := q } : CPUOffloadingManager K).heldIds.Perm
      ({ m with policy := p } : CPUOffloadingManager K).heldIds :=
  h.map _

theorem create_blockInv (blockSize numBlocks : Nat) (cachePolicy : CachePolicyKind)
    (enableEvents : Bool) :
    (create blockSize numBlocks cachePolicy enableEvents : CPUOffloadingManager K).BlockInv := by
  cases cachePolicy <;> exact ⟨nodup_nil, .refl _, Nat.zero_le _⟩

variable {m m' : CPUOffloadingManager K} {ks : List K} {b : BlockStatus} {k : K} {op : OffloadOp K}

theorem BlockInv.withPolicy (hm : m.BlockInv)
    (h : ({ m with policy := q } : CPUOffloadingManager K).heldIds.Perm m.heldIds) :
    ({ m with policy := q } : CPUOffloadingManager K).BlockInv := by
  refine ⟨?_, ((h.map Prod.snd).append_right _).trans hm.ids, hm.allocated_le⟩
  have hkeys := h.map Prod.fst
  unfold heldIds at hkeys
  rw [map_map, map_map] at hkeys
  exact hkeys.nodup_iff.mpr hm.wf

theorem BlockInv.update {m : CPUOffloadingManager K} (hm : m.BlockInv) {k : K}
    {b b' : BlockStatus} (hk : m.policy.get? k = some b) (hid : b'.blockId = b.blockId) :
    ({ m with policy := m.policy.update k b' } : CPUOffloadingManager K).BlockInv := by
  obtain ⟨rest, hcached, _, hupdate⟩ := CachePolicy.exists_rest hm.wf hk
  refine hm.withPolicy ?_
  have h₁ := (hupdate b').map fun e : K × BlockStatus => (e.1, e.2.blockId)
  have h₂ := hcached.map fun e : K × BlockStatus => (e.1, e.2.blockId)
  rw [map_cons] at h₁ h₂
  rw [hid] at h₁
  exact h₁.trans h₂.symm

/-- A block gets another status, in the same buffer. -/
inductive StatusStep (m : CPUOffloadingManager K) : CPUOffloadingManager K → Prop
  | update {k : K} {b b' : BlockStatus} : m.policy.get? k = some b → b'.blockId = b.blockId →
      StatusStep m { m with policy := m.policy.update k b' }

abbrev StatusSteps : CPUOffloadingManager K → CPUOffloadingManager K → Prop :=
  Relation.ReflTransGen StatusStep

theorem BlockInv.statusStep (hm : m.BlockInv) (h : StatusStep m m') : m'.BlockInv := by
  cases h with
  | update hk hid => exact hm.update hk hid

theorem prepareLoad_steps {ids : List Nat} (h : m.prepareLoad ks = .ok (ids, m')) :
    StatusSteps m m' := by
  refine foldlM_inv (P := fun st : List Nat × CPUOffloadingManager K => StatusSteps m st.2)
    ?_ .refl h
  intro st k st' _ hst hone
  unfold prepareLoadOne at hone
  split at hone
  · cases hone
  next b hb =>
    simp only [bind_ok, pyAssert_ok, pure_ok] at hone
    obtain ⟨_, _, rfl⟩ := hone
    exact hst.tail (.update hb rfl)

theorem completeLoad_steps (h : m.completeLoad ks = .ok m') : StatusSteps m m' := by
  refine foldlM_inv (P := StatusSteps m) ?_ .refl h
  intro m₁ k m₂ _ hm₁ hone
  unfold completeLoadOne at hone
  split at hone
  · cases hone
  next b hb =>
    simp only [bind_ok, pyAssert_ok, pure_ok] at hone
    obtain ⟨_, _, rfl⟩ := hone
    exact hm₁.tail (.update hb rfl)

theorem completeStoreOne_steps (ks : List K) (st : List K × CPUOffloadingManager K) :
    StatusSteps st.2 (ks.foldl completeStoreOne st).2 := by
  induction ks generalizing st with
  | nil => exact .refl
  | cons k ks ih =>
    refine .trans ?_ (ih (completeStoreOne st k))
    unfold completeStoreOne
    split
    · exact .refl
    next b hb =>
      split
      · exact .refl
      · exact .single (.update hb rfl)

theorem update_get? (hp : p.Wf) (hk : p.get? k = some b) (b' : BlockStatus)
    (j : K) : (p.update k b').get? j = if j = k then some b' else p.get? j := by
  obtain ⟨rest, hcached, _, hupdate⟩ := CachePolicy.exists_rest hp hk
  have hkeys : ((k, b') :: rest).map Prod.fst = ((k, b) :: rest).map Prod.fst := rfl
  have hwf : (p.update k b').Wf := by
    unfold CachePolicy.Wf
    rw [((hupdate b').map Prod.fst).nodup_iff, hkeys, ← (hcached.map Prod.fst).nodup_iff]
    exact hp
  have hnot : k ∉ rest.map Prod.fst := by
    have hnodup : (((k, b) :: rest).map Prod.fst).Nodup := (hcached.map Prod.fst).nodup_iff.mp hp
    exact (nodup_cons.mp hnodup).1
  ext c
  rw [CachePolicy.get?_eq_some_iff hwf, (hupdate b').mem_iff, mem_cons, Prod.mk.injEq]
  split
  · rename_i hjk
    subst hjk
    have hrest : (j, c) ∉ rest := fun hmem => hnot (mem_map.mpr ⟨_, hmem, rfl⟩)
    simp [hrest, eq_comm]
  · rename_i hjk
    rw [CachePolicy.get?_eq_some_iff hp, hcached.mem_iff, mem_cons, Prod.mk.injEq]
    simp [hjk]

theorem BlockInv.recordEvent (hm : m.BlockInv) (ks : List K) (removed : Bool) :
    (m.recordEvent ks removed).BlockInv := by
  obtain ⟨events, hrecord⟩ := m.recordEvent_eq ks removed
  rw [hrecord]
  exact ⟨hm.wf, hm.ids, hm.allocated_le⟩

theorem discardStoreOne_blockInv (hm : m.BlockInv) (k : K) : (m.discardStoreOne k).BlockInv := by
  unfold discardStoreOne
  split
  · exact hm
  · rename_i b hb
    split
    · exact hm
    · obtain ⟨rest, hcached, hremove, _⟩ := CachePolicy.exists_rest hm.wf hb
      refine ⟨?_, ?_, hm.allocated_le⟩
      · have hnodup : (((k, b) :: rest).map Prod.fst).Nodup :=
          (hcached.map Prod.fst).nodup_iff.mp hm.wf
        exact (hremove.map Prod.fst).nodup_iff.mpr (nodup_cons.mp hnodup).2
      · refine List.Perm.trans ?_ hm.ids
        have h₁ := (hremove.map fun e : K × BlockStatus => (e.1, e.2.blockId)).map Prod.snd
        have h₂ := (hcached.map fun e : K × BlockStatus => (e.1, e.2.blockId)).map Prod.snd
        show (((m.policy.remove k).cached.map fun e => (e.1, e.2.blockId)).map Prod.snd ++
          (m.freeList ++ [b.blockId])).Perm _
        rw [← append_assoc]
        refine (perm_append_singleton _ _).trans ?_
        refine ((h₁.append_right _).cons _).trans ?_
        exact (h₂.append_right m.freeList).symm

/-! ## Storing -/

theorem foldl_freeBlock : es.foldl (fun m e => m.freeBlock e.2) m =
      { m with freeList := m.freeList ++ es.map fun e => e.2.blockId } := by
  induction es generalizing m with
  | nil =>
    rw [map_nil, append_nil]
    rfl
  | cons e es ih =>
    rw [foldl_cons, ih]
    unfold freeBlock
    simp

theorem popFree_perm : ∀ {n : Nat} {free : List Nat}, n ≤ free.length →
    ((popFree n free).1.map (·.blockId) ++ (popFree n free).2).Perm free ∧
      (popFree n free).1.length = n ∧ ∀ b ∈ (popFree n free).1, b.refCnt = -1 := by
  intro n
  induction n with
  | zero => exact fun _ => ⟨.refl _, rfl, fun _ hb => absurd hb not_mem_nil⟩
  | succ n ih =>
    intro free hlen
    obtain ⟨pre, last, rfl⟩ : ∃ pre last, free = pre ++ [last] := by
      have hne : free ≠ [] := by
        rintro rfl
        simp at hlen
      exact ⟨_, _, (dropLast_append_getLast hne).symm⟩
    rw [length_append, length_singleton] at hlen
    obtain ⟨hperm, hcount, hnew⟩ := @ih pre (by omega)
    unfold popFree
    simp only [getLast?_append, getLast?_singleton, Option.some_or,
      dropLast_concat, map_cons, cons_append, length_cons]
    exact ⟨(hperm.cons last).trans (perm_append_singleton last pre).symm, by omega,
      forall_mem_cons.mpr ⟨rfl, hnew⟩⟩

theorem allocateBlocks_spec {blocks : List BlockStatus}
    (h : m.allocateBlocks ks = .ok (blocks, m')) :
    m'.policy = m.policy ∧ m'.numBlocks = m.numBlocks ∧ blocks.length = ks.length ∧
      m'.freeList.length + ks.length + m.numAllocatedBlocks =
        m.freeList.length + m'.numAllocatedBlocks ∧
      (m.numAllocatedBlocks ≤ m.numBlocks → m'.numAllocatedBlocks ≤ m'.numBlocks) ∧
      (∀ b ∈ blocks, b.refCnt = -1) ∧
      ∀ held : List Nat, (held ++ m.freeList).Perm (List.range m.numAllocatedBlocks) →
        (blocks.map (·.blockId) ++ (held ++ m'.freeList)).Perm
          (List.range m'.numAllocatedBlocks) := by
  unfold allocateBlocks at h
  simp only [bind_ok, pyAssert_ok, pure_ok] at h
  obtain ⟨_, hfree, hres⟩ := h
  cases hres
  generalize hfresh : min ks.length (m.numBlocks - m.numAllocatedBlocks) = numFresh at *
  obtain ⟨hperm, hcount, hnew⟩ := popFree_perm hfree
  generalize popFree (ks.length - numFresh) m.freeList = reused at *
  have hlength := hperm.length_eq
  rw [length_append, length_map, hcount] at hlength
  dsimp only
  refine ⟨rfl, rfl, ?_, by omega, fun _ => by omega, ?_, ?_⟩
  · rw [length_append, length_map, length_range, hcount]
    omega
  · refine forall_mem_append.mpr ⟨?_, hnew⟩
    rintro b hb
    obtain ⟨i, _, rfl⟩ := mem_map.mp hb
    rfl
  · intro held hheld
    rw [range_add, map_append, append_assoc, map_map]
    -- The fresh ids come last in the range.
    refine perm_append_comm.trans (List.Perm.append ?_ (.refl _))
    refine List.Perm.trans ?_ hheld
    rw [← append_assoc]
    refine (perm_append_comm.append_right _).trans ?_
    rw [append_assoc]
    exact hperm.append_left held

theorem foldl_insert_cached : ∀ {es : List (K × BlockStatus)} {p : CachePolicy K}, p.Wf →
    (es.map Prod.fst).Nodup → (∀ e ∈ es, p.get? e.1 = none) →
    (es.foldl (fun p e => p.insert e.1 e.2) p).Wf ∧
      (es.foldl (fun p e => p.insert e.1 e.2) p).cached.Perm (es ++ p.cached) := by
  intro es
  induction es with
  | nil => exact fun hp _ _ => ⟨hp, .refl _⟩
  | cons e es ih =>
    intro p hp hnodup hnew
    obtain ⟨k, b⟩ := e
    rw [map_cons, nodup_cons] at hnodup
    have hfresh := hnew (k, b) (by simp)
    have hins := CachePolicy.insert_cached hp hfresh b
    have hwf : (p.insert k b).Wf := by
      refine (hins.map Prod.fst).nodup_iff.mpr ?_
      rw [map_cons, nodup_cons]
      exact ⟨(CachePolicy.get?_eq_none_iff hp).mp hfresh, hp⟩
    obtain ⟨hwf', hperm⟩ := ih hwf hnodup.2 (by
      intro e he
      rw [CachePolicy.get?_eq_none_iff hwf, (hins.map Prod.fst).mem_iff, map_cons,
        mem_cons, not_or]
      refine ⟨?_, (CachePolicy.get?_eq_none_iff hp).mp (hnew e (by simp [he]))⟩
      intro heq
      exact hnodup.1 (mem_map.mpr ⟨e, he, heq⟩))
    exact ⟨hwf', (hperm.trans (hins.append_left es)).trans perm_middle⟩

/-- What a store that is not refused went through: nothing, or an eviction, the allocation of
the blocks and the insertion of the new hashes. -/
theorem prepareStore_some {out : PrepareStoreOutput K}
    (h : m.prepareStore ks = .ok (some out, m')) :
    (m' = m ∧ m.blockHashesToStore ks = [] ∧ out = ⟨[], [], []⟩) ∨
      ∃ es policy events blocks m₁,
        (es = [] ∧ policy = m.policy ∨ ∃ n, m.policy.evict n ks = some (es, policy)) ∧
        allocateBlocks
          { m with
            policy := policy
            freeList := m.freeList ++ es.map fun e => e.2.blockId
            events := events } (m.blockHashesToStore ks) = .ok (blocks, m₁) ∧
        out = ⟨m.blockHashesToStore ks, blocks.map (·.blockId), es.map Prod.fst⟩ ∧
        m' = { m₁ with
          policy := ((m.blockHashesToStore ks).zip blocks).foldl (fun p e => p.insert e.1 e.2)
            policy } := by
  unfold prepareStore at h
  dsimp only at h
  split at h
  next hnone =>
    cases h
    exact .inl ⟨rfl, hnone, rfl⟩
  · split at h
    · cases h
    next es policy hevict =>
      simp only [bind_ok, pyAssert_ok, pure_ok] at h
      obtain ⟨⟨blocks, m₁⟩, halloc, _, _, hres⟩ := h
      cases hres
      obtain ⟨events, hrecord⟩ := recordEvent_eq
        { m with policy := policy, freeList := m.freeList ++ es.map fun e => e.2.blockId }
        (es.map Prod.fst) true
      rw [foldl_freeBlock, hrecord] at halloc
      refine .inr ⟨es, policy, events, blocks, m₁, ?_, halloc, rfl, ?_⟩
      · split at hevict
        · exact .inr ⟨_, hevict⟩
        · cases hevict
          exact .inl ⟨rfl, rfl⟩
      · rw [(allocateBlocks_spec halloc).1]

theorem evicted_cached (h : es = [] ∧ q = p ∨ ∃ n, p.evict n ks = some (es, q)) :
    p.cached.Perm (es ++ q.cached) ∧ CachePolicy.Evictable ks es := by
  rcases h with ⟨rfl, rfl⟩ | ⟨n, hevict⟩
  · exact ⟨.refl _, fun e he => absurd he not_mem_nil⟩
  · obtain ⟨hcached, hidle, _⟩ := CachePolicy.evict_cached hevict
    exact ⟨hcached, hidle⟩

/-- The stored hashes are new to the policy that is left. -/
theorem get?_toStore (hm : m.policy.Wf) (hp : p.Wf) (h : m.policy.cached.Perm (es ++ p.cached))
    (hk : k ∈ m.blockHashesToStore ks) : p.get? k = none := by
  have hnone := (mem_filter.mp hk).2
  rw [Option.isNone_iff_eq_none, CachePolicy.get?_eq_none_iff hm, (h.map Prod.fst).mem_iff,
    map_append, mem_append, not_or] at hnone
  exact (CachePolicy.get?_eq_none_iff hp).mpr hnone.2

/-- What a store does: it evicts idle blocks that it does not name, and stores the new
hashes in blocks that nobody held. -/
theorem prepareStore_cached {out : PrepareStoreOutput K} (hm : m.BlockInv)
    (honce : (m.blockHashesToStore ks).Nodup) (h : m.prepareStore ks = .ok (some out, m')) :
    m'.BlockInv ∧ ∃ es stored rest, m.policy.cached.Perm (es ++ rest) ∧
      m'.policy.cached.Perm (stored ++ rest) ∧ CachePolicy.Evictable ks es ∧
      out.blockHashesEvicted = es.map Prod.fst ∧ ∀ e ∈ stored, e.2.refCnt = -1 := by
  obtain ⟨rfl, _, rfl⟩ | ⟨es, policy, events, blocks, m₁, hevict, halloc, rfl, rfl⟩ :=
    prepareStore_some h
  · exact ⟨hm, [], [], _, .refl _, .refl _, fun _ he => absurd he not_mem_nil, rfl,
      fun _ he => absurd he not_mem_nil⟩
  · obtain ⟨hcached, hidle⟩ := evicted_cached hevict
    have hpolicy : policy.Wf := by
      have hkeys := (hcached.map Prod.fst).nodup_iff.mp hm.wf
      rw [map_append, nodup_append] at hkeys
      exact hkeys.2.1
    have hheld : ((policy.cached.map fun e => e.2.blockId) ++
        (m.freeList ++ es.map fun e => e.2.blockId)).Perm (List.range m.numAllocatedBlocks) := by
      refine List.Perm.trans ?_ hm.ids
      have hids := (hcached.map fun e : K × BlockStatus => (e.1, e.2.blockId)).map Prod.snd
      rw [map_append, map_append, map_map (l := es), map_map (l := policy.cached)] at hids
      rw [← append_assoc]
      refine perm_append_comm.trans ?_
      rw [← append_assoc]
      exact (hids.append_right m.freeList).symm
    obtain ⟨_, _, hlen, _, hle, hunread, hids⟩ := allocateBlocks_spec halloc
    have hfst : ((m.blockHashesToStore ks).zip blocks).map Prod.fst =
        m.blockHashesToStore ks := map_fst_zip (by omega)
    have hsnd : ((m.blockHashesToStore ks).zip blocks).map Prod.snd = blocks :=
      map_snd_zip (by omega)
    obtain ⟨hwf, hperm⟩ := foldl_insert_cached hpolicy (hfst.symm ▸ honce) fun e he =>
      get?_toStore hm.wf hpolicy hcached (of_mem_zip he).1
    refine ⟨⟨hwf, ?_, hle hm.allocated_le⟩, es, _, policy.cached, hcached, hperm, hidle, rfl, ?_⟩
    · refine List.Perm.trans ?_ (hids _ hheld)
      have hmap := (hperm.map fun e : K × BlockStatus => (e.1, e.2.blockId)).map Prod.snd
      refine (hmap.append_right m₁.freeList).trans ?_
      rw [map_append, map_append, append_assoc, map_map, map_map (l := policy.cached)]
      have hblocks : ((m.blockHashesToStore ks).zip blocks).map
          (Prod.snd ∘ fun e : K × BlockStatus => (e.1, e.2.blockId)) =
          blocks.map (·.blockId) := by
        conv_rhs => rw [← hsnd]
        rw [map_map]
        rfl
      rw [hblocks]
      exact .refl _
    · intro e he
      exact hunread e.2 (hsnd ▸ mem_map_of_mem he)

theorem prepareStore_none (h : m.prepareStore ks = .ok (none, m')) : m' = m := by
  unfold prepareStore at h
  dsimp only at h
  split at h
  · cases h
  · split at h
    · cases h
      rfl
    · simp only [bind_ok, pure_ok] at h
      obtain ⟨_, _, _, _, hres⟩ := h
      cases hres

theorem prepareStore_spec {res : Option (PrepareStoreOutput K)} (hm : m.BlockInv)
    (honce : (m.blockHashesToStore ks).Nodup) (h : m.prepareStore ks = .ok (res, m')) :
    m'.BlockInv ∧ (res = none → m' = m) ∧ ∀ out, res = some out →
      ∀ k b, m.policy.get? k = some b → b.refCnt ≠ 0 ∨ k ∈ ks →
        k ∉ out.blockHashesEvicted ∧ m'.policy.get? k = some b := by
  cases res with
  | none =>
    obtain rfl := prepareStore_none h
    exact ⟨hm, fun _ => rfl, fun out hout => by cases hout⟩
  | some out =>
    obtain ⟨hinv, es, stored, rest, hcached, hperm, hidle, hevicted, _⟩ :=
      prepareStore_cached hm honce h
    refine ⟨hinv, (fun h => by cases h), ?_⟩
    intro _ hout k b hk hkeep
    cases hout
    have hmem := (CachePolicy.get?_eq_some_iff hm.wf).mp hk
    -- An evicted block is idle and not named by the store.
    have hnot : ∀ b', (k, b') ∉ es := by
      intro b' hb'
      have hall := (CachePolicy.get?_eq_some_iff hm.wf).mpr
        (hcached.mem_iff.mpr (mem_append_left _ hb'))
      rw [hk, Option.some.injEq] at hall
      subst hall
      rcases hkeep with hbusy | hnamed
      · exact hbusy (hidle _ hb').1
      · exact (hidle _ hb').2 hnamed
    refine ⟨?_, ?_⟩
    · rw [hevicted]
      intro hin
      obtain ⟨⟨k', b'⟩, he, rfl⟩ := mem_map.mp hin
      exact hnot b' he
    · refine (CachePolicy.get?_eq_some_iff hinv.wf).mpr (hperm.mem_iff.mpr ?_)
      exact mem_append_right _ ((mem_append.mp (hcached.mem_iff.mp hmem)).resolve_left (hnot b))

/-- A call that keeps to the policy's own methods: what touching, a new status, recorded
events, discarding and storing preserve is preserved by every call. -/
theorem runOffloadOp_inv {P : CPUOffloadingManager K → Prop} (hm : P m)
    (htouch : ∀ ks, P (m.touch ks)) (hstatus : ∀ {m₁ m₂}, P m₁ → StatusStep m₁ m₂ → P m₂)
    (hevents : ∀ {m₁} events, P m₁ → P { m₁ with events := events })
    (hdiscard : ∀ {m₁} k, P m₁ → P (m₁.discardStoreOne k))
    (hstore : ∀ {ks res m₁}, op = .prepareStore ks → m.prepareStore ks = .ok (res, m₁) → P m₁)
    (h : m.runOffloadOp op = .ok m') : P m' := by
  have hsteps : ∀ {m₁}, StatusSteps m m₁ → P m₁ := by
    intro m₁ hs
    induction hs with
    | refl => exact hm
    | tail _ hstep ih => exact hstatus ih hstep
  cases op with
  | lookup ks =>
    cases h
    exact hm
  | touch ks =>
    cases h
    exact htouch ks
  | prepareLoad ks =>
    obtain ⟨ids, h⟩ := map_snd_ok.mp h
    exact hsteps (prepareLoad_steps h)
  | completeLoad ks => exact hsteps (completeLoad_steps h)
  | prepareStore ks =>
    obtain ⟨res, h⟩ := map_snd_ok.mp h
    exact hstore rfl h
  | completeStore ks success =>
    cases h
    unfold completeStore
    split
    · have hstored := hsteps (completeStoreOne_steps ks ([], m))
      obtain ⟨events, hrecord⟩ := recordEvent_eq (ks.foldl completeStoreOne ([], m)).2
        (ks.foldl completeStoreOne ([], m)).1 false
      dsimp only
      rw [hrecord]
      exact hevents _ hstored
    · exact List.foldlRecOn ks discardStoreOne (motive := P) hm fun m hm k _ => hdiscard k hm
  | takeEvents =>
    cases h
    exact hevents _ hm

theorem runOffloadOp_blockInv (hm : m.BlockInv) (hop : m.StoresOnce op)
    (h : m.runOffloadOp op = .ok m') : m'.BlockInv := by
  refine runOffloadOp_inv hm ?_ BlockInv.statusStep ?_ ?_ ?_ h
  · exact fun ks => hm.withPolicy (heldIds_perm (CachePolicy.touch_cached hm.wf ks) m)
  · exact fun _ hm => ⟨hm.wf, hm.ids, hm.allocated_le⟩
  · exact fun k hm => discardStoreOne_blockInv hm k
  · rintro ks res m₁ rfl hstore
    exact (prepareStore_spec hm hop hstore).1

theorem OffloadReachableOnce.blockInv (h : OffloadReachableOnce m) : m.BlockInv := by
  refine h.invariant ?_ ?_
  · rintro m ⟨blockSize, numBlocks, cachePolicy, enableEvents, rfl⟩
    exact create_blockInv blockSize numBlocks cachePolicy enableEvents
  · rintro m m' hm ⟨op, hop, hrun⟩
    exact runOffloadOp_blockInv hm hop hrun

/-! ## What stays in the cache -/

/-- The block of every hash is still the same buffer. -/
def KeepsBlocks (m m' : CPUOffloadingManager K) : Prop :=
  ∀ k b, m.policy.get? k = some b → ∃ b', m'.policy.get? k = some b' ∧ b'.blockId = b.blockId

theorem KeepsBlocks.refl (m : CPUOffloadingManager K) : m.KeepsBlocks m :=
  fun _ b hb => ⟨b, hb, rfl⟩

theorem KeepsBlocks.trans {m₁ m₂ m₃ : CPUOffloadingManager K} (h : m₁.KeepsBlocks m₂)
    (h' : m₂.KeepsBlocks m₃) : m₁.KeepsBlocks m₃ := by
  intro k b hb
  obtain ⟨b₂, hb₂, hid₂⟩ := h k b hb
  obtain ⟨b₃, hb₃, hid₃⟩ := h' k b₂ hb₂
  exact ⟨b₃, hb₃, hid₃.trans hid₂⟩

theorem keepsBlocks_update (hm : m.BlockInv) {b' : BlockStatus} (hk : m.policy.get? k = some b)
    (hid : b'.blockId = b.blockId) : m.KeepsBlocks { m with policy := m.policy.update k b' } := by
  intro j c hj
  rw [update_get? hm.wf hk]
  split
  · rename_i hjk
    rw [hjk, hk, Option.some.injEq] at hj
    exact ⟨b', rfl, hj ▸ hid⟩
  · exact ⟨c, hj, rfl⟩

theorem StatusSteps.keepsBlocks (h : StatusSteps m m') (hm : m.BlockInv) :
    m'.BlockInv ∧ m.KeepsBlocks m' := by
  induction h with
  | refl => exact ⟨hm, .refl m⟩
  | tail _ hstep ih =>
    refine ⟨ih.1.statusStep hstep, ih.2.trans ?_⟩
    cases hstep with
    | update hk hid => exact keepsBlocks_update ih.1 hk hid

theorem discardStoreOne_get? (hm : m.BlockInv) (k : K) {j : K} (hj : m.policy.get? j = some b)
    (hkeep : j ≠ k ∨ b.isReady = true) : (m.discardStoreOne k).policy.get? j = some b := by
  unfold discardStoreOne
  split
  · exact hj
  · rename_i c hc
    split
    · exact hj
    · rename_i hnot
      have hjk : j ≠ k := by
        rcases hkeep with hne | hready
        · exact hne
        · rintro rfl
          rw [hj, Option.some.injEq] at hc
          exact absurd (hc ▸ hready) hnot
      obtain ⟨rest, hcached, hremove, _⟩ := CachePolicy.exists_rest hm.wf hc
      have hnodup : (((k, c) :: rest).map Prod.fst).Nodup :=
        (hcached.map Prod.fst).nodup_iff.mp hm.wf
      have hwf : (m.policy.remove k).Wf :=
        (hremove.map Prod.fst).nodup_iff.mpr (nodup_cons.mp hnodup).2
      refine (CachePolicy.get?_eq_some_iff hwf).mpr (hremove.mem_iff.mpr ?_)
      have hmem := hcached.mem_iff.mp ((CachePolicy.get?_eq_some_iff hm.wf).mp hj)
      simpa [hjk] using hmem

theorem foldl_discardStoreOne_get? : ∀ {ks : List K} {m : CPUOffloadingManager K},
    m.BlockInv → ∀ {j : K} {b : BlockStatus}, m.policy.get? j = some b →
      j ∉ ks ∨ b.isReady = true → (ks.foldl discardStoreOne m).policy.get? j = some b := by
  intro ks
  induction ks with
  | nil => exact fun _ _ _ hj _ => hj
  | cons k ks ih =>
    intro m hm j b hj hkeep
    rw [mem_cons, not_or] at hkeep
    refine ih (discardStoreOne_blockInv hm k) ?_ (hkeep.imp_left And.right)
    exact discardStoreOne_get? hm k hj (hkeep.imp_left And.left)

def OffloadOp.Stores : OffloadOp K → K → Prop
  | .prepareStore ks, k => k ∈ ks
  | _, _ => False

def OffloadOp.Fails : OffloadOp K → K → Prop
  | .completeStore ks false, k => k ∈ ks
  | _, _ => False

theorem refCnt_ne_zero {named : Prop} (h : b.isReady = false ∨ 0 < b.refCnt ∨ named) :
    b.refCnt ≠ 0 ∨ named := by
  rcases h with hready | hloading | hnamed
  · left
    intro h0
    simp [BlockStatus.isReady, h0] at hready
  · exact .inl (by omega)
  · exact .inr hnamed

theorem runOffloadOp_keeps (hm : m.BlockInv) (hop : m.StoresOnce op)
    (h : m.runOffloadOp op = .ok m') (hk : m.policy.get? k = some b)
    (huse : b.isReady = false ∨ 0 < b.refCnt ∨ op.Stores k) :
    (op.Fails k ∧ b.isReady = false) ∨
      ∃ b', m'.policy.get? k = some b' ∧ b'.blockId = b.blockId := by
  cases op with
  | lookup ks =>
    cases h
    exact .inr ⟨b, hk, rfl⟩
  | touch ks =>
    cases h
    have hsame := (CachePolicy.get?_congr hm.wf (CachePolicy.touch_cached hm.wf ks)).2
    exact .inr ⟨b, (hsame k).trans hk, rfl⟩
  | prepareLoad ks =>
    obtain ⟨ids, h⟩ := map_snd_ok.mp h
    exact .inr ((StatusSteps.keepsBlocks (prepareLoad_steps h) hm).2 k b hk)
  | completeLoad ks =>
    exact .inr ((StatusSteps.keepsBlocks (completeLoad_steps h) hm).2 k b hk)
  | prepareStore ks =>
    obtain ⟨res, h⟩ := map_snd_ok.mp h
    obtain ⟨_, hnone, hsome⟩ := prepareStore_spec hm hop h
    cases res with
    | none =>
      rw [hnone rfl]
      exact .inr ⟨b, hk, rfl⟩
    | some out =>
      exact .inr ⟨b, (hsome out rfl k b hk (refCnt_ne_zero huse)).2, rfl⟩
  | completeStore ks success =>
    cases h
    cases success with
    | true =>
      obtain ⟨b', hb', hid⟩ :=
        (StatusSteps.keepsBlocks (completeStoreOne_steps ks ([], m)) hm).2 k b hk
      refine .inr ⟨b', ?_, hid⟩
      show ((ks.foldl completeStoreOne ([], m)).2.recordEvent
        (ks.foldl completeStoreOne ([], m)).1 false).policy.get? k = some b'
      rw [recordEvent_policy]
      exact hb'
    | false =>
      by_cases hfail : k ∈ ks ∧ b.isReady = false
      · exact .inl hfail
      · refine .inr ⟨b, foldl_discardStoreOne_get? hm hk ?_, rfl⟩
        by_cases hmem : k ∈ ks
        · exact .inr (by simpa [hmem] using hfail)
        · exact .inl hmem
  | takeEvents =>
    cases h
    exact .inr ⟨b, hk, rfl⟩

/-! ## The result -/

/-- The ids of the cached blocks and of the free list are distinct, and exactly those
handed out; blocks in use are not evicted; and a refused store changes nothing. -/
structure OffloadSafe (m : CPUOffloadingManager K) : Prop where
  distinct : m.allIds.Nodup
  exact : ∀ i, i ∈ m.allIds ↔ i < m.numAllocatedBlocks
  allocated_le : m.numAllocatedBlocks ≤ m.numBlocks
  keeps : ∀ op m', m.StoresOnce op → m.runOffloadOp op = .ok m' →
    ∀ k b, m.policy.get? k = some b → b.isReady = false ∨ 0 < b.refCnt ∨ op.Stores k →
      (op.Fails k ∧ b.isReady = false) ∨
        ∃ b', m'.policy.get? k = some b' ∧ b'.blockId = b.blockId
  not_evicted : ∀ ks out m', m.StoresOnce (.prepareStore ks) →
    m.prepareStore ks = .ok (some out, m') → ∀ k b, m.policy.get? k = some b →
      b.isReady = false ∨ 0 < b.refCnt ∨ k ∈ ks → k ∉ out.blockHashesEvicted
  refused : ∀ ks m', m.prepareStore ks = .ok (none, m') → m' = m

theorem BlockInv.offloadSafe (hm : m.BlockInv) : m.OffloadSafe where
  distinct := hm.ids.nodup_iff.mpr nodup_range
  exact i := by rw [hm.ids.mem_iff, mem_range]
  allocated_le := hm.allocated_le
  keeps op m' hop h k b hk huse := runOffloadOp_keeps hm hop h hk huse
  not_evicted ks out m' hop h k b hk huse :=
    ((prepareStore_spec hm hop h).2.2 out rfl k b hk (refCnt_ne_zero huse)).1
  refused ks m' h := prepareStore_none h

/-- In every run in which no store lists a new hash twice, block ids are neither lost nor
shared, and blocks in use are not evicted. -/
theorem offload_safe {m : CPUOffloadingManager K} (h : OffloadReachableOnce m) :
    m.OffloadSafe :=
  h.blockInv.offloadSafe

/-- Two blocks are stored, one of them is being loaded, and a third store evicts the
other one. -/
def storeLoadOps : List (OffloadOp Nat) :=
  [.prepareStore [1, 2], .completeStore [1, 2] true, .prepareLoad [1], .prepareStore [3]]

theorem offload_safe_eviction : ∃ m : CPUOffloadingManager Nat, OffloadReachableOnce m ∧
    m.allIds = [0, 1] ∧ (m.policy.get? 2).isNone ∧ m.OffloadSafe := by
  obtain ⟨m, hrun, hids, hgone⟩ : ∃ m : CPUOffloadingManager Nat,
      runOps (checked StoresOnce runOffloadOp) (create 16 2 .lru false) storeLoadOps = .ok m ∧
        m.allIds = [0, 1] ∧ (m.policy.get? 2).isNone :=
    ⟨_, rfl, by decide, by decide⟩
  have hreach : OffloadReachableOnce m :=
    Reachable.runOps (.start ⟨16, 2, .lru, false, rfl⟩) hrun
  exact ⟨m, hreach, hids, hgone, offload_safe hreach⟩

/-- A store that lists a new hash twice takes two blocks for it and keeps one. -/
theorem offload_not_safe : ¬∀ m : CPUOffloadingManager Nat, OffloadReachable m →
    m.allIds.Nodup ∧ ∀ i, i ∈ m.allIds ↔ i < m.numAllocatedBlocks := by
  intro hall
  obtain ⟨m, hrun, hids, hcount⟩ : ∃ m : CPUOffloadingManager Nat,
      runOffloadOp (create 16 2 .lru false) (.prepareStore [1, 1]) = .ok m ∧
        m.allIds = [1] ∧ m.numAllocatedBlocks = 2 :=
    ⟨_, rfl, by decide, by decide⟩
  have hzero := ((hall m ((Reachable.start ⟨16, 2, .lru, false, rfl⟩).next
    ⟨_, trivial, hrun⟩)).2 0).mpr (by omega)
  rw [hids] at hzero
  exact absurd hzero (by decide)

end CPUOffloadingManager

end VllmCore
