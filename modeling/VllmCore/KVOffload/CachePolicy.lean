import VllmCore.Support.Dict
import Mathlib.Data.Rat.Floor
/-!
# Cache policies of the CPU offload manager

A policy keeps the offloaded blocks by their hashes and picks the blocks to evict.
`LRUCachePolicy` is one ordered dictionary.  `ARCCachePolicy` has two of them,
two ghost lists of evicted hashes, and a target size that adapts to the hits on the
ghost lists.
-/

namespace VllmCore

open List Option Support Dict

/-- `BlockStatus`: the number of transfers that read the block, `-1` until it is stored,
and the index of its CPU buffer. -/
structure BlockStatus where
  refCnt : Int := -1
  blockId : Nat
  deriving DecidableEq, Repr

namespace BlockStatus

def isReady (b : BlockStatus) : Bool := decide (0 ≤ b.refCnt)

/-- `ref_cnt` is a `c_int32`, which wraps around. -/
def withRefCnt (b : BlockStatus) (n : Int) : BlockStatus := { b with refCnt := n.bmod (2 ^ 32) }

end BlockStatus

variable {K : Type} [DecidableEq K]

/-! ## LRU -/

structure LRUCachePolicy (K : Type) where
  blocks : Dict K BlockStatus := .empty

namespace LRUCachePolicy

/-- One iteration of the loop of `touch`. -/
def touchOne (p : LRUCachePolicy K) (blockHash : K) : LRUCachePolicy K :=
  if p.blocks.contains blockHash then ⟨p.blocks.moveToEnd blockHash⟩ else p

def touch (p : LRUCachePolicy K) (blockHashes : List K) : LRUCachePolicy K :=
  blockHashes.reverse.foldl touchOne p

/-- `evict`: the first `n` blocks that are not in use. -/
def evict (p : LRUCachePolicy K) (n : Nat) (isProtected : List K) :
    Option (List (K × BlockStatus) × LRUCachePolicy K) :=
  if n = 0 then some ([], p)
  else
    let candidates := (p.blocks.entries.filter fun e =>
      decide (e.2.refCnt = 0) && decide (e.1 ∉ isProtected)).take n
    if candidates.length < n then none
    else some (candidates, ⟨candidates.foldl (fun blocks e => blocks.erase e.1) p.blocks⟩)

end LRUCachePolicy

/-! ## ARC -/

/-- The rounding of the float operations: the exact result goes to a float nearby. -/
structure Rounding where
  round : ℚ → ℚ
  mono : Monotone round
  zero : round 0 = 0

def Rounding.exact : Rounding where
  round := id
  mono := monotone_id
  zero := rfl

/-- `ARCCachePolicy`.  The target size is a float; `rounding` is the rounding of the
operations on it. -/
structure ARCCachePolicy (K : Type) where
  cacheCapacity : Nat
  rounding : Rounding
  targetT1Size : ℚ := 0
  t1 : Dict K BlockStatus := .empty
  t2 : Dict K BlockStatus := .empty
  b1 : Dict K Unit := .empty
  b2 : Dict K Unit := .empty

namespace ARCCachePolicy

/-- `get`. -/
def get? (p : ARCCachePolicy K) (blockHash : K) : Option BlockStatus :=
  match p.t1.get? blockHash with
  | some b => some b
  | none => p.t2.get? blockHash

variable {p : ARCCachePolicy K} {k : K}

theorem get?_of_t1 {b : BlockStatus} (h : p.t1.get? k = some b) : p.get? k = some b := by
  unfold get?
  rw [h]

theorem get?_of_not_t1 (h : p.t1.get? k = none) : p.get? k = p.t2.get? k := by
  unfold get?
  rw [h]

def insert (p : ARCCachePolicy K) (blockHash : K) (block : BlockStatus) : ARCCachePolicy K :=
  { p with
    t1 := p.t1.set blockHash block
    b1 := p.b1.erase blockHash
    b2 := p.b2.erase blockHash }

def remove (p : ARCCachePolicy K) (blockHash : K) : ARCCachePolicy K :=
  if p.t1.contains blockHash then { p with t1 := p.t1.erase blockHash }
  else { p with t2 := p.t2.erase blockHash }

/-- Assign to the fields of a block that `get` returned. -/
def update (p : ARCCachePolicy K) (blockHash : K) (block : BlockStatus) : ARCCachePolicy K :=
  if p.t1.contains blockHash then { p with t1 := p.t1.set blockHash block }
  else { p with t2 := p.t2.set blockHash block }

/-- `max(1, len(other) / len(ghost))`, the amount by which the target moves. -/
def targetDelta (p : ARCCachePolicy K) (other ghost : Dict K Unit) : ℚ :=
  max 1 (p.rounding.round (other.entries.length / ghost.entries.length))

/-- One iteration of the loop of `touch`. -/
def touchOne (p : ARCCachePolicy K) (blockHash : K) : ARCCachePolicy K :=
  match p.t1.get? blockHash with
  | some block =>
    if block.isReady = false then
      -- The block was just prepared to be stored, not really touched twice.
      { p with t1 := (p.t1.erase blockHash).set blockHash block }
    else { p with t1 := p.t1.erase blockHash, t2 := p.t2.set blockHash block }
  | none =>
    if p.t2.contains blockHash then { p with t2 := p.t2.moveToEnd blockHash }
    else if p.b1.contains blockHash then
      { p with
        targetT1Size :=
          min (p.rounding.round (p.targetT1Size + p.targetDelta p.b2 p.b1)) p.cacheCapacity
        b1 := p.b1.moveToEnd blockHash }
    else if p.b2.contains blockHash then
      { p with
        targetT1Size := max (p.rounding.round (p.targetT1Size - p.targetDelta p.b1 p.b2)) 0
        b2 := p.b2.moveToEnd blockHash }
    else p

def touch (p : ARCCachePolicy K) (blockHashes : List K) : ARCCachePolicy K :=
  blockHashes.reverse.foldl touchOne p

/-- The first block of a list that is not in use and not selected yet. -/
def findCandidate (blocks : Dict K BlockStatus) (isProtected alreadySelected : List K) :
    Option (K × BlockStatus) :=
  blocks.entries.find? fun e =>
    decide (e.2.refCnt = 0) && decide (e.1 ∉ isProtected) && decide (e.1 ∉ alreadySelected)

/-- The candidate of one iteration, and whether it comes from T1. -/
def selectCandidate (p : ARCCachePolicy K) (isProtected alreadySelected : List K)
    (virtualT1Size : Int) : Option (K × BlockStatus × Bool) :=
  let fromT1 :=
    if p.targetT1Size.floor ≤ virtualT1Size then
      findCandidate p.t1 isProtected alreadySelected
    else none
  match fromT1 with
  | some e => some (e.1, e.2, true)
  | none => (findCandidate p.t2 isProtected alreadySelected).map fun e => (e.1, e.2, false)

/-- The loop that collects candidates, `left` of them still to find.  The size of T1 is
simulated. -/
def selectCandidates (p : ARCCachePolicy K) (isProtected : List K) :
    Nat → List K → Int → Option (List (K × BlockStatus × Bool))
  | 0, _, _ => some []
  | left + 1, alreadySelected, virtualT1Size =>
    match p.selectCandidate isProtected alreadySelected virtualT1Size with
    | none => none
    | some c =>
      (c :: ·) <$> selectCandidates p isProtected left (c.1 :: alreadySelected)
        (if c.2.2 then virtualT1Size - 1 else virtualT1Size)

def evictOne (p : ARCCachePolicy K) (c : K × BlockStatus × Bool) : ARCCachePolicy K :=
  if c.2.2 then { p with t1 := p.t1.erase c.1, b1 := p.b1.set c.1 () }
  else { p with t2 := p.t2.erase c.1, b2 := p.b2.set c.1 () }

def trimGhost (cacheCapacity : Nat) (ghost : Dict K Unit) : Dict K Unit :=
  ghost.dropFirst (ghost.entries.length - cacheCapacity)

def evict (p : ARCCachePolicy K) (n : Nat) (isProtected : List K) :
    Option (List (K × BlockStatus) × ARCCachePolicy K) :=
  if n = 0 then some ([], p)
  else
    match p.selectCandidates isProtected n [] p.t1.entries.length with
    | none => none
    | some candidates =>
      let p := candidates.foldl evictOne p
      some (candidates.map fun c => (c.1, c.2.1),
        { p with
          b1 := trimGhost p.cacheCapacity p.b1
          b2 := trimGhost p.cacheCapacity p.b2 })

end ARCCachePolicy

/-! ## Pluggable policies -/

/-- `CachePolicy`, with its two implementations. -/
inductive CachePolicy (K : Type)
  | lru (p : LRUCachePolicy K)
  | arc (p : ARCCachePolicy K)

namespace CachePolicy

def cached : CachePolicy K → List (K × BlockStatus)
  | lru p => p.blocks.entries
  | arc p => p.t1.entries ++ p.t2.entries

/-- `get`. -/
def get? : CachePolicy K → K → Option BlockStatus
  | lru p, k => p.blocks.get? k
  | arc p, k => p.get? k

def insert (blockHash : K) (block : BlockStatus) : CachePolicy K → CachePolicy K
  | lru p => lru ⟨p.blocks.set blockHash block⟩
  | arc p => arc (p.insert blockHash block)

/-- `remove`, for a block that is there. -/
def remove (blockHash : K) : CachePolicy K → CachePolicy K
  | lru p => lru ⟨p.blocks.erase blockHash⟩
  | arc p => arc (p.remove blockHash)

def touch (blockHashes : List K) : CachePolicy K → CachePolicy K
  | lru p => lru (p.touch blockHashes)
  | arc p => arc (p.touch blockHashes)

def evict (n : Nat) (isProtected : List K) :
    CachePolicy K → Option (List (K × BlockStatus) × CachePolicy K)
  | lru p => (p.evict n isProtected).map fun res => (res.1, lru res.2)
  | arc p => (p.evict n isProtected).map fun res => (res.1, arc res.2)

/-- Assign to the fields of a block that `get` returned: the policy shares it. -/
def update (blockHash : K) (block : BlockStatus) : CachePolicy K → CachePolicy K
  | lru p => lru ⟨p.blocks.set blockHash block⟩
  | arc p => arc (p.update blockHash block)

/-! ## The blocks of a policy under its methods -/

def Wf (p : CachePolicy K) : Prop := (p.cached.map Prod.fst).Nodup

variable {k : K} {es : List (K × BlockStatus)} {isProtected : List K} {n : Nat}
  {c : K × BlockStatus × Bool}
variable {p q : CachePolicy K} {b : BlockStatus} {selected : List K}

theorem get?_eq_some_iff (hp : p.Wf) : p.get? k = some b ↔ (k, b) ∈ p.cached := by
  cases p with
  | lru p => exact Dict.get?_eq_some_iff p.blocks k b
  | arc p =>
    unfold Wf cached at hp
    rw [map_append, nodup_append] at hp
    show p.get? k = some b ↔ (k, b) ∈ p.t1.entries ++ p.t2.entries
    rw [mem_append, ← Dict.get?_eq_some_iff, ← Dict.get?_eq_some_iff]
    cases ht1 : p.t1.get? k with
    | none => simp [ARCCachePolicy.get?_of_not_t1 ht1]
    | some b' =>
      rw [ARCCachePolicy.get?_of_t1 ht1]
      have hkey : k ∈ p.t1.entries.map Prod.fst :=
        mem_map.mpr ⟨_, (Dict.get?_eq_some_iff _ _ _).mp ht1, rfl⟩
      have hnot : p.t2.get? k ≠ some b := by
        intro ht2
        exact hp.2.2 k hkey k
          (mem_map.mpr ⟨_, (Dict.get?_eq_some_iff _ _ _).mp ht2, rfl⟩) rfl
      simp [hnot]

theorem get?_eq_none_iff (hp : p.Wf) : p.get? k = none ↔ k ∉ p.cached.map Prod.fst := by
  constructor
  · intro hnone hmem
    obtain ⟨⟨k', b⟩, he, rfl⟩ := mem_map.mp hmem
    rw [(get?_eq_some_iff hp).mpr he] at hnone
    cases hnone
  · intro hnot
    rw [eq_none_iff_forall_not_mem]
    intro b hb
    exact hnot (mem_map.mpr ⟨_, (get?_eq_some_iff hp).mp hb, rfl⟩)

theorem get?_congr (hp : p.Wf) (h : q.cached.Perm p.cached) : q.Wf ∧ ∀ k, q.get? k = p.get? k := by
  have hq : q.Wf := (h.map Prod.fst).nodup_iff.mpr hp
  refine ⟨hq, ?_⟩
  intro k
  ext b
  rw [get?_eq_some_iff hq, get?_eq_some_iff hp, h.mem_iff]

theorem insert_cached (hp : p.Wf) (hk : p.get? k = none) (b : BlockStatus) :
    (p.insert k b).cached.Perm ((k, b) :: p.cached) := by
  have hnew := (get?_eq_none_iff hp).mp hk
  cases p with
  | lru p =>
    have hset := entries_set_perm p.blocks k b
    rwa [erase_of_not_mem _ hnew] at hset
  | arc p =>
    unfold cached at hnew
    rw [map_append, mem_append, not_or] at hnew
    have hset := entries_set_perm p.t1 k b
    rw [erase_of_not_mem _ hnew.1] at hset
    exact hset.append_right p.t2.entries

theorem exists_rest (hp : p.Wf) (hk : p.get? k = some b) : ∃ rest, p.cached.Perm ((k, b) :: rest) ∧
      (p.remove k).cached.Perm rest ∧
      ∀ b', (p.update k b').cached.Perm ((k, b') :: rest) := by
  cases p with
  | lru p =>
    exact ⟨(p.blocks.erase k).entries, entries_perm_erase p.blocks hk, .refl _,
      fun b' => entries_set_perm p.blocks k b'⟩
  | arc p =>
    change p.get? k = some b at hk
    cases ht1 : p.t1.get? k with
    | some b₁ =>
      rw [ARCCachePolicy.get?_of_t1 ht1] at hk
      cases hk
      have hcontains : p.t1.contains k = true := by
        rw [Dict.contains_iff, Dict.mem_keys_iff, ht1]
        simp
      have hremove : p.remove k = { p with t1 := p.t1.erase k } := if_pos hcontains
      have hupdate : ∀ b', p.update k b' = { p with t1 := p.t1.set k b' } :=
        fun _ => if_pos hcontains
      refine ⟨(p.t1.erase k).entries ++ p.t2.entries,
        (entries_perm_erase p.t1 ht1).append_right _, ?_, ?_⟩
      · show (arc (p.remove k)).cached.Perm _
        rw [hremove]
        exact .refl _
      · intro b'
        show (arc (p.update k b')).cached.Perm _
        rw [hupdate]
        exact (entries_set_perm p.t1 k b').append_right _
    | none =>
      rw [ARCCachePolicy.get?_of_not_t1 ht1] at hk
      have hnot : ¬p.t1.contains k = true := by
        rw [Dict.contains_iff, Dict.mem_keys_iff, ht1]
        simp
      have hremove : p.remove k = { p with t2 := p.t2.erase k } := if_neg hnot
      have hupdate : ∀ b', p.update k b' = { p with t2 := p.t2.set k b' } :=
        fun _ => if_neg hnot
      refine ⟨p.t1.entries ++ (p.t2.erase k).entries,
        ((entries_perm_erase p.t2 hk).append_left _).trans perm_middle, ?_, ?_⟩
      · show (arc (p.remove k)).cached.Perm _
        rw [hremove]
        exact .refl _
      · intro b'
        show (arc (p.update k b')).cached.Perm _
        rw [hupdate]
        exact ((entries_set_perm p.t2 k b').append_left _).trans perm_middle

/-! ### Touching -/

theorem touchOne_cached {p : ARCCachePolicy K} (hp : (arc p).Wf) (k : K) :
    (arc (p.touchOne k)).cached.Perm (arc p).cached := by
  unfold ARCCachePolicy.touchOne
  cases ht1 : p.t1.get? k with
  | some b =>
    have hcached : (arc p).cached.Perm ((k, b) :: ((p.t1.erase k).entries ++ p.t2.entries)) :=
      (entries_perm_erase p.t1 ht1).append_right _
    dsimp only
    split
    · refine List.Perm.trans ?_ hcached.symm
      show (((p.t1.erase k).set k b).entries ++ p.t2.entries).Perm _
      rw [entries_set_new _ (by simp [mem_keys_erase])]
      exact (perm_append_singleton _ _).append_right p.t2.entries
    · -- The block moves to T2, which has no block of this hash.
      have hnew : k ∉ p.t2.keys := by
        unfold Wf cached at hp
        rw [map_append, nodup_append] at hp
        intro hmem
        exact hp.2.2 k (mem_map.mpr ⟨_, (Dict.get?_eq_some_iff _ _ _).mp ht1, rfl⟩) k
          hmem rfl
      refine List.Perm.trans ?_ hcached.symm
      show ((p.t1.erase k).entries ++ (p.t2.set k b).entries).Perm _
      rw [entries_set_new _ hnew, ← append_assoc]
      exact perm_append_singleton _ _
  | none =>
    dsimp only
    split
    · exact (moveToEnd_perm p.t2 k).append_left _
    · split
      · exact .refl _
      · split <;> exact .refl _

theorem touch_cached (hp : p.Wf) (ks : List K) : (p.touch ks).cached.Perm p.cached := by
  cases p with
  | lru p =>
    show (lru (ks.reverse.foldl LRUCachePolicy.touchOne p)).cached.Perm _
    generalize ks.reverse = ks
    clear hp
    induction ks generalizing p with
    | nil => exact .refl _
    | cons k ks ih =>
      refine (ih (p.touchOne k)).trans ?_
      unfold LRUCachePolicy.touchOne
      split
      · exact moveToEnd_perm p.blocks k
      · exact .refl _
  | arc p =>
    show (arc (ks.reverse.foldl ARCCachePolicy.touchOne p)).cached.Perm _
    generalize ks.reverse = ks
    induction ks generalizing p with
    | nil => exact .refl _
    | cons k ks ih =>
      have hstep := touchOne_cached hp k
      exact (ih (p.touchOne k) (get?_congr hp hstep).1).trans hstep

/-! ### Evicting -/

theorem foldl_erase_perm : ∀ {es : List (K × BlockStatus)} {d : Dict K BlockStatus},
    (es.map Prod.fst).Nodup → (∀ e ∈ es, e ∈ d.entries) →
    d.entries.Perm (es ++ (es.foldl (fun d e => d.erase e.1) d).entries) := by
  intro es
  induction es with
  | nil =>
    intro d _ _
    exact .refl _
  | cons e es ih =>
    intro d hnodup hmem
    obtain ⟨k, b⟩ := e
    rw [map_cons, nodup_cons] at hnodup
    have hget := (Dict.get?_eq_some_iff d k b).mpr (hmem _ (by simp))
    refine (entries_perm_erase d hget).trans (List.Perm.cons _ (ih hnodup.2 ?_))
    intro e he
    refine mem_filter.mpr ⟨hmem e (by simp [he]), ?_⟩
    have hne : e.1 ≠ k := by
      intro heq
      exact hnodup.1 (mem_map.mpr ⟨e, he, heq⟩)
    simpa using hne

def Evictable (isProtected : List K) (es : List (K × BlockStatus)) : Prop :=
  ∀ e ∈ es, e.2.refCnt = 0 ∧ e.1 ∉ isProtected

theorem lru_evict_cached {p q : LRUCachePolicy K} (h : p.evict n isProtected = some (es, q)) :
    (lru p).cached.Perm (es ++ (lru q).cached) ∧ Evictable isProtected es ∧ es.length = n := by
  unfold LRUCachePolicy.evict at h
  split at h
  · rename_i h0
    cases h
    exact ⟨.refl _, fun e he => absurd he not_mem_nil, h0.symm⟩
  · dsimp only at h
    split at h
    · cases h
    · rename_i hlen
      cases h
      have hsub : ((p.blocks.entries.filter fun e =>
          decide (e.2.refCnt = 0) && decide (e.1 ∉ isProtected)).take n).Sublist
            p.blocks.entries := (take_sublist _ _).trans filter_sublist
      refine ⟨foldl_erase_perm (p.blocks.nodup.sublist (hsub.map _)) fun e he =>
        hsub.subset he, ?_, ?_⟩
      · intro e he
        have hcond := (mem_filter.mp (mem_of_mem_take he)).2
        simpa using hcond
      · rw [length_take] at hlen ⊢
        omega

theorem findCandidate_some {blocks : Dict K BlockStatus} {e : K × BlockStatus}
    (h : ARCCachePolicy.findCandidate blocks isProtected selected = some e) :
    e ∈ blocks.entries ∧ (e.2.refCnt = 0 ∧ e.1 ∉ isProtected) ∧ e.1 ∉ selected := by
  refine ⟨mem_of_find?_eq_some h, ?_⟩
  have hcond := find?_some h
  simpa [and_assoc] using hcond

def InList (p : ARCCachePolicy K) (c : K × BlockStatus × Bool) : Prop :=
  (c.1, c.2.1) ∈ (if c.2.2 then p.t1 else p.t2).entries

theorem selectCandidate_some {p : ARCCachePolicy K} {v : Int}
    (h : p.selectCandidate isProtected selected v = some c) :
    InList p c ∧ (c.2.1.refCnt = 0 ∧ c.1 ∉ isProtected) ∧ c.1 ∉ selected := by
  unfold ARCCachePolicy.selectCandidate at h
  dsimp only at h
  split at h
  · rename_i e hfind
    cases h
    split at hfind
    · exact findCandidate_some hfind
    · cases hfind
  · rw [map_eq_some_iff] at h
    obtain ⟨e, hfind, rfl⟩ := h
    exact findCandidate_some hfind

theorem selectCandidates_some {p : ARCCachePolicy K} :
    ∀ {n : Nat} {selected : List K} {v : Int} {cs : List (K × BlockStatus × Bool)},
      p.selectCandidates isProtected n selected v = some cs →
      (∀ c ∈ cs, InList p c ∧ (c.2.1.refCnt = 0 ∧ c.1 ∉ isProtected) ∧ c.1 ∉ selected) ∧
        (cs.map Prod.fst).Nodup ∧ cs.length = n := by
  intro n
  induction n with
  | zero =>
    intro selected v cs h
    cases h
    exact ⟨by simp, nodup_nil, rfl⟩
  | succ n ih =>
    intro selected v cs h
    unfold ARCCachePolicy.selectCandidates at h
    split at h
    · cases h
    · rename_i c hc
      rw [Option.map_eq_map, Option.map_eq_some_iff] at h
      obtain ⟨rest, hrest, rfl⟩ := h
      obtain ⟨hall, hnodup, hlen⟩ := ih hrest
      refine ⟨?_, ?_, by rw [length_cons, hlen]⟩
      · intro c' hc'
        rcases mem_cons.mp hc' with rfl | hc'
        · exact selectCandidate_some hc
        · obtain ⟨hin, hidle, hnot⟩ := hall c' hc'
          exact ⟨hin, hidle, fun hmem => hnot (mem_cons_of_mem _ hmem)⟩
      · rw [map_cons, nodup_cons]
        refine ⟨?_, hnodup⟩
        intro hmem
        obtain ⟨c', hc', heq⟩ := mem_map.mp hmem
        exact (hall c' hc').2.2 (heq ▸ mem_cons_self)

theorem evictOne_cached {p : ARCCachePolicy K} (hin : InList p c) :
    (arc p).cached.Perm ((c.1, c.2.1) :: (arc (p.evictOne c)).cached) := by
  obtain ⟨k, b, fromT1⟩ := c
  cases fromT1 with
  | true =>
    have hget := (Dict.get?_eq_some_iff p.t1 k b).mpr hin
    exact (entries_perm_erase p.t1 hget).append_right _
  | false =>
    have hget := (Dict.get?_eq_some_iff p.t2 k b).mpr hin
    exact ((entries_perm_erase p.t2 hget).append_left _).trans perm_middle

theorem evictOne_inList {p : ARCCachePolicy K} {c' : K × BlockStatus × Bool} (hin : InList p c')
    (hne : c'.1 ≠ c.1) : InList (p.evictOne c) c' := by
  have herase : ∀ d : Dict K BlockStatus, (c'.1, c'.2.1) ∈ d.entries →
      (c'.1, c'.2.1) ∈ (d.erase c.1).entries := by
    intro d hd
    exact mem_filter.mpr ⟨hd, by simpa using hne⟩
  obtain ⟨k', b', fromT1'⟩ := c'
  obtain ⟨k, b, fromT1⟩ := c
  cases fromT1 with
  | true =>
    cases fromT1' with
    | true => exact herase p.t1 hin
    | false => exact hin
  | false =>
    cases fromT1' with
    | true => exact hin
    | false => exact herase p.t2 hin

theorem foldl_evictOne_cached : ∀ {cs : List (K × BlockStatus × Bool)} {p : ARCCachePolicy K},
    (cs.map Prod.fst).Nodup → (∀ c ∈ cs, InList p c) →
    (arc p).cached.Perm (cs.map (fun c => (c.1, c.2.1)) ++
      (arc (cs.foldl ARCCachePolicy.evictOne p)).cached) := by
  intro cs
  induction cs with
  | nil =>
    intro p _ _
    exact .refl _
  | cons c cs ih =>
    intro p hnodup hin
    rw [map_cons, nodup_cons] at hnodup
    refine (evictOne_cached (hin c (by simp))).trans (List.Perm.cons _ (ih hnodup.2 ?_))
    intro c' hc'
    refine evictOne_inList (hin c' (by simp [hc'])) ?_
    intro heq
    exact hnodup.1 (mem_map.mpr ⟨c', hc', heq⟩)

theorem arc_evict_cached {p q : ARCCachePolicy K} (h : p.evict n isProtected = some (es, q)) :
    (arc p).cached.Perm (es ++ (arc q).cached) ∧ Evictable isProtected es ∧ es.length = n := by
  unfold ARCCachePolicy.evict at h
  split at h
  · rename_i h0
    cases h
    exact ⟨.refl _, fun e he => absurd he not_mem_nil, h0.symm⟩
  · split at h
    · cases h
    · rename_i cs hcs
      cases h
      obtain ⟨hall, hnodup, hlen⟩ := selectCandidates_some hcs
      refine ⟨foldl_evictOne_cached hnodup fun c hc => (hall c hc).1, ?_, ?_⟩
      · intro e he
        obtain ⟨c, hc, rfl⟩ := mem_map.mp he
        exact (hall c hc).2.1
      · rw [length_map]
        exact hlen

theorem evict_cached (h : p.evict n isProtected = some (es, q)) :
    p.cached.Perm (es ++ q.cached) ∧ Evictable isProtected es ∧ es.length = n := by
  cases p with
  | lru p =>
    unfold evict at h
    rw [map_eq_some_iff] at h
    obtain ⟨⟨es', q'⟩, hevict, heq⟩ := h
    cases heq
    exact lru_evict_cached hevict
  | arc p =>
    unfold evict at h
    rw [map_eq_some_iff] at h
    obtain ⟨⟨es', q'⟩, hevict, heq⟩ := h
    cases heq
    exact arc_evict_cached hevict

end CachePolicy

end VllmCore
