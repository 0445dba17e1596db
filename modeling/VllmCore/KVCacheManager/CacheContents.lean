import VllmCore.BlockHash.Content
import VllmCore.KVCacheManager.PoolSteps
/-!
# What a cache hit contains

Requests arrive, grow and take the next chunk of a session, while the KV cache manager
allocates, caches and frees blocks for them.  As long as the hashes of the requests
stay current, a block that a lookup returns was registered for a request with the
same tokens and extra keys up to that block, and was not handed out since.
-/

namespace VllmCore

open List Support

variable {D : Type} [DecidableEq D]

namespace KVCacheCoordinator

variable {fns : HashFns D} {good : Request D → Prop}
variable {caching : Bool} {dcp pcp : Nat}

theorem createManagers_poolSteps : ∀ {specs : List KVCacheSpec} {i : Nat} {p p' : BlockPool D}
      {ms : List (SingleTypeKVCacheManager D)},
      createManagers caching dcp pcp i specs p = .ok (ms, p') →
      BlockPool.PoolSteps fns good p p' := by
  intro specs
  induction specs with
  | nil =>
    intro i p p' ms h
    cases h
    exact .refl p
  | cons spec specs ih =>
    intro i p p' ms h
    unfold createManagers at h
    simp only [bind_ok, pure_ok] at h
    obtain ⟨⟨m, p₁⟩, hm, ⟨ms₁, p₂⟩, hms, hres⟩ := h
    cases hres
    have hfirst : BlockPool.PoolSteps fns good p p₁ := by
      unfold SingleTypeKVCacheManager.create at hm
      dsimp only at hm
      split at hm
      · split at hm
        · cases hm
        · simp only [bind_ok, pyAssert_ok, pure_ok] at hm
          obtain ⟨_, _, ⟨sink, q⟩, hsink, hpair⟩ := hm
          cases hpair
          exact .single (.reserveSinkBlocks _) trivial
            (map_snd_ok.mpr ⟨sink, hsink⟩)
      · cases hm
        exact .refl p
    exact hfirst.trans (ih hms)

theorem create_registered (fns : HashFns D) {config : KVCacheConfig} {useEagle events : Bool}
    {hashBlockSize : Nat} {c : KVCacheCoordinator D}
    (h : create config useEagle caching events dcp pcp hashBlockSize = .ok c) :
    BlockPool.Registered good c.blockPool ∧ c.hashBlockSize = hashBlockSize := by
  unfold create at h
  simp only [bind_ok] at h
  obtain ⟨p, hpool, ⟨ms, p'⟩, hms, h⟩ := h
  have hreg : BlockPool.Registered good p' :=
    (BlockPool.create_registered hpool).steps
      (show BlockPool.PoolSteps fns good p p' from createManagers_poolSteps hms)
  split at h
  · cases h
    exact ⟨hreg, rfl⟩
  · split at h
    · simp only [bind_ok, pyAssert_ok, pure_ok] at h
      obtain ⟨_, _, rfl⟩ := h
      exact ⟨hreg, rfl⟩
    · simp only [bind_ok, pyAssert_ok, pure_ok] at h
      obtain ⟨_, _, _, _, _, _, _, _, rfl⟩ := h
      exact ⟨hreg, rfl⟩

end KVCacheCoordinator

/-! ## The system -/

structure CacheSystem (D : Type) where
  requests : Dict ReqId (Request D)
  kv : KVCacheManager D

namespace CacheSystem

inductive CacheOp (D : Type)
  | addRequest (a : Request.Args)
  | changeRequest (requestId : ReqId) (op : HashOp)
  | callKV (op : KVCacheManager.KVOp D)

def runCacheOp (fns : HashFns D) (hashBlockSize : Nat) (s : CacheSystem D) :
    CacheOp D → Py (CacheSystem D)
  | .addRequest a => do
    let r ← Request.create (some (requestBlockHasher fns hashBlockSize)) a
    pure { s with requests := s.requests.set a.requestId r }
  | .changeRequest requestId op => do
    let r ← s.requests.get requestId
    let r ← runHashOp fns hashBlockSize r op
    pure { s with requests := s.requests.set requestId r }
  | .callKV op => do
    let kv ← s.kv.runKVOp fns op
    pure { s with kv := kv }

/-- The requests have the same hashes, and everything that these are computed from. -/
def SameHashInput (r r₀ : Request D) : Prop :=
  r.blockHashes = r₀.blockHashes ∧ r.allTokenIds = r₀.allTokenIds ∧
    r.mmFeatures = r₀.mmFeatures ∧ r.loraRequest = r₀.loraRequest ∧
    r.cacheSalt = r₀.cacheSalt ∧ r.promptEmbeds = r₀.promptEmbeds

instance (r r₀ : Request D) : Decidable (SameHashInput r r₀) := by
  unfold SameHashInput
  infer_instance

/-- The request is one of the live ones, up to the counters that the scheduler keeps
on it. -/
def Holds (s : CacheSystem D) (r : Request D) : Prop :=
  ∃ r₀, s.requests.get? r.requestId = some r₀ ∧ SameHashInput r r₀

instance (s : CacheSystem D) (r : Request D) : Decidable (s.Holds r) :=
  match h : s.requests.get? r.requestId with
  | none => isFalse fun ⟨_, hget, _⟩ => by rw [h] at hget; cases hget
  | some r₀ => decidable_of_iff (SameHashInput r r₀)
      ⟨fun hsame => ⟨r₀, h, hsame⟩, fun ⟨_, hget, hsame⟩ => by
        rw [h] at hget
        cases hget
        exact hsame⟩

/-- The manager is called on behalf of live requests. -/
def CacheOpAllowed (s : CacheSystem D) : CacheOp D → Prop
  | .callKV (.allocateSlots r _ _) => s.Holds r
  | .callKV (.cacheBlocks r _) => s.Holds r
  | .addRequest a => MmOrdered a.mmFeatures
  | _ => True

instance (s : CacheSystem D) (op : CacheOp D) : Decidable (CacheOpAllowed s op) := by
  unfold CacheOpAllowed
  split <;> infer_instance

def IsInitial (hashBlockSize : Nat) (s : CacheSystem D) : Prop :=
  s.requests = .empty ∧ ∃ config maxModelLen caching useEagle events dcp pcp,
    0 < dcp * pcp ∧ 0 < maxModelLen ∧
    KVCacheManager.create config maxModelLen hashBlockSize caching useEagle events dcp pcp =
      .ok s.kv

def CacheReachable (fns : HashFns D) (hashBlockSize : Nat) : CacheSystem D → Prop :=
  Reachable (IsInitial hashBlockSize) (OpStep CacheOpAllowed (runCacheOp fns hashBlockSize))

structure ContentInv (fns : HashFns D) (hashBlockSize : Nat) (s : CacheSystem D) : Prop where
  wf : s.kv.Wf
  hashBlockSize_eq : s.kv.coordinator.hashBlockSize = hashBlockSize
  current : ∀ rid r, s.requests.get? rid = some r → HashesCurrent fns hashBlockSize r
  registered : BlockPool.Registered (HashesCurrent fns hashBlockSize) s.kv.blockPool

variable {hashBlockSize : Nat} {s : CacheSystem D}
variable {fns : HashFns D} {r : Request D}

theorem Holds.hashesCurrent (hs : s.ContentInv fns hashBlockSize)
    (h : s.Holds r) : HashesCurrent fns hashBlockSize r := by
  obtain ⟨r₀, hget, hhashes, htokens, hitems, hlora, hsalt, hembeds⟩ := h
  obtain ⟨hcurrent, hordered⟩ := hs.current _ r₀ hget
  refine ⟨?_, hitems ▸ hordered⟩
  rw [hhashes, hcurrent]
  unfold expectedHashes blockInputs blockInput Request.numTokens tokenSlice assembleExtraKeys
    genLoraExtraHashKeys genCacheSaltKeys genPromptEmbedsExtraHashKeys
  rw [htokens, hitems, hlora, hsalt, hembeds]

theorem ContentInv.set (hs : s.ContentInv fns hashBlockSize) (rid : ReqId)
    (hr : HashesCurrent fns hashBlockSize r) :
    ({ s with requests := s.requests.set rid r } : CacheSystem D).ContentInv fns hashBlockSize := by
  refine ⟨hs.wf, hs.hashBlockSize_eq, ?_, hs.registered⟩
  intro rid' r' hget
  rw [Dict.get?_set] at hget
  split at hget
  · cases hget
    exact hr
  · exact hs.current rid' r' hget

end CacheSystem

end VllmCore
