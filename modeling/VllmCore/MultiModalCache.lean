import Mathlib.Data.List.Sort
import VllmCore.Support.Dict
import VllmCore.Support.Transition
/-!
# The multi-modal caches of the front end and the engine

The front end (P0) keeps the size of every item it has sent, the engine (P1) the items.
Both evict the least recently used (`vllm/utils/cache.py` over `cachetools`), and an item
that P0 still holds is not sent again.  Nothing is said between the two about evictions.

Items are followed by their hash and their size.
-/

namespace VllmCore.MultiModalCache

open Support

abbrev MmHash := Nat

/-! ## `LRUCache` -/

/-- An `LRUCache` without pinned items.  `order` lists its keys, the least recently used
first, each with the size of its value; a key without one was touched but is not in the
cache. -/
structure LRUCache where
  maxsize : Nat
  order : Dict MmHash (Option Nat) := .empty

namespace LRUCache

/-- `key in self`. -/
def contains (c : LRUCache) (key : MmHash) : Bool :=
  match c.order.get? key with
  | some (some _) => true
  | _ => false

def currsize (c : LRUCache) : Nat := (c.order.entries.map fun e => e.2.getD 0).sum

def touch (c : LRUCache) (key : MmHash) : LRUCache :=
  if key ∈ c.order.keys then { c with order := c.order.moveToEnd key }
  else { c with order := c.order.set key none }

def store (c : LRUCache) (key : MmHash) (size : Nat) : LRUCache :=
  { c with order := (c.order.erase key).set key (some size) }

end LRUCache

/-- What the caches use of `cachetools.LRUCache`: `__getitem__` and `__delitem__` of a key
that is there, and `__setitem__`, which need not return, and raises or not. -/
structure CacheToolsOps where
  getItem : LRUCache → MmHash → LRUCache
  delItem : LRUCache → MmHash → LRUCache
  setItem : LRUCache → MmHash → Nat → Option (LRUCache × Option PyError)

namespace CacheToolsOps

/-- `pop(key)`: a key that is not there is left alone. -/
def pop (T : CacheToolsOps) (c : LRUCache) (key : MmHash) : LRUCache :=
  if c.contains key then T.delItem (T.getItem (T.getItem c key) key) key else c

def popitem (T : CacheToolsOps) (c : LRUCache) : Py LRUCache :=
  match c.order.entries with
  | [] => throw (.runtimeError "All items are pinned, cannot remove oldest from the cache.")
  | e :: _ => return T.pop c e.1

/-- `get(key)`: whether the key is there. -/
def get (T : CacheToolsOps) (c : LRUCache) (key : MmHash) : Bool × LRUCache :=
  if c.contains key then (true, T.getItem c key) else (false, c)

end CacheToolsOps

/-- `cachetools.LRUCache` as documented: a key that is read is the most recently used;
`__setitem__` refuses a value that is larger than the cache, and else calls `popitem`
until there is room. -/
structure CacheTools extends CacheToolsOps where
  getItem_eq : ∀ c key, c.contains key = true →
    getItem c key = { c with order := c.order.moveToEnd key }
  delItem_eq : ∀ c key, c.contains key = true →
    delItem c key = { c with order := c.order.erase key }
  setItem_large : ∀ c key size, c.maxsize < size →
    setItem c key size = some (c, some (.valueError "value too large"))
  setItem_room : ∀ c key size, c.contains key = false → c.currsize + size ≤ c.maxsize →
    setItem c key size = some (c.store key size, none)
  setItem_pop : ∀ c c' key size, c.contains key = false → size ≤ c.maxsize →
    c.maxsize < c.currsize + size → toCacheToolsOps.popitem c = .ok c' →
    setItem c key size = setItem c' key size

/-! ## The two sides -/

/-- An item of a request: its hash, its size and where it stands in the prompt. -/
structure Item where
  hash : MmHash
  size : Nat
  offset : Nat
  deriving DecidableEq

/-- An item as it is sent: with its data, or without. -/
structure Feature where
  hash : MmHash
  offset : Nat
  data : Option Nat
  deriving DecidableEq

/-- `MultiModalProcessorSenderCache.get_and_update_item`, with the size of the item if it
is given.  The answer is what is sent. -/
def getAndUpdateSender (T : CacheToolsOps) (c : LRUCache) (item : Option Nat) (mmHash : MmHash) :
    Option (LRUCache × Py (Option Nat)) :=
  match T.get c mmHash with
  | (true, c) => some (c, .ok none)
  | (false, c) =>
    match item with
    | none => some (c, .error (.assertionError "Expected a cached item"))
    | some size =>
      match T.setItem c mmHash size with
      | none => none
      | some (c, none) => some (c, .ok (some size))
      | some (c, some e) => some (c, .error e)

/-- The loop of `_merge_mm_kwargs`, over the items with what `_get_cache_missing_items`
says of them. -/
def mergeItems (T : CacheToolsOps) : LRUCache → List (Item × Bool) →
    Option (LRUCache × Py (List Feature))
  | c, [] => some (c, .ok [])
  | c, (item, isCached) :: rest =>
    match getAndUpdateSender T c (if isCached then none else some item.size) item.hash with
    | none => none
    | some (c, .error e) => some (c, .error e)
    | some (c, .ok data) =>
      match mergeItems T c rest with
      | none => none
      | some (c, .error e) => some (c, .error e)
      | some (c, .ok features) => some (c, .ok (⟨item.hash, item.offset, data⟩ :: features))

/-- `_get_cache_missing_items` and `_merge_mm_kwargs`; the items come modality by
modality. -/
def processRequest (T : CacheToolsOps) (c : LRUCache) (items : List Item) :
    Option (LRUCache × Py (List Feature)) :=
  let mmIsCached := items.map fun item => c.contains item.hash
  let c := items.foldl (fun c item => c.touch item.hash) c
  mergeItems T c (items.zip mmIsCached)

/-- `argsort_mm_positions`: the features in the order of their positions. -/
def sortFeatures (features : List Feature) : List Feature :=
  features.insertionSort fun f g => f.offset ≤ g.offset

/-- `MultiModalReceiverCache.get_and_update_item`. -/
def getAndUpdateReceiver (T : CacheToolsOps) (c : LRUCache) (item : Option Nat)
    (mmHash : MmHash) : Option (LRUCache × Py Unit) :=
  match T.get c mmHash with
  | (true, c) => some (c, .ok ())
  | (false, c) =>
    match item with
    | none => some (c, .error (.assertionError "Expected a cached item"))
    | some size =>
      match T.setItem c mmHash size with
      | none => none
      | some (c, none) => some (c, .ok ())
      | some (c, some e) => some (c, .error e)

/-- The second loop of `get_and_update_features`. -/
def updateFeatures (T : CacheToolsOps) : LRUCache → List Feature → Option (LRUCache × Py Unit)
  | c, [] => some (c, .ok ())
  | c, f :: rest =>
    match getAndUpdateReceiver T c f.data f.hash with
    | none => none
    | some (c, .error e) => some (c, .error e)
    | some (c, .ok ()) => updateFeatures T c rest

def getAndUpdateFeatures (T : CacheToolsOps) (c : LRUCache) (features : List Feature) :
    Option (LRUCache × Py Unit) :=
  updateFeatures T (features.foldl (fun c f => c.touch f.hash) c) features

/-! ## Runs -/

/-- Both caches, and the requests that are sent and not handled yet. -/
structure System where
  p0 : LRUCache
  p1 : LRUCache
  sent : List (List Feature) := []

/-- A step: P0 processes a request, which is then sent if validation accepts it, or P1
handles the next. -/
inductive Op
  | process (items : List Item) (accepted : Bool)
  | handle

namespace System

def init (maxsize : Nat) : System := ⟨{ maxsize := maxsize }, { maxsize := maxsize }, []⟩

/-- One step with its outcome, or nothing where a call does not return.  The caches keep
what was done before an exception. -/
def run (T : CacheToolsOps) (s : System) : Op → Option (System × Py Unit)
  | .process items accepted =>
    match processRequest T s.p0 items with
    | none => none
    | some (p0, .error e) => some ({ s with p0 := p0 }, .error e)
    | some (p0, .ok features) =>
      some ({ s with
        p0 := p0
        sent := if accepted then s.sent ++ [sortFeatures features] else s.sent }, .ok ())
  | .handle =>
    match s.sent with
    | [] => some (s, .ok ())
    | features :: sent =>
      match getAndUpdateFeatures T s.p1 features with
      | none => none
      | some (p1, outcome) => some ({ s with p1 := p1, sent := sent }, outcome)

def Step (T : CacheToolsOps) (cond : System → Op → Prop) (s t : System) : Prop :=
  ∃ op outcome, cond s op ∧ s.run T op = some (t, outcome)

end System

end VllmCore.MultiModalCache
