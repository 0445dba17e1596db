import Mathlib.Data.Finset.Basic
import VllmCore.Support.Dict
/-!
# `LRUCache`

The cache of `vllm/utils/cache.py` over `cachetools.LRUCache`, with pinned items, statistics
and `touch`, which edits the order map of the base class.  Evictions choose from the order
map and remove from the data.
-/

namespace VllmCore.Utils

open Support

inductive CacheError (K : Type)
  /-- `ValueError`: Cannot pin key: {key} not in cache. -/
  | cannotPin (key : K)
  /-- `ValueError`: value too large -/
  | valueTooLarge
  /-- `RuntimeError`: All items are pinned, cannot remove oldest from the cache. -/
  | allPinned
  /-- `KeyError`. -/
  | keyError (key : K)
  /-- `StopIteration`. -/
  | stopIteration
  deriving DecidableEq

structure CacheInfo where
  hits : Nat
  total : Nat
  deriving DecidableEq

/-- An `LRUCache`.  `data`, `currsize` and `order` are those of the base class; `order` has
the least recently used key first. -/
structure LRUCache (K V : Type) [DecidableEq K] where
  maxsize : Nat
  data : Dict K V := .empty
  currsize : Nat := 0
  order : Dict K Unit := .empty
  pinnedItems : Finset K := ∅
  hits : Nat := 0
  total : Nat := 0
  lastInfo : CacheInfo := ⟨0, 0⟩

variable {K V : Type} [DecidableEq K]

/-- What the cache inherits: `__getitem__`, `__delitem__` and `__setitem__` of
`cachetools.LRUCache`.  The last calls `popitem` and need not return. -/
structure CacheToolsOps (K V : Type) [DecidableEq K] where
  getItem : LRUCache K V → K → LRUCache K V × Except (CacheError K) V
  delItem : LRUCache K V → K → LRUCache K V × Except (CacheError K) Unit
  setItem : LRUCache K V → K → V → Option (LRUCache K V × Except (CacheError K) Unit)

namespace LRUCache

/-- `key in self`. -/
def contains (c : LRUCache K V) (key : K) : Bool := c.data.contains key

def touch (c : LRUCache K V) (key : K) : LRUCache K V :=
  if key ∈ c.order.keys then { c with order := c.order.moveToEnd key }
  else { c with order := c.order.set key () }

/-- `_unpin`, for a key that is pinned. -/
def unpin (c : LRUCache K V) (key : K) : LRUCache K V :=
  { c with pinnedItems := c.pinnedItems.erase key }

def pin (c : LRUCache K V) (key : K) : LRUCache K V × Except (CacheError K) Unit :=
  if c.contains key then ({ c with pinnedItems := insert key c.pinnedItems }, .ok ())
  else (c, .error (.cannotPin key))

/-- `stat(delta)`. -/
def stat (c : LRUCache K V) (delta : Bool) : LRUCache K V × CacheInfo :=
  let info : CacheInfo := ⟨c.hits, c.total⟩
  if delta then
    ({ c with lastInfo := info }, ⟨info.hits - c.lastInfo.hits, info.total - c.lastInfo.total⟩)
  else (c, info)

/-- `__getitem__(key, update_info)`. -/
def getItem (T : CacheToolsOps K V) (c : LRUCache K V) (key : K) (updateInfo : Bool) :
    LRUCache K V × Except (CacheError K) V :=
  match T.getItem c key with
  | (c, .error e) => (c, .error e)
  | (c, .ok value) =>
    (if updateInfo then { c with hits := c.hits + 1, total := c.total + 1 } else c, .ok value)

def delItem (T : CacheToolsOps K V) (c : LRUCache K V) (key : K) :
    LRUCache K V × Except (CacheError K) Unit :=
  match getItem T c key false with
  | (c, .error e) => (c, .error e)
  | (c, .ok _) =>
    match T.delItem c key with
    | (c, .error e) => (c, .error e)
    | (c, .ok ()) => (if key ∈ c.pinnedItems then c.unpin key else c, .ok ())

/-- `get(key)`. -/
def get (T : CacheToolsOps K V) (c : LRUCache K V) (key : K) :
    LRUCache K V × Except (CacheError K) (Option V) :=
  if c.contains key then
    match getItem T c key false with
    | (c, .error e) => (c, .error e)
    | (c, .ok value) => ({ c with hits := c.hits + 1, total := c.total + 1 }, .ok (some value))
  else ({ c with total := c.total + 1 }, .ok none)

/-- `pop(key)`; a key that is not there is no error. -/
def pop (T : CacheToolsOps K V) (c : LRUCache K V) (key : K) :
    LRUCache K V × Except (CacheError K) (Option V) :=
  if c.contains key then
    match getItem T c key false with
    | (c, .error e) => (c, .error e)
    | (c, .ok value) =>
      match delItem T c key with
      | (c, .error e) => (c, .error e)
      | (c, .ok ()) => (c, .ok (some value))
  else (c, .ok none)

/-- The key that `popitem(remove_pinned)` chooses. -/
def lruKey (c : LRUCache K V) (removePinned : Bool) : Except (CacheError K) K :=
  if removePinned then
    match c.order.keys with
    | key :: _ => .ok key
    | [] => .error .stopIteration
  else
    match c.order.keys.find? (· ∉ c.pinnedItems) with
    | some key => .ok key
    | none => .error .allPinned

/-- `popitem(remove_pinned)`. -/
def popitem (T : CacheToolsOps K V) (c : LRUCache K V) (removePinned : Bool) :
    LRUCache K V × Except (CacheError K) (K × Option V) :=
  match c.lruKey removePinned with
  | .error e => (c, .error e)
  | .ok key =>
    match pop T c key with
    | (c, .error e) => (c, .error e)
    | (c, .ok value) => (c, .ok (key, value))

/-- `remove_oldest(remove_pinned)`. -/
def removeOldest (T : CacheToolsOps K V) (c : LRUCache K V) (removePinned : Bool) :
    LRUCache K V × Except (CacheError K) Unit :=
  if c.data.keys = [] then (c, .ok ())
  else
    match popitem T c removePinned with
    | (c, .error e) => (c, .error e)
    | (c, .ok _) => (c, .ok ())

/-- The loop of `clear`, cut off after so many iterations. -/
def clearLoop (T : CacheToolsOps K V) :
    Nat → LRUCache K V → Option (LRUCache K V × Except (CacheError K) Unit)
  | 0, _ => none
  | fuel + 1, c =>
    if c.data.keys = [] then
      some ({ c with hits := 0, total := 0, lastInfo := ⟨0, 0⟩ }, .ok ())
    else
      match removeOldest T c true with
      | (c, .error e) => some (c, .error e)
      | (c, .ok ()) => clearLoop T fuel c

end LRUCache

/-! ## `cachetools.LRUCache` as documented -/

namespace LRUCache

variable (getsizeof : V → Nat)

/-- The size of what is stored under a key. -/
def sizeAt (c : LRUCache K V) (key : K) : Nat := ((c.data.get? key).map getsizeof).getD 0

/-- Whether a value is stored under a new key or is larger than the one stored. -/
def grows (c : LRUCache K V) (key : K) (value : V) : Prop :=
  key ∉ c.data.keys ∨ c.sizeAt getsizeof key < getsizeof value

def evicts (c : LRUCache K V) (key : K) (value : V) : Prop :=
  c.grows getsizeof key value ∧ c.maxsize < c.currsize + getsizeof value

instance (c : LRUCache K V) (key : K) (value : V) : Decidable (c.evicts getsizeof key value) :=
  inferInstanceAs (Decidable ((_ ∨ _) ∧ _))

/-- A value is stored under a key, which is then the most recently used. -/
def store (c : LRUCache K V) (key : K) (value : V) : LRUCache K V :=
  { c.touch key with
    data := c.data.set key value
    currsize := c.currsize + getsizeof value - c.sizeAt getsizeof key }

def removed (c : LRUCache K V) (key : K) : LRUCache K V :=
  { c with
    data := c.data.erase key
    currsize := c.currsize - c.sizeAt getsizeof key
    order := c.order.erase key }

end LRUCache

open LRUCache in
/-- A key that is read is the most recently used, one that is removed is in neither map. -/
structure CacheItems (getsizeof : V → Nat) extends CacheToolsOps K V where
  getItem_present : ∀ c key value, c.data.get? key = some value →
    getItem c key = (c.touch key, .ok value)
  getItem_absent : ∀ c key, key ∉ c.data.keys → getItem c key = (c, .error (.keyError key))
  delItem_present : ∀ c key, key ∈ c.data.keys →
    delItem c key = (c.removed getsizeof key, .ok ())
  delItem_absent : ∀ c key, key ∉ c.data.keys → delItem c key = (c, .error (.keyError key))

open LRUCache in
/-- `__setitem__` refuses a value larger than the cache, and else calls `popitem` until there
is room: it does not return where `popitem` returns and changes nothing. -/
structure CacheTools (getsizeof : V → Nat) extends CacheItems (K := K) getsizeof where
  setItem_large : ∀ c key value, c.maxsize < getsizeof value →
    setItem c key value = some (c, .error .valueTooLarge)
  setItem_room : ∀ c key value, getsizeof value ≤ c.maxsize → ¬c.evicts getsizeof key value →
    setItem c key value = some (c.store getsizeof key value, .ok ())
  setItem_pop : ∀ c c' key value item, getsizeof value ≤ c.maxsize →
    c.evicts getsizeof key value → popitem toCacheToolsOps c false = (c', .ok item) →
    setItem c key value = setItem c' key value
  setItem_raise : ∀ c c' key value e, getsizeof value ≤ c.maxsize →
    c.evicts getsizeof key value → popitem toCacheToolsOps c false = (c', .error e) →
    setItem c key value = some (c', .error e)
  setItem_stuck : ∀ c key value item, getsizeof value ≤ c.maxsize →
    c.evicts getsizeof key value → popitem toCacheToolsOps c false = (c, .ok item) →
    setItem c key value = none

/-! ## Runs -/

namespace LRUCache

inductive Op (K V : Type)
  | setItem (key : K) (value : V)
  | getItem (key : K)
  | delItem (key : K)
  | get (key : K)
  | touch (key : K)
  | pop (key : K)
  | pin (key : K)
  | stat (delta : Bool)
  | popitem (removePinned : Bool)
  | removeOldest (removePinned : Bool)
  | clear

def outcome {α : Type} (r : LRUCache K V × Except (CacheError K) α) :
    LRUCache K V × Except (CacheError K) Unit :=
  (r.1, r.2.map fun _ => ())

/-- One call, with the loop of `clear` cut off after so many iterations.  `put` is
`__setitem__`. -/
def call (T : CacheToolsOps K V) (fuel : Nat) (c : LRUCache K V) :
    Op K V → Option (LRUCache K V × Except (CacheError K) Unit)
  | .setItem key value => T.setItem c key value
  | .getItem key => some (outcome (getItem T c key true))
  | .delItem key => some (delItem T c key)
  | .get key => some (outcome (get T c key))
  | .touch key => some (c.touch key, .ok ())
  | .pop key => some (outcome (pop T c key))
  | .pin key => some (c.pin key)
  | .stat delta => some ((c.stat delta).1, .ok ())
  | .popitem removePinned => some (outcome (popitem T c removePinned))
  | .removeOldest removePinned => some (removeOldest T c removePinned)
  | .clear => clearLoop T fuel c

def Ends (T : CacheToolsOps K V) (c : LRUCache K V) (op : Op K V)
    (r : LRUCache K V × Except (CacheError K) Unit) : Prop :=
  ∃ fuel, call T fuel c op = some r

/-- The order map has the keys of the data, and `currsize` is the sum of their sizes. -/
structure Consistent (getsizeof : V → Nat) (c : LRUCache K V) : Prop where
  keys : ∀ key, key ∈ c.order.keys ↔ key ∈ c.data.keys
  currsize : c.currsize = (c.data.values.map getsizeof).sum

/-- A run keeps the cache consistent, every call of it ends, and a `popitem` that returns
has removed one entry. -/
def Keeps (T : CacheToolsOps K V) (getsizeof : V → Nat) : LRUCache K V → List (Op K V) → Prop
  | c, [] => c.Consistent getsizeof
  | c, op :: ops =>
    c.Consistent getsizeof ∧ ∃ r, Ends T c op r ∧
      ((∃ removePinned, op = .popitem removePinned) → r.2 = .ok () →
        r.1.data.entries.length + 1 = c.data.entries.length) ∧
      Keeps T getsizeof r.1 ops

/-- Every `touch` of a run names a key that is in the cache when it comes. -/
def TouchesPresent (T : CacheToolsOps K V) : LRUCache K V → List (Op K V) → Prop
  | _, [] => True
  | c, op :: ops =>
    (∀ key, op = .touch key → key ∈ c.data.keys) ∧
      ∀ r, Ends T c op r → TouchesPresent T r.1 ops

end LRUCache

end VllmCore.Utils
