import VllmCore.Support.PySlice
import VllmCore.Support.Dict
/-!
# Log probabilities of a request

`FlatLogprobs` of `logprobs.py` keeps the log probabilities of all positions in four flat
lists, with two lists of indices for the positions, and is to be used like a list of
dictionaries.
-/

namespace VllmCore.Logprobs

open Support

variable {L : Type}

/-- `Logprob`; `L` is the type of the log probabilities. -/
structure Logprob (L : Type) where
  logprob : L
  rank : Option Int := none
  decodedToken : Option String := none
  deriving DecidableEq

abbrev LogprobsOnePosition (L : Type) := Dict Int (Logprob L)

/-- A dictionary comprehension: of two entries with one key the later value stays, where
the first stood. -/
def ofEntries (entries : List (Int × Logprob L)) : LogprobsOnePosition L :=
  entries.foldl (fun d e => d.set e.1 e.2) .empty

structure FlatLogprobs (L : Type) where
  startIndices : List Int := []
  endIndices : List Int := []
  tokenIds : List Int := []
  logprobs : List L := []
  ranks : List (Option Int) := []
  decodedTokens : List (Option String) := []
  deriving DecidableEq

/-- `zip(token_ids, logprobs, ranks, decoded_tokens)`, which ends with the shortest. -/
def zipEntries : List Int → List L → List Int → List (Option String) → List (Int × Logprob L)
  | token :: tokenIds, logprob :: logprobs, rank :: ranks, decoded :: decodedTokens =>
    (token, ⟨logprob, some rank, decoded⟩) ::
      zipEntries tokenIds logprobs ranks decodedTokens
  | _, _, _, _ => []

namespace FlatLogprobs

/-- One turn of the loops of `append` and `append_fast`. -/
def pushEntry (f : FlatLogprobs L) (e : Int × Logprob L) : FlatLogprobs L :=
  { f with
    tokenIds := f.tokenIds ++ [e.1]
    logprobs := f.logprobs ++ [e.2.logprob]
    ranks := f.ranks ++ [e.2.rank]
    decodedTokens := f.decodedTokens ++ [e.2.decodedToken] }

def appendEntries (f : FlatLogprobs L) (entries : List (Int × Logprob L)) : FlatLogprobs L :=
  let f := { f with startIndices := f.startIndices ++ [(f.logprobs.length : Int)] }
  let f := entries.foldl pushEntry f
  { f with endIndices := f.endIndices ++ [(f.logprobs.length : Int)] }

/-- `append`: nothing is stored for none. -/
def append (f : FlatLogprobs L) : Option (LogprobsOnePosition L) → FlatLogprobs L
  | none => f.appendEntries []
  | some logprobsOnePosition => f.appendEntries logprobsOnePosition.entries

def appendFast (f : FlatLogprobs L) (tokenIds : List Int) (logprobs : List L)
    (ranks : List Int) (decodedTokens : List (Option String)) : FlatLogprobs L :=
  f.appendEntries (zipEntries tokenIds logprobs ranks decodedTokens)

def extend (f : FlatLogprobs L) (logprobsMultiPositions : List (Option (LogprobsOnePosition L))) :
    FlatLogprobs L :=
  logprobsMultiPositions.foldl append f

def len (f : FlatLogprobs L) : Nat := f.startIndices.length

/-- The key and the value that the comprehension of `__getitem__` makes of an index. -/
def entryAt (f : FlatLogprobs L) (i : Int) : Py (Int × Logprob L) := do
  let tokenId ← pyGet f.tokenIds i
  let logprob ← pyGet f.logprobs i
  let rank ← pyGet f.ranks i
  let decodedToken ← pyGet f.decodedTokens i
  return (tokenId, ⟨logprob, rank, decodedToken⟩)

/-- `__getitem__` of an index. -/
def getItem (f : FlatLogprobs L) (index : Int) : Py (LogprobsOnePosition L) := do
  let start ← pyGet f.startIndices index
  let stop ← pyGet f.endIndices index
  let entries ← (pyRange start stop 1).mapM f.entryAt
  return ofEntries entries

/-- `__getitem__` of a slice. -/
def getSlice (f : FlatLogprobs L) (index : PySlice) : Py (FlatLogprobs L) := do
  let starts ← index.get f.startIndices
  let minIndex ← pyGet starts 0
  let ends ← index.get f.endIndices
  let maxIndex ← pyGet ends (-1)
  -- Shift the indices to be 0-indexed.
  return {
    startIndices := starts.map (· - minIndex)
    endIndices := ends.map (· - minIndex)
    tokenIds := pySlice f.tokenIds minIndex maxIndex
    logprobs := pySlice f.logprobs minIndex maxIndex
    ranks := pySlice f.ranks minIndex maxIndex
    decodedTokens := pySlice f.decodedTokens minIndex maxIndex }

def iter (f : FlatLogprobs L) : Py (List (LogprobsOnePosition L)) :=
  (List.range f.startIndices.length).mapM fun i : Nat => f.getItem i

end FlatLogprobs

/-! ## The next position of a request -/

/-- The arguments of `append_logprobs_for_next_position`. -/
structure NextPosition (L : Type) where
  tokenIds : List Int
  logprobs : List L
  decodedTokens : List (Option String)
  rank : Int
  numLogprobs : Int

/-- `ranks`: that of the sampled token, then those of the top tokens. -/
def NextPosition.ranks (a : NextPosition L) : List Int :=
  let numLogprobs := if a.numLogprobs = -1 then (a.logprobs.length : Int) else a.numLogprobs
  a.rank :: pyRange 1 (numLogprobs + 1) 1

/-- `append_logprobs_for_next_position`, into flat lists. -/
def appendLogprobsForNextPositionFlat (requestLogprobs : FlatLogprobs L) (a : NextPosition L) :
    FlatLogprobs L :=
  requestLogprobs.appendFast a.tokenIds a.logprobs a.ranks a.decodedTokens

/-- `append_logprobs_for_next_position`, into a list of dictionaries. -/
def appendLogprobsForNextPosition (requestLogprobs : List (LogprobsOnePosition L))
    (a : NextPosition L) : List (LogprobsOnePosition L) :=
  requestLogprobs ++ [ofEntries (zipEntries a.tokenIds a.logprobs a.ranks a.decodedTokens)]

inductive Op (L : Type)
  | append (logprobsOnePosition : LogprobsOnePosition L)
  | appendNext (a : NextPosition L)
  | extend (logprobsMultiPositions : List (LogprobsOnePosition L))

def Op.runFlat (f : FlatLogprobs L) : Op L → FlatLogprobs L
  | .append d => f.append (some d)
  | .appendNext a => appendLogprobsForNextPositionFlat f a
  | .extend ds => f.extend (ds.map some)

def Op.runList (rows : List (LogprobsOnePosition L)) : Op L → List (LogprobsOnePosition L)
  | .append d => rows ++ [d]
  | .appendNext a => appendLogprobsForNextPosition rows a
  | .extend ds => rows ++ ds

end VllmCore.Logprobs
