import Mathlib.Data.Nat.Notation
/-!
# KV cache specifications

What a KV cache group stores for each block: the type of attention and the sizes
that determine its pages.  Block sizes, windows and chunks are positive.
-/

namespace VllmCore

structure DType where
  name : String
  itemsize : Nat
  deriving DecidableEq, Repr

/-- The fields of `AttentionSpec`. -/
structure AttentionShape where
  numKvHeads : Nat
  headSize : Nat
  dtype : DType
  pageSizePadded : Option Nat := none
  deriving DecidableEq, Repr

/-- When the state of a Mamba layer is cached. -/
inductive MambaCacheMode
  | none
  | all
  | align
  deriving DecidableEq, Repr

inductive SpecKind
  | fullAttention (shape : AttentionShape) (headSizeV : Nat)
      (slidingWindow attentionChunkSize : Option Nat)
  | mlaAttention (shape : AttentionShape) (headSizeV : Nat)
      (slidingWindow attentionChunkSize : Option Nat) (cacheDtypeStr : Option String)
  | sinkFullAttention (shape : AttentionShape) (headSizeV : Nat)
      (slidingWindow attentionChunkSize : Option Nat) (sinkLen : Option Nat)
  | slidingWindow (shape : AttentionShape) (window : Nat) (pos : 0 < window)
  | chunkedLocalAttention (shape : AttentionShape) (chunkSize : Nat) (pos : 0 < chunkSize)
  | mamba (shapes : List (List Nat)) (dtypes : List DType) (pageSizePadded : Option Nat)
      (mambaType : String) (cacheMode : MambaCacheMode) (numSpeculativeBlocks : Nat)
  | crossAttention (shape : AttentionShape)
  deriving DecidableEq

structure KVCacheSpec where
  blockSize : Nat
  kind : SpecKind
  blockSize_pos : 0 < blockSize
  deriving DecidableEq

namespace KVCacheSpec

/-- `isinstance(spec, FullAttentionSpec)`: the class or one of its subclasses. -/
def isFullAttention (s : KVCacheSpec) : Bool :=
  match s.kind with
  | .fullAttention .. | .mlaAttention .. | .sinkFullAttention .. => true
  | _ => false

/-- `type(spec) is FullAttentionSpec`. -/
def isPlainFullAttention (s : KVCacheSpec) : Bool :=
  match s.kind with
  | .fullAttention .. => true
  | _ => false

def isCrossAttention (s : KVCacheSpec) : Bool :=
  match s.kind with
  | .crossAttention .. => true
  | _ => false

def isMamba (s : KVCacheSpec) : Bool :=
  match s.kind with
  | .mamba .. => true
  | _ => false

end KVCacheSpec

end VllmCore
