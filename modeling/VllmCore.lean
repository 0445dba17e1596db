import VllmCore.KVCacheManager.Admission
import VllmCore.Scheduler.ArrivalOrder
import VllmCore.Scheduler.InvalidBlocks
import VllmCore.Scheduler.PriorityRuns
import VllmCore.KVCacheManager.IdleReset
import VllmCore.KVCacheManager.HashConversion
import VllmCore.KVCacheManager.StoredEvents
import VllmCore.BlockPool.EventReplay
import VllmCore.KVCacheManager.Usage
import VllmCore.KVCacheManager.WindowSafety
import VllmCore.KVCacheManager.HybridHit
import VllmCore.KVCacheUtils.Layout
import VllmCore.KVCacheUtils.AutoFit
import VllmCore.KVOffload.ArcPolicy
import VllmCore.KVOffload.LoadCounts
import VllmCore.KVOffload.OffloadTransfer
import VllmCore.Worker.LogitsProcessor.Runs
import VllmCore.Worker.OutputHistory.Exact
import VllmCore.Attention.SplitBatch
import VllmCore.Attention.LocalAttention.Equivalence
import VllmCore.SerialUtils.RoundTrip
import VllmCore.MultiModalCache.Mirror
import VllmCore.ShmBroadcast.Delivery
import VllmCore.ShmObjectStorage.Lifetime
import VllmCore.SpecDecode.Lossless
import VllmCore.SpecDecode.NgramProposer
import VllmCore.Utils.LRUCache.Runs
import VllmCore.OutputProcessor.StopStrings.Batching
import VllmCore.OutputProcessor.Bookkeeping.Runs
import VllmCore.OutputProcessor.Runs
import VllmCore.StructuredOutput.Masks
import VllmCore.Eplb.RebalanceExecute.Weights
import VllmCore.Eplb.AsyncWorker.Runs
import VllmCore.Logprobs.ActsAsList
import VllmCore.Worker.UBatch.Preserves
import VllmCore.Scheduler.RunningOrder
import VllmCore.Scheduler.PrefillProgress
import VllmCore.Scheduler.MambaSplit
import VllmCore.Scheduler.EncoderRuns
import VllmCore.Scheduler.EncoderReferences
import VllmCore.ShmRingBuffer.Runs
import VllmCore.MultiModal.Placeholders.Inserted
import VllmCore.Worker.InputIds.Plain
import VllmCore.Eplb.DefaultPolicy.Valid
import VllmCore.RejectionSampler.TargetDistribution
import VllmCore.Scheduler.Repetition
import VllmCore.Worker.InputBatch.PoolingFlags
import VllmCore.Worker.LogitsProcessor.MinTokens
import VllmCore.Quantization.CompressedTensors
import VllmCore.Reasoning.ThinkTokens
