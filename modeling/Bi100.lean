import Bi100.CpuKv.Safety
import Bi100.Gdn.Agreement
import Bi100.Mamba.Restart
import Bi100.Lib.Run
import Bi100.Block.Partition
import Bi100.Vision.Placement
import Bi100.Serving.ReasoningAgree
import Bi100.Namespace.Injective
import Bi100.Namespace.Isolation
import Bi100.Lib.Budget
import Bi100.Block.Manager
import Bi100.Block.Laws
import Bi100.Block.CachingLaws
import Bi100.Block.NaiveLaws
import Bi100.Block.Chunks
import Bi100.Block.Tables
import Bi100.Block.TableOps
import Bi100.Block.Runs
import Bi100.Block.Windowed
import Bi100.Block.Tracker
import Bi100.Block.Admission
import Bi100.Block.Watermark
import Bi100.Gdn.DeltaRule
import Bi100.Gdn.DeltaChunks
import Bi100.Layerwise.Layout
import Bi100.Layerwise.Mapping
import Bi100.Layerwise.Memory
import Bi100.Layerwise.Estimate
import Bi100.Attention.Exact
import Bi100.Attention.Causal
import Bi100.Attention.Fused
import Bi100.Attention.SameTiles
import Bi100.Attention.GatherExact
import Bi100.Attention.Split4
import Bi100.Attention.QueryTiled
import Bi100.Attention.FusedExact
import Bi100.Attention.Split4Exact
import Bi100.Attention.QueryTiledExact
import Bi100.Moe.Placed
import Bi100.Moe.Correct
import Bi100.Moe.Agree
import Bi100.Moe.IndexExact
import Bi100.Router.Interchange
import Bi100.Dp.Coverage
import Bi100.Dp.MoeGather
import Bi100.Dp.Executor
import Bi100.CpuKv.Representation
import Bi100.Gdn.ConvState
import Bi100.Scheduler.Runs
import Bi100.Scheduler.ResumeIndependence
import Bi100.Block.Failure
import Bi100.CpuKv.Failure
import Bi100.Block.LruOrder
import Bi100.Block.FrequencyOrder
import Bi100.Scheduler.Reuse
import Bi100.Block.Computed
import Bi100.Lib.Moves
import Bi100.Transfer.BlockMajor
import Bi100.Transfer.Rows
import Bi100.Transfer.Pipeline
import Bi100.Transfer.Correct
import Bi100.Scheduler.Iterations
import Bi100.Scheduler.Requests
import Bi100.Scheduler.GdnEntries
import Bi100.Scheduler.TokenBudget
import Bi100.Sampling.SeededRuns
import Bi100.Sampling.Tensors
import Bi100.Engine.Registry
import Bi100.Tuning.SharedMemory
import Bi100.Gdn.CoreXAgree
import Bi100.Gdn.DecodeExact
import Bi100.Gdn.TensorParallel
import Bi100.Serving.ReasoningUsage
import Bi100.Attention.HeadGroups
import Bi100.Layerwise.Savings
import Bi100.Vision.WindowOrder
import Bi100.Worker.MropeRuns
import Bi100.Serving.ToolArguments
import Bi100.Block.TokenStore
import Bi100.Attention.Partitions
import Bi100.Worker.DeltaRuns
import Bi100.Sampling.LogprobRuns
import Bi100.Block.SharedBlocks
import Bi100.Gdn.LayerRuns
