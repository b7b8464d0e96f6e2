import Opd.Clight.BucketAlignment
import Opd.Clight.Collator
import Opd.Clight.DataAcceptors
import Opd.Clight.OpdLoss
import Opd.Clight.ParquetWriter
import Opd.Clight.PromptPrefix
import Opd.Clight.Rpc
import Opd.Clight.Split665k
import Opd.Clight.SummonedNames
import Opd.Clight.SyncSession
import Opd.Clight.TokenTypes
import Opd.Clight.WeightVersion
import Opd.TeacherPaths
import Opd.Verl.AsyncRolloutRequest
import Opd.Verl.AutoPadding
import Opd.Verl.CheckpointRetention
import Opd.Verl.ChunkedGather
import Opd.Verl.DistillationParity
import Opd.Verl.DivisorPadding
import Opd.Verl.DynamicContextParallel
import Opd.Verl.FsdpMerger
import Opd.Verl.FullyAsyncRollouter
import Opd.Verl.FullyAsyncTrainer
import Opd.Verl.GemmaRoundTrip
import Opd.Verl.GroupBalance
import Opd.Verl.GroupCompletion
import Opd.Verl.HybridReplicas
import Opd.Verl.ImportanceWeights
import Opd.Verl.KimiReceive
import Opd.Verl.LabelShift
import Opd.Verl.MalformedCalls
import Opd.Verl.MessageQueue
import Opd.Verl.NcclBroadcast
import Opd.Verl.NoPadding
import Opd.Verl.OneStepOff
import Opd.Verl.OptimalTokenBaseline
import Opd.Verl.PipelineLayers
import Opd.Verl.PolicyLosses
import Opd.Verl.ProtoUnion
import Opd.Verl.QwenRoundTrip
import Opd.Verl.RankPlacement
import Opd.Verl.RateLimitedRewards
import Opd.Verl.ReplaySchedule
import Opd.Verl.ResumedDataset
import Opd.Verl.RowRepeat
import Opd.Verl.Sampling
import Opd.Verl.Serialization
import Opd.Verl.SftDataset
import Opd.Verl.SftLoss
import Opd.Verl.TensordictRows
import Opd.Verl.TokenAdvantage
import Opd.Verl.TokenBucket
import Opd.Verl.TokenBudget
import Opd.Verl.ToolAgentTermination
import Opd.Verl.ToolCallReward
import Opd.Verl.ValidationInfos
import Opd.Verl.VeomniEngine
import Opd.Clight.WeightItems
import Opd.Verl.StickyServers
import Opd.Verl.KlControl
import Opd.Verl.LayerMap
