import MarketDataHandler.Lib.PackedCodec
import MarketDataHandler.Lib.ByteBuffer
import MarketDataHandler.Lib.Mealy
import MarketDataHandler.Lib.StreamScanner
import MarketDataHandler.Lib.ByteLanes
import MarketDataHandler.Lib.VersionedWriter
import MarketDataHandler.Lib.Interleaving
import MarketDataHandler.Lib.PointerChain
import MarketDataHandler.Lib.HandleLedger
import MarketDataHandler.Lib.ResidueWindow
import MarketDataHandler.Lib.OrderStatistics
import MarketDataHandler.Protocol
import MarketDataHandler.Checksum
import MarketDataHandler.ChecksumAlgebra
import MarketDataHandler.MemoryPool
import MarketDataHandler.PoolStack
import MarketDataHandler.PoolHistory
import MarketDataHandler.Server.TickGenerator
import MarketDataHandler.Server.Broadcast
import MarketDataHandler.Server.ExchangeSimulator
import MarketDataHandler.Server.RunLoop
import MarketDataHandler.Server.Bookkeeping
import MarketDataHandler.Server.ServerProgram
import MarketDataHandler.Server.ClientManager
import MarketDataHandler.Server.ManagerAccounts
import MarketDataHandler.Server.ManagerDescriptors
import MarketDataHandler.Server.BroadcastAgreement
import MarketDataHandler.Server.Isolation
import MarketDataHandler.Server.Pacing
import MarketDataHandler.Server.LongRun
import MarketDataHandler.Server.EdgeTriggered
import MarketDataHandler.Server.SymbolSchedule
import MarketDataHandler.Server.MessageMix
import MarketDataHandler.Server.SequenceNumbers
import MarketDataHandler.Client.Parser
import MarketDataHandler.Client.ReferenceScanner
import MarketDataHandler.Client.ReceiveLoop
import MarketDataHandler.Client.Socket
import MarketDataHandler.Client.SocketDescriptors
import MarketDataHandler.Client.RetrySchedule
import MarketDataHandler.Client.BufferDiscipline
import MarketDataHandler.Client.FrameStream
import MarketDataHandler.Client.GarbageSkipping
import MarketDataHandler.Client.SequenceGaps
import MarketDataHandler.Client.Corruption
import MarketDataHandler.Client.Resynchronisation
import MarketDataHandler.Client.SymbolCache
import MarketDataHandler.Client.Snapshot
import MarketDataHandler.Client.SnapshotRegularity
import MarketDataHandler.Client.Visualizer
import MarketDataHandler.Client.CacheSemantics
import MarketDataHandler.Client.LatencyTracker
import MarketDataHandler.Client.ConcurrentRecord
import MarketDataHandler.Client.ConcurrentStats
import MarketDataHandler.Client.Percentiles
import MarketDataHandler.Client.MergeTrackers
import MarketDataHandler.Client.HistogramExport
import MarketDataHandler.Client.FeedHandler
import MarketDataHandler.Client.LatencySummary
import MarketDataHandler.Client.MergedExtremes
import MarketDataHandler.Client.FinalStatistics
import MarketDataHandler.Client.CacheBounds
import MarketDataHandler.Client.TypeChange
import MarketDataHandler.Client.Overflow
import MarketDataHandler.Client.AcceptedFrames
import MarketDataHandler.Client.ProgramRuns
import MarketDataHandler.EndToEnd.GapReport
import MarketDataHandler.EndToEnd.FeedSystem
import MarketDataHandler.EndToEnd.Delivery
import MarketDataHandler.EndToEnd.CacheAgreement
import MarketDataHandler.EndToEnd.Dashboard
