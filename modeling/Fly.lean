import Fly.Lib.Ieee
import Fly.Lib.Run
import Fly.Lib.Table
import Fly.Task.DependencyGraph
import Fly.Task.TaskSlot
import Fly.Task.Readiness
import Fly.Task.Requeue
import Fly.Task.WorkerManager
import Fly.Task.Scheduler
import Fly.Agent.IdxLoad
import Fly.Agent.TaskIds
import Fly.Agent.MergeCleanup
import Fly.Agent.Liveness
import Fly.Agent.Master
import Fly.Agent.NoTaskLost
import Fly.Agent.TerminalStates
import Fly.Agent.OneTask
import Fly.Lib.Bytes
import Fly.Lib.Frames
import Fly.Lib.Segments
import Fly.Storage.IndexLog
import Fly.Storage.LocalIndex
import Fly.Storage.DataWriter
import Fly.Lib.Pull
import Fly.Storage.Pipeline
import Fly.Storage.StreamRead
import Fly.Storage.Record
import Fly.Storage.MemorySource
import Fly.Storage.RoundTrip
import Fly.Storage.DataService
import Fly.Storage.Backup
import Fly.Agent.WorkerTask
import Fly.Agent.TaskAtomicity
import Fly.Agent.FreezeProtocol
import Fly.Agent.DuplicateWrite
import Fly.Agent.FailedTasks
import Fly.Agent.RestartFailedTasks
import Fly.Storage.Integrity
import Fly.Storage.Streaming
import Fly.Storage.NetworkSource
import Fly.Storage.ByteQueue
import Fly.Storage.Reassembly
import Fly.Agent.MasterLink
import Fly.Agent.PendingReports
import Fly.Agent.PendingRpcMap
import Fly.Agent.SyncCalls
import Fly.Agent.VarCache
import Fly.Agent.PeerFrames
import Fly.Agent.PeerSends
import Fly.Agent.PeerRpcCalls
import Fly.Agent.PeerStreamWriter
import Fly.Agent.PeerStreamDelivery
import Fly.Agent.PeerStreamReceive
import Fly.Agent.PeerStreams
import Fly.Lib.Lanes
import Fly.Network.Poll
import Fly.Network.SendBuffer
import Fly.Network.ReactorDispatch
import Fly.Network.ReactorFaults
import Fly.Network.ReceiveChunked
import Fly.Core.Config
import Fly.Lib.Dataflow
import Fly.MapReduce.Cleanup
import Fly.Task.DbArgs
import Fly.Agent.Removal
import Fly.Agent.RemovalCondition
import Fly.Agent.RemovalFinal
import Fly.Design.FakeCells
import Fly.Agent.FailedTaskLog
import Fly.Task.HeartbeatMonitor
import Fly.Task.TaskTables
import Fly.Storage.ReplicaRead
import Fly.Storage.LocalRecords
import Fly.Design.LayerNames
import Fly.Design.Transform
import Fly.Design.Verify
import Fly.Design.NetsPath
import Fly.Solver.SetupCompute
