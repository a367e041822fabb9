import EventTransfer.Lib.StoreProgram
import EventTransfer.Lib.StepRun
import EventTransfer.Lib.Wire
import EventTransfer.Lib.Overwrite
import EventTransfer.Lib.Exchange
import EventTransfer.Lib.LinkedHeap
import EventTransfer.Lib.DoublyLinked
import EventTransfer.Lib.Places
import EventTransfer.Lib.Blocks
import EventTransfer.Lib.Rounding
import EventTransfer.Lib.Regions
import EventTransfer.Lib.Queues
import EventTransfer.Lib.Chunks
import EventTransfer.Event
import EventTransfer.OutputList
import EventTransfer.OutputWrite
import EventTransfer.OutputRepair
import EventTransfer.InputList
import EventTransfer.InputRepair
import EventTransfer.InputRead
import EventTransfer.GroupRead
import EventTransfer.GcList
import EventTransfer.GcRepair
import EventTransfer.BatchedWrites
import EventTransfer.Station
import EventTransfer.StationChain
import EventTransfer.StationGroups
import EventTransfer.StationLink
import EventTransfer.StationSearch
import EventTransfer.StationPosition
import EventTransfer.StationRun
import EventTransfer.StationSetters
import EventTransfer.StationPlaces
import EventTransfer.StationRepair
import EventTransfer.StationRecovery
import EventTransfer.HeartMonitor
import EventTransfer.RemoteCall
import EventTransfer.RemoteEvent
import EventTransfer.RemoteServer
import EventTransfer.RemoteHistogram
import EventTransfer.RemoteTransfer
import EventTransfer.RemoteThreads
import EventTransfer.Snapshot
import EventTransfer.SnapshotRoundTrip
import EventTransfer.SnapshotRoom
import EventTransfer.WakeUp
import EventTransfer.Restore
import EventTransfer.InputQueue
import EventTransfer.PriorityMerge
import EventTransfer.BlockingRead
import EventTransfer.RemoteTimeouts
import EventTransfer.TcpHelpers
import EventTransfer.EventCalls
import EventTransfer.FailedCalls
import EventTransfer.EventRuns
import EventTransfer.EventMoves
import EventTransfer.PriorityRuns
import EventTransfer.EventJourney
import EventTransfer.Fifo
import EventTransfer.FifoCalls
import EventTransfer.FifoRuns
import EventTransfer.AttachmentTables
import EventTransfer.AttachmentCalls
import EventTransfer.AttachmentRepair
import EventTransfer.AttachmentCrash
import EventTransfer.AttachmentDeath
import EventTransfer.AttachmentRuns
import EventTransfer.IdleStations
import EventTransfer.JavaEventList
import EventTransfer.Fencing
import EventTransfer.JavaWakeUp
import EventTransfer.JavaConductor
import EventTransfer.JavaDistribution
import EventTransfer.JavaPass
import EventTransfer.JavaStations
import EventTransfer.JavaStationPlaces
import EventTransfer.JavaStationRun
import EventTransfer.JavaPositions
import EventTransfer.JavaServer
import EventTransfer.JavaOwnership
import EventTransfer.StationConductors
import EventTransfer.JavaEvents
import EventTransfer.JavaClient
import EventTransfer.JavaGetting
import EventTransfer.JavaGetReply
import EventTransfer.JavaPutting
import EventTransfer.JavaBuffers
import EventTransfer.JavaPutStream
import EventTransfer.JavaReplies
import EventTransfer.Conductor
import EventTransfer.ConductorCues
import EventTransfer.ConductorTurns
import EventTransfer.ConductorRotation
import EventTransfer.ConductorChain
import EventTransfer.Discovery
import EventTransfer.DiscoveryReplies
import EventTransfer.TempAccounting
import EventTransfer.ConductorPass
import EventTransfer.JavaPrescale
import EventTransfer.JavaGroupRead
import EventTransfer.JavaListOrder
import EventTransfer.RefusedPuts
import EventTransfer.JavaRemoval
import EventTransfer.Lib.JavaInt
import EventTransfer.JavaBytes
import EventTransfer.ShellSort
import EventTransfer.JavaSubnet
import EventTransfer.AddressOrder
import EventTransfer.JavaTimeouts
import EventTransfer.SystemConfig
import EventTransfer.ServerChoice
import EventTransfer.Closing
import EventTransfer.MemoryLayout
import EventTransfer.StoredLists
