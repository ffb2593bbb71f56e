import QuorumDB.Lib.Bytes
import QuorumDB.Lib.ByteFile
import QuorumDB.Lib.LittleEndian
import QuorumDB.Lib.NetworkOrder
import QuorumDB.Lib.Program
import QuorumDB.Lib.Execution
import QuorumDB.Lib.Quorum
import QuorumDB.Lib.Sequence
import QuorumDB.Lib.Guards
import QuorumDB.Lib.Interleave
import QuorumDB.Lib.SearchWord
import QuorumDB.Lib.TermLog
import QuorumDB.Lib.Cut
import QuorumDB.Lib.Settle
import QuorumDB.Lib.Cursor
import QuorumDB.Lib.Recency
import QuorumDB.Lib.Refill
import QuorumDB.Lib.Simulation
import QuorumDB.Lib.Attain
import QuorumDB.Lib.Decimal
import QuorumDB.Lib.Cost
import QuorumDB.Lib.Workload
import QuorumDB.Rpc.Message
import QuorumDB.Rpc.MessageCodec
import QuorumDB.Rpc.Connection
import QuorumDB.Rpc.Exchange
import QuorumDB.Rpc.Lifecycle
import QuorumDB.Rpc.Stopping
import QuorumDB.Storage.Page
import QuorumDB.Storage.DiskManager
import QuorumDB.Storage.BufferPool
import QuorumDB.Storage.PoolView
import QuorumDB.Storage.Allocation
import QuorumDB.Storage.Loans
import QuorumDB.Storage.PoolClient
import QuorumDB.Storage.Node
import QuorumDB.Storage.PageCalls
import QuorumDB.Storage.Cells
import QuorumDB.Storage.PageRules
import QuorumDB.Storage.BPlusTree
import QuorumDB.Storage.TreeShape
import QuorumDB.Storage.TreeFinds
import QuorumDB.Storage.TreeRules
import QuorumDB.Storage.TreeWord
import QuorumDB.Storage.TreeOrder
import QuorumDB.Storage.TreeSearch
import QuorumDB.Storage.TreeRaise
import QuorumDB.Storage.TreeInsert
import QuorumDB.Storage.TreeMerge
import QuorumDB.Storage.TreeDelete
import QuorumDB.Storage.TreeStanding
import QuorumDB.Storage.TreeRun
import QuorumDB.Storage.TreeInvariant
import QuorumDB.Storage.Crowd
import QuorumDB.Storage.PoolCalls
import QuorumDB.Storage.PageOwners
import QuorumDB.Storage.FrameBook
import QuorumDB.Storage.LruList
import QuorumDB.Storage.LeastRecent
import QuorumDB.Storage.BlankPages
import QuorumDB.Storage.TreeSafe
import QuorumDB.Storage.TreeThrows
import QuorumDB.Storage.TreeIntact
import QuorumDB.Storage.WalManager
import QuorumDB.Storage.LogCodec
import QuorumDB.Storage.NodeCodec
import QuorumDB.Storage.WalRun
import QuorumDB.Storage.DiskRun
import QuorumDB.Storage.TreeWalk
import QuorumDB.Storage.TreeRounds
import QuorumDB.Storage.TreeCost
import QuorumDB.Query.Record
import QuorumDB.Query.Table
import QuorumDB.Query.TableRules
import QuorumDB.Query.TableRun
import QuorumDB.Query.QueryEngine
import QuorumDB.Query.Ownership
import QuorumDB.Query.Recovery
import QuorumDB.Query.Crash
import QuorumDB.Query.FailedWrites
import QuorumDB.Query.RecoverTwice
import QuorumDB.Query.Phases
import QuorumDB.Query.ConcurrentReads
import QuorumDB.Query.InsertKept
import QuorumDB.Raft.Node
import QuorumDB.Raft.Cluster
import QuorumDB.Raft.Handlers
import QuorumDB.Raft.Election
import QuorumDB.Raft.Log
import QuorumDB.Raft.Commit
import QuorumDB.Raft.Safety
import QuorumDB.Raft.Payload
import QuorumDB.Raft.NodeRun
import QuorumDB.Raft.StateMachine
import QuorumDB.Raft.Delivery
import QuorumDB.Raft.Replication
import QuorumDB.Raft.Permanence
import QuorumDB.Raft.Redelivery
import QuorumDB.Raft.CatchUp
import QuorumDB.Raft.LeaderCommit
import QuorumDB.Raft.PayloadCodec
import QuorumDB.Raft.CommandCodec
import QuorumDB.Raft.Term
import QuorumDB.Raft.MalformedCommand
import QuorumDB.Raft.History
import QuorumDB.Raft.Completeness
import QuorumDB.Raft.Reapply
import QuorumDB.Raft.Wire
import QuorumDB.Raft.WireRun
import QuorumDB.Raft.Server
import QuorumDB.Raft.Replicas
import QuorumDB.Raft.Campaign
import QuorumDB.Raft.Progress
import QuorumDB.Raft.PeerAddress
import QuorumDB.Raft.Restart
import QuorumDB.Raft.ProcessStop
import QuorumDB.Raft.Timers
import QuorumDB.Raft.ProcessEnd
import QuorumDB.Raft.Process
