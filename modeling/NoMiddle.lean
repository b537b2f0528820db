import NoMiddle.Library.Program
import NoMiddle.Library.Threads
import NoMiddle.Library.Table
import NoMiddle.Library.Rpc
import NoMiddle.Library.RpcRules
import NoMiddle.Library.RpcTrace
import NoMiddle.Library.RpcInvariant
import NoMiddle.Library.RpcTwins
import NoMiddle.Library.RpcTally
import NoMiddle.Library.Custody
import NoMiddle.Library.RpcCustody
import NoMiddle.Library.Replica
import NoMiddle.Library.Since
import NoMiddle.Library.Base64
import NoMiddle.Library.Latest
import NoMiddle.Library.Paths
import NoMiddle.Library.Beside
import NoMiddle.Library.Sweep
import NoMiddle.Text
import NoMiddle.Crypto
import NoMiddle.Sealing
import NoMiddle.Disk
import NoMiddle.Identity
import NoMiddle.DbManager
import NoMiddle.DbViews
import NoMiddle.Previews
import NoMiddle.Node
import NoMiddle.MessageDelivery
import NoMiddle.RetryWorker
import NoMiddle.Handlers
import NoMiddle.AuthHandlers
import NoMiddle.Sockets
import NoMiddle.Revocation
import NoMiddle.GroupHandlers
import NoMiddle.Network
import NoMiddle.Footprint
import NoMiddle.Conduct
import NoMiddle.ServedConduct
import NoMiddle.MessageConduct
import NoMiddle.RetryConduct
import NoMiddle.TaskConduct
import NoMiddle.Recall
import NoMiddle.Delivery
import NoMiddle.Status
import NoMiddle.Edits
import NoMiddle.Conversations
import NoMiddle.Pending
import NoMiddle.Deletion
import NoMiddle.Solo
import NoMiddle.PeerRoutes
import NoMiddle.PeerFrame
import NoMiddle.FanOut
import NoMiddle.Sequential
import NoMiddle.GroupMembership
import NoMiddle.Removal
import NoMiddle.Devices
import NoMiddle.DeviceViews
import NoMiddle.Approval
import NoMiddle.Locking
import NoMiddle.Registry
import NoMiddle.Credentials
import NoMiddle.Secrecy
import NoMiddle.Orphans
import NoMiddle.Faults
import NoMiddle.Statements
import NoMiddle.FailClosed
import NoMiddle.Rejection
import NoMiddle.MemberLists
import NoMiddle.RoundTrip
import NoMiddle.MemberEdits
import NoMiddle.Forgery
import NoMiddle.PartialEdit
import NoMiddle.WholeEdit
import NoMiddle.SerialEdits
import NoMiddle.Verbatim
import NoMiddle.GroupEdits
import NoMiddle.Targets
import NoMiddle.PassEffect
import NoMiddle.Copies
import NoMiddle.Convergence
import NoMiddle.GroupSends
import NoMiddle.GroupTables
import NoMiddle.FailedCalls
import NoMiddle.Authorship
import NoMiddle.SnapshotConduct
import NoMiddle.Snapshots
import NoMiddle.Retries
import NoMiddle.Effects
import NoMiddle.Confinement
import NoMiddle.Strangers
import NoMiddle.Retention
import NoMiddle.Forgetting
import NoMiddle.GroupFrame
import NoMiddle.GroupConvergence
import NoMiddle.GroupIsolation
import NoMiddle.Announcements
import NoMiddle.Patience
import NoMiddle.Frailty
import NoMiddle.Honesty
import NoMiddle.Reports
