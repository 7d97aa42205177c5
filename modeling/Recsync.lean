import Recsync.Lib.Additions
import Recsync.Lib.Arrivals
import Recsync.Lib.Attempts
import Recsync.Lib.Bytes
import Recsync.Lib.Chunks
import Recsync.Lib.Collections
import Recsync.Lib.Deferred
import Recsync.Lib.Edges
import Recsync.Lib.Inet
import Recsync.Lib.Ownership
import Recsync.Lib.Paging
import Recsync.Lib.Program
import Recsync.Lib.Runs
import Recsync.Lib.Stateful
import Recsync.Lib.Tables
import Recsync.Lib.Text
import Recsync.Lib.Transfer
import Recsync.Cf.Model
import Recsync.Cf.Bookkeeping
import Recsync.Cf.BookkeepingInvariant
import Recsync.Cf.BookkeepingUpdate
import Recsync.Cf.Store
import Recsync.Cf.Queries
import Recsync.Cf.Update
import Recsync.Cf.UpdateWrites
import Recsync.Cf.Setup
import Recsync.Cf.Commit
import Recsync.Cf.Records
import Recsync.Cf.Owners
import Recsync.Cf.Agreement
import Recsync.Cf.Eviction
import Recsync.Cf.Disconnect
import Recsync.Cf.Retry
import Recsync.Cf.Deletion
import Recsync.Cf.RecommitWrites
import Recsync.Cf.LastWrite
import Recsync.Cf.Recommit
import Recsync.Cf.Frame
import Recsync.Cf.Adapter
import Recsync.Cf.Requests
import Recsync.Cf.SweepWrites
import Recsync.Cf.Sweep
import Recsync.Cf.Threads
import Recsync.Cf.Stop
import Recsync.Cf.Reports
import Recsync.Cf.Clean
import Recsync.Cf.Forgotten
import Recsync.Protocol.Messages
import Recsync.Protocol.Codec
import Recsync.Protocol.Announce
import Recsync.Client.Caster
import Recsync.Client.Database
import Recsync.Client.UploadPlan
import Recsync.Client.UploadStatus
import Recsync.Client.Excluded
import Recsync.Client.Udp
import Recsync.Client.ReadAlike
import Recsync.Recast.Receiver
import Recsync.Recast.Session
import Recsync.Recast.CommitChain
import Recsync.Recast.Batching
import Recsync.Recast.Groups
import Recsync.Recast.Sources
import Recsync.Recast.Deleted
import Recsync.Cf.Batches
import Recsync.Cf.Mirror
import Recsync.Cf.Foreign
import Recsync.Cf.Registered
import Recsync.Cf.ReplyOrder
import Recsync.Cf.Takeover
import Recsync.Cf.BatchedUpload
import Recsync.Cf.BatchingDependent
import Recsync.Cf.Server
import Recsync.Cf.Reconnect
import Recsync.Db.Model
import Recsync.Db.Rows
import Recsync.Db.Commits
import Recsync.Db.Clients
import Recsync.Db.Follows
import Recsync.Db.History
import Recsync.Db.Mirrors
import Recsync.Db.Uploads
import Recsync.Recast.Frames
import Recsync.Client.Receive
import Recsync.Recast.Ignored
import Recsync.Recast.Connection
import Recsync.Recast.Keepalive
import Recsync.Recast.Throttle
import Recsync.Recast.Controller
import Recsync.Recast.Malformed
import Recsync.Protocol.Upload
import Recsync.Client.Sockhelpers
import Recsync.Client.Timeout
import Recsync.Client.Configure
import Recsync.Client.CasterThread
import Recsync.Client.RecordIds
import Recsync.Cf.Limits
import Recsync.Lib.Visits
import Recsync.Recast.Interrupted
import Recsync.Cf.Serving
import Recsync.System.Letters
import Recsync.System.Link
import Recsync.System.InStep
import Recsync.System.Progress
import Recsync.System.Database
import Recsync.System.Sent
import Recsync.System.Registered
import Recsync.System.Fleet
import Recsync.System.Directory
import Recsync.Cf.SweepFaults
import Recsync.Cf.Marks
import Recsync.System.Restart
import Recsync.Lib.Regions
import Recsync.Cf.Properties
import Recsync.Cf.Territory
import Recsync.Cf.Recceivers
import Recsync.Recast.PingTimer
import Recsync.System.Upkeep
import Recsync.System.Archive
import Recsync.Recast.Announcer
import Recsync.System.Discovery
import Recsync.Recast.Show
