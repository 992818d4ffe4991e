import Signalium.Lib.Runs
import Signalium.Lib.Tables
import Signalium.Lib.Buffers
import Signalium.Lib.Places
import Signalium.Lib.Paths
import Signalium.Lib.Disks
import Signalium.Lib.Replies
import Signalium.Domain.Message
import Signalium.Repo.Statements
import Signalium.Repo.Transitions
import Signalium.Repo.Schedulable
import Signalium.Repo.Attempts
import Signalium.Repo.Revive
import Signalium.Repo.Independent
import Signalium.Signal.Wire
import Signalium.Signal.Params
import Signalium.Worker.Dispatch
import Signalium.Worker.Steps
import Signalium.Worker.SingleFlight
import Signalium.Worker.Terminal
import Signalium.Worker.Duplicates
import Signalium.Worker.Reports
import Signalium.Worker.Recorded
import Signalium.Worker.Expiry
import Signalium.Signal.Client
import Signalium.Signal.Moves
import Signalium.Signal.Demux
import Signalium.Signal.Connections
import Signalium.Signal.Shutdown
import Signalium.Signal.Disconnect
import Signalium.Signal.Teardown
import Signalium.Signal.Lifecycle
import Signalium.Service.Filename
import Signalium.Service.Enqueue
import Signalium.Service.Moves
import Signalium.Service.Idempotency
import Signalium.Service.Insertable
import Signalium.Storage.ObjectStore
import Signalium.Storage.Staging
import Signalium.Storage.Isolation
import Signalium.Db.Atlas
import Signalium.Db.Migrate
import Signalium.Db.Ordered
import Signalium.Delivery.System
import Signalium.Delivery.NoFalseSent
import Signalium.Handler.Operator
import Signalium.Handler.Errors
import Signalium.Delivery.Pipeline
import Signalium.Delivery.ReplyTo
import Signalium.Delivery.Attachments
import Signalium.Db.Complete
import Signalium.Delivery.Targets
import Signalium.Delivery.Accepted
import Signalium.Lib.Firsts
import Signalium.Service.Envelope
import Signalium.Service.Inbound
import Signalium.Service.Listener
import Signalium.Delivery.Requests
import Signalium.Delivery.AllOrNothing
import Signalium.Delivery.Orphans
import Signalium.Handler.Multipart
import Signalium.Handler.Malformed
import Signalium.Signal.Events
import Signalium.Signal.Pacing
import Signalium.Storage.Confinement
import Signalium.Db.Checksums
import Signalium.Lib.Chains
import Signalium.Lib.Pages
import Signalium.Repo.Listing
import Signalium.Handler.Listing
import Signalium.Handler.Pagination
import Signalium.Delivery.Inserted
import Signalium.Delivery.Limits
import Signalium.Delivery.Identity
import Signalium.Handler.Truncated
import Signalium.Lib.Patterns
import Signalium.Repo.Search
import Signalium.Signal.HttpClient
import Signalium.Signal.Retries
import Signalium.Lib.Trees
import Signalium.Worker.Cleanup
import Signalium.Storage.Swept
import Signalium.Worker.Waiting
import Signalium.Worker.Goroutines
import Signalium.Worker.Workload
import Signalium.Signal.Frames
import Signalium.Delivery.Wired
import Signalium.Delivery.AtMostOnce
import Signalium.Delivery.Inbox
import Signalium.Delivery.Outbound
