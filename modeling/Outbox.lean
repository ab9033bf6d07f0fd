import Outbox.Database
import Outbox.Relay.Timed
import Outbox.Log.Filter
import Outbox.Notification
import Outbox.Schedule
import Outbox.Store.Seed
import Outbox.User.Document
import Outbox.User.Overflow
import Outbox.Proofs.Serial
import Outbox.Proofs.Coverage
import Outbox.Proofs.Lock
import Outbox.Proofs.Turn
import Outbox.Proofs.Footprint
import Outbox.Proofs.Atomic
import Outbox.Proofs.Places
import Outbox.Proofs.Accounting
import Outbox.Proofs.Progress
import Outbox.Proofs.InOrder
import Outbox.Proofs.Caps
import Outbox.Proofs.Clients
import Outbox.Proofs.Projections
import Outbox.Proofs.Drafts
import Outbox.Proofs.Races
import Outbox.Proofs.Reuse
import Outbox.Proofs.Announcement
import Outbox.Proofs.Sequence
import Outbox.Proofs.Commute
import Outbox.Proofs.Intake
import Outbox.Proofs.Serving
import Outbox.Proofs.Instant
import Outbox.Proofs.Lossless
import Outbox.Proofs.Batch
import Outbox.Proofs.Untold
import Outbox.Proofs.Mirror
import Outbox.Proofs.Bucket
import Outbox.Proofs.Settings
import Outbox.Proofs.Bookkeeping
import Outbox.Proofs.Seeding
import Outbox.Proofs.Reporting
