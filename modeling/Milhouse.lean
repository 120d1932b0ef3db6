import Milhouse.Alerts.BatchId
import Milhouse.Alerts.Commit
import Milhouse.Alerts.Engine
import Milhouse.Alerts.Frontier
import Milhouse.Alerts.Notified
import Milhouse.Alerts.Pipeline
import Milhouse.Alerts.Records
import Milhouse.Alerts.RuleState
import Milhouse.Alerts.Trace
import Milhouse.Core.Canonical
import Milhouse.Core.CanonicalFloat
import Milhouse.Core.CanonicalNormal
import Milhouse.Core.Clock
import Milhouse.Core.Timestamp
import Milhouse.Domain.Dump
import Milhouse.Domain.Finalize
import Milhouse.Domain.Identity
import Milhouse.Http.Addresses
import Milhouse.Http.Attempts
import Milhouse.Http.Client
import Milhouse.Lib.Disk
import Milhouse.Lib.Fallible
import Milhouse.Lib.Find
import Milhouse.Lib.Flock
import Milhouse.Lib.Interaction
import Milhouse.Lib.Json
import Milhouse.Lib.Lines
import Milhouse.Lib.Mapped
import Milhouse.Lib.Numeral
import Milhouse.Lib.Pool
import Milhouse.Lib.PrefixTrie
import Milhouse.Lib.PyJson
import Milhouse.Lib.Radix
import Milhouse.Lib.Refinement
import Milhouse.Lib.Replacing
import Milhouse.Lib.Settling
import Milhouse.Lib.Sorted
import Milhouse.Lib.Spans
import Milhouse.Lib.Spelling
import Milhouse.Lib.Text
import Milhouse.Lib.Transition
import Milhouse.Lib.Utf8
import Milhouse.Lib.Versions
import Milhouse.Logs.Closed
import Milhouse.Logs.Codec
import Milhouse.Logs.Directory
import Milhouse.Logs.Event
import Milhouse.Logs.Frames
import Milhouse.Logs.Maintenance
import Milhouse.Logs.Retire
import Milhouse.Logs.Store
import Milhouse.Logs.Wire
import Milhouse.Outbox.Collector
import Milhouse.Outbox.Continuity
import Milhouse.Outbox.Delivery
import Milhouse.Outbox.Frame
import Milhouse.Outbox.Position
import Milhouse.Outbox.Producer
import Milhouse.Outbox.ReadStream
import Milhouse.Outbox.Reader
import Milhouse.Outbox.ReaderOutcome
import Milhouse.Outbox.RecordIdentity
import Milhouse.Outbox.Stream
import Milhouse.Privacy.Allowlist
import Milhouse.Privacy.AllowlistSafety
import Milhouse.Privacy.KnownSecrets
import Milhouse.Privacy.Redact
import Milhouse.Privacy.Render
import Milhouse.Privacy.Secrets
import Milhouse.Privacy.Settle
import Milhouse.Privacy.Views
import Milhouse.Spool.Acknowledge
import Milhouse.Spool.Change
import Milhouse.Spool.Commit
import Milhouse.Spool.Cursors
import Milhouse.Spool.Deliver
import Milhouse.Spool.DeliveryLedger
import Milhouse.Spool.DeliveryPhase
import Milhouse.Spool.Durability
import Milhouse.Spool.Healthy
import Milhouse.Spool.Held
import Milhouse.Spool.HeldMove
import Milhouse.Spool.HeldPass
import Milhouse.Spool.Interference
import Milhouse.Spool.Inventory
import Milhouse.Spool.Kept
import Milhouse.Spool.KeptPass
import Milhouse.Spool.Ledger
import Milhouse.Spool.Names
import Milhouse.Spool.Operations
import Milhouse.Spool.Quarantine
import Milhouse.Spool.Reconcile
import Milhouse.Spool.Records
import Milhouse.Spool.Replay
import Milhouse.Spool.Retention
import Milhouse.Spool.RetentionAgreement
import Milhouse.Spool.Segment
import Milhouse.Spool.Spared
import Milhouse.Spool.Store
import Milhouse.Spool.System
import Milhouse.Spool.Verify
import Milhouse.Spool.VerifyAgreement
import Milhouse.Spool.Wire
import Milhouse.Spool.WireFormat
import Milhouse.Spool.WireHeader
import Milhouse.Spool.WireIdentity
import Milhouse.Spool.WireLines
import Milhouse.Spool.WireRead
import Milhouse.Spool.WireReplay
import Milhouse.Spool.WireRoundTrip
import Milhouse.Spool.WireSound
import Milhouse.Spool.WireTrust
import Milhouse.Spool.WireValues
import Milhouse.State.Barrier
import Milhouse.State.BarrierDiscipline
import Milhouse.State.BarrierExclusion
import Milhouse.State.Database
import Milhouse.State.LeaseFencing
import Milhouse.State.Leases
import Milhouse.State.MigrationSafety
import Milhouse.Storage.Export
import Milhouse.Storage.MigrationSafety
import Milhouse.Storage.Ownership
