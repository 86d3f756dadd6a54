import Telemetry.Process.Collector
import Telemetry.Receiver
import Telemetry.Shelf
import Telemetry.Relay.Document
import Telemetry.Relay.Moves
import Telemetry.Relay.Schedule
import Telemetry.Relay.Threads
import Telemetry.Proofs.Journal.Record
import Telemetry.Proofs.Relay.Blocks
import Telemetry.Proofs.Relay.Flush
import Telemetry.Proofs.Relay.Pacing
import Telemetry.Proofs.Relay.Worker
import Telemetry.Proofs.Relay.Changes
import Telemetry.Proofs.Relay.Queue
import Telemetry.Proofs.Relay.Delivery
import Telemetry.Proofs.Relay.Batching
import Telemetry.Proofs.Relay.Conservation
import Telemetry.Proofs.Relay.Closing
import Telemetry.Proofs.Relay.Accounting
import Telemetry.Proofs.Relay.Waiting
import Telemetry.Proofs.Relay.Counting
import Telemetry.Proofs.Relay.Agreement
import Telemetry.Proofs.Text.Cutting
import Telemetry.Proofs.Number.Rounding
import Telemetry.Proofs.Number.Reading
import Telemetry.Proofs.Statsd.Decoding
import Telemetry.Proofs.Statsd.Lines
import Telemetry.Proofs.Receiver.FanOut
import Telemetry.Proofs.Process.Collecting
import Telemetry.Proofs.Relay.Panics
import Telemetry.Proofs.Json.Number
import Telemetry.Proofs.Journal.Willing
import Telemetry.Proofs.Journal.Decoding
import Telemetry.Proofs.Journal.Fragments
import Telemetry.Proofs.Relay.Redialing
import Telemetry.Proofs.Text.Numerals
import Telemetry.Proofs.Text.Words
import Telemetry.Proofs.Fallible
import Telemetry.Proofs.Relay.Spans
import Telemetry.Proofs.Relay.Entries
import Telemetry.Proofs.Relay.Horizon
import Telemetry.Proofs.Process.Table
import Telemetry.Proofs.Process.Limits
import Telemetry.Proofs.Process.FixedWidths
import Telemetry.Proofs.Text.Offsets
import Telemetry.Proofs.Process.Stat
import Telemetry.Proofs.Process.Status
import Telemetry.Proofs.Metric.Identity
import Telemetry.Proofs.Relay.FailStop
import Telemetry.Proofs.Relay.Overdue
