import Telemetry.Bytes
import Telemetry.Statsd
/-!
Encoders of events into bytes.

An encoder only appends. It may fail, with or without bytes appended, and it may crash, which takes
the worker that called it down with it.
-/

namespace Telemetry

inductive Encoded where
  | done (bytes : Bytes)
  | failed (bytes : Bytes) (cause : IoError)
  | crashed
  deriving DecidableEq, Repr

/-- The bytes appended; of a crash nothing is kept. -/
def Encoded.bytes : Encoded → Bytes
  | .done bytes => bytes
  | .failed bytes _ => bytes
  | .crashed => []

abbrev Codec := Event → Encoded

/-- StatsD lines. A refused event appends nothing. -/
def Statsd.codec (s : Statsd) : Codec := fun e =>
  match s.encode e with
  | .ok line => .done (Bytes.ofText line)
  | .error r => .failed [] r.toIoError

end Telemetry
