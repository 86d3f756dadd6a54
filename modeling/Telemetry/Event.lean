import Telemetry.Duration
import Telemetry.Metric
/-!
What is recorded about a metric, and what a receiver of events can be asked to do.
-/

namespace Telemetry

/-- A gauge is set, a counter is added to, or a span of time is observed. -/
inductive Reading where
  | set (value : Binary64)
  | add (value : Binary64)
  | observe (span : Duration)
  deriving DecidableEq, Repr

structure Event where
  metric : Metric
  reading : Reading
  deriving Repr

/-- A receiver takes events until it is closed, and may be closed more than once. -/
inductive Call where
  | event (e : Event)
  | close
  deriving Repr

end Telemetry
