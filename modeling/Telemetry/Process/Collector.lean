import Telemetry.Event
import Telemetry.Process.FileTree
import Telemetry.Process.Limits
import Telemetry.Process.Stat
import Telemetry.Process.Status
/-!
Reporting the tables of a process as events.

A collection reads the three tables and counts the open descriptors. If any of that fails, nothing
is reported and nothing is remembered. Otherwise all events are reported, whatever the receiver
answers: gauges are set to the current values, and to counters is added by how much they have grown
since the last collection that got this far.
-/

namespace Telemetry

/-- What is found of a process: the texts of its tables and the number of its descriptors. -/
structure ProcessFiles where
  status : Except IoError String
  limits : Except IoError String
  stat : Except IoError String
  descriptors : Except IoError Nat

/-- The files of the process with a directory. -/
def FileTree.processFiles (t : FileTree) (dir : String) : ProcessFiles where
  status := t.readText (Path.join dir "status")
  limits := t.readText (Path.join dir "limits")
  stat := t.readText (Path.join dir "stat")
  descriptors := t.countEntries (Path.join dir "fd")

/-- The values of the counters of a process. -/
structure Totals where
  userTime : Nat
  systemTime : Nat
  voluntarySwitches : Nat
  involuntarySwitches : Nat
  minorFaults : Nat
  majorFaults : Nat
  deriving DecidableEq, Repr

/-- One reading of a process. -/
structure Sample where
  status : Status
  limits : Limits
  stat : Stat
  descriptors : Nat

def Totals.zero : Totals := ⟨0, 0, 0, 0, 0, 0⟩

def Sample.totals (s : Sample) : Totals where
  userTime := s.stat.userTime
  systemTime := s.stat.systemTime
  voluntarySwitches := s.status.voluntarySwitches
  involuntarySwitches := s.status.involuntarySwitches
  minorFaults := s.stat.minorFaults
  majorFaults := s.stat.majorFaults

structure Collector where
  dir : String
  /-- Clock ticks in a second. -/
  ticks : Nat
  tags : Tags
  last : Totals

namespace Collector

/-- The collector of the running process itself. -/
def start : Collector := ⟨"/proc/self", 100, .empty, .zero⟩

/-- Collect from another process; its counters are compared with nothing. -/
def withDir (c : Collector) (dir : String) : Collector := { c with dir, last := .zero }

def withPid (c : Collector) (root : String) (pid : Nat) : Collector :=
  c.withDir (Path.join root (toString pid))

/-- There are always some ticks in a second; none changes nothing. -/
def withTicks (c : Collector) (ticks : Nat) : Collector :=
  if ticks = 0 then c else { c with ticks }

def withTags (c : Collector) (tags : Tags) : Collector := { c with tags }

inductive Fault where
  | unreadable (path : String) (cause : IoError)
  | badStatus (path : String) (fault : Status.Fault)
  | badLimits (path : String) (fault : Limits.Fault)
  | badStat (path : String) (fault : Stat.Fault)
  | unlisted (path : String) (cause : IoError)
  | unreported (failure : Failure)

/-- The texts of a fault, from the outermost to the cause. -/
def Fault.chain : Fault → List String
  | .unreadable path cause => ["failed to read " ++ path, cause.message]
  | .badStatus path fault => ("failed to parse " ++ path) :: fault.chain
  | .badLimits path fault => ("failed to parse " ++ path) :: fault.chain
  | .badStat path fault => ("failed to parse " ++ path) :: fault.chain
  | .unlisted path cause => ["failed to list " ++ path, cause.message]
  | .unreported failure =>
    ["failed to report process metrics", failure.message] ++
      (failure.cause?.map IoError.message).toList

/-- The parsing errors name their file with a slash behind the directory as it is given. -/
def shown (c : Collector) (name : String) : String := c.dir ++ "/" ++ name

/-- Read the tables in order, each one parsed before the next is looked at. -/
def sample (c : Collector) (files : ProcessFiles) : Except Fault Sample := do
  let text ← files.status.mapError (.unreadable (Path.join c.dir "status"))
  let status ← (Status.parse text).mapError (.badStatus (c.shown "status"))
  let text ← files.limits.mapError (.unreadable (Path.join c.dir "limits"))
  let limits ← (Limits.parse text).mapError (.badLimits (c.shown "limits"))
  let text ← files.stat.mapError (.unreadable (Path.join c.dir "stat"))
  let stat ← (Stat.parse text).mapError (.badStat (c.shown "stat"))
  let descriptors ← files.descriptors.mapError (.unlisted (Path.join c.dir "fd"))
  return ⟨status, limits, stat, descriptors⟩

def metric (c : Collector) (name help : String) : Metric := ⟨name, help, c.tags⟩

def gauge (c : Collector) (name help : String) (value : Nat) : Event :=
  ⟨c.metric name help, .set (.ofNat value)⟩

/-- Counters never go back in a process; where one seems to, nothing is added. -/
def growth (now before : Nat) : Nat := now - before

def counter (c : Collector) (name help : String) (now before : Nat) : Event :=
  ⟨c.metric name help, .add (.ofNat (growth now before))⟩

/-- A counter of clock ticks, reported in seconds. -/
def timer (c : Collector) (name help : String) (now before : Nat) : Event :=
  ⟨c.metric name help, .add ((Binary64.ofNat (growth now before)).dividedBy (.ofNat c.ticks))⟩

def gauges (c : Collector) (s : Sample) : List Event :=
  [c.gauge "process.threads" "number of threads" s.status.threads,
   c.gauge "process.memory.rss" "resident set size in bytes" s.status.residentSize,
   c.gauge "process.memory.vsize" "virtual memory size in bytes" s.status.virtualSize,
   c.gauge "process.fd.open" "number of open file descriptors" s.descriptors] ++
  ((s.limits.openFiles?.bind Limit.soft).map fun soft =>
    c.gauge "process.fd.max" "soft limit of open file descriptors" soft).toList

def counters (c : Collector) (now : Totals) : List Event :=
  [c.timer "process.cpu.user" "cpu time spent in user mode in seconds" now.userTime
     c.last.userTime,
   c.timer "process.cpu.system" "cpu time spent in kernel mode in seconds" now.systemTime
     c.last.systemTime,
   c.counter "process.context_switches.voluntary" "" now.voluntarySwitches
     c.last.voluntarySwitches,
   c.counter "process.context_switches.involuntary" "" now.involuntarySwitches
     c.last.involuntarySwitches,
   c.counter "process.faults.minor" "" now.minorFaults c.last.minorFaults,
   c.counter "process.faults.major" "" now.majorFaults c.last.majorFaults]

/-- The events of a sample, in the order in which they are reported. -/
def events (c : Collector) (s : Sample) : List Event := c.gauges s ++ c.counters s.totals

/-- Send events one after the other to a receiver and collect its failures. -/
def sendAll {β : Type} (deliver : Call → β → Outcome × β) :
    List Event → β → List Failure × β
  | [], b => ([], b)
  | e :: es, b =>
    let (outcome, b) := deliver (.event e) b
    let (failures, b) := sendAll deliver es b
    ((Failure.ofOutcome? outcome).toList ++ failures, b)

/-- Collect once. -/
def collect {β : Type} (c : Collector) (files : ProcessFiles)
    (deliver : Call → β → Outcome × β) (b : β) : Except Fault Unit × Collector × β :=
  match c.sample files with
  | .error f => (.error f, c, b)
  | .ok s =>
    let (failures, b) := sendAll deliver (c.events s) b
    ((Outcome.fold failures).mapError .unreported, { c with last := s.totals }, b)

end Collector
end Telemetry
