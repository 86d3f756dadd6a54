import Telemetry.Relay.Endpoint
import Telemetry.Relay.Interval
import Telemetry.Relay.Settings
/-!
Settings of a relay, read from a YAML value.

A mapping names settings by key; a text alone is the address of a TCP target. Entries are read in
order, a later one replacing an earlier one for the same setting, and the first entry that cannot be
read ends the reading. Only then it is asked whether there is an address and whether the network is
known.
-/

namespace Telemetry

/-- A YAML value. Entries of a mapping keep their order. -/
inductive Yaml where
  | text (s : String)
  | integer (i : Int)
  | real (s : String)
  | boolean (b : Bool)
  | sequence (items : List Yaml)
  | mapping (entries : List (Yaml × Yaml))
  | null
  | alias
  | bad

namespace Settings

inductive Key where
  | network
  | address
  | scope
  | bufferSize
  | queueSize
  | retryMin
  | retryMax
  | flushInterval
  | writeTimeout
  | threadName
  deriving DecidableEq, Repr

namespace Key

def names : List (String × Key) :=
  [("network", .network), ("address", .address), ("addr", .address), ("prefix", .scope),
   ("buffer_size", .bufferSize), ("queue_size", .queueSize), ("retry_after_min", .retryMin),
   ("retry_after_max", .retryMax), ("flush_interval", .flushInterval),
   ("write_timeout", .writeTimeout), ("thread_name", .threadName)]

/-- The lower-case form of a character, as far as it is ASCII. Beside the capital letters of ASCII
the Kelvin sign has one; no other character's lower-case form is a single ASCII character. -/
def lower (c : Char) : Char := if c = '\u212a' then 'k' else c.toLower

/-- A key as it is compared: in lower case, with a hyphen read as an underscore. -/
def normalize (raw : String) : String :=
  raw.map fun c => if c = '-' then '_' else lower c

def ofText? (raw : String) : Option Key := names.lookup (normalize raw)

end Key

/-- Why an entry of a mapping cannot be read. -/
inductive EntryFault where
  | notText
  | notSize
  | notSpan
  | numeral (fault : Numeral.Fault)
  | negativeSize
  | interval (refusal : Interval.Refusal)
  | negativeSpan
  | unknownKey (key : String)
  deriving DecidableEq, Repr

def EntryFault.message : EntryFault → String
  | .notText => "yaml value type should be 'string'"
  | .notSize => "yaml value type for 'usize' should be 'string' or 'integer'"
  | .notSpan => "yaml value type for duration should be 'string' or 'integer'"
  | .numeral fault => fault.message
  | .negativeSize => "number too small to fit in target type"
  | .interval .notSeconds => "invalid duration string"
  | .interval (.notGroups fault) => "invalid humanize duration string: " ++ fault.message
  | .negativeSpan => "negative duration"
  | .unknownKey key => "invalid key " ++ key

/-- Why a value gives no settings. -/
inductive Fault where
  | notMapping
  | keyNotText
  | entry (key : String) (fault : EntryFault)
  | noAddress
  | unsupportedNetwork (network : String)
  deriving DecidableEq, Repr

/-- The texts of a fault, from the outermost to the cause. -/
def Fault.chain : Fault → List String
  | .notMapping => ["yaml value type for 'metrics backend config' should be 'map' or 'string'"]
  | .keyNotText => ["key in hash should be string"]
  | .entry key fault => ["failed to parse value of key " ++ key, fault.message]
  | .noAddress => ["no target address has been set"]
  | .unsupportedNetwork network => ["unsupported network " ++ network]

def readText : Yaml → Except EntryFault String
  | .text s => .ok s
  | .integer i => .ok (toString i)
  | _ => .error .notText

def readSize : Yaml → Except EntryFault Nat
  | .text s => (Numeral.parse Numeral.limit64 s.toList).mapError .numeral
  | .integer i => if i < 0 then .error .negativeSize else .ok i.toNat
  | _ => .error .notSize

/-- A whole number is a number of seconds. -/
def readSpan : Yaml → Except EntryFault Duration
  | .text s => (Interval.ofText s).mapError .interval
  | .integer i => if i < 0 then .error .negativeSpan else .ok (.ofSeconds i.toNat)
  | _ => .error .notSpan

/-- What the entries read so far have set. -/
structure Draft where
  network : String
  address : Option String
  scope : String
  settings : Settings

namespace Draft

def blank : Draft := ⟨"tcp", none, "", .ofTarget (Statsd.codec ⟨""⟩) "" ""⟩

def set (d : Draft) (key : Key) (value : Yaml) : Except EntryFault Draft :=
  match key with
  | .network => (readText value).map fun s => { d with network := s }
  | .address => (readText value).map fun s => { d with address := some s }
  | .scope => (readText value).map fun s => { d with scope := s }
  | .bufferSize =>
    (readSize value).map fun n => { d with settings := { d.settings with bufferSize := n } }
  | .queueSize =>
    (readSize value).map fun n => { d with settings := { d.settings with queueSize := n } }
  | .retryMin =>
    (readSpan value).map fun t => { d with settings := { d.settings with retryMin := t } }
  | .retryMax =>
    (readSpan value).map fun t => { d with settings := { d.settings with retryMax := t } }
  | .flushInterval =>
    (readSpan value).map fun t => { d with settings := { d.settings with flushInterval := t } }
  | .writeTimeout =>
    (readSpan value).map fun t => { d with settings := { d.settings with writeTimeout := t } }
  | .threadName =>
    (readText value).map fun s => { d with settings := { d.settings with threadName := s } }

def entry (d : Draft) (key value : Yaml) : Except Fault Draft :=
  match key with
  | .text raw =>
    match Key.ofText? raw with
    | some k => (d.set k value).mapError (.entry raw)
    | none => .error (.entry raw (.unknownKey raw))
  | _ => .error .keyNotText

/-- Read entries in order up to the first that cannot be read. -/
def entries (d : Draft) : List (Yaml × Yaml) → Except Fault Draft
  | [] => .ok d
  | (key, value) :: rest =>
    match d.entry key value with
    | .ok d => d.entries rest
    | .error f => .error f

def finish (d : Draft) : Except Fault Settings :=
  match d.address with
  | none => .error .noAddress
  | some address =>
    match Network.ofText? d.network with
    | none => .error (.unsupportedNetwork d.network)
    | some _ =>
      .ok { d.settings with network := d.network, address, codec := Statsd.codec ⟨d.scope⟩ }

end Draft

def ofYaml : Yaml → Except Fault Settings
  | .mapping entries =>
    match Draft.blank.entries entries with
    | .ok d => d.finish
    | .error f => .error f
  | .text address => .ok (.ofTarget (Statsd.codec ⟨""⟩) "tcp" address)
  | _ => .error .notMapping

end Settings
end Telemetry
