import Telemetry.Text.Blank
import Telemetry.Text.Numeral
/-!
The stat line of a process.

The command's name stands between the first opening and the last closing parenthesis, so it may hold
any characters, parentheses and line feeds included. The fields behind it are words.
-/

namespace Telemetry

structure Stat where
  pid : Nat
  command : String
  state : Char
  minorFaults : Nat
  majorFaults : Nat
  /-- Times in clock ticks. -/
  userTime : Nat
  systemTime : Nat
  threads : Nat
  deriving DecidableEq, Repr

namespace Stat

inductive Fault where
  | noCommand
  | noCommandEnd
  | badPid (fault : Numeral.Fault)
  | noState
  | noField (name : String)
  | badField (name : String) (fault : Numeral.Fault)
  deriving DecidableEq, Repr

def Fault.chain : Fault → List String
  | .noCommand => ["no command name found in stat"]
  | .noCommandEnd => ["no command name end found in stat"]
  | .badPid fault => ["invalid pid in stat", fault.message]
  | .noState => ["no state field in stat"]
  | .noField name => ["no " ++ name ++ " field in stat"]
  | .badField name fault => ["invalid " ++ name ++ " field in stat", fault.message]

/-- The text before the command's name, the name, and the text behind it. -/
def split (cs : List Char) : Except Fault (List Char × List Char × List Char) :=
  match Text.cutAt '(' cs with
  | none => .error .noCommand
  | some (before, rest) =>
    match Text.cutAtLast ')' rest with
    | none => .error .noCommandEnd
    | some (command, behind) => .ok (before, command, behind)

/-- The number in the field at a position, counted from the state. -/
def field (fields : List (List Char)) (position : Nat) (name : String) : Except Fault Nat :=
  match fields[position]? with
  | none => .error (.noField name)
  | some word => (Numeral.parse Numeral.limit64 word).mapError (.badField name)

/-- The first character of the first field. -/
def stateOf (fields : List (List Char)) : Except Fault Char :=
  match fields with
  | (c :: _) :: _ => .ok c
  | _ => .error .noState

def parse (text : String) : Except Fault Stat := do
  let (before, command, behind) ← split (Text.trim text.toList)
  let pid ← (Numeral.parse Numeral.limit32 (Text.trim before)).mapError .badPid
  let fields := Text.words behind
  let state ← stateOf fields
  let minorFaults ← field fields 7 "minflt"
  let majorFaults ← field fields 9 "majflt"
  let userTime ← field fields 11 "utime"
  let systemTime ← field fields 12 "stime"
  let threads ← field fields 17 "num_threads"
  return {
    pid, command := String.ofList command, state, minorFaults, majorFaults, userTime, systemTime,
    threads }

end Stat
end Telemetry
