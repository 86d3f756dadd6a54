import Telemetry.Process.Table
import Telemetry.Text.Numeral
/-!
The status table of a process: counts and memory sizes by key.

Keys that are not known do not count. A key that is missing leaves its field at zero, and a key that
occurs again replaces what it set before. Sizes may carry the unit `kB`.
-/

namespace Telemetry

structure Status where
  threads : Nat
  /-- Memory sizes in bytes. -/
  residentSize : Nat
  virtualSize : Nat
  voluntarySwitches : Nat
  involuntarySwitches : Nat
  deriving DecidableEq, Repr

namespace Status

def zero : Status := ⟨0, 0, 0, 0, 0⟩

inductive Fault where
  | badNumeral (key : String) (fault : Numeral.Fault)
  | noValue (key : String)
  | badUnit (key unit : String)
  deriving DecidableEq, Repr

def Fault.chain : Fault → List String
  | .badNumeral key fault => ["invalid value for status field " ++ key, fault.message]
  | .noValue key => ["empty value for status field " ++ key]
  | .badUnit key unit => ["unsupported unit " ++ unit ++ " for status field " ++ key]

def parseCount (key : String) (value : List Char) : Except Fault Nat :=
  (Numeral.parse Numeral.limit64 value).mapError (.badNumeral key)

/-- The largest number of bytes that is told apart. -/
def largestSize : Nat := 2 ^ 64 - 1

/-- A size in the field with a key. Words behind the unit do not count. -/
def parseSize (key : String) (value : List Char) : Except Fault Nat :=
  match Text.words value with
  | [] => .error (.noValue key)
  | [n] => parseCount key n
  | n :: unit :: _ =>
    match parseCount key n with
    | .error f => .error f
    | .ok n =>
      if unit = ['k', 'B'] then .ok (min (n * 1024) largestSize)
      else .error (.badUnit key (String.ofList unit))

def update (s : Status) (key : String) (value : List Char) : Except Fault Status :=
  if key = "Threads" then (parseCount key value).map fun n => { s with threads := n }
  else if key = "VmRSS" then (parseSize key value).map fun n => { s with residentSize := n }
  else if key = "VmSize" then (parseSize key value).map fun n => { s with virtualSize := n }
  else if key = "voluntary_ctxt_switches" then
    (parseCount key value).map fun n => { s with voluntarySwitches := n }
  else if key = "nonvoluntary_ctxt_switches" then
    (parseCount key value).map fun n => { s with involuntarySwitches := n }
  else .ok s

/-- Take over properties in order up to the first fault. -/
def updateAll (s : Status) : List (List Char × List Char) → Except Fault Status
  | [] => .ok s
  | (key, value) :: rest =>
    match s.update (String.ofList key) value with
    | .ok s => s.updateAll rest
    | .error f => .error f

def parse (text : String) : Except Fault Status :=
  zero.updateAll (Table.properties text.toList)

end Status
end Telemetry
