import Telemetry.Process.Table
import Telemetry.Text.Numeral
/-!
The table of resource limits of a process.

Below a header each row gives a name, a soft and a hard limit, and a unit that may be missing. One
row that cannot be read spoils the table.
-/

namespace Telemetry

/-- A row of the table. Without a number a resource is unlimited. -/
structure Limit where
  name : String
  soft : Option Nat
  hard : Option Nat
  units : String
  deriving DecidableEq, Repr

structure Limits where
  rows : List Limit
  deriving DecidableEq, Repr

namespace Limits

inductive Fault where
  | noSoft (name : String)
  | noHard (name : String)
  | badSoft (name : String) (fault : Numeral.Fault)
  | badHard (name : String) (fault : Numeral.Fault)
  deriving DecidableEq, Repr

def Fault.chain : Fault → List String
  | .noSoft name => ["no soft value for limit " ++ name]
  | .noHard name => ["no hard value for limit " ++ name]
  | .badSoft name fault => ["invalid soft value for limit " ++ name, fault.message]
  | .badHard name fault => ["invalid hard value for limit " ++ name, fault.message]

/-- How a limit without a number is written. -/
def unlimited : String := "unlimited"

def parseValue (cs : List Char) : Except Numeral.Fault (Option Nat) :=
  if cs = unlimited.toList then .ok none else (Numeral.parse Numeral.limit64 cs).map some

/-- Read the columns of a row. Columns behind the unit do not count. -/
def ofColumns : List (List Char) → Except Fault Limit
  | [] => .error (.noSoft "")
  | [name] => .error (.noSoft (String.ofList name))
  | [name, _] => .error (.noHard (String.ofList name))
  | name :: soft :: hard :: rest =>
    match parseValue soft with
    | .error f => .error (.badSoft (String.ofList name) f)
    | .ok soft =>
      match parseValue hard with
      | .error f => .error (.badHard (String.ofList name) f)
      | .ok hard => .ok ⟨String.ofList name, soft, hard, String.ofList (rest.headD [])⟩

/-- Read rows in order up to the first that cannot be read. -/
def ofRows : List (List Char) → Except Fault (List Limit)
  | [] => .ok []
  | row :: rest =>
    match ofColumns (Table.columns row) with
    | .error f => .error f
    | .ok limit => (ofRows rest).map (limit :: ·)

def parse (text : String) : Except Fault Limits :=
  (ofRows (Table.rows text.toList)).map Limits.mk

/-- The first row with a name. -/
def get? (l : Limits) (name : String) : Option Limit := l.rows.find? fun row => row.name == name

/-- The limit on open file descriptors. -/
def openFiles? (l : Limits) : Option Limit := l.get? "Max open files"

end Limits
end Telemetry
