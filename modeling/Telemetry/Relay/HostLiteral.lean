import Telemetry.Text.Blank
import Telemetry.Text.Numeral
/-!
Addresses that stand in a text themselves, so that no name has to be looked up.

An IPv4 address is one to four numbers between points. Each number but the last is one byte, and
the last fills the bytes that are left. An IPv6 address is eight groups of hexadecimal digits, of
which a double colon leaves some out, and its last two groups may be four strict octets. A zone
behind a percent sign belongs to the IPv6 address in front of it.
-/

namespace Telemetry

inductive AddressFamily where
  | ip4
  | ip6
  deriving DecidableEq, Repr

namespace HostLiteral

def isHexDigit (c : Char) : Bool :=
  Numeral.isDigit c || ('a' ≤ c && c ≤ 'f') || ('A' ≤ c && c ≤ 'F')

/-! ## Four bytes -/

/-- A decimal number of one to three digits that is at most 255, without a leading zero. -/
def isOctet (cs : List Char) : Bool :=
  cs.length ≤ 3 && cs.all Numeral.isDigit && (cs.length == 1 || cs.head? != some '0') &&
    match Numeral.parse 256 cs with
    | .ok _ => true
    | .error _ => false

def isDotted (cs : List Char) : Bool :=
  let octets := Text.pieces (· == '.') cs
  octets.length == 4 && octets.all isOctet

/-- The value of a letter or decimal digit as a digit. -/
def digitValue (c : Char) : Nat :=
  if Numeral.isDigit c then c.toNat - '0'.toNat
  else if 'a' ≤ c && c ≤ 'f' then c.toNat - 'a'.toNat + 10
  else if 'A' ≤ c && c ≤ 'F' then c.toNat - 'A'.toNat + 10
  else 16

/-- The number that some digits write in a base, if there is a digit and none is too large. -/
def readBase? (base : Nat) (cs : List Char) : Option Nat :=
  if cs.isEmpty || cs.any fun c => base ≤ digitValue c then none
  else some (cs.foldl (fun n c => n * base + digitValue c) 0)

/-- A number with its base in front: sixteen behind `0x`, eight behind a further zero, else ten. -/
def readNumber? : List Char → Option Nat
  | '0' :: 'x' :: cs => readBase? 16 cs
  | '0' :: 'X' :: cs => readBase? 16 cs
  | '0' :: c :: cs => readBase? 8 (c :: cs)
  | cs => readBase? 10 cs

/-- The value of one to four numbers between points that fill four bytes. -/
def value4? (cs : List Char) : Option Nat :=
  match (Text.pieces (· == '.') cs).mapM readNumber? with
  | none => none
  | some ns =>
    let room := 256 ^ (5 - ns.length)
    if ns.length ≤ 4 && ns.dropLast.all (· < 256) && ns.getLastD 0 < room then
      some (ns.dropLast.foldl (fun v n => v * 256 + n) 0 * room + ns.getLastD 0)
    else none

/-- The addresses of the machine itself: those whose first byte is 127, and zero. -/
def isLocal4 (address : Nat) : Bool := address / 256 ^ 3 == 127 || address == 0

/-! ## Eight groups -/

def isHexGroup (cs : List Char) : Bool :=
  !cs.isEmpty && cs.length ≤ 4 && cs.all isHexDigit

/-- How many 16-bit groups stand between colons, if there is nothing else; four octets at the end
are two groups. -/
def groupCount? (cs : List Char) : Option Nat :=
  if cs.isEmpty then some 0
  else
    let groups := Text.pieces (· == ':') cs
    if groups.all isHexGroup then some groups.length
    else if groups.dropLast.all isHexGroup && isDotted (groups.getLastD []) then
      some (groups.length + 1)
    else none

/-- The text before the first double colon and the text after it. -/
def cutAtDoubleColon : List Char → Option (List Char × List Char)
  | [] => none
  | [_] => none
  | c :: d :: cs =>
    if c = ':' ∧ d = ':' then some ([], cs)
    else (cutAtDoubleColon (d :: cs)).map fun (a, b) => (c :: a, b)

/-- Eight groups, or fewer with a double colon for the missing ones, of which there is at least
one. -/
def isLiteral6 (cs : List Char) : Bool :=
  match cutAtDoubleColon cs with
  | none => groupCount? cs == some 8
  | some (a, b) =>
    match groupCount? a, groupCount? b with
    | some m, some n => m + n ≤ 7
    | _, _ => false

/-- A zone is a number of 32 bits, without a sign. -/
def isZone (cs : List Char) : Bool :=
  match Numeral.readDigits Numeral.limit32 0 cs with
  | .ok _ => !cs.isEmpty
  | .error _ => false

def isZoned6 (cs : List Char) : Bool :=
  match Text.cutAt '%' cs with
  | none => isLiteral6 cs
  | some (a, zone) => isLiteral6 a && isZone zone

def unbracketed? (cs : List Char) : Option (List Char) :=
  if cs.head? == some '[' && cs.getLast? == some ']' then some (cs.drop 1).dropLast else none

/-- The family of the address that a host text writes out, if it does. Brackets are for an IPv6
address, and only where `brackets` allows them. -/
def family? (brackets : Bool) (host : List Char) : Option AddressFamily :=
  if (value4? host).isSome then some .ip4
  else if isZoned6 host then some .ip6
  else if brackets && (unbracketed? host).any isZoned6 then some .ip6
  else none

/-- A host text that names nothing on any machine: a lone asterisk, or an IPv6 address with a zone
that is no zone. -/
def isNowhere (host : List Char) : Bool :=
  host == ['*'] ||
    match Text.cutAt '%' host with
    | none => false
    | some (a, zone) => isLiteral6 a && !isZone zone

end HostLiteral
end Telemetry
