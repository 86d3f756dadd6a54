import Telemetry.Failure
import Telemetry.Relay.HostLiteral
/-!
Networks and addresses, and what is wrong with them where there is no peer. Nothing listens on the
machine itself: no socket file is ever there, and its own addresses refuse every connection. What
another machine would answer is not said.
-/

namespace Telemetry

/-- The stream networks that can be dialed. -/
inductive Network where
  | tcp
  | tcp4
  | tcp6
  | unix
  deriving DecidableEq, Repr

namespace Network

def ofText? (s : String) : Option Network :=
  if s = "tcp" then some .tcp
  else if s = "tcp4" then some .tcp4
  else if s = "tcp6" then some .tcp6
  else if s = "unix" then some .unix
  else none

/-- Whether a network takes addresses of a family. -/
def admits (n : Network) (family : AddressFamily) : Bool :=
  match n, family with
  | .tcp4, .ip6 => false
  | .tcp6, .ip4 => false
  | _, _ => true

end Network

namespace Endpoint

inductive Fault where
  | unsupportedNetwork
  | noPort
  | badPort
  | nullInHost
  | unknownHost
  | wrongFamily
  | emptyPath
  | nullInPath
  | pathTooLong
  | noSocket
  | refused
  deriving DecidableEq, Repr

/-- The error that dialing an address of a network ends in. -/
def Fault.toIoError (network address : String) : Fault → IoError
  | .unsupportedNetwork => .described .invalidInput ("unsupported network " ++ network)
  | .noPort => .described .invalidInput "invalid socket address"
  | .badPort => .described .invalidInput "invalid port value"
  | .nullInHost => .described .invalidInput "file name contained an unexpected NUL byte"
  | .unknownHost =>
    .described .uncategorized "failed to lookup address information: Name or service not known"
  | .wrongFamily =>
    .described .addrNotAvailable ("no " ++ network ++ " address found for " ++ address)
  | .emptyPath => .system .invalidArgument
  | .nullInPath => .described .invalidInput "paths must not contain interior null bytes"
  | .pathTooLong => .described .invalidInput "path must be shorter than SUN_LEN"
  | .noSocket => .system .noEntry
  | .refused => .system .connectionRefused

/-! ## Checks -/

/-- The length from which on a path does not fit a socket's address. -/
def pathLimit : Nat := 108

/-- The host of an address and its port, which are separated by the last colon. -/
def hostPort (address : String) : Except Fault (List Char × List Char) :=
  match Text.cutAtLast ':' address.toList with
  | none => .error .noPort
  | some (host, port) =>
    match Numeral.parse Numeral.limit16 port with
    | .ok _ => .ok (host, port)
    | .error _ => .error .badPort

/-- What is wrong with a host. Brackets around it go with a port that has no sign. -/
def hostFault? (n : Network) (host port : List Char) : Option Fault :=
  if host.contains '\x00' then some .nullInHost
  else if HostLiteral.isNowhere host then some .unknownHost
  else
    match HostLiteral.family? (port.head? != some '+') host with
    | none => none
    | some family =>
      if !n.admits family then some .wrongFamily
      else if (HostLiteral.value4? host).any HostLiteral.isLocal4 then some .refused
      else none

/-- A path without names leads to a folder. -/
def isFolder (path : List Char) : Bool :=
  (Text.pieces (· == '/') path).all fun name => name == [] || name == ['.'] || name == ['.', '.']

/-- What is wrong with an address of a network, unless it takes another machine to know. -/
def fault? (network address : String) : Option Fault :=
  match Network.ofText? network with
  | none => some .unsupportedNetwork
  | some .unix =>
    if address.isEmpty then some .emptyPath
    else if address.toList.contains '\x00' then some .nullInPath
    else if pathLimit ≤ address.utf8ByteSize then some .pathTooLong
    else if isFolder address.toList then some .refused
    else some .noSocket
  | some n =>
    match hostPort address with
    | .error f => some f
    | .ok (host, port) => hostFault? n host port

end Endpoint
end Telemetry
