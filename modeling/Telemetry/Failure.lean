/-!
What can go wrong with an event, and what is said about it.

`IoError` is the cause given by a byte stream, a file or an encoder; `Failure` is what a receiver of
events answers or reports. Failures of several receivers are folded into one, and the text of a
folded failure is the texts of its parts in order.
-/

namespace Telemetry

inductive IoKind where
  | notFound
  | permissionDenied
  | connectionRefused
  | connectionReset
  | connectionAborted
  | notConnected
  | addrInUse
  | addrNotAvailable
  | brokenPipe
  | alreadyExists
  | wouldBlock
  | notADirectory
  | isADirectory
  | invalidFilename
  | invalidInput
  | invalidData
  | timedOut
  | writeZero
  | storageFull
  | interrupted
  | unexpectedEof
  | outOfMemory
  | uncategorized
  | other
  deriving DecidableEq, Repr

def IoKind.phrase : IoKind → String
  | .notFound => "entity not found"
  | .permissionDenied => "permission denied"
  | .connectionRefused => "connection refused"
  | .connectionReset => "connection reset"
  | .connectionAborted => "connection aborted"
  | .notConnected => "not connected"
  | .addrInUse => "address in use"
  | .addrNotAvailable => "address not available"
  | .brokenPipe => "broken pipe"
  | .alreadyExists => "entity already exists"
  | .wouldBlock => "operation would block"
  | .notADirectory => "not a directory"
  | .isADirectory => "is a directory"
  | .invalidFilename => "invalid filename"
  | .invalidInput => "invalid input parameter"
  | .invalidData => "invalid data"
  | .timedOut => "timed out"
  | .writeZero => "write zero"
  | .storageFull => "no storage space"
  | .interrupted => "operation interrupted"
  | .unexpectedEof => "unexpected end of file"
  | .outOfMemory => "out of memory"
  | .uncategorized => "uncategorized error"
  | .other => "other error"

/-- Errors that the operating system reports by number. -/
inductive SystemError where
  | noEntry
  | accessDenied
  | notDirectory
  | isDirectory
  | invalidArgument
  | brokenPipe
  | nameTooLong
  | addressInUse
  | connectionReset
  | connectionTimedOut
  | connectionRefused
  deriving DecidableEq, Repr

namespace SystemError

def code : SystemError → Nat
  | .noEntry => 2
  | .accessDenied => 13
  | .notDirectory => 20
  | .isDirectory => 21
  | .invalidArgument => 22
  | .brokenPipe => 32
  | .nameTooLong => 36
  | .addressInUse => 98
  | .connectionReset => 104
  | .connectionTimedOut => 110
  | .connectionRefused => 111

def kind : SystemError → IoKind
  | .noEntry => .notFound
  | .accessDenied => .permissionDenied
  | .notDirectory => .notADirectory
  | .isDirectory => .isADirectory
  | .invalidArgument => .invalidInput
  | .brokenPipe => .brokenPipe
  | .nameTooLong => .invalidFilename
  | .addressInUse => .addrInUse
  | .connectionReset => .connectionReset
  | .connectionTimedOut => .timedOut
  | .connectionRefused => .connectionRefused

def phrase : SystemError → String
  | .noEntry => "No such file or directory"
  | .accessDenied => "Permission denied"
  | .notDirectory => "Not a directory"
  | .isDirectory => "Is a directory"
  | .invalidArgument => "Invalid argument"
  | .brokenPipe => "Broken pipe"
  | .nameTooLong => "File name too long"
  | .addressInUse => "Address already in use"
  | .connectionReset => "Connection reset by peer"
  | .connectionTimedOut => "Connection timed out"
  | .connectionRefused => "Connection refused"

def all : List SystemError :=
  [.noEntry, .accessDenied, .notDirectory, .isDirectory, .invalidArgument, .brokenPipe,
   .nameTooLong, .addressInUse, .connectionReset, .connectionTimedOut, .connectionRefused]

def ofCode? (n : Nat) : Option SystemError := all.find? fun e => e.code == n

end SystemError

/-- A kind alone, a kind with a text of its own, or an error of the operating system. -/
inductive IoError where
  | bare (kind : IoKind)
  | described (kind : IoKind) (text : String)
  | system (error : SystemError)
  deriving DecidableEq, Repr

namespace IoError

def kind : IoError → IoKind
  | .bare k => k
  | .described k _ => k
  | .system e => e.kind

def message : IoError → String
  | .bare k => k.phrase
  | .described _ text => text
  | .system e => e.phrase ++ " (os error " ++ toString e.code ++ ")"

/-- The call did nothing and may simply be made again. -/
def isInterrupted (e : IoError) : Bool := e.kind == .interrupted

end IoError

inductive Failure where
  | queueFull (name : String)
  | queueClosed (name : String)
  | dial (network address : String) (cause : IoError)
  | encode (name : String) (cause : IoError)
  | write (length : Nat) (cause : IoError)
  | discard (length : Nat) (reason : String)
  | io (cause : IoError)
  | several (failures : List Failure)
  deriving Repr

namespace Failure

mutual

def message : Failure → String
  | .queueFull name => "discarding " ++ name ++ " because the metric queue is full"
  | .queueClosed name => "discarding " ++ name ++ " because the metric queue was closed"
  | .dial network address cause =>
    "failed to dial " ++ network ++ " " ++ address ++ ": " ++ cause.message
  | .encode name cause => "failed to encode metric " ++ name ++ ": " ++ cause.message
  | .write length cause =>
    "failed to write " ++ toString length ++ " buffered bytes: " ++ cause.message
  | .discard length reason => "discarding " ++ toString length ++ " buffered bytes: " ++ reason
  | .io cause => "io error: " ++ cause.message
  | .several failures => String.intercalate "; " (messages failures)

def messages : List Failure → List String
  | [] => []
  | f :: fs => message f :: messages fs

end

theorem messages_eq_map (fs : List Failure) : messages fs = fs.map message := by
  induction fs with
  | nil => rfl
  | cons f fs ih => simp [messages, ih]

theorem message_several (fs : List Failure) :
    (several fs).message = String.intercalate "; " (fs.map message) := by
  have h : (several fs).message = String.intercalate "; " (messages fs) := rfl
  rw [h, messages_eq_map]

/-- The failure is the loss of one event before it was encoded. -/
def isDropped : Failure → Bool
  | .queueFull _ => true
  | .queueClosed _ => true
  | _ => false

/-- The error of a stream or an encoder that the failure passes on. -/
def cause? : Failure → Option IoError
  | .dial _ _ cause => some cause
  | .encode _ cause => some cause
  | .write _ cause => some cause
  | .io cause => some cause
  | _ => none

end Failure

abbrev Outcome := Except Failure Unit

/-- One answer for several failures: none is a success, one is that failure itself. -/
def Outcome.fold : List Failure → Outcome
  | [] => .ok ()
  | [f] => .error f
  | fs => .error (.several fs)

def Failure.ofOutcome? : Outcome → Option Failure
  | .ok _ => none
  | .error f => some f

end Telemetry
