/-!
What a relay counts about itself. Every count is kept modulo 2^64.
-/

namespace Telemetry

structure Counters where
  queued : UInt64
  flushes : UInt64
  bytesWritten : UInt64
  writeFailed : UInt64
  queueFull : UInt64
  queueClosed : UInt64
  encodeFailed : UInt64
  established : UInt64
  dialFailed : UInt64
  deriving DecidableEq, Repr

namespace Counters

def zero : Counters := ⟨0, 0, 0, 0, 0, 0, 0, 0, 0⟩

def addQueued (c : Counters) : Counters := { c with queued := c.queued + 1 }

/-- One flush that wrote `size` bytes. -/
def addFlush (c : Counters) (size : Nat) : Counters :=
  { c with flushes := c.flushes + 1, bytesWritten := c.bytesWritten + UInt64.ofNat size }

def addWriteFailed (c : Counters) : Counters := { c with writeFailed := c.writeFailed + 1 }

def addQueueFull (c : Counters) : Counters := { c with queueFull := c.queueFull + 1 }

def addQueueClosed (c : Counters) : Counters := { c with queueClosed := c.queueClosed + 1 }

def addEncodeFailed (c : Counters) : Counters := { c with encodeFailed := c.encodeFailed + 1 }

def addEstablished (c : Counters) : Counters := { c with established := c.established + 1 }

def addDialFailed (c : Counters) : Counters := { c with dialFailed := c.dialFailed + 1 }

end Counters
end Telemetry
