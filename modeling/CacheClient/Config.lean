/-!
# Configuration

The settings of a client. A limit or a time of 0 means that there is none.
-/

namespace CacheClient

/-- The version of this library. -/
def libraryVersion : String := "0.1.0"

/-- The settings of a client. Times are in milliseconds, lengths in bytes. -/
structure Config where
  host : String := "127.0.0.1"
  port : UInt16 := 11211
  /-- The longest wait while a session is being opened. -/
  connectTimeoutMs : Nat := 3000
  /-- The longest wait for an answer afterwards. -/
  timeoutMs : Nat := 3000
  maxKeyLength : Nat := 250
  /-- The longest payload, as it is stored. -/
  maxValueLength : Nat := 1000000
  /-- Whether objects may be stored. -/
  enableSerialization : Bool := true
  /-- Whether small packets are sent without delay. -/
  nodelay : Bool := true
  /-- Whether the tokens that reads bring are remembered. -/
  rememberTokens : Bool := false
  /-- Whether a failure of the network counts as a miss. -/
  treatErrorsAsMiss : Bool := false
deriving DecidableEq, Repr

namespace Config

/-- The default limits and switches. -/
def standard : Config := {}

/-- The address of the server. -/
def address (c : Config) : String := s!"{c.host}:{c.port.toNat}"

/-- A wait, unless it is 0. -/
def wait (ms : Nat) : Option Nat := if ms = 0 then none else some ms

/-- The longest wait while a session is being opened. -/
def connectTimeout (c : Config) : Option Nat := wait c.connectTimeoutMs

/-- The longest wait for an answer. -/
def timeout (c : Config) : Option Nat := wait c.timeoutMs

end Config

end CacheClient
