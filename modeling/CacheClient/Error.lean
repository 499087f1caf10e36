import CacheClient.Command
import CacheClient.Decimal
import CacheClient.Flags
import CacheClient.Lz4
import CacheClient.Object.Layout

/-!
# Errors

Everything that can go wrong in a client, by cause. The causes fall into two parts: after a
failure of the transport (`Error.isTransport`) nobody knows how the session stands, after any
other the session is as good as before.
-/

namespace CacheClient

/-- The kinds of failures below the client. -/
inductive IoErrorKind where
  | addrInUse
  | addrNotAvailable
  | alreadyExists
  | brokenPipe
  | connectionAborted
  | connectionRefused
  | connectionReset
  | hostUnreachable
  | interrupted
  | invalidData
  | invalidInput
  | networkDown
  | networkUnreachable
  | notConnected
  | notFound
  | other
  | outOfMemory
  | permissionDenied
  | timedOut
  | unexpectedEof
  | unsupported
  | wouldBlock
  | writeZero
deriving DecidableEq, Repr

/-- What is said of a failure about which nothing but its kind is known. -/
def IoErrorKind.message : IoErrorKind → String
  | .addrInUse => "address in use"
  | .addrNotAvailable => "address not available"
  | .alreadyExists => "entity already exists"
  | .brokenPipe => "broken pipe"
  | .connectionAborted => "connection aborted"
  | .connectionRefused => "connection refused"
  | .connectionReset => "connection reset"
  | .hostUnreachable => "host unreachable"
  | .interrupted => "operation interrupted"
  | .invalidData => "invalid data"
  | .invalidInput => "invalid input parameter"
  | .networkDown => "network down"
  | .networkUnreachable => "network unreachable"
  | .notConnected => "not connected"
  | .notFound => "entity not found"
  | .other => "other error"
  | .outOfMemory => "out of memory"
  | .permissionDenied => "permission denied"
  | .timedOut => "timed out"
  | .unexpectedEof => "unexpected end of file"
  | .unsupported => "unsupported"
  | .wouldBlock => "operation would block"
  | .writeZero => "write zero"

/-- A failure below the client. -/
structure IoError where
  kind : IoErrorKind
  message : String
deriving DecidableEq, Repr

/-- Why a value cannot be stored. -/
inductive ValueError where
  | notPrimitive
  | tooLarge (length limit : Nat)
deriving DecidableEq, Repr

/-- The wording of a refusal. -/
def ValueError.message : ValueError → String
  | .notPrimitive => "value must be a primitive type; serialization disabled"
  | .tooLarge length limit =>
    s!"value is larger than configured max value length: {length} > {limit}"

/-- Why bytes do not have the type that their flags or their reader claim. -/
inductive TypeError where
  | notAscii
  | invalidInteger (cause : Decimal.NumeralError)
  | invalidLong (cause : Decimal.NumeralError)
  | notAnObject (found : Encoding)
deriving DecidableEq, Repr

/-- The wording of a mismatch. -/
def TypeError.message : TypeError → String
  | .notAscii => "numeric payload is not ASCII"
  | .invalidInteger cause => s!"invalid integer payload: {cause.message}"
  | .invalidLong cause => s!"invalid long payload: {cause.message}"
  | .notAnObject found => s!"expected a serialized object, found {found.name}"

/-- Why an object cannot be written or read. -/
inductive SerializationError where
  | obstacle (cause : Object.Obstacle)
  | fault (cause : Object.Fault)
deriving DecidableEq, Repr

/-- The wording of the cause. -/
def SerializationError.message : SerializationError → String
  | .obstacle cause => cause.message
  | .fault cause => cause.message

/-- What can go wrong in a client. -/
inductive Error where
  | key (cause : KeyError)
  | value (cause : ValueError)
  | type (cause : TypeError)
  | serialization (cause : SerializationError)
  | compression (cause : Lz4.Error)
  | io (cause : IoError)
  /-- The response is none that the command can have. -/
  | unexpectedResponse (verb : Verb)
  /-- The server refused. -/
  | server (message : String)
deriving DecidableEq, Repr

namespace Error

/-- The wording of an error. -/
def message : Error → String
  | .key cause => s!"Key error: {cause.message}"
  | .value cause => s!"Value error: {cause.message}"
  | .type cause => s!"Type error: {cause.message}"
  | .serialization cause => s!"Serialization error: {cause.message}"
  | .compression cause => s!"Compression error: {cause.message}"
  | .io cause => s!"IO error: {cause.message}"
  | .unexpectedResponse verb => s!"Unexpected response to {verb.name}"
  | .server text => s!"Server error: {text}"

/-- Whether the error leaves the session in an unknown state. -/
def isTransport : Error → Bool
  | .io _ | .unexpectedResponse _ => true
  | _ => false

end Error

end CacheClient
