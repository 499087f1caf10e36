import CacheClient.Error

/-!
# Values

What an application stores: bytes, an integer of 64 bits, an integer of any size, or an object
in its written form.
-/

namespace CacheClient

/-- A value of the cache. -/
inductive Value where
  | raw (bytes : Bytes)
  | int (n : Int64)
  | long (n : Int)
  | object (bytes : Bytes)
deriving DecidableEq

namespace Value

/-- The encoding that a value uses. -/
def encoding : Value → Encoding
  | .raw _ => .raw
  | .int _ => .int
  | .long _ => .long
  | .object _ => .object

/-- The bytes of a value, before they are packed. -/
def payload : Value → Bytes
  | .raw bytes | .object bytes => bytes
  | .int n => Utf8.encode (Decimal.integer n.toInt)
  | .long n => Utf8.encode (Decimal.integer n)

/-- The bytes of a raw value. -/
def bytes? : Value → Option Bytes
  | .raw bytes => some bytes
  | _ => none

/-- The text of a raw value that is text. -/
def text? (v : Value) : Option String := v.bytes?.bind Utf8.string?

/-- The number of an integer value. -/
def int? : Value → Option Int64
  | .int n => some n
  | _ => none

/-- The number of a long value. -/
def long? : Value → Option Int
  | .long n => some n
  | _ => none

/-- The object value of a datum. -/
def ofDatum (x : Datum) : Except Error Value :=
  match Object.obstacle? x with
  | some obstacle => .error (.serialization (.obstacle obstacle))
  | none => .ok (.object (Object.write x))

/-- The datum of a shape that an object value holds. Bytes behind it do not matter. -/
def toDatum (shape : Shape) : Value → Except Error Datum
  | .object bytes =>
    match Object.read shape bytes with
    | .ok (x, _) => .ok x
    | .error fault => .error (.serialization (.fault fault))
  | v => .error (.type (.notAnObject v.encoding))

end Value

end CacheClient
