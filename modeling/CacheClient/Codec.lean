import CacheClient.Config
import CacheClient.Lz4
import CacheClient.Decimal
import CacheClient.Value

/-!
# Storing values

A codec turns a value into flags and bytes, and back.

**Writing.** A payload longer than a threshold is packed, and the packed form is kept if it is
shorter; a threshold of 0 switches this off, and integers are never packed. What is stored may
not be longer than the codec's limit.

**Reading.** The bytes are unpacked if their flags say so, then read by their encoding. Servers
pad numbers with blanks, so blanks around a number are dropped.
-/

namespace CacheClient

/-- A value as a server keeps it. -/
structure Encoded where
  flags : Flags
  data : Bytes
deriving DecidableEq

/-- The limit on stored bytes, where 0 is none, and whether objects may be stored. -/
structure Codec where
  limit : Nat
  objects : Bool
deriving DecidableEq, Repr

namespace Codec

/-- The codec of a client. -/
def ofConfig (c : Config) : Codec := ⟨c.maxValueLength, c.enableSerialization⟩

/-! ## Writing -/

/-- The stored form of a value: packed if its payload is longer than `threshold` and shrinks. -/
def pack (v : Value) (threshold : Nat) : Encoded :=
  let plain : Encoded := ⟨.plain v.encoding, v.payload⟩
  if v.encoding ≠ .int ∧ 0 < threshold ∧ threshold < v.payload.length then
    let packed := Lz4.compress v.payload
    if packed.length < v.payload.length then ⟨plain.flags.packed, packed⟩ else plain
  else plain

/-- The stored form of a value that the codec accepts. -/
def encode (c : Codec) (v : Value) (threshold : Nat) : Except Error Encoded :=
  if v.encoding = .object ∧ ¬c.objects then .error (.value .notPrimitive)
  else
    let stored := pack v threshold
    if c.limit ≠ 0 ∧ c.limit < stored.data.length then
      .error (.value (.tooLarge stored.data.length c.limit))
    else .ok stored

/-! ## Reading -/

/-- The text of a number, without the blanks around it. -/
def numberText (data : Bytes) : Except Error (List Char) :=
  match Utf8.decode? data with
  | some text => .ok (Text.trim Text.isAsciiBlank text)
  | none => .error (.type .notAscii)

/-- The value with a plain payload. -/
def interpret (encoding : Encoding) (data : Bytes) : Except Error Value :=
  match encoding with
  | .raw => .ok (.raw data)
  | .object => .ok (.object data)
  | .int => do
    match Decimal.readInt64 (← numberText data) with
    | .ok n => .ok (.int n)
    | .error cause => .error (.type (.invalidInteger cause))
  | .long => do
    match Decimal.readInteger (← numberText data) with
    | .ok n => .ok (.long n)
    | .error cause => .error (.type (.invalidLong cause))

/-- The value of stored bytes and the word of their flags. -/
def decode (data : Bytes) (bits : UInt32) : Except Error Value :=
  let flags := Flags.ofBits bits
  if flags.compressed then
    match Lz4.decompress data with
    | .ok plain => interpret flags.encoding plain
    | .error cause => .error (.compression cause)
  else interpret flags.encoding data

end Codec

end CacheClient
