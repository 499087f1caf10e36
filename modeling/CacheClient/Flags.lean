/-!
# Flags

Next to each payload the server keeps a word of flags. Its low bits say what the bytes mean:

| bit | meaning |
|---|---|
| 0 | a serialized object |
| 1 | an integer of 64 bits, in decimal |
| 2 | an integer of any size, in decimal |
| 3 | the payload is compressed |

The first three exclude each other when they are written. When several are read, integers win
over objects and the smaller kind over the larger; bits that have no meaning are dropped.
-/

namespace CacheClient

/-- What the bytes of a payload mean. -/
inductive Encoding where
  | raw
  | int
  | long
  | object
deriving DecidableEq, Repr

namespace Encoding

/-- The name of an encoding. -/
def name : Encoding → String
  | .raw => "Raw"
  | .int => "Int"
  | .long => "Long"
  | .object => "Object"

/-- The bit that stands for an encoding. -/
def bit : Encoding → UInt32
  | .raw => 0
  | .int => 2
  | .long => 4
  | .object => 1

end Encoding

/-- The flags of a payload. -/
structure Flags where
  encoding : Encoding
  compressed : Bool
deriving DecidableEq, Repr

namespace Flags

/-- The bit of a compressed payload. -/
def compressedBit : UInt32 := 8

/-- The flags of a plain payload. -/
def plain (encoding : Encoding) : Flags := ⟨encoding, false⟩

/-- The same flags for a compressed payload. -/
def packed (f : Flags) : Flags := { f with compressed := true }

/-- The word that stands for the flags. -/
def bits (f : Flags) : UInt32 :=
  if f.compressed then f.encoding.bit ||| compressedBit else f.encoding.bit

/-- A bit is set in a word. -/
def hasBit (word bit : UInt32) : Bool := word &&& bit != 0

/-- The flags that a word stands for. -/
def ofBits (word : UInt32) : Flags where
  encoding :=
    if hasBit word Encoding.int.bit then .int
    else if hasBit word Encoding.long.bit then .long
    else if hasBit word Encoding.object.bit then .object
    else .raw
  compressed := hasBit word compressedBit

theorem ofBits_bits (f : Flags) : ofBits f.bits = f := by
  obtain ⟨encoding, compressed⟩ := f
  cases encoding <;> cases compressed <;> decide

end Flags

end CacheClient
