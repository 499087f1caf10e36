import CacheClient.Object.Shape
import CacheClient.Text.Utf8

/-!
# The layout of objects

How a datum is written and read back. Numbers have a fixed width, the least significant byte
first; lengths take eight bytes, the index of a variant four, the tag of an option and a boolean
one; a character is its UTF-8 form. Parts follow each other without separators, and entries of a
map come in the order of their keys.

A reader takes what its shape asks for and leaves the rest. The first fault from left to right
is reported.
-/

namespace CacheClient.Object

/-! ## Writing -/

/-- A number with a sign, as its remainder modulo the width. -/
def twosComplement (width : Nat) (n : Int) : Bytes :=
  Bytes.littleEndian width (n % (Bytes.span width : Int)).toNat

/-- A length. -/
def writeCount (n : Nat) : Bytes := Bytes.littleEndian 8 n

/-- A text behind its length. -/
def writeText (s : String) : Bytes :=
  let bytes := Utf8.ofString s
  writeCount bytes.length ++ bytes

mutual

/-- The bytes of a datum. What cannot be written gives none. -/
def write : Datum → Bytes
  | .natural width n => Bytes.littleEndian width n
  | .integer width n => twosComplement width n
  | .bool b => [if b then 1 else 0]
  | .char c => String.utf8EncodeChar c
  | .text s => writeText s
  | .unit => []
  | .none => [0]
  | .some x => 1 :: write x
  | .list xs => writeCount xs.length ++ writeAll xs
  | .dict entries => writeCount entries.length ++ writeEntries entries
  | .tuple xs => writeAll xs
  | .variant i x => Bytes.littleEndian 4 i ++ write x
  | .node label children => write label ++ writeCount children.length ++ writeAll children
  | .stream _ => []
  | .refusal _ => []

/-- The bytes of several data. -/
def writeAll : List Datum → Bytes
  | [] => []
  | x :: xs => write x ++ writeAll xs

/-- The bytes of the entries of a map. -/
def writeEntries : List (String × Datum) → Bytes
  | [] => []
  | (key, x) :: rest => writeText key ++ write x ++ writeEntries rest

end

/-- Why a datum cannot be written. -/
inductive Obstacle where
  | unknownLength
  | refused (reason : String)
deriving DecidableEq, Repr

/-- The wording of an obstacle. -/
def Obstacle.message : Obstacle → String
  | .unknownLength =>
    "Bincode can only encode sequences and maps that have a knowable size ahead of time"
  | .refused reason => reason

mutual

/-- The first part of a datum that cannot be written. -/
def obstacle? : Datum → Option Obstacle
  | .some x | .variant _ x => obstacle? x
  | .list xs | .tuple xs => obstacleIn? xs
  | .dict entries => obstacleAmong? entries
  | .node label children => (obstacle? label).or (obstacleIn? children)
  | .stream _ => some .unknownLength
  | .refusal reason => some (.refused reason)
  | .natural .. | .integer .. | .bool _ | .char _ | .text _ | .unit | .none => none

/-- The first obstacle in several data. -/
def obstacleIn? : List Datum → Option Obstacle
  | [] => none
  | x :: xs => (obstacle? x).or (obstacleIn? xs)

/-- The first obstacle in the entries of a map. -/
def obstacleAmong? : List (String × Datum) → Option Obstacle
  | [] => none
  | (_, x) :: rest => (obstacle? x).or (obstacleAmong? rest)

end

/-! ## Reading -/

/-- Why bytes are no value of a shape. -/
inductive Fault where
  | endOfInput
  /-- A text is longer than the input. -/
  | textCutShort
  | notText (fault : Utf8.Fault)
  | notBool (byte : Nat)
  | notOption (tag : Nat)
  | noVariant (index count : Nat)
  | notChar
deriving DecidableEq, Repr

/-- The wording of a fault. -/
def Fault.message : Fault → String
  | .endOfInput => "io error: unexpected end of file"
  | .textCutShort => "io error: "
  | .notText fault => s!"string is not valid utf8: {fault.message}"
  | .notBool byte => s!"invalid u8 while decoding bool, expected 0 or 1, found {byte}"
  | .notOption tag => s!"tag for enum is not valid, found {tag}"
  | .noVariant index count =>
    s!"invalid value: integer `{index}`, expected variant index 0 <= i < {count}"
  | .notChar => "char is not valid"

/-- A reader takes something off the front of the input. -/
abbrev Reader (α : Type) := StateT Bytes (Except Fault) α

/-- The next `n` bytes. -/
def readBytes (n : Nat) (short : Fault) : Reader Bytes := fun input =>
  match Bytes.split? n input with
  | some (bytes, rest) => .ok (bytes, rest)
  | none => .error short

/-- A number of a fixed width. -/
def readNatural (width : Nat) : Reader Nat := do
  return Bytes.toNat (← readBytes width .endOfInput)

/-- A number with a sign. -/
def readInteger (width : Nat) : Reader Int := do
  let n ← readNatural width
  return if 2 * n < Bytes.span width then (n : Int) else (n : Int) - Bytes.span width

/-- A boolean. -/
def readBool : Reader Bool := do
  match ← readNatural 1 with
  | 0 => return false
  | 1 => return true
  | n => throw (.notBool n)

/-- A character. -/
def readChar : Reader Char := fun input =>
  match Utf8.front input with
  | .nothing => .error .endOfInput
  | .char c rest => .ok (c, rest)
  | .illFormed .. | .unfinished => .error .notChar

/-- A text behind its length. -/
def readText : Reader String := do
  let bytes ← readBytes (← readNatural 8) .textCutShort
  match Utf8.fault? bytes with
  | none => return Utf8.lossy bytes
  | some fault => throw (.notText fault)

/-- The same reader `n` times, onto what it gave before, in reverse. -/
def repeatOnto {α : Type} (reader : Reader α) (done : List α) : Nat → Reader (List α)
  | 0 => return done.reverse
  | n + 1 => do repeatOnto reader ((← reader) :: done) n

/-- As many values as a length in front of them says. -/
def readMany {α : Type} (reader : Reader α) : Reader (List α) := do
  repeatOnto reader [] (← readNatural 8)

/-- A tree of at most `depth` levels. -/
def readTree (label : Reader Datum) : Nat → Reader Datum
  | 0 => throw .endOfInput
  | depth + 1 => do
    let x ← label
    return .node x (← readMany (readTree label depth))

mutual

/-- A value of a shape. Each level of a tree takes bytes of its own, so a tree has fewer levels
than the input has bytes. -/
def read : Shape → Reader Datum
  | .natural width => return .natural width (← readNatural width)
  | .integer width => return .integer width (← readInteger width)
  | .bool => return .bool (← readBool)
  | .char => return .char (← readChar)
  | .text => return .text (← readText)
  | .unit => return .unit
  | .option item => do
    match ← readNatural 1 with
    | 0 => return .none
    | 1 => return .some (← read item)
    | n => throw (.notOption n)
  | .list item => return .list (← readMany (read item))
  | .dict item => do
    return .ofEntries (← readMany do
      let key ← readText
      return (key, ← read item))
  | .tuple items => return .tuple (← readAll items)
  | .choice variants => do
    let index ← readNatural 4
    return .variant index (← readVariant (.noVariant index variants.length) variants index)
  | .tree label => do readTree (read label) (← get).length

/-- Values of several shapes, one after the other. -/
def readAll : List Shape → Reader (List Datum)
  | [] => return []
  | s :: shapes => do
    let x ← read s
    return x :: (← readAll shapes)

/-- A value of the shape with that index. -/
def readVariant (missing : Fault) : List Shape → Nat → Reader Datum
  | [], _ => throw missing
  | s :: _, 0 => read s
  | _ :: shapes, i + 1 => readVariant missing shapes i

end

end CacheClient.Object
