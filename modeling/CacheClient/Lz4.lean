import CacheClient.Bytes

/-!
# LZ4

A packed payload is the length of the plain one, in four bytes, and its LZ4 block. The length is the
capacity of the output when the payload is unpacked.

**The block format.** A block is a list of sequences and a tail of literals. A sequence appends its
literals to the output, then copies `length` bytes from `offset` bytes back; the copy may run into
the bytes it writes itself. On disk a sequence opens with a token, whose upper half is the number of
literals and whose lower half is the length of the copy less four. A half of 15 goes on in extension
bytes: 255 as often as it fits, then the remainder.

**Expanding.** A block is read and its sequences are carried out, one after the other, into an output
of limited capacity. The first fault from left to right is reported.

**The search for repetitions.** The compressor walks over the input and looks, at each position it
visits, for an earlier position with the same bytes. A table remembers one earlier position for each
hash of the next bytes. A candidate counts only if it is near enough and its bytes are the same, so
whatever the table proposes, the block found expands to the input. The longer nothing is found, the
larger the steps: one more byte after every 32 misses.
-/

namespace CacheClient.Lz4

/-! ## The block format -/

/-- Literals, and a copy of earlier output. -/
structure Sequence where
  literals : Bytes
  offset : Nat
  length : Nat
deriving DecidableEq, Repr

/-- A compressed text. -/
structure Block where
  sequences : List Sequence
  tail : Bytes
deriving DecidableEq, Repr

/-- The shortest copy. -/
def minLength : Nat := 4

/-- The token of `literals` literals and a copy `extra` bytes longer than the shortest. -/
def token (literals extra : Nat) : UInt8 :=
  UInt8.ofNat (min literals 15 * 16 + min extra 15)

/-- The bytes that go on where half a token ends. -/
def extension (n : Nat) : Bytes :=
  if n < 15 then []
  else List.replicate ((n - 15) / 255) 255 ++ [UInt8.ofNat ((n - 15) % 255)]

/-- The bytes of a sequence. -/
def Sequence.write (s : Sequence) : Bytes :=
  let extra := s.length - minLength
  token s.literals.length extra :: (extension s.literals.length ++ s.literals ++
    Bytes.littleEndian 2 s.offset ++ extension extra)

/-- The bytes of a block. -/
def Block.write (b : Block) : Bytes :=
  b.sequences.flatMap Sequence.write ++
    token b.tail.length 0 :: (extension b.tail.length ++ b.tail)

/-! ## Expanding -/

/-- Why a block cannot be expanded. -/
inductive Error where
  | missingByte
  | literalsOutOfBounds
  | outputTooSmall (capacity needed : Nat)
  | zeroOffset
  | offsetOutOfBounds
deriving DecidableEq, Repr

/-- The wording of a fault. -/
def Error.message : Error → String
  | .missingByte => "expected another byte, found none"
  | .literalsOutOfBounds => "literal is out of bounds of the input"
  | .outputTooSmall capacity needed =>
    s!"provided output is too small for the decompressed data, actual {capacity}, expected {needed}"
  | .zeroOffset => "0 is not a valid match offset"
  | .offsetOutOfBounds => "the offset to copy is not contained in the decompressed buffer"

/-- Read extension bytes onto a number. -/
def readExtension (n : Nat) : Bytes → Option (Nat × Bytes)
  | [] => none
  | b :: rest => if b = 255 then readExtension (n + 255) rest else some (n + b.toNat, rest)

/-- The number that half a token begins. -/
def readCount (half : Nat) (input : Bytes) : Option (Nat × Bytes) :=
  if half < 15 then some (half, input) else readExtension 15 input

/-- Append `length` bytes to the output, each a copy of the one `offset` back. -/
def copyBack (offset : Nat) : Nat → Array UInt8 → Array UInt8
  | 0, out => out
  | length + 1, out => copyBack offset length (out.push (out.getD (out.size - offset) 0))

theorem length_readExtension {n m : Nat} {input rest : Bytes}
    (h : readExtension n input = some (m, rest)) : rest.length ≤ input.length := by
  induction input generalizing n with
  | nil => simp [readExtension] at h
  | cons b input ih =>
    rw [readExtension] at h
    split at h
    · exact Nat.le_succ_of_le (ih h)
    · simp only [Option.some.injEq, Prod.mk.injEq] at h
      simp [← h.2]

theorem length_readCount {half m : Nat} {input rest : Bytes}
    (h : readCount half input = some (m, rest)) : rest.length ≤ input.length := by
  rw [readCount] at h
  split at h
  · simp only [Option.some.injEq, Prod.mk.injEq] at h
    simp [← h.2]
  · exact length_readExtension h

/-- Expand the sequences of `input` behind the output so far. -/
def expandOnto (capacity : Nat) (out : Array UInt8) (input : Bytes) : Except Error Bytes :=
  match input with
  | [] => .error .missingByte
  | tok :: input =>
    match _hcount : readCount (tok.toNat / 16) input with
    | none => .error .missingByte
    | some (count, afterCount) =>
      match _hlits : Bytes.split? count afterCount with
      | none => .error .literalsOutOfBounds
      | some (literals, afterLiterals) =>
        if capacity < out.size + count then .error (.outputTooSmall capacity (out.size + count))
        else
          let out := literals.foldl Array.push out
          match afterLiterals with
          | [] => .ok out.toList
          | [_] => .error .missingByte
          | lo :: hi :: afterOffset =>
            let offset := lo.toNat + 256 * hi.toNat
            if offset = 0 then .error .zeroOffset
            else match _hextra : readCount (tok.toNat % 16) afterOffset with
              | none => .error .missingByte
              | some (extra, rest) =>
                let length := minLength + extra
                if capacity < out.size + length then
                  .error (.outputTooSmall capacity (out.size + length))
                else if out.size < offset then .error .offsetOutOfBounds
                else expandOnto capacity (copyBack offset length out) rest
termination_by input.length
decreasing_by
  have h₁ := length_readCount _hcount
  have h₂ := congrArg List.length (Bytes.split?_eq_some_iff.1 _hlits).2
  have h₃ := length_readCount _hextra
  simp only [List.length_append, List.length_cons] at *
  omega

/-! ## The search for repetitions -/

/-- The number of slots in the table of earlier positions. -/
def slots : Nat := 4096

/-- The farthest a copy reaches back. -/
def maxOffset : Nat := 65535

/-- No sequence starts in the last bytes of the input. -/
def startMargin : Nat := 12

/-- No copy reaches into the last bytes of the input. -/
def copyMargin : Nat := 6

/-- The four bytes at `p` as a word, the first byte lowest. -/
def word32 (d : Array UInt8) (p : Nat) : UInt32 :=
  (d.getD p 0).toUInt32 ||| (d.getD (p + 1) 0).toUInt32 <<< 8 |||
    (d.getD (p + 2) 0).toUInt32 <<< 16 ||| (d.getD (p + 3) 0).toUInt32 <<< 24

/-- The slot of the bytes at `p`: of four of them in short inputs, of five in long ones. -/
def slot (d : Array UInt8) (p : Nat) : Nat :=
  if d.size < 65535 then ((word32 d p * 2654435761) >>> 20).toNat
  else
    let word40 := (word32 d p).toUInt64 ||| (d.getD (p + 4) 0).toUInt64 <<< 32
    (((word40 <<< 24) * 889523592379) >>> 52).toNat

/-- The number of bytes, at most `limit`, that agree from `i` and `j` on; `count` are known. -/
def agreeAfter (d : Array UInt8) (i j count : Nat) : Nat → Nat
  | 0 => count
  | limit + 1 =>
    if d.getD (i + count) 0 = d.getD (j + count) 0 then agreeAfter d i j (count + 1) limit
    else count

/-- The number of bytes, at most `limit`, that agree before `i` and `j`; `count` are known. -/
def agreeBefore (d : Array UInt8) (i j count : Nat) : Nat → Nat
  | 0 => count
  | limit + 1 =>
    if d.getD (i - (count + 1)) 0 = d.getD (j - (count + 1)) 0 then
      agreeBefore d i j (count + 1) limit
    else count

/-- The number of bytes that a copy from `old` to `cur` may cover, if `old` is near enough. -/
def reach (d : Array UInt8) (old cur : Nat) : Nat :=
  if old < cur ∧ cur - old ≤ maxOffset then agreeAfter d old cur 0 (d.size - copyMargin - cur)
  else 0

/-- Compress the input from `start` on, where `found` are the sequences before it, in reverse.
The position at hand is `cur`, after `misses` visits without success. -/
def scan (d : Array UInt8) (table : Array Nat) (start cur misses : Nat)
    (found : List Sequence) : Block :=
  if d.size < cur + startMargin then ⟨found.reverse, d.toList.drop start⟩
  else
    let old := table.getD (slot d cur) 0
    let table := table.setIfInBounds (slot d cur) cur
    let after := reach d old cur
    if minLength ≤ after then
      let before := agreeBefore d old cur 0 (min old (cur - start))
      let next := cur + after
      let s : Sequence :=
        ⟨(d.extract start (cur - before)).toList, cur - old, before + after⟩
      scan d (table.setIfInBounds (slot d (next - 2)) (next - 2)) next next 0 (s :: found)
    else scan d table start (cur + 1 + misses / 32) (misses + 1) found
termination_by d.size - cur
decreasing_by all_goals simp +zetaDelta only [startMargin, minLength] at *; omega

/-- The block of an input. -/
def Block.of (bytes : Bytes) : Block :=
  scan bytes.toArray (Array.replicate slots 0) 0 1 0 []

/-! ## Packed payloads -/

/-- Pack a payload. -/
def compress (bytes : Bytes) : Bytes :=
  Bytes.littleEndian 4 bytes.length ++ (Block.of bytes).write

/-- Unpack a payload. -/
def decompress (packed : Bytes) : Except Error Bytes :=
  match Bytes.split? 4 packed with
  | none => .error .missingByte
  | some (size, block) => expandOnto (Bytes.toNat size) #[] block

end CacheClient.Lz4
