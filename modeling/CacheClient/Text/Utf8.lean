import CacheClient.Bytes

/-!
# Text as bytes

The UTF-8 form of text, and reading it back from bytes that need not be well formed.

**Reading.** A byte string falls into pieces (`pieces`): characters, and the ill-formed
stretches between them. A stretch is as long as its bytes could still have begun a character,
so at most three bytes; one that runs into the end of the input is told apart, because more
input could have completed it. Everything else is a view of the pieces: the text, if all of
them are characters (`decode?`), the first fault and its place (`fault?`), and a readable form
with one replacement character for each stretch (`lossy`).
-/

namespace CacheClient.Utf8

/-! ## Writing -/

/-- The bytes of a text, character by character. -/
def encode (text : List Char) : Bytes :=
  text.flatMap String.utf8EncodeChar

/-- The bytes of a string. -/
def ofString (text : String) : Bytes :=
  encode text.toList

@[simp] theorem encode_nil : encode [] = [] := rfl

@[simp] theorem encode_cons (c : Char) (text : List Char) :
    encode (c :: text) = String.utf8EncodeChar c ++ encode text := rfl

@[simp] theorem encode_append (text more : List Char) :
    encode (text ++ more) = encode text ++ encode more :=
  List.flatMap_append

/-! ## One character -/

/-- What a byte above 127 promises when it begins a character: the bits it carries, the number
of bytes still to come, and the range of the next one. Overlong forms, surrogates and values
past the last code point are shut out by the ranges. -/
structure Lead where
  bits : Nat
  more : Nat
  low : UInt8
  high : UInt8

/-- The promise of a first byte, if a character can begin with it. -/
def Lead.of? (b : UInt8) : Option Lead :=
  if b < 0xC2 then none
  else if b < 0xE0 then some ⟨b.toNat - 0xC0, 1, 0x80, 0xBF⟩
  else if b = 0xE0 then some ⟨0, 2, 0xA0, 0xBF⟩
  else if b = 0xED then some ⟨0xD, 2, 0x80, 0x9F⟩
  else if b < 0xF0 then some ⟨b.toNat - 0xE0, 2, 0x80, 0xBF⟩
  else if b = 0xF0 then some ⟨0, 3, 0x90, 0xBF⟩
  else if b < 0xF4 then some ⟨b.toNat - 0xF0, 3, 0x80, 0xBF⟩
  else if b = 0xF4 then some ⟨4, 3, 0x80, 0x8F⟩
  else none

/-- What stands at the front of a byte string. -/
inductive Front where
  /-- No byte at all. -/
  | nothing
  /-- A character, and the bytes after it. -/
  | char (c : Char) (rest : Bytes)
  /-- Bytes that begin no character, the longest stretch of them, and the bytes after it. -/
  | illFormed (length : Nat) (rest : Bytes)
  /-- The beginning of a character that the input does not finish. -/
  | unfinished
deriving DecidableEq, Repr

/-- Read the `more` bytes still owed to a character, the next one between `low` and `high`. -/
def continued (seen bits : Nat) (low high : UInt8) : Nat → Bytes → Front
  | 0, rest => .char (Char.ofNat bits) rest
  | _ + 1, [] => .unfinished
  | more + 1, b :: rest =>
    if low ≤ b ∧ b ≤ high then
      continued (seen + 1) (bits * 64 + (b.toNat - 0x80)) 0x80 0xBF more rest
    else .illFormed seen (b :: rest)

/-- The character or fault at the front. -/
def front : Bytes → Front
  | [] => .nothing
  | b :: rest =>
    if b < 0x80 then .char (Char.ofNat b.toNat) rest
    else match Lead.of? b with
      | none => .illFormed 1 rest
      | some lead => continued 1 lead.bits lead.low lead.high lead.more rest

/-- The bytes behind the front. -/
def Front.rest : Front → Bytes
  | .nothing | .unfinished => []
  | .char _ rest | .illFormed _ rest => rest

theorem length_rest_continued (seen bits : Nat) (low high : UInt8) (more : Nat) (bytes : Bytes) :
    (continued seen bits low high more bytes).rest.length ≤ bytes.length := by
  induction more generalizing seen bits low high bytes with
  | zero => simp [continued, Front.rest]
  | succ more ih =>
    cases bytes with
    | nil => simp [continued, Front.rest]
    | cons b rest =>
      rw [continued]
      split
      · exact Nat.le_succ_of_le (ih _ _ _ _ rest)
      · simp [Front.rest]

/-- Something is read whenever there is something. -/
theorem length_rest_front (b : UInt8) (rest : Bytes) :
    (front (b :: rest)).rest.length ≤ rest.length := by
  rw [front]
  split
  · exact Nat.le_refl _
  · split
    · exact Nat.le_refl _
    · exact length_rest_continued _ _ _ _ _ rest

theorem length_rest_lt {bytes : Bytes} {f : Front} (h : front bytes = f) (hf : f ≠ .nothing) :
    f.rest.length < bytes.length := by
  subst h
  cases bytes with
  | nil => exact absurd rfl hf
  | cons b rest => exact Nat.lt_succ_of_le (length_rest_front b rest)

/-! ## All of them -/

/-- A stretch of a byte string. -/
inductive Piece where
  /-- A character. -/
  | char (c : Char)
  /-- An ill-formed stretch of `length` bytes. -/
  | illFormed (length : Nat)
  /-- A character cut short by the end of the input. -/
  | unfinished
deriving DecidableEq, Repr

/-- The pieces of a byte string behind those read so far, which come in reverse. -/
def piecesOnto (done : List Piece) (bytes : Bytes) : List Piece :=
  match h : front bytes with
  | .nothing => done.reverse
  | .unfinished => (.unfinished :: done).reverse
  | .char c rest =>
    have : rest.length < bytes.length := length_rest_lt h (by simp)
    piecesOnto (.char c :: done) rest
  | .illFormed length rest =>
    have : rest.length < bytes.length := length_rest_lt h (by simp)
    piecesOnto (.illFormed length :: done) rest
termination_by bytes.length

/-- The pieces of a byte string, in order. -/
def pieces (bytes : Bytes) : List Piece :=
  piecesOnto [] bytes

theorem piecesOnto_eq (done : List Piece) (bytes : Bytes) :
    piecesOnto done bytes = done.reverse ++ pieces bytes := by
  induction hn : bytes.length using Nat.strongRecOn generalizing done bytes with
  | ind n ih =>
    subst hn
    rw [pieces, piecesOnto, piecesOnto]
    split
    · simp
    · simp
    · next c rest h =>
      have hlt : rest.length < bytes.length := length_rest_lt h (by simp)
      rw [ih _ hlt (.char c :: done) rest rfl, ih _ hlt [.char c] rest rfl]
      simp
    · next k rest h =>
      have hlt : rest.length < bytes.length := length_rest_lt h (by simp)
      rw [ih _ hlt (.illFormed k :: done) rest rfl, ih _ hlt [.illFormed k] rest rfl]
      simp

/-- The first piece is what stands at the front, and the others come from behind it. -/
theorem pieces_eq (bytes : Bytes) :
    pieces bytes = match front bytes with
      | .nothing => []
      | .unfinished => [.unfinished]
      | .char c rest => .char c :: pieces rest
      | .illFormed length rest => .illFormed length :: pieces rest := by
  rw [pieces, piecesOnto]
  split <;> simp_all [piecesOnto_eq]

/-! ## Views of the pieces -/

/-- The character that a piece is. -/
def Piece.char? : Piece → Option Char
  | .char c => some c
  | .illFormed _ | .unfinished => none

/-- The character that stands for a piece in a readable form: U+FFFD for a fault. -/
def Piece.shown : Piece → Char
  | .char c => c
  | .illFormed _ | .unfinished => '\uFFFD'

/-- The text of well-formed bytes. -/
def decode? (bytes : Bytes) : Option (List Char) :=
  (pieces bytes).mapM Piece.char?

/-- The string of well-formed bytes. -/
def string? (bytes : Bytes) : Option String :=
  (decode? bytes).map String.ofList

/-- The bytes as readable text, with one replacement character for each fault. -/
def lossy (bytes : Bytes) : String :=
  String.ofList ((pieces bytes).map Piece.shown)

/-- Why bytes are no text: how many of them come before the fault, and how long the ill-formed
stretch is, if it does not run into the end of the input. -/
structure Fault where
  validUpTo : Nat
  length : Option Nat
deriving DecidableEq, Repr

/-- The wording of a fault. -/
def Fault.message : Fault → String
  | ⟨validUpTo, some length⟩ => s!"invalid utf-8 sequence of {length} bytes from index {validUpTo}"
  | ⟨validUpTo, none⟩ => s!"incomplete utf-8 byte sequence from index {validUpTo}"

/-- The first fault among pieces that follow `validUpTo` bytes of text. -/
def Fault.first? (validUpTo : Nat) : List Piece → Option Fault
  | [] => none
  | .char c :: rest => first? (validUpTo + c.utf8Size) rest
  | .illFormed length :: _ => some ⟨validUpTo, some length⟩
  | .unfinished :: _ => some ⟨validUpTo, none⟩

/-- The first fault of a byte string. -/
def fault? (bytes : Bytes) : Option Fault :=
  Fault.first? 0 (pieces bytes)

end CacheClient.Utf8
