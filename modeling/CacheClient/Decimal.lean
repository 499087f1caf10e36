/-!
# Decimal numerals

Numbers as decimal text. Writing gives the shortest numeral. Reading is more generous, in two
grammars:

* a **bounded** numeral is an optional sign and at least one digit, and its value has to fit
  (`readBounded`). The digits are taken from left to right, so of a bad character and a value
  that grows too large, the one that comes first is reported;
* a numeral **of any size** (`readInteger`) may also hold underscores between and behind its
  digits, which stand for nothing.

Neither grammar has blanks. Where a numeral may stand between blanks, these are taken off first
(`Text.trim`). There are two sets of them: `Text.isAsciiBlank` holds the blanks of ASCII, where the
vertical tab is none, and `Text.isBlank` is the Unicode property `White_Space`, where it is one.
-/

namespace CacheClient.Decimal

/-- Why text is no numeral, or none that fits. -/
inductive NumeralError where
  | empty
  | invalidDigit
  | tooLarge
  | tooSmall
deriving DecidableEq, Repr

/-- The wording of a refusal. -/
def NumeralError.message : NumeralError → String
  | .empty => "cannot parse integer from empty string"
  | .invalidDigit => "invalid digit found in string"
  | .tooLarge => "number too large to fit in target type"
  | .tooSmall => "number too small to fit in target type"

/-! ## Writing -/

/-- The digits of a number, without leading zeros. -/
def natural (n : Nat) : List Char :=
  Nat.toDigits 10 n

/-- The digits of a number, behind a minus sign if it is negative. -/
def integer : Int → List Char
  | .ofNat n => natural n
  | .negSucc n => '-' :: natural (n + 1)

/-! ## Reading -/

/-- The value of a digit. -/
def digit? (c : Char) : Option Nat :=
  if '0' ≤ c ∧ c ≤ '9' then some (c.toNat - '0'.toNat) else none

/-- Read digits behind those that gave `value`; the result may not pass `bound`. -/
def readUpTo (bound : Nat) (overflow : NumeralError) (value : Nat) :
    List Char → Except NumeralError Nat
  | [] => .ok value
  | c :: rest =>
    match digit? c with
    | none => .error .invalidDigit
    | some d =>
      if value * 10 + d ≤ bound then readUpTo bound overflow (value * 10 + d) rest
      else .error overflow

/-- Read a number from `-lower` to `upper`, with or without a sign. -/
def readBounded (lower upper : Nat) : List Char → Except NumeralError Int
  | [] => .error .empty
  | ['+'] | ['-'] => .error .invalidDigit
  | '+' :: digits => (readUpTo upper .tooLarge 0 digits).map Int.ofNat
  | '-' :: digits => (readUpTo lower .tooSmall 0 digits).map fun n => -Int.ofNat n
  | digits => (readUpTo upper .tooLarge 0 digits).map Int.ofNat

/-- Read a signed word of 64 bits. -/
def readInt64 (text : List Char) : Except NumeralError Int64 :=
  (readBounded 0x8000000000000000 0x7FFFFFFFFFFFFFFF text).map Int64.ofInt

/-- Read an unsigned word of 64 bits, which takes no minus sign. -/
def readUInt64 : List Char → Except NumeralError UInt64
  | [] => .error .empty
  | ['+'] => .error .invalidDigit
  | '+' :: digits => (readUpTo 0xFFFFFFFFFFFFFFFF .tooLarge 0 digits).map UInt64.ofNat
  | digits => (readUpTo 0xFFFFFFFFFFFFFFFF .tooLarge 0 digits).map UInt64.ofNat

/-- Read digits and underscores behind those that gave `value`. -/
def readGrouped (value : Nat) : List Char → Except NumeralError Nat
  | [] => .ok value
  | c :: rest =>
    if c = '_' then readGrouped value rest
    else match digit? c with
      | none => .error .invalidDigit
      | some d => readGrouped (value * 10 + d) rest

/-- Read a magnitude: a digit, then digits and underscores. -/
def readMagnitude : List Char → Except NumeralError Nat
  | [] => .error .empty
  | '_' :: _ => .error .invalidDigit
  | digits => readGrouped 0 digits

/-- Read a number of any size, with or without a sign. -/
def readInteger : List Char → Except NumeralError Int
  | '-' :: '+' :: _ => .error .invalidDigit
  | '-' :: digits => (readMagnitude digits).map fun n => -Int.ofNat n
  | '+' :: digits => (readMagnitude digits).map Int.ofNat
  | digits => (readMagnitude digits).map Int.ofNat

end CacheClient.Decimal

/-! ## Blanks around text -/

namespace CacheClient.Text

/-- Space, tab, line feed, form feed and carriage return. -/
def isAsciiBlank (c : Char) : Bool :=
  c = ' ' || c = '\t' || c = '\n' || c = '\x0C' || c = '\r'

/-- The first and last code point of each range of the property `White_Space`. -/
def blankRanges : List (Nat × Nat) :=
  [(0x09, 0x0D), (0x20, 0x20), (0x85, 0x85), (0xA0, 0xA0), (0x1680, 0x1680), (0x2000, 0x200A),
    (0x2028, 0x2029), (0x202F, 0x202F), (0x205F, 0x205F), (0x3000, 0x3000)]

/-- The characters with the property `White_Space`. -/
def isBlank (c : Char) : Bool :=
  blankRanges.any fun (first, last) => first ≤ c.toNat && c.toNat ≤ last

/-- The text without the blanks at its two ends. -/
def trim (blank : Char → Bool) (text : List Char) : List Char :=
  ((text.dropWhile blank).reverse.dropWhile blank).reverse

end CacheClient.Text
