import CacheClient.Text.Utf8
import Std.Data.ExtTreeMap

/-!
# Keys

A key is a non-empty byte string without control characters, spaces and deletes; the type says
so. It comes from a source, which may be text or bytes, through `Key.validate`, which also
applies a limit on the length.

Keys are ordered byte by byte. A map from keys (`KeyMap`) is a finite map in that order, and
two of them are equal when they look the same at every key.
-/

namespace CacheClient

/-- Why a source gives no key. -/
inductive KeyError where
  | empty
  | encoding
  | tooLong (length limit : Nat)
  | controlCharacter (byte : UInt8) (position : Nat)
deriving DecidableEq, Repr

/-- Two hexadecimal digits. -/
def hexByte (b : UInt8) : String :=
  String.ofList [(b.toNat / 16).digitChar, (b.toNat % 16).digitChar]

/-- The wording of a refusal. -/
def KeyError.message : KeyError → String
  | .empty => "key is empty"
  | .encoding => "key is not valid unicode and cannot be encoded as UTF-8"
  | .tooLong length limit => s!"key length {length} is > {limit}"
  | .controlCharacter byte position =>
    s!"control characters not allowed (byte 0x{hexByte byte} at position {position})"

/-- A byte that no key may hold: a control character, a space or a delete. -/
def Key.isForbidden (b : UInt8) : Bool :=
  b < 33 || b == 127

/-- A key: at least one byte, none of them forbidden. -/
structure Key where
  bytes : Bytes
  nonempty : bytes ≠ []
  allowed : ∀ b ∈ bytes, Key.isForbidden b = false
deriving DecidableEq

namespace Key

@[ext] theorem ext {a b : Key} (h : a.bytes = b.bytes) : a = b := by
  cases a; cases b; simpa using h

/-! ## Order -/

instance : Ord Key := ⟨fun a b => compare a.bytes b.bytes⟩

instance : Std.TransOrd Key where
  eq_swap {a b} := Std.OrientedOrd.eq_swap (a := a.bytes) (b := b.bytes)
  isLE_trans {a b c} := Std.TransOrd.isLE_trans (a := a.bytes) (b := b.bytes) (c := c.bytes)

instance : Std.LawfulEqOrd Key where
  compare_self {a} := Std.ReflOrd.compare_self (a := a.bytes)
  eq_of_compare h := Key.ext (Std.LawfulEqOrd.eq_of_compare h)

/-! ## Views -/

/-- The number of bytes. -/
def length (k : Key) : Nat := k.bytes.length

/-- The key as text, if it is text. -/
def text? (k : Key) : Option String := Utf8.string? k.bytes

/-- The key for a reader, faults replaced. -/
def display (k : Key) : String := Utf8.lossy k.bytes

/-- A text in quotes, where quotes and backslashes get a backslash and all else stays as it is. -/
def quoted (text : String) : String :=
  String.ofList ('"' :: text.toList.flatMap escape ++ ['"'])
where
  escape (c : Char) : List Char :=
    if c = '"' ∨ c = '\\' then ['\\', c] else [c]

/-- The key for a programmer, if all its characters can be printed as they are. Those beyond ASCII
that cannot, such as U+0080 or a combining mark, are left as they are too. -/
def inspect (k : Key) : String := s!"Key({quoted k.display})"

end Key

/-! ## Maps -/

/-- A finite map from keys. -/
abbrev KeyMap (α : Type) := Std.ExtTreeMap Key α

namespace KeyMap

variable {α : Type}

theorem getElem?_insert (m : KeyMap α) (k a : Key) (x : α) :
    (m.insert k x)[a]? = if k = a then some x else m[a]? := by
  simp only [Std.ExtTreeMap.getElem?_insert, Std.LawfulEqOrd.compare_eq_iff_eq]

theorem getElem?_erase (m : KeyMap α) (k a : Key) :
    (m.erase k)[a]? = if k = a then none else m[a]? := by
  simp only [Std.ExtTreeMap.getElem?_erase, Std.LawfulEqOrd.compare_eq_iff_eq]

end KeyMap

/-! ## Sources -/

/-- Where a key comes from: bytes, or the reason why there are none. -/
structure Key.Source where
  bytes? : Except KeyError Bytes

namespace Key.Source

instance : DecidableEq Key.Source
  | ⟨.ok a⟩, ⟨.ok b⟩ => decidable_of_iff (a = b) (by simp)
  | ⟨.error a⟩, ⟨.error b⟩ => decidable_of_iff (a = b) (by simp)
  | ⟨.ok _⟩, ⟨.error _⟩ => isFalse (by simp)
  | ⟨.error _⟩, ⟨.ok _⟩ => isFalse (by simp)

/-- Text gives its UTF-8 form. -/
def ofText (s : String) : Key.Source := ⟨.ok (Utf8.ofString s)⟩

/-- Bytes give themselves. -/
def ofBytes (bytes : Bytes) : Key.Source := ⟨.ok bytes⟩

/-- A name in the encoding of the operating system may be no text, and then has no form. -/
def ofSystemName (name : Bytes) : Key.Source :=
  ⟨if (Utf8.decode? name).isSome then .ok name else .error .encoding⟩

/-- A key gives its bytes, whatever limit it was validated under. -/
def ofKey (k : Key) : Key.Source := ⟨.ok k.bytes⟩

theorem ofKey_inj {a b : Key} (h : ofKey a = ofKey b) : a = b :=
  Key.ext (Except.ok.inj (Source.mk.inj h))

end Key.Source

/-- The key of a byte string. A limit of 0 is none. -/
def Key.ofBytes (limit : Nat) (bytes : Bytes) : Except KeyError Key :=
  if nonempty : bytes = [] then .error .empty
  else if limit ≠ 0 ∧ limit < bytes.length then .error (.tooLong bytes.length limit)
  else match h : bytes.find? isForbidden with
    | some b => .error (.controlCharacter b (bytes.findIdx isForbidden))
    | none => .ok ⟨bytes, nonempty, fun b hb => by simpa using List.find?_eq_none.1 h b hb⟩

/-- The key of a source. -/
def Key.validate (limit : Nat) (source : Key.Source) : Except KeyError Key :=
  source.bytes?.bind (Key.ofBytes limit)

end CacheClient
