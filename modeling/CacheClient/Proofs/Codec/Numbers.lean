import CacheClient.Proofs.Cache.Counters
import CacheClient.Proofs.Codec

/-!
# Stored numbers

Bytes show a number if they are a text that is one of its numerals between blanks (`Shows`).
Under the flags of a signed word the numeral has no underscores and the number has to fit, under
those of a number of any size neither is asked for. Nothing else is read under these flags,
whatever the bytes are: bytes that are no text, text that is no numeral and numbers that do not
fit are type errors. Packed bytes are those that they unpack to, and bytes that do not unpack
are no value of any type.

Main result: `decode_number`.
-/

namespace CacheClient.Codec

open Decimal

/-- The bytes show a number: they are one of its numerals, between blanks. -/
def Shows (grouped : Bool) (data : Bytes) (n : Int) : Prop :=
  ∃ text, data = Utf8.encode text ∧ Padded Text.isAsciiBlank (Numeral grouped · n) text

/-- What shows a number without underscores may have them. -/
theorem Shows.of_ungrouped {data : Bytes} {n : Int} (h : Shows false data n) :
    Shows true data n := by
  obtain ⟨text, hdata, front, core, back, htext, hfront, hback, hcore⟩ := h
  exact ⟨text, hdata, front, core, back, htext, hfront, hback, hcore.of_ungrouped⟩

theorem shows_iff {grouped : Bool} {data : Bytes} {n : Int} :
    Shows grouped data n ↔ ∃ text, numberText data = .ok text ∧ Numeral grouped text n := by
  constructor
  · rintro ⟨text, rfl, htext⟩
    refine ⟨_, ?_, Numeral.trim_iff.2 htext⟩
    rw [numberText, Utf8.decode?_encode]
  · rintro ⟨core, hread, hcore⟩
    rw [numberText] at hread
    split at hread
    · next text htext =>
      obtain rfl := Except.ok.inj hread
      exact ⟨text, Utf8.decode?_eq_some_iff.1 htext, Numeral.trim_iff.1 hcore⟩
    · cases hread

/-! ## Plain bytes -/

variable {data : Bytes}

theorem interpret_int_iff {n : Int64} :
    interpret .int data = .ok (.int n) ↔ Shows false data n.toInt := by
  rw [shows_iff]
  rcases numberText_cases data with ⟨text, hread⟩ | hread
  · simp only [interpret, hread, bind, Except.bind, Except.ok.injEq, exists_eq_left',
      ← readInt64_eq_ok_iff]
    cases readInt64 text <;> simp
  · simp [interpret, hread, bind, Except.bind]

/-- What shows no signed word is of no type. -/
theorem interpret_int_of_ne (h : ∀ n, interpret .int data ≠ .ok (.int n)) :
    ∃ cause, interpret .int data = .error (.type cause) := by
  refine (interpret_cases .int data).resolve_left ?_
  rintro ⟨v, hv, hencoding⟩
  cases v <;> cases hencoding
  exact h _ hv

theorem interpret_long_iff {n : Int} :
    interpret .long data = .ok (.long n) ↔ Shows true data n := by
  rw [shows_iff]
  rcases numberText_cases data with ⟨text, hread⟩ | hread
  · simp only [interpret, hread, bind, Except.bind, Except.ok.injEq, exists_eq_left',
      ← readInteger_eq_ok_iff]
    cases readInteger text <;> simp
  · simp [interpret, hread, bind, Except.bind]

/-- What shows no number is of no type. -/
theorem interpret_long_of_ne (h : ∀ n, interpret .long data ≠ .ok (.long n)) :
    ∃ cause, interpret .long data = .error (.type cause) := by
  refine (interpret_cases .long data).resolve_left ?_
  rintro ⟨v, hv, hencoding⟩
  cases v <;> cases hencoding
  exact h _ hv

theorem Shows.unique {m n : Int} (hm : Shows true data m) (hn : Shows true data n) : m = n := by
  have h : (.ok (.long m) : Except Error Value) = .ok (.long n) :=
    (interpret_long_iff.2 hm).symm.trans (interpret_long_iff.2 hn)
  cases h
  rfl

/-! ## Counters -/

theorem shows_showCounter (grouped : Bool) (n : UInt64) :
    Shows grouped (Cache.showCounter n) n.toNat :=
  ⟨natural n.toNat, rfl, .of_core (.natural (natural_natural n.toNat))⟩

/-- What a counter reads as under an encoding: its number or its digits, but an unsigned word is
not always a signed one. -/
def ReadsAs (n : UInt64) (result : Except Error Value) : Encoding → Prop
  | .raw => result = .ok (.raw (Utf8.encode (natural n.toNat)))
  | .object => result = .ok (.object (Utf8.encode (natural n.toNat)))
  | .long => result = .ok (.long n.toNat)
  | .int =>
    if n.toNat < 2 ^ 63 then result = .ok (.int (Int64.ofNat n.toNat))
    else ∃ cause, result = .error (.type cause)

theorem interpret_showCounter (encoding : Encoding) (n : UInt64) :
    ReadsAs n (interpret encoding (Cache.showCounter n)) encoding := by
  cases encoding with
  | raw => rfl
  | object => rfl
  | long => exact interpret_long_iff.2 (shows_showCounter true n)
  | int =>
    rw [ReadsAs]
    split
    · next hn =>
      rw [interpret_int_iff, Int64.toInt_ofNat_of_lt hn]
      exact shows_showCounter false n
    · next hn =>
      refine interpret_int_of_ne ?_
      intro m hm
      have heq : m.toInt = n.toNat :=
        (interpret_int_iff.1 hm).of_ungrouped.unique (shows_showCounter true n)
      have hlt := m.toInt_lt
      omega

/-! ## Stored bytes -/

/-- What stored bytes stand for: themselves, or what they unpack to. -/
def unpack (data : Bytes) (bits : UInt32) : Except Lz4.Error Bytes :=
  if Flags.hasBit bits Flags.compressedBit then Lz4.decompress data else .ok data

theorem decode_of_unpack_eq_error {bits : UInt32} {cause : Lz4.Error}
    (h : unpack data bits = .error cause) : decode data bits = .error (.compression cause) := by
  rw [unpack] at h
  split at h
  · next hpacked => simp [decode, Flags.ofBits, hpacked, h]
  · cases h

theorem decode_of_unpack_eq_ok {bits : UInt32} {plain : Bytes} (h : unpack data bits = .ok plain) :
    decode data bits = interpret (Flags.ofBits bits).encoding plain := by
  rw [unpack] at h
  split at h
  · next hpacked =>
    have hpacked : (Flags.ofBits bits).compressed = true := hpacked
    simp [decode, hpacked, h]
  · next hpacked =>
    have hpacked : (Flags.ofBits bits).compressed ≠ true := hpacked
    cases h
    simp [decode, hpacked]

theorem encoding_ofBits_int {bits : UInt32} (hint : Flags.hasBit bits Encoding.int.bit = true) :
    (Flags.ofBits bits).encoding = .int := if_pos hint

theorem encoding_ofBits_long {bits : UInt32} (hint : Flags.hasBit bits Encoding.int.bit = false)
    (hlong : Flags.hasBit bits Encoding.long.bit = true) :
    (Flags.ofBits bits).encoding = .long := by
  simp [Flags.ofBits, hint, hlong]

theorem exists_shows_iff {grouped : Bool} {n : Int64} :
    (∃ m : Int, Shows grouped data m ∧ -2 ^ 63 ≤ m ∧ m < 2 ^ 63 ∧ n = Int64.ofInt m) ↔
      Shows grouped data n.toInt := by
  constructor
  · rintro ⟨m, hm, hlower, hupper, rfl⟩
    rwa [Int64.toInt_ofInt_of_le hlower hupper]
  · intro h
    exact ⟨n.toInt, h, n.le_toInt, n.toInt_lt, (Int64.ofInt_toInt n).symm⟩

/-- **Numbers are read from exactly what shows them**, for all bytes and all words of flags. Under
the bit of a signed word this is a numeral without underscores for a number that fits, and under
that of a number of any size a numeral that may have some; all else is a type error. What is read
under the former bit is the same number under the latter. Bytes that are said to be packed are
read as what they unpack to, and if they do not unpack, no other bit of the flags matters. -/
theorem decode_number (data : Bytes) (bits : UInt32) :
    (∀ cause, unpack data bits = .error cause →
      decode data bits = .error (.compression cause)) ∧
    ∀ plain, unpack data bits = .ok plain →
      (Flags.hasBit bits Encoding.int.bit = true →
        (∀ n, decode data bits = .ok (.int n) ↔
          ∃ m : Int, Shows false plain m ∧ -2 ^ 63 ≤ m ∧ m < 2 ^ 63 ∧ n = Int64.ofInt m) ∧
        ((∀ n, decode data bits ≠ .ok (.int n)) →
          ∃ cause, decode data bits = .error (.type cause)) ∧
        ∀ n other, unpack data other = .ok plain →
          Flags.hasBit other Encoding.int.bit = false →
          Flags.hasBit other Encoding.long.bit = true →
          decode data bits = .ok (.int n) → decode data other = .ok (.long n.toInt)) ∧
      (Flags.hasBit bits Encoding.int.bit = false → Flags.hasBit bits Encoding.long.bit = true →
        (∀ n, decode data bits = .ok (.long n) ↔ Shows true plain n) ∧
        ((∀ n, decode data bits ≠ .ok (.long n)) →
          ∃ cause, decode data bits = .error (.type cause))) := by
  refine ⟨fun cause h => decode_of_unpack_eq_error h, fun plain hplain => ⟨?_, ?_⟩⟩
  · intro hint
    rw [decode_of_unpack_eq_ok hplain, encoding_ofBits_int hint]
    refine ⟨fun n => interpret_int_iff.trans exists_shows_iff.symm, interpret_int_of_ne, ?_⟩
    · intro n other hother hint' hlong h
      rw [decode_of_unpack_eq_ok hother, encoding_ofBits_long hint' hlong, interpret_long_iff]
      exact (interpret_int_iff.1 h).of_ungrouped
  · intro hint hlong
    rw [decode_of_unpack_eq_ok hplain, encoding_ofBits_long hint hlong]
    exact ⟨fun n => interpret_long_iff, interpret_long_of_ne⟩

end CacheClient.Codec
