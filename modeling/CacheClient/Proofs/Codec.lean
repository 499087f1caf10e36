import CacheClient.Codec
import CacheClient.Proofs.Decimal.Blanks
import CacheClient.Proofs.Lz4.Search
import CacheClient.Proofs.Utf8

/-!
# Stored values are read back

Storing takes three steps, and reading undoes each of them: a payload is read by its encoding
(`interpret_payload`), a packed payload is unpacked (`Lz4.decompress_compress`), and flags are
recovered from their word, whatever else is set above its four low bits (`ofBits_bits_or`).

Main result: `decode_of_encode_eq_ok`. What reads as raw bytes is exactly what carries the raw
encoding and shows these bytes once it is unpacked (`decode_eq_raw_iff`).
-/

namespace CacheClient

/-! ## Flags -/

namespace Flags

theorem hasBit_or {word u : UInt32} (hu : u &&& 15 = 0) (bit : UInt32)
    (hbit : 15 &&& bit = bit) : hasBit (word ||| u) bit = hasBit word bit := by
  have hdrop : u &&& bit = 0 := by
    rw [← hbit, ← UInt32.and_assoc, hu, UInt32.zero_and]
  have hdistrib : (word ||| u) &&& bit = word &&& bit ||| u &&& bit :=
    UInt32.toBitVec_inj.1 BitVec.and_or_distrib_right
  rw [hasBit, hdistrib, hdrop, UInt32.or_zero, hasBit]

theorem ofBits_bits_or (f : Flags) {u : UInt32} (hu : u &&& 15 = 0) :
    ofBits (f.bits ||| u) = f := by
  conv => rhs; rw [← ofBits_bits f]
  simp only [ofBits, hasBit_or hu Encoding.int.bit rfl, hasBit_or hu Encoding.long.bit rfl,
    hasBit_or hu Encoding.object.bit rfl, hasBit_or hu compressedBit rfl]

end Flags

namespace Codec

/-! ## Payloads -/

theorem numberText_encode (n : Int) :
    numberText (Utf8.encode (Decimal.integer n)) = .ok (Decimal.integer n) := by
  rw [numberText, Utf8.decode?_encode]
  simp only [Decimal.trim_integer]

theorem interpret_payload (v : Value) : interpret v.encoding v.payload = .ok v := by
  cases v with
  | raw bytes => rfl
  | object bytes => rfl
  | int n =>
    simp only [interpret, Value.encoding, Value.payload, numberText_encode]
    simp only [bind, Except.bind, Decimal.readInt64_integer]
  | long n =>
    simp only [interpret, Value.encoding, Value.payload, numberText_encode]
    simp only [bind, Except.bind, Decimal.readInteger_integer]

theorem numberText_cases (data : Bytes) :
    (∃ text, numberText data = .ok text) ∨ numberText data = .error (.type .notAscii) := by
  rw [numberText]
  split
  · exact .inl ⟨_, rfl⟩
  · exact .inr rfl

/-- What is read is of the kind that is asked for. All else is a type error. -/
theorem interpret_cases (encoding : Encoding) (data : Bytes) :
    (∃ v, interpret encoding data = .ok v ∧ v.encoding = encoding) ∨
      ∃ cause, interpret encoding data = .error (.type cause) := by
  cases encoding with
  | raw => exact .inl ⟨.raw data, rfl, rfl⟩
  | object => exact .inl ⟨.object data, rfl, rfl⟩
  | int =>
    rcases numberText_cases data with ⟨text, hread⟩ | hread
    · simp only [interpret, hread, bind, Except.bind]
      cases Decimal.readInt64 text with
      | ok n => exact .inl ⟨.int n, rfl, rfl⟩
      | error cause => exact .inr ⟨_, rfl⟩
    · exact .inr ⟨.notAscii, by simp only [interpret, hread, bind, Except.bind]⟩
  | long =>
    rcases numberText_cases data with ⟨text, hread⟩ | hread
    · simp only [interpret, hread, bind, Except.bind]
      cases Decimal.readInteger text with
      | ok n => exact .inl ⟨.long n, rfl, rfl⟩
      | error cause => exact .inr ⟨_, rfl⟩
    · exact .inr ⟨.notAscii, by simp only [interpret, hread, bind, Except.bind]⟩

/-! ## Stored forms -/

theorem eq_pack_of_encode_eq_ok {c : Codec} {v : Value} {threshold : Nat} {s : Encoded}
    (h : c.encode v threshold = .ok s) : s = pack v threshold := by
  rw [encode] at h
  split at h
  · cases h
  · dsimp only at h
    split at h
    · cases h
    · exact (Except.ok.inj h).symm

theorem pack_cases (v : Value) (threshold : Nat) :
    pack v threshold = ⟨.plain v.encoding, v.payload⟩ ∨
      pack v threshold = ⟨(Flags.plain v.encoding).packed, Lz4.compress v.payload⟩ := by
  rw [pack]
  dsimp only
  split
  · split
    · exact .inr rfl
    · exact .inl rfl
  · exact .inl rfl

theorem length_data_pack_lt {v : Value} {threshold : Nat}
    (h : (pack v threshold).flags.compressed = true) :
    (pack v threshold).data.length < v.payload.length := by
  unfold pack at h ⊢
  dsimp only at h ⊢
  split at h
  · next hlong =>
    rw [if_pos hlong]
    split at h
    · next hshrinks =>
      rw [if_pos hshrinks]
      exact hshrinks
    · cases h
  · cases h

/-- The stored form shows the payload if and only if it is plain. -/
theorem data_pack_eq_iff {v : Value} {threshold : Nat} :
    (pack v threshold).data = v.payload ↔ (pack v threshold).flags.compressed = false := by
  constructor
  · intro h
    by_contra hpacked
    have hlt := length_data_pack_lt (Bool.of_not_eq_false hpacked)
    rw [h] at hlt
    exact Nat.lt_irrefl _ hlt
  · intro h
    rcases pack_cases v threshold with hp | hp
    · rw [hp]
    · rw [hp] at h
      cases h

theorem interpret_eq_raw_iff {encoding : Encoding} {data x : Bytes} :
    interpret encoding data = .ok (.raw x) ↔ encoding = .raw ∧ data = x := by
  constructor
  · intro h
    rcases interpret_cases encoding data with ⟨v, hv, rfl⟩ | ⟨cause, hcause⟩
    · cases hv.symm.trans h
      cases h
      exact ⟨rfl, rfl⟩
    · cases hcause.symm.trans h
  · rintro ⟨rfl, rfl⟩
    rfl

/-- Raw bytes are read where the flags say so: as they are, or unpacked. -/
theorem decode_eq_raw_iff {data x : Bytes} {bits : UInt32} :
    decode data bits = .ok (.raw x) ↔ (Flags.ofBits bits).encoding = .raw ∧
      if (Flags.ofBits bits).compressed then Lz4.decompress data = .ok x else data = x := by
  rw [decode]
  by_cases h : (Flags.ofBits bits).compressed = true
  · simp only [h, if_true]
    cases Lz4.decompress data with
    | error cause => simp
    | ok plain => simp [interpret_eq_raw_iff]
  · simp only [h, Bool.false_eq_true, if_false, interpret_eq_raw_iff]

/-- **What is packed is read back**, whatever is set above the four low bits of its flags. -/
theorem decode_pack {v : Value} (hlen : v.payload.length < Bytes.span 4) (threshold : Nat)
    {u : UInt32} (hu : u &&& 15 = 0) :
    decode (pack v threshold).data ((pack v threshold).flags.bits ||| u) = .ok v := by
  rw [decode, Flags.ofBits_bits_or _ hu]
  rcases pack_cases v threshold with h | h
  · rw [h]
    exact interpret_payload v
  · rw [h]
    simp only [Flags.packed, if_true, Lz4.decompress_compress hlen]
    exact interpret_payload v

theorem decode_pack_bits {v : Value} (hlen : v.payload.length < Bytes.span 4) (threshold : Nat) :
    decode (pack v threshold).data (pack v threshold).flags.bits = .ok v := by
  have h := decode_pack hlen threshold (u := 0) rfl
  rwa [UInt32.or_zero] at h

theorem data_pack_ne_nil {v : Value} (hne : v.payload ≠ []) (threshold : Nat) :
    (pack v threshold).data ≠ [] := by
  rcases pack_cases v threshold with h | h
  · rw [h]
    exact hne
  · rw [h]
    simp [Lz4.compress, Bytes.littleEndian]

/-- **A value that a codec stores is read back as it was**, of the same kind and with the same
content, under any limits and switches, since reading takes none. Bits of the flags that have no
meaning may have been set in between. The payload has to be shorter than 2³² bytes, since its
length is packed into four. -/
theorem decode_of_encode_eq_ok {c : Codec} {v : Value} {threshold : Nat} {s : Encoded}
    (hlen : v.payload.length < Bytes.span 4) (h : c.encode v threshold = .ok s) :
    decode s.data s.flags.bits = .ok v ∧
      ∀ u : UInt32, u &&& 15 = 0 → decode s.data (s.flags.bits ||| u) = .ok v := by
  obtain rfl := eq_pack_of_encode_eq_ok h
  refine ⟨?_, fun u hu => decode_pack hlen threshold hu⟩
  have hplain := decode_pack hlen threshold (u := 0) rfl
  rwa [UInt32.or_zero] at hplain

/-- A long number below zero whose 44 digits are packed into 18 bytes, read under flags with a
high bit set. -/
theorem decode_packed_long :
    let v : Value := .long (-10 ^ 42)
    let s : Encoded :=
      ⟨⟨.long, true⟩, [44, 0, 0, 0, 63, 45, 49, 48, 1, 0, 16, 96, 48, 48, 48, 48, 48, 48]⟩
    v.payload.length < Bytes.span 4 ∧ (Codec.mk 100 false).encode v 20 = .ok s ∧
      decode s.data s.flags.bits = .ok v ∧ decode s.data (s.flags.bits ||| 0x80000000) = .ok v := by
  intro v s
  have hlen : v.payload.length < Bytes.span 4 := by decide +kernel
  have h : (Codec.mk 100 false).encode v 20 = .ok s := by decide +kernel
  obtain ⟨hplain, hor⟩ := decode_of_encode_eq_ok hlen h
  exact ⟨hlen, h, hplain, hor 0x80000000 (by decide)⟩

end Codec

end CacheClient
