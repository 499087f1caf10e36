import CacheClient.Proofs.Codec

/-!
# Packing never hurts

How many bytes are stored for a value depends on its payload and on the threshold alone
(`storedLength`). A payload that may be packed counts as much as the shorter one of its two
forms, any other counts in full. So switching packing on never makes the stored form longer, and
neither does lowering the threshold (`storedLength_anti`). Since the limit of a codec is compared
with this length (`encode_eq_ok_iff`), neither of them makes a codec refuse a value either.

Main result: `packing_never_hurts`.
-/

namespace CacheClient.Codec

variable {c : Codec} {v : Value} {n m : Nat} {s : Encoded} {e : Error}

/-! ## Lengths -/

/-- The payload of a value may be packed: it is longer than a threshold that is not 0. Integers
are never packed. -/
def Packable (v : Value) (threshold : Nat) : Prop :=
  v.encoding ≠ .int ∧ 0 < threshold ∧ threshold < v.payload.length

instance : Decidable (Packable v n) := inferInstanceAs (Decidable (_ ∧ _ ∧ _))

/-- The number of bytes that are stored for a value. -/
def storedLength (v : Value) (threshold : Nat) : Nat :=
  if Packable v threshold then min (Lz4.compress v.payload).length v.payload.length
  else v.payload.length

theorem Packable.anti (hn : 0 < n) (hle : n ≤ m) (h : Packable v m) : Packable v n :=
  ⟨h.1, hn, Nat.lt_of_le_of_lt hle h.2.2⟩

/-- A stored form is packed if it may be, and only if this makes it shorter. -/
theorem compressed_pack_iff :
    (pack v n).flags.compressed = true ↔
      Packable v n ∧ (Lz4.compress v.payload).length < v.payload.length := by
  rw [pack]
  by_cases h : Packable v n
  · simp only [if_pos (show _ ∧ _ from h)]
    by_cases hshrinks : (Lz4.compress v.payload).length < v.payload.length
    · simp [h, hshrinks, Flags.packed]
    · simp [hshrinks, Flags.plain]
  · simp [if_neg (show ¬(_ ∧ _) from h), h, Flags.plain]

theorem data_pack_of_compressed (h : (pack v n).flags.compressed = true) :
    (pack v n).data = Lz4.compress v.payload := by
  rcases pack_cases v n with hp | hp
  · rw [hp] at h
    cases h
  · rw [hp]

theorem length_data_pack (v : Value) (n : Nat) : (pack v n).data.length = storedLength v n := by
  rw [storedLength]
  cases hpacked : (pack v n).flags.compressed with
  | true =>
    obtain ⟨h, hshrinks⟩ := compressed_pack_iff.1 hpacked
    rw [data_pack_of_compressed hpacked, if_pos h, Nat.min_eq_left (Nat.le_of_lt hshrinks)]
  | false =>
    rw [data_pack_eq_iff.2 hpacked]
    by_cases h : Packable v n
    · -- it was tried, and did not shrink
      have hlong : v.payload.length ≤ (Lz4.compress v.payload).length := by
        by_contra hshrinks
        rw [compressed_pack_iff.2 ⟨h, Nat.lt_of_not_le hshrinks⟩] at hpacked
        cases hpacked
      rw [if_pos h, Nat.min_eq_right hlong]
    · rw [if_neg h]

theorem storedLength_le (v : Value) (n : Nat) : storedLength v n ≤ v.payload.length := by
  rw [storedLength]
  split
  · exact Nat.min_le_right _ _
  · exact Nat.le_refl _

theorem storedLength_zero (v : Value) : storedLength v 0 = v.payload.length :=
  if_neg fun h => absurd h.2.1 (Nat.lt_irrefl 0)

/-- The lower the threshold, the shorter the stored form, as long as packing is on. -/
theorem storedLength_anti (hn : 0 < n) (hle : n ≤ m) : storedLength v n ≤ storedLength v m := by
  by_cases h : Packable v m
  · rw [storedLength, if_pos (h.anti hn hle), storedLength, if_pos h]
  · calc storedLength v n ≤ v.payload.length := storedLength_le v n
      _ = storedLength v m := (if_neg h).symm

/-! ## What a codec stores -/

/-- The codec stores no objects, and the value is one. -/
def Excludes (c : Codec) (v : Value) : Prop := v.encoding = .object ∧ c.objects = false

theorem encode_of_excludes (h : c.Excludes v) (n : Nat) :
    c.encode v n = .error (.value .notPrimitive) := by
  rw [encode, if_pos]
  exact ⟨h.1, by simp [h.2]⟩

theorem encode_of_not_excludes (h : ¬c.Excludes v) (n : Nat) :
    c.encode v n =
      if c.limit ≠ 0 ∧ c.limit < storedLength v n then
        .error (.value (.tooLarge (storedLength v n) c.limit))
      else .ok (pack v n) := by
  rw [encode, if_neg]
  · simp only [length_data_pack]
  · rintro ⟨hobject, hoff⟩
    exact h ⟨hobject, Bool.eq_false_iff.2 hoff⟩

/-- A codec stores a value in its packed form if it stores the kind and the form is not too
long. -/
theorem encode_eq_ok_iff :
    c.encode v n = .ok s ↔
      ¬c.Excludes v ∧ ¬(c.limit ≠ 0 ∧ c.limit < storedLength v n) ∧ s = pack v n := by
  by_cases h : c.Excludes v
  · simp [encode_of_excludes h, h]
  · rw [encode_of_not_excludes h]
    by_cases hlong : c.limit ≠ 0 ∧ c.limit < storedLength v n
    · simp [hlong]
    · simp [h, hlong, eq_comm]

theorem encode_eq_error_iff :
    c.encode v n = .error e ↔
      c.Excludes v ∧ e = .value .notPrimitive ∨
        ¬c.Excludes v ∧ (c.limit ≠ 0 ∧ c.limit < storedLength v n) ∧
          e = .value (.tooLarge (storedLength v n) c.limit) := by
  by_cases h : c.Excludes v
  · simp [encode_of_excludes h, h, eq_comm]
  · rw [encode_of_not_excludes h]
    by_cases hlong : c.limit ≠ 0 ∧ c.limit < storedLength v n
    · simp [hlong, h, eq_comm]
    · simp [h, hlong]

theorem exists_encode_of_le (hle : storedLength v n ≤ storedLength v m)
    (h : c.encode v m = .ok s) :
    ∃ s', c.encode v n = .ok s' ∧ s'.data.length ≤ s.data.length := by
  obtain ⟨hkind, hshort, rfl⟩ := encode_eq_ok_iff.1 h
  refine ⟨pack v n, encode_eq_ok_iff.2 ⟨hkind, ?_, rfl⟩, ?_⟩
  · rintro ⟨hlimit, hlong⟩
    exact hshort ⟨hlimit, Nat.lt_of_lt_of_le hlong hle⟩
  · rw [length_data_pack, length_data_pack]
    exact hle

/-- **Packing never hurts.** For every codec and every value:

* What is stored has the stored length, which is the length that is compared with the limit. It is
  no longer than the payload, and it is the payload itself unless it is marked as packed. Then the
  value is no integer, packing was on, the payload was longer than the threshold, and it was stored
  in its packed form, which is strictly shorter.
* A value that is stored without packing is stored under any threshold.
* One that is stored with packing is stored under any lower threshold that keeps it on, and the
  stored form is no longer.
* Objects are refused where they are excluded, whatever their size. Apart from that, a value is
  refused if and only if its stored form would be longer than the limit, and the error reports
  this length. -/
theorem packing_never_hurts (c : Codec) (v : Value) :
    (∀ n s, c.encode v n = .ok s →
      s.data.length = storedLength v n ∧ s.data.length ≤ v.payload.length ∧
      (s.data ≠ v.payload → s.flags.compressed = true) ∧
      (s.flags.compressed = true →
        v.encoding ≠ .int ∧ 0 < n ∧ n < v.payload.length ∧
          s.data = Lz4.compress v.payload ∧ s.data.length < v.payload.length)) ∧
    (∀ s, c.encode v 0 = .ok s → ∀ n, ∃ s', c.encode v n = .ok s') ∧
    (∀ n m s, 0 < n → n ≤ m → c.encode v m = .ok s →
      ∃ s', c.encode v n = .ok s' ∧ s'.data.length ≤ s.data.length) ∧
    ∀ n,
      (c.encode v n = .error (.value .notPrimitive) ↔ v.encoding = .object ∧ c.objects = false) ∧
      (∀ length limit, c.encode v n = .error (.value (.tooLarge length limit)) ↔
        ¬(v.encoding = .object ∧ c.objects = false) ∧ c.limit ≠ 0 ∧ c.limit < length ∧
          length = storedLength v n ∧ limit = c.limit) ∧
      ∀ e, c.encode v n = .error e →
        e = .value .notPrimitive ∨ ∃ length limit, e = .value (.tooLarge length limit) := by
  refine ⟨?_, ?_, ?_, fun n => ⟨?_, ?_, ?_⟩⟩
  · intro n s h
    obtain rfl := eq_pack_of_encode_eq_ok h
    have hlength := length_data_pack v n
    refine ⟨hlength, ?_, ?_, ?_⟩
    · rw [hlength]
      exact storedLength_le v n
    · intro hne
      by_contra hplain
      exact hne (data_pack_eq_iff.2 (Bool.eq_false_iff.2 hplain))
    · intro hpacked
      obtain ⟨⟨hint, hon, hlong⟩, hshrinks⟩ := compressed_pack_iff.1 hpacked
      have hdata := data_pack_of_compressed hpacked
      exact ⟨hint, hon, hlong, hdata, by rwa [hdata]⟩
  · intro s h n
    have hle : storedLength v n ≤ storedLength v 0 := by
      rw [storedLength_zero]
      exact storedLength_le v n
    obtain ⟨s', hs', -⟩ := exists_encode_of_le hle h
    exact ⟨s', hs'⟩
  · intro n m s hn hle h
    exact exists_encode_of_le (storedLength_anti hn hle) h
  · rw [encode_eq_error_iff]
    simp [Excludes]
  · intro length limit
    rw [encode_eq_error_iff]
    constructor
    · rintro (⟨-, h⟩ | ⟨hkind, ⟨hlimit, hlong⟩, h⟩)
      · cases h
      · cases h
        exact ⟨hkind, hlimit, hlong, rfl, rfl⟩
    · rintro ⟨hkind, hlimit, hlong, rfl, rfl⟩
      exact .inr ⟨hkind, ⟨hlimit, hlong⟩, rfl⟩
  · intro e h
    rcases encode_eq_error_iff.1 h with ⟨-, rfl⟩ | ⟨-, -, rfl⟩
    · exact .inl rfl
    · exact .inr ⟨_, _, rfl⟩

end CacheClient.Codec
